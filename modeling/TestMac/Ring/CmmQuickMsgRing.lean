import TestMac.Lib.Bytes

/-!
# The message ring of `cmmQuickMsgRing.c`

A ring of 64-bit words whose size is a power of two. The counters `in` and
`out` run freely modulo `2 ^ 32` and are masked to an index. The first word of a
record holds its number of words and its type; a record of type `MSG_ID_DUMMY`
fills the words up to the end of the storage when the next record does not fit
there. The definitions follow the source function by function.
-/

namespace TestMac

open Bytes

/-- `QuickMsgRing_t` together with the words that follow it in memory. -/
structure CmmQuickMsgRing where
  size : UInt32
  mask : UInt32
  nextIn : UInt32
  nextOut : UInt32
  /-- `in`, the number of words ever committed. -/
  inCnt : UInt32
  /-- `out`, the number of words ever released. -/
  outCnt : UInt32
  buf : ℕ → UInt64

namespace CmmQuickMsgRing

/-- `MSG_ID_DUMMY`. -/
def msgIdDummy : UInt16 := 0

/-- `wordCount` of a `Msg_t`, given its first word. -/
def wordCount (head : UInt64) : UInt16 := head.toUInt16

/-- `msgType` of a `Msg_t`, given its first word. -/
def msgType (head : UInt64) : UInt16 := (head >>> 16).toUInt16

/-- `isPowerOf2`. -/
def isPowerOf2 (n : UInt32) : Bool := n != 0 && n &&& (n - 1) == 0

/-- `QuickMsgRingInit`; `none` is a failed assertion. -/
def quickMsgRingInit (buf : ℕ → UInt64) (wordCount : UInt32) : Option CmmQuickMsgRing :=
  if wordCount >>> 29 = 0 ∧ isPowerOf2 wordCount = true then
    some { size := wordCount, mask := wordCount - 1, nextIn := 0, nextOut := 0, inCnt := 0,
           outCnt := 0, buf := buf }
  else none

/-- `QuickMsgRingUsed`. -/
def quickMsgRingUsed (r : CmmQuickMsgRing) : UInt32 := r.inCnt - r.outCnt

/-- One round of the loop of `QuickMsgRingPrePutMsgBurst`: the word index of the
record handed out, the storage and the next `tmpIn`, or `none` for a `break`. -/
def prePutStep (r : CmmQuickMsgRing) (buf : ℕ → UInt64) (tmpIn : UInt32) (wordCount : UInt16) :
    Option (ℕ × (ℕ → UInt64) × UInt32) :=
  let unused := r.size - tmpIn + r.outCnt
  if unused < wordCount.toUInt32 then none
  else
    let idx := tmpIn &&& r.mask
    let topUnused := r.size - idx
    if topUnused ≥ wordCount.toUInt32 then
      some (idx.toNat, store buf idx.toNat [wordCount.toUInt64], tmpIn + wordCount.toUInt32)
    else if unused ≥ topUnused + wordCount.toUInt32 then
      let holder := (msgIdDummy.toUInt32 <<< 16 ||| topUnused).toUInt64
      some (0, store (store buf idx.toNat [holder]) 0 [wordCount.toUInt64],
        tmpIn + (topUnused + wordCount.toUInt32))
    else none

/-- The loop of `QuickMsgRingPrePutMsgBurst` over the requested word counts. -/
def prePutLoop (r : CmmQuickMsgRing) :
    (ℕ → UInt64) → UInt32 → List UInt16 → List ℕ × (ℕ → UInt64) × UInt32
  | buf, tmpIn, [] => ([], buf, tmpIn)
  | buf, tmpIn, wordCount :: rest =>
    match r.prePutStep buf tmpIn wordCount with
    | none => ([], buf, tmpIn)
    | some (msg, buf', tmpIn') =>
      let (msgs, buf'', tmpIn'') := r.prePutLoop buf' tmpIn' rest
      (msg :: msgs, buf'', tmpIn'')

/-- `QuickMsgRingPrePutMsgBurst`: the word indices of the records handed out. -/
def prePutMsgBurst (r : CmmQuickMsgRing) (wordCount : List UInt16) : CmmQuickMsgRing × List ℕ :=
  let (msgs, buf, tmpIn) := r.prePutLoop r.buf r.inCnt wordCount
  ({ r with buf := buf, nextIn := tmpIn }, msgs)

/-- `QuickMsgRingPrePutOneMsg`. -/
def prePutOneMsg (r : CmmQuickMsgRing) (wordCount : UInt16) : CmmQuickMsgRing × List ℕ :=
  r.prePutMsgBurst [wordCount]

/-- `QuickMsgRingPutMsgComplete`. -/
def putMsgComplete (r : CmmQuickMsgRing) : CmmQuickMsgRing := { r with inCnt := r.nextIn }

/-- The loop of `QuickMsgRingPreGetMsgBurst`, for at most `fuel` rounds: the word
indices of the records found and the last `tmpOut`. -/
def preGetLoop (r : CmmQuickMsgRing) : ℕ → ℕ → UInt32 → Option (List ℕ × UInt32)
  | 0, _, _ => none
  | _ + 1, 0, tmpOut => some ([], tmpOut)
  | fuel + 1, maxMsgCount + 1, tmpOut =>
    if tmpOut = r.inCnt then some ([], tmpOut)
    else
      let idx := (tmpOut &&& r.mask).toNat
      let tmpOut' := tmpOut + (wordCount (r.buf idx)).toUInt32
      if msgType (r.buf idx) = msgIdDummy then r.preGetLoop fuel (maxMsgCount + 1) tmpOut'
      else (r.preGetLoop fuel maxMsgCount tmpOut').map fun (msgs, last) => (idx :: msgs, last)

/-- `QuickMsgRingPreGetMsgBurst`, for at most `fuel` rounds of its loop. -/
def preGetMsgBurst (r : CmmQuickMsgRing) (fuel maxMsgCount : ℕ) :
    Option (CmmQuickMsgRing × List ℕ) :=
  (r.preGetLoop fuel maxMsgCount r.outCnt).map fun (msgs, tmpOut) =>
    ({ r with nextOut := tmpOut }, msgs)

/-- `QuickMsgRingGetMsgComplete`. -/
def getMsgComplete (r : CmmQuickMsgRing) : CmmQuickMsgRing := { r with outCnt := r.nextOut }

/-- `QuickMsgRingPutOneMsg`. The callback is described by what it does to the
record: it writes `data` from its start and returns `ret`. -/
def putOneMsg (r : CmmQuickMsgRing) (msgWordSz : UInt16) (pFunc : ℤ × List UInt64) :
    CmmQuickMsgRing × ℤ :=
  match r.prePutOneMsg msgWordSz with
  | (r', [msg]) =>
    let (ret, data) := pFunc
    let r'' := { r' with buf := store r'.buf msg data }
    if ret ≠ 0 then (r'', ret) else (r''.putMsgComplete, 0)
  | (r', _) => (r', -1)

/-- The record at a word index, as long as its first word says. -/
def readRecord (buf : ℕ → UInt64) (idx : ℕ) : List UInt64 :=
  slice buf idx (wordCount (buf idx)).toNat

/-- `QuickMsgRingGetOneMsg`, for at most `fuel` rounds of its loop. The callback
reads the record and works on a state of its own. -/
def getOneMsg {σ : Type} (r : CmmQuickMsgRing) (fuel : ℕ) (pFunc : List UInt64 → σ → ℤ × σ)
    (s : σ) : Option (CmmQuickMsgRing × ℤ × σ) :=
  match r.preGetMsgBurst fuel 1 with
  | none => none
  | some (r', [msg]) =>
    let (ret, s') := pFunc (readRecord r'.buf msg) s
    if ret ≠ 0 then some (r', ret, s') else some (r'.getMsgComplete, 0, s')
  | some (r', msgs) => some (r', msgs.length, s)

end CmmQuickMsgRing

end TestMac

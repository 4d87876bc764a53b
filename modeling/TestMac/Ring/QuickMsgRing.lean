import TestMac.Lib.Bytes

/-!
# The message ring of `quickMsgRing.c`

A single producer and a single consumer share a ring of 32-bit words. Every
message is preceded by one word that holds its length in words. A message never
straddles the end of the ring: when it is placed at index zero instead, the
word at the old `in` index holds the ring size and says that the tail is not
used. The definitions follow the source function by function.

Sizes stay below `2 ^ 27` words, so none of the 32-bit sums of positions and
sizes wraps and they are written with natural numbers. Only a length word that
was read from the storage may be of any size. A factor of the form `(a > b) * x`
is written as a conditional.
-/

namespace TestMac

open Bytes

/-- `SUCCESS` of `quickMsgRing_pr.h`. -/
def success : ℤ := 0

/-- `FAILURE` of `quickMsgRing_pr.h`. -/
def failure : ℤ := -1

/-- `RESERV_LEN`: the number of words in front of a message. -/
def reservLen : ℕ := 1

/-- `stQuickMsgRing`, without the fields used for printing. -/
structure QuickMsgRing where
  /-- The address held by `buf`. -/
  pBuf : ℕ
  /-- The storage behind `buf`, addressed by bytes from `pBuf`. -/
  buf : Mem
  emptyFlag : Bool
  /-- The number of words in the storage. -/
  size : ℕ
  nextIn : ℕ
  nextOut : ℕ
  /-- `in`, the tail of the queue. -/
  inIdx : ℕ
  /-- `out`, the header of the queue. -/
  outIdx : ℕ

namespace QuickMsgRing

/-- The word `buf[i]`. -/
def word (buf : Mem) (i : ℕ) : ℕ := rd32 buf (4 * i)

/-- The assignment `buf[i] = w`. -/
def setWord (buf : Mem) (i w : ℕ) : Mem := wr32 buf (4 * i) w

/-- `tmpWordCnt`: a byte count rounded up to whole words. -/
def tmpWordCnt (wordCount : ℕ) : ℕ :=
  (if wordCount % 4 > 0 then wordCount / 4 + 1 else 0) +
    (if wordCount % 4 = 0 then wordCount / 4 else 0)

/-- The length word of a message and its cleared body, at word index `i`. -/
def reserve (buf : Mem) (i w : ℕ) : Mem :=
  zero (setWord buf i w) (4 * (i + reservLen)) (4 * w)

/-- `unused` of `QuickMsgRingGetBufBulk`. -/
def unused (r : QuickMsgRing) (tmpIn : ℕ) : ℕ :=
  (if tmpIn > r.outIdx then r.size - tmpIn + r.outIdx else 0) +
    (if tmpIn < r.outIdx then r.outIdx - tmpIn else 0) +
    (if tmpIn = r.outIdx ∧ r.emptyFlag = true then r.size else 0)

/-- One round of the loop of `QuickMsgRingGetBufBulk`: the word index of the
buffer handed out, the storage and the next `tmpIn`, or `none` for a `break`. -/
def getBufStep (r : QuickMsgRing) (buf : Mem) (tmpIn wordCount : ℕ) : Option (ℕ × Mem × ℕ) :=
  let w := tmpWordCnt wordCount
  if r.unused tmpIn ≤ w + reservLen then none
  else if tmpIn ≥ r.outIdx then
    let topUnused := r.size - tmpIn
    if topUnused ≥ w + reservLen then
      some (tmpIn + reservLen, reserve buf tmpIn w, (tmpIn + w + reservLen) % r.size)
    else if r.unused tmpIn ≥ r.size - tmpIn + w + 3 * reservLen then
      -- the holder in the tail, then the message at the top of the storage
      some (reservLen, reserve (setWord buf tmpIn r.size) 0 w, (reservLen + w) % r.size)
    else none
  else if tmpIn < r.outIdx ∧ r.unused tmpIn > w + reservLen then
    let tmpIn' := tmpIn + w + reservLen
    some (tmpIn + reservLen, reserve buf tmpIn w, if tmpIn' = r.size then 0 else tmpIn')
  else none

/-- The loop of `QuickMsgRingGetBufBulk` over the requested byte counts. -/
def getBufLoop (r : QuickMsgRing) : Mem → ℕ → List ℕ → List ℕ × Mem × ℕ
  | buf, tmpIn, [] => ([], buf, tmpIn)
  | buf, tmpIn, wordCount :: rest =>
    match r.getBufStep buf tmpIn wordCount with
    | none => ([], buf, tmpIn)
    | some (msg, buf', tmpIn') =>
      let (msgs, buf'', tmpIn'') := r.getBufLoop buf' tmpIn' rest
      (msg :: msgs, buf'', tmpIn'')

/-- `QuickMsgRingGetBufBulk`: the word indices of the buffers handed out. -/
def getBufBulk (r : QuickMsgRing) (wordCount : List ℕ) : QuickMsgRing × List ℕ :=
  let (msgs, buf, tmpIn) := r.getBufLoop r.buf r.inIdx wordCount
  ({ r with buf := buf, nextIn := tmpIn }, msgs)

/-- `QuickMsgRingGetBuf`; `none` is the null pointer. -/
def getBuf (r : QuickMsgRing) (wordCount : ℕ) : QuickMsgRing × Option ℕ :=
  let (r', msgs) := r.getBufBulk [wordCount]
  (r', msgs.head?)

/-- `QuickMsgRingSendMsg` for the pointer `pMsg` and the bytes found there. A
pointer into the ring was handed out before and is only committed. -/
def sendMsg (r : QuickMsgRing) (pMsg : ℕ) (data : List UInt8) : QuickMsgRing × ℤ :=
  if pMsg ≠ 0 ∧ (pMsg < r.pBuf ∨ pMsg > r.pBuf + 4 * r.size) then
    match r.getBuf data.length with
    | (r', none) => (r', failure)
    | (r', some i) =>
      ({ r' with buf := store r'.buf (4 * i) data, inIdx := r'.nextIn }, success)
  else ({ r with inIdx := r.nextIn }, success)

/-- `QuickMsgRingRecvMsgComplete`. -/
def recvMsgComplete (r : QuickMsgRing) : QuickMsgRing :=
  { r with outIdx := r.nextOut, emptyFlag := decide (r.nextOut = r.inIdx) }

/-- The loop of `QuickMsgRingBeginRecvMsgBulk`: the word index and the length of
each message found, and the last `tmpOut`. -/
def beginRecvLoop (r : QuickMsgRing) : ℕ → ℕ → List (ℕ × ℕ) × ℕ
  | 0, tmpOut => ([], tmpOut)
  | k + 1, tmpOut =>
    if tmpOut = r.inIdx ∧ r.emptyFlag = true then ([], tmpOut)
    else
      let tmpOut := if word r.buf tmpOut = r.size then 0 else tmpOut
      let msgLen := word r.buf tmpOut
      let (msgs, tmpOut') :=
        r.beginRecvLoop k ((tmpOut + (msgLen + reservLen)) % 4294967296 % r.size)
      ((tmpOut + reservLen, msgLen) :: msgs, tmpOut')

/-- `QuickMsgRingBeginRecvMsgBulk`. -/
def beginRecvMsgBulk (r : QuickMsgRing) (maxMsgCount : ℕ) : QuickMsgRing × List (ℕ × ℕ) :=
  let (msgs, tmpOut) := r.beginRecvLoop maxMsgCount r.outIdx
  ({ r with nextOut := tmpOut }, msgs)

/-- `QuickMsgRingBeginRecvMsg`; `none` is the result `0`. -/
def beginRecvMsg (r : QuickMsgRing) : QuickMsgRing × Option (ℕ × ℕ) :=
  let (r', msgs) := r.beginRecvMsgBulk 1
  (r', msgs.head?)

/-- `QuickMsgRingSendMsgWithPackFunc`. The callback is described by what it
does to the buffer: it writes `data` from its start and returns `ret`. -/
def sendMsgWithPackFunc (r : QuickMsgRing) (msgWordSz : ℕ) (pFunc : ℤ × List UInt8) :
    QuickMsgRing × ℤ :=
  match r.getBuf msgWordSz with
  | (r', none) => (r', -1)
  | (r', some i) =>
    let (ret, data) := pFunc
    let r'' := { r' with buf := store r'.buf (4 * i) data }
    if ret ≠ 0 then (r'', ret)
    else ((r''.sendMsg (r''.pBuf + 4 * i) (slice r''.buf (4 * i) msgWordSz)).1, 0)

/-- `QuickMsgRingRecvMsgWithUnpackFunc`. The callback reads the message and its
length and works on a state of its own. -/
def recvMsgWithUnpackFunc {σ : Type} (r : QuickMsgRing) (pFunc : List UInt8 → ℕ → σ → ℤ × σ)
    (s : σ) : QuickMsgRing × ℤ × σ :=
  match r.beginRecvMsg with
  | (r', none) => (r', 0, s)
  | (r', some (i, msgLen)) =>
    let (ret, s') := pFunc (slice r'.buf (4 * i) (4 * msgLen)) msgLen s
    if ret ≠ 0 then (r', ret, s') else (r'.recvMsgComplete, 0, s')

/-- `init_quickMsgRing` for `size` bytes of storage at the address `pBuf`. -/
def initQuickMsgRing (pBuf size : ℕ) : Option QuickMsgRing :=
  if size < 8 then none
  else some
    { pBuf := pBuf, buf := fun _ => 0, emptyFlag := true, size := size / 4,
      nextIn := 0, nextOut := 0, inIdx := 0, outIdx := 0 }

end QuickMsgRing

end TestMac

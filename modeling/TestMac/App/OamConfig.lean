import TestMac.Lib.Bytes

/-!
# Messages from the network: `mac_feu_fapi.c`

A datagram is taken for a message with a header, and its body is forwarded to the PHY in a
sub-message built on the stack. The length of the message stands in the header, and neither the
length received nor the size of a buffer is compared with it.
-/

namespace TestMac

open Bytes

/-- `OAM_MSG_MAX_LEN`, the size of the buffer received into, and that of the buffers in which
sub-messages are built. -/
def oamMsgMaxLen : ℕ := 2048

/-- `sizeof(FEUMsgHdr_t)`. -/
def sizeofFeuMsgHdr : ℕ := 4

/-- `sizeof(FEUGeneralMsgHdr_t)`. -/
def sizeofFeuGeneralMsgHdr : ℕ := 8

def feuFapiParamRequest : ℕ := 0x400
def feuFapiConfigRequest : ℕ := 0x402
def feuFapiStartRequest : ℕ := 0x407
def feuFapiStopRequest : ℕ := 0x409
def feuFapiDfeConfigRequest : ℕ := 0x502
def pc802TempGetReq : ℕ := 4
def ecpriGetReq : ℕ := 1000
def ecpriSetReq : ℕ := 1002
def ecpriTestNtfy : ℕ := 1004
def ecpriErrInd : ℕ := 1005

/-- The messages forwarded by `p19_config_req`. -/
def p19MsgIds : List ℕ :=
  [feuFapiParamRequest, feuFapiConfigRequest, feuFapiStartRequest, feuFapiDfeConfigRequest,
    feuFapiStopRequest]

/-- The messages forwarded by `oam_config_req`. -/
def oamMsgIds : List ℕ := [pc802TempGetReq, ecpriGetReq, ecpriSetReq, ecpriTestNtfy, ecpriErrInd]

/-- `PCXX_OAM_MSG` and `PCXX_P19_MSG`. -/
inductive PcxxMsg
  | oam
  | p19
  deriving DecidableEq

/-- A call of `memcpy`, from the message received into the buffer of a sub-message. -/
structure Memcpy where
  dst : ℕ
  src : ℕ
  len : ℕ
  deriving DecidableEq

/-- A sub-message given to `pcxx_oam_send_msg`: its fields, the bytes stored at the start of its
body, which is at `msbBody` in the buffer, and what is copied from the message. -/
structure SubMsg where
  msgType : PcxxMsg
  msgId : ℕ
  msgSize : ℕ
  msbBody : ℕ
  feu : List UInt8
  copy : Option Memcpy
  deriving DecidableEq

/-- `p19_config_req`, with the offset of `msb_body`. -/
def p19ConfigReq (msbBody msgSize cellid : ℕ) : SubMsg :=
  let msgSize := msgSize % 65536
  { msgType := .p19
    msgId := 0
    msgSize := (sizeofFeuMsgHdr + msgSize) % 65536
    msbBody
    feu := [1, UInt8.ofNat cellid, 0, 0]
    copy := some ⟨msbBody + sizeofFeuMsgHdr, 0, msgSize⟩ }

/-- `oam_config_req`, with the offset of `msb_body`. -/
def oamConfigReq (msbBody msgId msgSize : ℕ) : SubMsg :=
  let msgSize := msgSize % 65536
  let size := (65536 + msgSize - sizeofFeuGeneralMsgHdr) % 65536
  { msgType := .oam
    msgId
    msgSize := size
    msbBody
    feu := []
    copy := if msgSize = 0 then none else some ⟨msbBody, sizeofFeuGeneralMsgHdr, size⟩ }

/-- `oamConfigMsgDec`: the sub-message forwarded, unless the message is illegal. The length
received is not looked at. -/
def oamConfigMsgDec (msbBody : ℕ) (pRecvMsg : Mem) (_msgSize : ℕ) : Option SubMsg :=
  let msgId := rd16 pRecvMsg 0
  let cellid := rd16 pRecvMsg 2
  let msgSize := rd32 pRecvMsg 4
  if msgId ∈ p19MsgIds then some (p19ConfigReq msbBody msgSize cellid)
  else if msgId ∈ oamMsgIds then some (oamConfigReq msbBody msgId msgSize)
  else none

/-- `recvBuf` behind `recvfrom`: a datagram over what is left on the stack. -/
def oamRecvBuf (stack : Mem) (datagram : List UInt8) : Mem :=
  store stack 0 (datagram.take oamMsgMaxLen)

/-- `recv_length`. -/
def oamRecvLength (datagram : List UInt8) : ℕ := min oamMsgMaxLen datagram.length

/-- `oamRecvAppMsg`, when a datagram has come. -/
def oamRecvAppMsg (msbBody : ℕ) (stack : Mem) (datagram : List UInt8) : Option SubMsg :=
  if 0 < oamRecvLength datagram then
    oamConfigMsgDec msbBody (oamRecvBuf stack datagram) (oamRecvLength datagram)
  else none

/-- The bytes copied from the message. -/
def SubMsg.copied (sub : SubMsg) : ℕ := sub.copy.elim 0 Memcpy.len

/-- The bytes put into the body. -/
def SubMsg.filled (sub : SubMsg) : ℕ := sub.feu.length + sub.copied

/-- Every byte copied is one of the first `n` of the message, and its place is in the buffer. -/
def Memcpy.Inside (n : ℕ) (copy : Memcpy) : Prop :=
  ∀ k < copy.len, copy.src + k < n ∧ copy.dst + k < oamMsgMaxLen

/-- The sub-message has the size that is counted, its header is stored in the buffer, and what
is copied of the `n` bytes received ends where the message does. -/
def SubMsg.Sound (count : SubMsg → ℕ) (n msgSize : ℕ) (sub : SubMsg) : Prop :=
  sub.msgSize = count sub ∧
    (∀ k < sub.feu.length, sub.msbBody + k < oamMsgMaxLen) ∧
    ∀ copy ∈ sub.copy, copy.Inside n ∧ copy.src + copy.len = msgSize

/-- The length in the header is at most the length received, and the sub-message fits in its
buffer. Of a message of the second kind the header is not copied, so that it must not be shorter,
and nothing is if it is no longer. -/
def OamFits (msbBody : ℕ) (pRecvMsg : Mem) (n : ℕ) : Prop :=
  let msgId := rd16 pRecvMsg 0
  let msgSize := rd32 pRecvMsg 4
  if msgId ∈ p19MsgIds then
    msgSize ≤ n ∧ msbBody + sizeofFeuMsgHdr + msgSize ≤ oamMsgMaxLen
  else if msgId ∈ oamMsgIds then
    msgSize = sizeofFeuGeneralMsgHdr ∨
      sizeofFeuGeneralMsgHdr < msgSize ∧ msgSize ≤ n ∧
        msbBody + msgSize ≤ oamMsgMaxLen + sizeofFeuGeneralMsgHdr
  else True

variable {msbBody msgId msgSize cellid n : ℕ}

theorem Memcpy.inside_iff {copy : Memcpy} :
    copy.Inside n ↔ copy.len = 0 ∨
      copy.src + copy.len ≤ n ∧ copy.dst + copy.len ≤ oamMsgMaxLen := by
  constructor
  · intro h
    by_cases hlen : copy.len = 0
    · exact .inl hlen
    · have hlast := h (copy.len - 1) (by omega)
      omega
  · rintro h k hk
    omega

/-- Counting the header of the sub-message with the bytes copied. -/
theorem p19ConfigReq_sound_iff :
    (p19ConfigReq msbBody msgSize cellid).Sound SubMsg.filled n msgSize ↔
      msgSize ≤ n ∧ msbBody + sizeofFeuMsgHdr + msgSize ≤ oamMsgMaxLen := by
  simp only [SubMsg.Sound, p19ConfigReq, SubMsg.filled, SubMsg.copied, Option.mem_some_iff,
    forall_eq', Option.elim_some, Memcpy.inside_iff, List.length_cons, List.length_nil,
    sizeofFeuMsgHdr, oamMsgMaxLen]
  constructor
  · rintro ⟨-, hheader, hinside, hend⟩
    have hlast := hheader 3 (by decide)
    omega
  · rintro ⟨hn, hfits⟩
    exact ⟨by omega, fun k hk => by omega, by omega, by omega⟩

/-- The size is never the number of bytes copied. -/
theorem p19ConfigReq_not_sound :
    ¬ (p19ConfigReq msbBody msgSize cellid).Sound SubMsg.copied n msgSize := by
  rintro ⟨hsize, -⟩
  simp only [p19ConfigReq, SubMsg.copied, Option.elim_some, sizeofFeuMsgHdr] at hsize
  omega

/-- No header is added to it. -/
theorem oamConfigReq_filled : (oamConfigReq msbBody msgId msgSize).filled =
    (oamConfigReq msbBody msgId msgSize).copied := Nat.zero_add _

theorem oamConfigReq_sound_iff {count : SubMsg → ℕ}
    (hcount : count (oamConfigReq msbBody msgId msgSize) =
      (oamConfigReq msbBody msgId msgSize).copied) :
    (oamConfigReq msbBody msgId msgSize).Sound count n msgSize ↔
      msgSize = sizeofFeuGeneralMsgHdr ∨
        sizeofFeuGeneralMsgHdr < msgSize ∧ msgSize ≤ n ∧
          msbBody + msgSize ≤ oamMsgMaxLen + sizeofFeuGeneralMsgHdr := by
  rw [SubMsg.Sound, hcount]
  simp only [oamConfigReq, SubMsg.copied, List.length_nil, sizeofFeuGeneralMsgHdr, oamMsgMaxLen]
  by_cases hzero : msgSize % 65536 = 0
  · -- nothing is copied, and the size has wrapped
    simp only [if_pos hzero, Option.elim_none]
    omega
  · simp only [if_neg hzero, Option.elim_some, Option.mem_some_iff, forall_eq',
      Memcpy.inside_iff, oamMsgMaxLen]
    constructor
    · rintro ⟨-, -, hinside, hend⟩
      omega
    · intro hfits
      exact ⟨trivial, fun k hk => absurd hk (Nat.not_lt_zero k), by omega, by omega⟩

variable {pRecvMsg : Mem}

/-- What is said of the sub-message forwarded is said of one of the two kinds. -/
theorem forall_oamConfigMsgDec_iff {P : SubMsg → Prop} :
    (∀ sub ∈ oamConfigMsgDec msbBody pRecvMsg n, P sub) ↔
      if rd16 pRecvMsg 0 ∈ p19MsgIds then
        P (p19ConfigReq msbBody (rd32 pRecvMsg 4) (rd16 pRecvMsg 2))
      else if rd16 pRecvMsg 0 ∈ oamMsgIds then
        P (oamConfigReq msbBody (rd16 pRecvMsg 0) (rd32 pRecvMsg 4))
      else True := by
  rw [oamConfigMsgDec]
  by_cases hp19 : rd16 pRecvMsg 0 ∈ p19MsgIds
  · simp only [if_pos hp19, Option.mem_some_iff, forall_eq']
  by_cases hoam : rd16 pRecvMsg 0 ∈ oamMsgIds
  · simp only [if_neg hp19, if_pos hoam, Option.mem_some_iff, forall_eq']
  · simp [hp19, hoam]

/-- A message is forwarded as it should be, when it is, exactly when its length fits. -/
theorem oamConfigMsgDec_filled_iff :
    (∀ sub ∈ oamConfigMsgDec msbBody pRecvMsg n,
        sub.Sound SubMsg.filled n (rd32 pRecvMsg 4)) ↔ OamFits msbBody pRecvMsg n := by
  rw [forall_oamConfigMsgDec_iff, p19ConfigReq_sound_iff,
    oamConfigReq_sound_iff oamConfigReq_filled, OamFits]

/-- When the bytes copied alone are counted, no message of the first kind is. -/
theorem oamConfigMsgDec_copied_iff :
    (∀ sub ∈ oamConfigMsgDec msbBody pRecvMsg n,
        sub.Sound SubMsg.copied n (rd32 pRecvMsg 4)) ↔
      OamFits msbBody pRecvMsg n ∧ rd16 pRecvMsg 0 ∉ p19MsgIds := by
  rw [forall_oamConfigMsgDec_iff, oamConfigReq_sound_iff rfl, OamFits]
  by_cases hp19 : rd16 pRecvMsg 0 ∈ p19MsgIds
  · rw [if_pos hp19]
    exact iff_of_false p19ConfigReq_not_sound fun h => h.2 hp19
  · simp only [if_neg hp19, and_iff_left hp19]

/-- Of every datagram, whatever is left on the stack: what is forwarded has the size of what was
put into it, all of it copied from the datagram into the buffer, exactly when the length in the
header fits both; and it has the size of what was copied when, besides, no header is added. -/
theorem oamRecvAppMsg_sound_iff (msbBody : ℕ) (stack : Mem) (datagram : List UInt8) :
    ((∀ sub ∈ oamRecvAppMsg msbBody stack datagram,
          sub.Sound SubMsg.filled (oamRecvLength datagram)
            (rd32 (oamRecvBuf stack datagram) 4)) ↔
        datagram = [] ∨
          OamFits msbBody (oamRecvBuf stack datagram) (oamRecvLength datagram)) ∧
      ((∀ sub ∈ oamRecvAppMsg msbBody stack datagram,
          sub.Sound SubMsg.copied (oamRecvLength datagram)
            (rd32 (oamRecvBuf stack datagram) 4)) ↔
        datagram = [] ∨
          OamFits msbBody (oamRecvBuf stack datagram) (oamRecvLength datagram) ∧
            rd16 (oamRecvBuf stack datagram) 0 ∉ p19MsgIds) := by
  by_cases hnil : datagram = []
  · subst hnil
    simp [oamRecvAppMsg, oamRecvLength]
  · have hpos : 0 < oamRecvLength datagram := by
      have hlen := List.length_pos_iff.mpr hnil
      rw [oamRecvLength, oamMsgMaxLen]
      omega
    rw [oamRecvAppMsg, if_pos hpos, oamConfigMsgDec_filled_iff, oamConfigMsgDec_copied_iff]
    simp only [hnil, false_or, and_self]

/-- A request of eight bytes with the length 4: 65532 bytes are copied from behind it. -/
theorem oamRecvAppMsg_copies_too_much :
    (¬ ∀ sub ∈ oamRecvAppMsg 4 (fun _ => 0) [4, 0, 0, 0, 4, 0, 0, 0],
        sub.Sound SubMsg.filled 8 4) ∧
      ¬ ∀ sub ∈ oamRecvAppMsg 4 (fun _ => 0) [4, 0, 0, 0, 4, 0, 0, 0],
        sub.Sound SubMsg.copied 8 4 := by
  have hsub : oamRecvAppMsg 4 (fun _ => 0) [4, 0, 0, 0, 4, 0, 0, 0] =
      some ⟨.oam, 4, 65532, 4, [], some ⟨4, 8, 65532⟩⟩ := by
    decide +kernel
  have hbehind : ∀ count, ¬ SubMsg.Sound count 8 4
      ⟨.oam, 4, 65532, 4, [], some ⟨4, 8, 65532⟩⟩ := by
    rintro count ⟨-, -, hcopy⟩
    have hfirst := (hcopy _ rfl).1 0 (by decide)
    exact absurd hfirst.1 (by decide)
  exact ⟨fun h => hbehind _ (h _ hsub), fun h => hbehind _ (h _ hsub)⟩

end TestMac

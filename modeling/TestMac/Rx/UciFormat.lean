import Mathlib.Data.Vector.Defs
import TestMac.Rx.Decode

/-!
# The encoding of UCI indications in `l1_api.h`

A PDU carries a fixed part and optional sections, in the order of the bits of
`pduBitmap`. Two sections are of variable size: CSI part 2 is followed by its
TLVs, the UCI info by its payload. What the decoder has to find is the address
of every PDU and of the sections that have a handler.
-/

namespace TestMac

open Bytes Decoder

/-- `n` bytes whose contents do not matter for the encoding. -/
abbrev Block (n : ℕ) := List.Vector UInt8 n

/-- The fields in front of `pduBitmap`, the same in all types of PDUs: `TA`,
`RSSI`, `SINR` and `RSRP` are only carried along. -/
structure UciFields where
  Handle : ℕ
  RNTI : ℕ
  measured : Block 6
  handle_lt : Handle < 65536

def UciFields.bytes (f : UciFields) : List UInt8 :=
  leBytes 4 f.Handle ++ leBytes 2 f.RNTI ++ f.measured.toList

/-- `L1CSIPart2Pdu_t`. -/
structure CsiPart2 where
  CsiPart2Len : ℕ
  CsiPart2Crc : ℕ
  TLVs : List (Block 8)
  numTLV_lt : TLVs.length < 256

def CsiPart2.bytes (c : CsiPart2) : List UInt8 :=
  leBytes 2 c.CsiPart2Len ++ leBytes 1 c.CsiPart2Crc ++ leBytes 1 c.TLVs.length ++
    c.TLVs.flatMap List.Vector.toList

/-- `L1UciInfoPdu_t`. -/
structure UciInfoPdu where
  UciBitLen : ℕ
  CrcStatus : ℕ
  uciPayload : Block ((UciBitLen + 7) / 8)
  bitLen_lt : UciBitLen < 65536

def UciInfoPdu.bytes (u : UciInfoPdu) : List UInt8 :=
  leBytes 2 u.UciBitLen ++ leBytes 1 u.CrcStatus ++ leBytes 1 0 ++ u.uciPayload.toList

/-- A PDU of a UCI indication. An absent section is `none`. -/
inductive UciPdu
  | inPusch (fields : UciFields) (harq : Option (Block 20)) (csiPart1 : Option (Block 36))
      (csiPart2 : Option CsiPart2)
  | inPucchFmt01 (fields : UciFields) (PucchFormat : ℕ) (sr : Option (Block 4))
      (harq : Option (Block 4))
  | inPucchFmt234 (fields : UciFields) (PucchFormat : ℕ) (sr : Option (Block 4))
      (harq : Option (Block 20)) (csiPart1 : Option (Block 36)) (csiPart2 : Option CsiPart2)
      (uciInfo : Option UciInfoPdu)

/-- The bytes of an optional section. -/
def optBytes {α : Type} (bytes : α → List UInt8) : Option α → List UInt8
  | none => []
  | some x => bytes x

/-- `pduBitmap` for the sections present. -/
def uciBitmap (sr harq csiPart1 csiPart2 uciInfo : Bool) : ℕ :=
  sr.toNat + 2 * harq.toNat + 4 * csiPart1.toNat + 8 * csiPart2.toNat + 16 * uciInfo.toNat

def UciPdu.PDUType : UciPdu → ℕ
  | inPusch .. => 0
  | inPucchFmt01 .. => 1
  | inPucchFmt234 .. => 2

/-- The bytes up to the first section. -/
def UciPdu.fixedPart : UciPdu → List UInt8
  | inPusch f harq csiPart1 csiPart2 => f.bytes ++
      leBytes 1 (uciBitmap false harq.isSome csiPart1.isSome csiPart2.isSome false) ++ leBytes 3 0
  | inPucchFmt01 f PucchFormat sr harq => f.bytes ++
      leBytes 1 (uciBitmap sr.isSome harq.isSome false false false) ++ leBytes 1 PucchFormat ++
      leBytes 2 0
  | inPucchFmt234 f PucchFormat sr harq csiPart1 csiPart2 uciInfo => f.bytes ++
      leBytes 1 PucchFormat ++
      leBytes 1 (uciBitmap sr.isSome harq.isSome csiPart1.isSome csiPart2.isSome uciInfo.isSome) ++
      leBytes 2 0

/-- The bytes of the sections present. -/
def UciPdu.sections : UciPdu → List UInt8
  | inPusch _ harq csiPart1 csiPart2 => optBytes List.Vector.toList harq ++
      (optBytes List.Vector.toList csiPart1 ++ optBytes CsiPart2.bytes csiPart2)
  | inPucchFmt01 _ _ sr harq => optBytes List.Vector.toList sr ++ optBytes List.Vector.toList harq
  | inPucchFmt234 _ _ sr harq csiPart1 csiPart2 uciInfo => optBytes List.Vector.toList sr ++
      (optBytes List.Vector.toList harq ++ (optBytes List.Vector.toList csiPart1 ++
        (optBytes CsiPart2.bytes csiPart2 ++ optBytes UciInfoPdu.bytes uciInfo)))

/-- The encoded length of a PDU with its header, rounded up to four bytes. -/
def UciPdu.PDUSize (pdu : UciPdu) : ℕ :=
  4 * ((offsetofUciPdu + offsetofSections + pdu.sections.length + 3) / 4)

def UciPdu.bytes (pdu : UciPdu) : List UInt8 :=
  leBytes 2 pdu.PDUType ++ leBytes 2 pdu.PDUSize ++ pdu.fixedPart ++ pdu.sections

/-- The PDUs stand one after the other from the address `a` on, each `PDUSize`
bytes behind the one before. The bytes that pad a PDU are arbitrary. -/
def UciPdusAt (m : Mem) : ℕ → List UciPdu → Prop
  | _, [] => True
  | a, pdu :: pdus => Holds m a pdu.bytes ∧ UciPdusAt m (a + pdu.PDUSize) pdus

/-- The body of a UCI indication with the given PDUs stands at `pMsg`. -/
def UciIndicationAt (m : Mem) (pMsg : ℕ) (pdus : List UciPdu) : Prop :=
  rd16 m (pMsg + 4) = pdus.length ∧ UciPdusAt m (pMsg + offsetofPdus) pdus

/-- What is to be seen of the decoding: the PDU turned to, and the sections handed
to a handler. -/
inductive UciStep
  | pdu (addr : ℕ)
  | csiPart1InPusch (addr : ℕ)
  | csiPart1InPucch (addr : ℕ)
  | uciInfo (addr : ℕ)
  deriving DecidableEq

/-- What a call of `uciIndicationProcDecHdlr` shows of the decoding. -/
def uciStep : RxCall → Option UciStep
  | .uciPdu addr => some (.pdu addr)
  | .macCSIPart1InfoUciInPuschPduFmt234PduHdlr _ _ addr => some (.csiPart1InPusch addr)
  | .macCSIPart1InfoUciInPucchPduFmt234PduHdlr _ _ addr => some (.csiPart1InPucch addr)
  | .macUciInfoInPucchPduFmt234PduHdlr _ _ addr => some (.uciInfo addr)
  | _ => none

/-- A section at an address, when it is present. -/
def optStep {α : Type} (step : ℕ → UciStep) (addr : ℕ) : Option α → List UciStep
  | none => []
  | some _ => [step addr]

/-- The PDU at `a` and its sections with a handler, at their encoded addresses. -/
def UciPdu.steps (a : ℕ) : UciPdu → List UciStep
  | inPusch _ harq csiPart1 _ => .pdu a ::
      optStep .csiPart1InPusch
        (a + offsetofUciPdu + offsetofSections + (optBytes List.Vector.toList harq).length) csiPart1
  | inPucchFmt01 .. => [.pdu a]
  | inPucchFmt234 _ _ sr harq csiPart1 csiPart2 uciInfo => .pdu a ::
      (optStep .csiPart1InPucch
          (a + offsetofUciPdu + offsetofSections + (optBytes List.Vector.toList sr).length +
            (optBytes List.Vector.toList harq).length) csiPart1 ++
        optStep .uciInfo
          (a + offsetofUciPdu + offsetofSections + (optBytes List.Vector.toList sr).length +
            (optBytes List.Vector.toList harq).length +
            (optBytes List.Vector.toList csiPart1).length +
            (optBytes CsiPart2.bytes csiPart2).length) uciInfo)

/-- All PDUs from the address `a` on, with their sections. -/
def uciSteps : ℕ → List UciPdu → List UciStep
  | _, [] => []
  | a, pdu :: pdus => pdu.steps a ++ uciSteps (a + pdu.PDUSize) pdus

/-- TLVs of CSI part 2 stand in front of a UCI info section. -/
def UciPdu.tlvsBeforeUciInfo : UciPdu → Prop
  | inPucchFmt234 _ _ _ _ _ (some csiPart2) (some _) => csiPart2.TLVs ≠ []
  | _ => False

section Lengths

@[simp]
theorem UciFields.bytes_length (f : UciFields) : f.bytes.length = 12 := by simp [UciFields.bytes]

theorem CsiPart2.bytes_length (c : CsiPart2) : c.bytes.length = 4 + 8 * c.TLVs.length := by
  have hflat (l : List (Block 8)) : (l.flatMap List.Vector.toList).length = 8 * l.length := by
    induction l with
    | nil => rfl
    | cons b l ih => simp [ih, Nat.mul_add, Nat.add_comm]
  simp [CsiPart2.bytes, hflat]
  omega

theorem UciInfoPdu.bytes_length (u : UciInfoPdu) :
    u.bytes.length = 4 + (u.UciBitLen + 7) / 8 := by
  simp [UciInfoPdu.bytes]
  omega

@[simp]
theorem UciPdu.fixedPart_length (pdu : UciPdu) : pdu.fixedPart.length = 16 := by
  cases pdu <;> simp [UciPdu.fixedPart]

theorem optBytes_length_le {α : Type} {bytes : α → List UInt8} {n : ℕ}
    (h : ∀ x, (bytes x).length ≤ n) (o : Option α) : (optBytes bytes o).length ≤ n := by
  cases o with
  | none => exact Nat.zero_le n
  | some x => exact h x

/-- The size of a PDU fits its 16-bit field. -/
theorem UciPdu.PDUSize_lt (pdu : UciPdu) : pdu.PDUSize < 65536 := by
  have hblock {n : ℕ} (o : Option (Block n)) : (optBytes List.Vector.toList o).length ≤ n :=
    optBytes_length_le (fun x => by simp) o
  have hcsi (o : Option CsiPart2) : (optBytes CsiPart2.bytes o).length ≤ 2044 :=
    optBytes_length_le (fun c => by have := c.numTLV_lt; rw [c.bytes_length]; omega) o
  have huci (o : Option UciInfoPdu) : (optBytes UciInfoPdu.bytes o).length ≤ 8196 :=
    optBytes_length_le (fun u => by have := u.bitLen_lt; rw [u.bytes_length]; omega) o
  unfold UciPdu.PDUSize offsetofUciPdu offsetofSections
  cases pdu with
  | inPusch f harq csiPart1 csiPart2 =>
    have := hblock harq; have := hblock csiPart1; have := hcsi csiPart2
    simp only [UciPdu.sections, List.length_append]
    omega
  | inPucchFmt01 f fmt sr harq =>
    have := hblock sr; have := hblock harq
    simp only [UciPdu.sections, List.length_append]
    omega
  | inPucchFmt234 f fmt sr harq csiPart1 csiPart2 uciInfo =>
    have := hblock sr; have := hblock harq; have := hblock csiPart1
    have := hcsi csiPart2; have := huci uciInfo
    simp only [UciPdu.sections, List.length_append]
    omega

/-- The bits of `pduBitmap` tell which sections are present. -/
theorem uciBitmap_and (sr harq csiPart1 csiPart2 uciInfo : Bool) :
    (uciBitmap sr harq csiPart1 csiPart2 uciInfo &&& 1 ≠ 0 ↔ sr = true) ∧
    (uciBitmap sr harq csiPart1 csiPart2 uciInfo &&& 2 ≠ 0 ↔ harq = true) ∧
    (uciBitmap sr harq csiPart1 csiPart2 uciInfo &&& 4 ≠ 0 ↔ csiPart1 = true) ∧
    (uciBitmap sr harq csiPart1 csiPart2 uciInfo &&& 8 ≠ 0 ↔ csiPart2 = true) ∧
    (uciBitmap sr harq csiPart1 csiPart2 uciInfo &&& 16 ≠ 0 ↔ uciInfo = true) ∧
    uciBitmap sr harq csiPart1 csiPart2 uciInfo < 256 := by
  revert sr harq csiPart1 csiPart2 uciInfo
  decide

end Lengths

end TestMac

import TestMac.Mac.TxRow
import TestMac.Mac.Runs

/-!
# The lengths in a TX_DATA request, and sending it twice

`TxdataParams` copies the header of a PDU before it writes the length it computes into it.
The length that was stored goes out with the request, the computed one with the next.
-/

namespace TestMac

open Bytes Act

/-- The offsets of the PDUs that a row announces. -/
def pduOffsets (row : Mem) (base : ℕ) : ℕ → ℕ → List ℕ
  | 0, _ => []
  | numPDUs + 1, offset => offset ::
    pduOffsets row base numPDUs (offset + 12 + sizeofL1DataTLV * rd32 row (base + offset + 8))

variable {src src' : PayloadSource} {row row' : Mem}
  {base numPDUs numTLV offset tlv calls calls' o : ℕ}

/-- The PDUs announced depend on the row from the first of them on. -/
theorem pduOffsets_congr (h : ∀ a, base + offset ≤ a → row a = row' a) :
    pduOffsets row base numPDUs offset = pduOffsets row' base numPDUs offset := by
  induction numPDUs generalizing offset with
  | zero => rfl
  | succ numPDUs ih =>
    have hnum : rd32 row (base + offset + 8) = rd32 row' (base + offset + 8) := by
      exact rd32_congr fun a ha _ => h a (by omega)
    rw [pduOffsets, pduOffsets, hnum, ih fun a ha => h a (by omega)]

theorem le_of_mem_pduOffsets (h : o ∈ pduOffsets row base numPDUs offset) : offset ≤ o := by
  induction numPDUs generalizing offset with
  | zero => exact absurd h List.not_mem_nil
  | succ numPDUs ih =>
    rcases List.mem_cons.mp h with rfl | h
    · exact le_rfl
    · have hrest := ih h
      omega

/-- One round of the walk of the PDUs: the rest starts behind the PDU, on a row that differs
from the one before within this PDU only. -/
theorem walkPdus_step (src : PayloadSource) (calls : ℕ)
    (h : pduEnd row base (numPDUs + 1) offset < 4294967296) :
    ∃ row₁ next tlvs, next = offset + 12 + sizeofL1DataTLV * rd32 row (base + offset + 8) ∧
      tlvs = walkTLVs src (rd32 row (base + offset + 8)) (base + offset + 12) row calls ∧
      row₁ = wr32 tlvs.row (base + offset) (sub32 next offset) ∧
      pduEnd row₁ base numPDUs next < 4294967296 ∧
      (∀ a, base + next ≤ a → row₁ a = row a) ∧
      (walkPdus src base (numPDUs + 1) offset row calls).2.row =
        (walkPdus src base numPDUs next row₁ tlvs.calls).2.row ∧
      (walkPdus src base (numPDUs + 1) offset row calls).2.events =
        tlvs.events ++ (walkPdus src base numPDUs next row₁ tlvs.calls).2.events ∧
      (walkPdus src base (numPDUs + 1) offset row calls).2.copied =
        slice row (base + offset) 12 ++ tlvs.copied ++
          (walkPdus src base numPDUs next row₁ tlvs.calls).2.copied := by
  have hsize : sizeofL1DataTLV = 12 := rfl
  set k := rd32 row (base + offset + 8) with hk
  have hle : offset + 12 + sizeofL1DataTLV * k ≤ pduEnd row base (numPDUs + 1) offset := le_pduEnd
  have hnext : (offset + 12 + sizeofL1DataTLV * k) % 4294967296 =
      offset + 12 + sizeofL1DataTLV * k := Nat.mod_eq_of_lt (by omega)
  set tlvs := walkTLVs src k (base + offset + 12) row calls with htlvs
  have hbehind : ∀ a, base + (offset + 12 + sizeofL1DataTLV * k) ≤ a →
      wr32 tlvs.row (base + offset)
        (sub32 (offset + 12 + sizeofL1DataTLV * k) offset) a = row a := by
    intro a ha
    rw [wr32, store_of_not_mem (by rw [leBytes_length]; omega), htlvs, walkTLVs_row (by omega)]
  have hheader : slice tlvs.row (base + offset) 12 = slice row (base + offset) 12 := by
    rw [slice_eq_iff]
    intro a _ ha
    rw [htlvs, walkTLVs_row (by omega)]
  refine ⟨_, _, tlvs, rfl, htlvs, rfl, ?_, hbehind, ?_, ?_, ?_⟩
  · rw [pduEnd_congr hbehind]
    exact h
  · rw [walkPdus]
    simp only [← hk, hnext, ← htlvs]
  · rw [walkPdus]
    simp only [← hk, hnext, ← htlvs]
  · rw [walkPdus]
    simp only [← hk, hnext, ← htlvs, hheader]

/-- The header of a PDU goes out as it stands in the row. -/
theorem walkPdus_header (src : PayloadSource) (calls : ℕ)
    (h : pduEnd row base numPDUs offset < 4294967296)
    (ho : o ∈ pduOffsets row base numPDUs offset) :
    ((walkPdus src base numPDUs offset row calls).2.copied.drop (o - offset)).take 12 =
      slice row (base + o) 12 := by
  induction numPDUs generalizing offset row calls with
  | zero => exact absurd ho List.not_mem_nil
  | succ numPDUs ih =>
    obtain ⟨row₁, next, tlvs, hnext, htlvs, -, hend, hbehind, -, -, hcopied⟩ :=
      walkPdus_step src calls h
    rw [hcopied]
    rcases List.mem_cons.mp ho with rfl | ho
    · rw [Nat.sub_self, List.drop_zero, List.append_assoc, List.take_left' (slice_length _ _ _)]
    · rw [← hnext] at ho
      have hle := le_of_mem_pduOffsets ho
      have hfront : (slice row (base + offset) 12 ++ tlvs.copied).length = next - offset := by
        rw [List.length_append, slice_length, htlvs, walkTLVs_copied_length]
        omega
      have hsplit : o - offset = (next - offset) + (o - next) := by omega
      rw [← pduOffsets_congr hbehind] at ho
      rw [hsplit, ← List.drop_drop, List.drop_left' hfront, ih _ hend ho, slice_eq_iff]
      intro a ha _
      exact hbehind a (by omega)

theorem slice_wr32 (m : Mem) (a v : ℕ) : slice (wr32 m a v) a 4 = leBytes 4 v :=
  slice_store_eq (leBytes_length 4 v)

/-- Filling a TLV again, with the same answer of the driver, leaves it as it is. -/
theorem fillTLV_twice
    (hrow : ∀ a, tlv ≤ a → a < tlv + 12 → row' a = (fillTLV src row tlv calls).row a)
    (halloc : src'.env.pcxxDataAlloc calls' = src.env.pcxxDataAlloc calls) :
    slice (fillTLV src' row' tlv calls').row tlv 12 = slice (fillTLV src row tlv calls).row tlv 12 ∧
    ∃ n, (fillTLV src' row' tlv calls').calls = calls' + n ∧
      (fillTLV src row tlv calls).calls = calls + n := by
  have htag : rd16 row' tlv = rd16 row tlv := by
    refine rd16_congr fun a ha ha' => ?_
    rw [hrow a ha (by omega), fillTLV_row (by omega)]
  have hfront : slice (fillTLV src' row' tlv calls').row tlv 8 =
      slice (fillTLV src row tlv calls).row tlv 8 := by
    rw [slice_eq_iff]
    intro a ha ha'
    rw [fillTLV_row (by omega), hrow a ha (by omega)]
  have hvalue : rd32 row' (tlv + 8) = rd32 (fillTLV src row tlv calls).row (tlv + 8) :=
    rd32_congr fun a ha ha' => hrow a (by omega) (by omega)
  rw [slice_add _ tlv 8 4, hfront, slice_add _ tlv 8 4]
  by_cases hdata : rd16 row tlv = 2
  · cases hdest : src.env.pcxxDataAlloc calls with
    | none =>
      rw [hdest] at halloc
      simp only [fillTLV, htag, hdata, if_true, hdest, halloc] at hvalue ⊢
      rw [rd32_wr32 (rd32_lt _ _)] at hvalue
      rw [hvalue, slice_wr32, slice_wr32]
      exact ⟨rfl, 1, rfl, rfl⟩
    | some dest =>
      rw [hdest] at halloc
      simp only [fillTLV, htag, hdata, if_true, hdest, halloc, slice_wr32]
      exact ⟨trivial, 1, rfl, rfl⟩
  · have hsame : slice row' (tlv + 8) 4 = slice row (tlv + 8) 4 := by
      rw [slice_eq_iff]
      intro a ha ha'
      rw [hrow a (by omega) (by omega), fillTLV, if_neg hdata]
    simp only [fillTLV, htag, hdata, if_false, hsame]
    exact ⟨trivial, 0, rfl, rfl⟩

/-- The TLVs of a PDU go out the second time as the first time. -/
theorem walkTLVs_twice (hrow : ∀ a, tlv ≤ a → a < tlv + sizeofL1DataTLV * numTLV →
      row' a = (walkTLVs src numTLV tlv row calls).row a)
    (halloc : ∀ n, src'.env.pcxxDataAlloc (calls' + n) = src.env.pcxxDataAlloc (calls + n)) :
    (walkTLVs src' numTLV tlv row' calls').copied = (walkTLVs src numTLV tlv row calls).copied ∧
    ∃ n, (walkTLVs src' numTLV tlv row' calls').calls = calls' + n ∧
      (walkTLVs src numTLV tlv row calls).calls = calls + n := by
  have hsize : sizeofL1DataTLV = 12 := rfl
  induction numTLV generalizing tlv row row' calls calls' with
  | zero => exact ⟨rfl, 0, rfl, rfl⟩
  | succ numTLV ih =>
    rw [Nat.mul_succ] at hrow
    simp only [walkTLVs] at hrow ⊢
    have hfirst : ∀ a, tlv ≤ a → a < tlv + 12 → row' a = (fillTLV src row tlv calls).row a := by
      intro a ha ha'
      rw [hrow a ha (by omega), walkTLVs_row (by omega)]
    have hanswer : src'.env.pcxxDataAlloc calls' = src.env.pcxxDataAlloc calls := halloc 0
    obtain ⟨hslice, n, hcalls', hcalls⟩ := fillTLV_twice hfirst hanswer
    have hrest : ∀ a, tlv + sizeofL1DataTLV ≤ a →
        a < tlv + sizeofL1DataTLV + sizeofL1DataTLV * numTLV →
        (fillTLV src' row' tlv calls').row a = (walkTLVs src numTLV (tlv + sizeofL1DataTLV)
          (fillTLV src row tlv calls).row (fillTLV src row tlv calls).calls).row a := by
      intro a ha ha'
      rw [fillTLV_row (by omega), hrow a (by omega) (by omega)]
    have hanswers : ∀ k, src'.env.pcxxDataAlloc ((fillTLV src' row' tlv calls').calls + k) =
        src.env.pcxxDataAlloc ((fillTLV src row tlv calls).calls + k) := by
      intro k
      rw [hcalls', hcalls, Nat.add_assoc, Nat.add_assoc]
      exact halloc (n + k)
    obtain ⟨hcopied, n', hdone', hdone⟩ := ih hrest hanswers
    refine ⟨by rw [hsize, hslice, ← hsize, hcopied], n + n', ?_, ?_⟩
    · rw [hdone', hcalls', Nat.add_assoc]
    · rw [hdone, hcalls, Nat.add_assoc]

/-- The lengths stored in the PDUs are the lengths that are computed. -/
def LengthsStored (row : Mem) (base : ℕ) (offsets : List ℕ) : Prop :=
  ∀ o ∈ offsets, rd32 row (base + o) = 12 + sizeofL1DataTLV * rd32 row (base + o + 8)

/-- The lengths of the PDUs depend on the row from the first of them on. -/
theorem lengthsStored_congr (h : ∀ a, base + offset ≤ a → row a = row' a) :
    LengthsStored row base (pduOffsets row base numPDUs offset) ↔
      LengthsStored row' base (pduOffsets row' base numPDUs offset) := by
  rw [pduOffsets_congr h]
  refine forall₂_congr fun o ho => ?_
  have hle := le_of_mem_pduOffsets ho
  have hlen : rd32 row (base + o) = rd32 row' (base + o) :=
    rd32_congr fun a ha _ => h a (by omega)
  have hnum : rd32 row (base + o + 8) = rd32 row' (base + o + 8) :=
    rd32_congr fun a ha _ => h a (by omega)
  rw [hlen, hnum]

/-- A number that is written over itself. -/
theorem leBytes_eq_slice_iff {m : Mem} {a v : ℕ} (hv : v < 4294967296) :
    leBytes 4 v = slice m a 4 ↔ rd32 m a = v := by
  constructor
  · intro h
    rw [rd32, ← h, leValue_leBytes]
    exact Nat.mod_eq_of_lt hv
  · rintro rfl
    exact leBytes_leValue (slice_length m a 4)

/-- The header of a PDU is the same when the length stored in it is replaced by another,
exactly when this is the same length. -/
theorem header_same_iff {pdu len : ℕ} (hlen : len < 4294967296)
    (hnew : slice row' pdu 4 = leBytes 4 len)
    (hrest : ∀ a, pdu + 4 ≤ a → a < pdu + 12 → row' a = row a) :
    slice row' pdu 12 = slice row pdu 12 ↔ rd32 row pdu = len := by
  have hsame : slice row' (pdu + 4) 8 = slice row (pdu + 4) 8 := by
    rw [slice_eq_iff]
    intro a ha ha'
    exact hrest a ha (by omega)
  rw [slice_add row' pdu 4 8, slice_add row pdu 4 8, hsame, List.append_left_inj, hnew,
    leBytes_eq_slice_iff hlen]

/-- The same request goes out a second time as the first time, with the same answers of the
driver, exactly when its lengths were stored. -/
theorem walkPdus_twice (h : pduEnd row base numPDUs offset < 4294967296)
    (hrow : ∀ a, base + offset ≤ a → row' a = (walkPdus src base numPDUs offset row calls).2.row a)
    (halloc : ∀ n, src'.env.pcxxDataAlloc (calls' + n) = src.env.pcxxDataAlloc (calls + n)) :
    (walkPdus src' base numPDUs offset row' calls').2.copied =
        (walkPdus src base numPDUs offset row calls).2.copied ↔
      LengthsStored row base (pduOffsets row base numPDUs offset) := by
  have hsize : sizeofL1DataTLV = 12 := rfl
  induction numPDUs generalizing offset row row' calls calls' with
  | zero => simp [walkPdus, LengthsStored, pduOffsets]
  | succ numPDUs ih =>
    have hspec : _ ∧ _ ∧ pduEnd (walkPdus src base (numPDUs + 1) offset row calls).2.row base
        (numPDUs + 1) offset = pduEnd row base (numPDUs + 1) offset ∧ _ := walkPdus_spec h
    have h' : pduEnd row' base (numPDUs + 1) offset < 4294967296 := by
      rw [pduEnd_congr hrow, hspec.2.2.1]
      exact h
    obtain ⟨row₁, next, tlvs, hnext, htlvs, hrow₁, hend, hbehind, hlast, -, hcopied⟩ :=
      walkPdus_step src calls h
    obtain ⟨row₁', next', tlvs', hnext', htlvs', hrow₁', -, hbehind', -, -, hcopied'⟩ :=
      walkPdus_step src' calls' h'
    rw [hlast] at hrow
    have hkeep : ∀ a, a < base + next →
        (walkPdus src base numPDUs next row₁ tlvs.calls).2.row a = row₁ a :=
      (walkPdus_spec hend).2.1
    -- within the PDU the row is what the first walk made of it
    have hpdu : ∀ a, base + offset ≤ a → a < base + next → row' a = row₁ a := by
      intro a ha ha'
      rw [hrow a ha, hkeep a ha']
    have htlvRow : ∀ a, base + offset + 4 ≤ a → a < base + next → row' a = tlvs.row a := by
      intro a ha ha'
      rw [hpdu a (by omega) ha', hrow₁, wr32, store_of_not_mem (by rw [leBytes_length]; omega)]
    have hheader : ∀ a, base + offset + 4 ≤ a → a < base + offset + 12 → row' a = row a := by
      intro a ha ha'
      rw [htlvRow a ha (by omega), htlvs, walkTLVs_row (by omega)]
    have hnum : rd32 row' (base + offset + 8) = rd32 row (base + offset + 8) :=
      rd32_congr fun a ha ha' => hheader a (by omega) (by omega)
    rw [hnum] at hnext' htlvs'
    obtain rfl : next' = next := hnext'.trans hnext.symm
    have hlen : sub32 next' offset = 12 + sizeofL1DataTLV * rd32 row (base + offset + 8) := by
      have hle : next' ≤ pduEnd row₁ base numPDUs next' := le_pduEnd
      unfold sub32
      omega
    have hnew : slice row' (base + offset) 4 =
        leBytes 4 (12 + sizeofL1DataTLV * rd32 row (base + offset + 8)) := by
      rw [← hlen, ← slice_wr32 tlvs.row, ← hrow₁, slice_eq_iff]
      intro a ha ha'
      exact hpdu a ha (by omega)
    have hfirst : slice row' (base + offset) 12 = slice row (base + offset) 12 ↔
        rd32 row (base + offset) = 12 + sizeofL1DataTLV * rd32 row (base + offset + 8) := by
      refine header_same_iff ?_ hnew hheader
      rw [← hlen, sub32]
      exact Nat.mod_lt _ (by decide)
    have htlvRow' : ∀ a, base + offset + 12 ≤ a →
        a < base + offset + 12 + sizeofL1DataTLV * rd32 row (base + offset + 8) →
        row' a = (walkTLVs src (rd32 row (base + offset + 8)) (base + offset + 12) row
          calls).row a := by
      intro a ha ha'
      rw [← htlvs]
      exact htlvRow a (by omega) (by omega)
    obtain ⟨hsame, n, hcalls', hcalls⟩ := walkTLVs_twice htlvRow' halloc
    rw [← htlvs', ← htlvs] at hsame
    rw [← htlvs'] at hcalls'
    rw [← htlvs] at hcalls
    have hrest : (walkPdus src' base numPDUs next' row₁' tlvs'.calls).2.copied =
        (walkPdus src base numPDUs next' row₁ tlvs.calls).2.copied ↔
        LengthsStored row base (pduOffsets row base numPDUs next') := by
      rw [← lengthsStored_congr hbehind]
      apply ih hend
      · intro a ha
        rw [hbehind' a ha]
        exact hrow a (by omega)
      · intro k
        rw [hcalls', hcalls, Nat.add_assoc, Nat.add_assoc]
        exact halloc (n + k)
    rw [hcopied', hcopied, hsame, List.append_assoc, List.append_assoc, pduOffsets, ← hnext]
    constructor
    · intro heq
      obtain ⟨hslice, heq⟩ := List.append_inj heq (by simp)
      rw [List.append_cancel_left_eq, hrest] at heq
      exact List.forall_mem_cons.mpr ⟨hfirst.mp hslice, heq⟩
    · intro hstored
      obtain ⟨hone, hothers⟩ := List.forall_mem_cons.mp hstored
      rw [hfirst.mpr hone, hrest.mpr hothers]

/-- The offsets of the PDUs of a TX_DATA request with its body at `base`. -/
def txOffsets (row : Mem) (base : ℕ) : List ℕ :=
  pduOffsets row base (rd16 row (base + 4)) offsetofPdus

/-- Every header of a PDU that is written carries the length of the PDU. -/
def HeadersCarryLength (out : List UInt8) (offsets : List ℕ) : Prop :=
  ∀ o ∈ offsets, leValue ((out.drop o).take 4) =
    12 + sizeofL1DataTLV * leValue ((out.drop (o + 8)).take 4)

/-- The headers written carry the lengths of the PDUs exactly when these were stored. -/
theorem headersCarryLength_iff (h : pduEnd row base numPDUs offsetofPdus < 4294967296) :
    HeadersCarryLength (slice row base offsetofPdus ++
        (walkPdus src base numPDUs offsetofPdus row calls).2.copied)
      (pduOffsets row base numPDUs offsetofPdus) ↔
    LengthsStored row base (pduOffsets row base numPDUs offsetofPdus) := by
  refine forall₂_congr fun o ho => ?_
  have hle := le_of_mem_pduOffsets ho
  obtain ⟨d, rfl⟩ := Nat.exists_eq_add_of_le hle
  have hheader := walkPdus_header src calls h ho
  rw [Nat.add_sub_cancel_left] at hheader
  set copied := (walkPdus src base numPDUs offsetofPdus row calls).2.copied
  have hdrop : (slice row base offsetofPdus ++ copied).drop (offsetofPdus + d) = copied.drop d := by
    rw [← List.drop_drop, List.drop_left' (slice_length row base offsetofPdus)]
  have hlen : (copied.drop d).take 4 = slice row (base + (offsetofPdus + d)) 4 := by
    have htake : (copied.drop d).take 4 = ((copied.drop d).take 12).take 4 := by
      rw [List.take_take]
      rfl
    rw [htake, hheader]
    exact slice_drop_take row _ 12 0 4 (by decide)
  have hnum : ((copied.drop d).drop 8).take 4 = slice row (base + (offsetofPdus + d) + 8) 4 := by
    rw [← slice_drop_take row _ 12 8 4 (by decide), ← hheader, List.drop_take, List.take_take]
    rfl
  have hdrop' : (slice row base offsetofPdus ++ copied).drop (offsetofPdus + d + 8) =
      (copied.drop d).drop 8 := by
    rw [← hdrop, List.drop_drop]
  rw [hdrop, hdrop', hlen, hnum]
  exact Iff.rfl

/-- The number of bytes of a TX_DATA request with its body at `base`. -/
def txEnd (row : Mem) (base : ℕ) : ℕ := pduEnd row base (rd16 row (base + 4)) offsetofPdus

/-- The frame number and the slot in front of a request do not touch its PDUs. -/
theorem stamped_request (sfn slot : ℕ) (h : txEnd row base < 4294967296) :
    rd16 (stamp row base sfn slot) (base + 4) = rd16 row (base + 4) ∧
    pduEnd (stamp row base sfn slot) base (rd16 row (base + 4)) offsetofPdus < 4294967296 ∧
    pduOffsets (stamp row base sfn slot) base (rd16 row (base + 4)) offsetofPdus =
      txOffsets row base ∧
    (LengthsStored (stamp row base sfn slot) base (txOffsets row base) ↔
      LengthsStored row base (txOffsets row base)) := by
  have hoff : offsetofPdus = 8 := rfl
  have hbehind : ∀ a, base + offsetofPdus ≤ a → stamp row base sfn slot a = row a := by
    intro a ha
    exact stamp_of_not_mem (.inr (by omega))
  have hoffsets : pduOffsets (stamp row base sfn slot) base (rd16 row (base + 4)) offsetofPdus =
      txOffsets row base := pduOffsets_congr hbehind
  refine ⟨rd16_congr fun a ha _ => stamp_of_not_mem (.inr ha), ?_, hoffsets, ?_⟩
  · rw [pduEnd_congr hbehind]
    exact h
  · have hcongr : LengthsStored (stamp row base sfn slot) base
        (pduOffsets (stamp row base sfn slot) base (rd16 row (base + 4)) offsetofPdus) ↔
        LengthsStored row base (txOffsets row base) := lengthsStored_congr hbehind
    rwa [hoffsets] at hcongr

section Params

variable {env : Env} {c : Cell} {p : ℕ}

/-- Every header of a PDU that `TxdataParams` writes carries the length of the PDU. -/
def CarriesLengths (env : Env) (c : Cell) (p base : ℕ) : Prop :=
  Finishes (txdataParams env p base) c fun out _ =>
    HeadersCarryLength out.2 (txOffsets (c.tables.gL1TXDATAREQ.rows p) base)

/-- Serialising a request once more, with the same answers of the driver, writes the same
bytes. The registers with the frame number and the slot have not changed in between. -/
def SameTwice (env : Env) (c : Cell) (p base : ℕ) : Prop :=
  Finishes (txdataParams env p base) c fun out c₁ =>
    c₁.clock = c.clock ∧ ∀ env' : Env,
      (∀ n, env'.pcxxDataAlloc (c₁.calls + n) = env.pcxxDataAlloc (c.calls + n)) →
      Finishes (txdataParams env' p base) c₁ fun out' _ => out'.2 = out.2

theorem carriesLengths_iff (h : txEnd (c.tables.gL1TXDATAREQ.rows p) base < 4294967296) :
    CarriesLengths env c p base ↔ LengthsStored (c.tables.gL1TXDATAREQ.rows p) base
      (txOffsets (c.tables.gL1TXDATAREQ.rows p) base) := by
  obtain ⟨hnum, hend, hoffsets, hstored⟩ :=
    stamped_request c.clock.gMacTxRfn c.clock.gMacTxSlot h
  simp only [CarriesLengths, finishes_txdataParams, hnum]
  rw [← hstored, ← hoffsets]
  exact headersCarryLength_iff hend

theorem sameTwice_iff (h : txEnd (c.tables.gL1TXDATAREQ.rows p) base < 4294967296) :
    SameTwice env c p base ↔ LengthsStored (c.tables.gL1TXDATAREQ.rows p) base
      (txOffsets (c.tables.gL1TXDATAREQ.rows p) base) := by
  have hoff : offsetofPdus = 8 := rfl
  obtain ⟨hnum, hend, hoffsets, hstored⟩ :=
    stamped_request c.clock.gMacTxRfn c.clock.gMacTxSlot h
  simp only [SameTwice, finishes_txdataParams, hnum]
  rw [← hstored, ← hoffsets]
  set numPDUs := rd16 (c.tables.gL1TXDATAREQ.rows p) (base + 4)
  set row := stamp (c.tables.gL1TXDATAREQ.rows p) base c.clock.gMacTxRfn c.clock.gMacTxSlot
    with hrow
  set walk := (walkPdus (c.payloads env) base numPDUs offsetofPdus row c.calls).2
  have hbefore : ∀ a, a < base + offsetofPdus → walk.row a = row a := (walkPdus_spec hend).2.1
  have hclock : (c.walked p walk).clock = c.clock := rfl
  rw [walked_row, hclock]
  set row₂ := stamp walk.row base c.clock.gMacTxRfn c.clock.gMacTxSlot with hrow₂
  have hstamp₂ : ∀ a, base + 4 ≤ a → row₂ a = walk.row a := by
    intro a ha
    exact stamp_of_not_mem (.inr ha)
  have hnum₂ : rd16 row₂ (base + 4) = numPDUs := by
    rw [← hnum]
    refine rd16_congr fun a ha ha' => ?_
    rw [hstamp₂ a ha, hbefore a (by omega)]
  -- the same frame number and slot are written in front of the PDUs
  have hfront : slice row₂ base offsetofPdus = slice row base offsetofPdus := by
    have hfour : slice row₂ base 4 = slice row base 4 := slice_stamp.trans slice_stamp.symm
    have hrest : slice row₂ (base + 4) 4 = slice row (base + 4) 4 := by
      rw [slice_eq_iff]
      intro a ha ha'
      rw [hstamp₂ a ha, hbefore a (by omega)]
    rw [hoff, slice_add row₂ base 4 4, slice_add row base 4 4, hfour, hrest]
  simp only [hnum₂, hfront, List.append_cancel_left_eq, true_and]
  have htwice : ∀ env' : Env,
      (∀ n, env'.pcxxDataAlloc ((c.walked p walk).calls + n) = env.pcxxDataAlloc (c.calls + n)) →
      ((walkPdus ((c.walked p walk).payloads env') base numPDUs offsetofPdus row₂
        (c.walked p walk).calls).2.copied = walk.copied ↔
      LengthsStored row base (pduOffsets row base numPDUs offsetofPdus)) := by
    intro env' halloc
    exact walkPdus_twice hend (fun a ha => hstamp₂ a (by omega)) halloc
  constructor
  · intro hsame
    -- a driver that answers the second time as it did the first time
    let again : Env := { env with
      pcxxDataAlloc := fun n => env.pcxxDataAlloc (c.calls + (n - (c.walked p walk).calls)) }
    have halloc : ∀ n, again.pcxxDataAlloc ((c.walked p walk).calls + n) =
        env.pcxxDataAlloc (c.calls + n) := by
      intro n
      exact congrArg (fun k => env.pcxxDataAlloc (c.calls + k)) (Nat.add_sub_cancel_left _ n)
    exact (htwice again halloc).mp (hsame again halloc)
  · intro hlengths env' halloc
    exact (htwice env' halloc).mpr hlengths

end Params

/-- `TxdataParams` writes the length of every PDU into its header exactly when the lengths
were stored in the request before, and only then does the same request give the same bytes
once more. -/
theorem txdataParams_lengths_iff (env : Env) (c : Cell) (p base : ℕ)
    (h : txEnd (c.tables.gL1TXDATAREQ.rows p) base < 4294967296) :
    (CarriesLengths env c p base ↔ LengthsStored (c.tables.gL1TXDATAREQ.rows p) base
      (txOffsets (c.tables.gL1TXDATAREQ.rows p) base)) ∧
    (SameTwice env c p base ↔ LengthsStored (c.tables.gL1TXDATAREQ.rows p) base
      (txOffsets (c.tables.gL1TXDATAREQ.rows p) base)) :=
  ⟨carriesLengths_iff h, sameTwice_iff h⟩

/-- A row with one PDU of one TLV, and a length stored in it. -/
def onePduRow (PDULength : UInt8) : Mem :=
  store (fun _ => 0) 8 [0, 0, 0, 0, 1, 0, 0, 0, PDULength, 0, 0, 0, 0, 0, 0, 0, 1, 0, 0, 0,
    2, 0, 0, 0, 4, 0, 0, 0, 0, 0, 0, 0]

/-- A cell with this request in all of its entries. -/
def onePduCell (PDULength : UInt8) : Cell :=
  let resting := restingCell .auto 0
  { resting with
    tables := { resting.tables with gL1TXDATAREQ := ⟨fun _ => onePduRow PDULength⟩ } }

theorem txdataParams_lengths_iff_24 :
    CarriesLengths (readyWorld.env 0 0) (onePduCell 24) 0 8 ∧
      SameTwice (readyWorld.env 0 0) (onePduCell 24) 0 8 := by
  have hlengths := txdataParams_lengths_iff (readyWorld.env 0 0) (onePduCell 24) 0 8
    (by decide +kernel)
  have hstored : LengthsStored (onePduRow 24) 8 (txOffsets (onePduRow 24) 8) := by
    unfold LengthsStored
    decide +kernel
  exact ⟨hlengths.1.mpr hstored, hlengths.2.mpr hstored⟩

/-- With no length stored, the first request goes out with the length 0, the second one with
the length 24. -/
theorem txdataParams_length_missing :
    ¬ CarriesLengths (readyWorld.env 0 0) (onePduCell 0) 0 8 ∧
      ¬ SameTwice (readyWorld.env 0 0) (onePduCell 0) 0 8 := by
  have hend : txEnd ((onePduCell 0).tables.gL1TXDATAREQ.rows 0) 8 < 4294967296 := by decide +kernel
  have hmissing : ¬ LengthsStored (onePduRow 0) 8 (txOffsets (onePduRow 0) 8) := by
    unfold LengthsStored
    decide +kernel
  exact ⟨fun h => hmissing ((carriesLengths_iff hend).mp h),
    fun h => hmissing ((sameTwice_iff hend).mp h)⟩

end TestMac

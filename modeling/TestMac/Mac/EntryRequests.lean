import TestMac.Mac.LoadMode

/-!
# Requests with the content of a table entry

A request for a slot is meant to be the entry of the slot, with the system frame number and
the slot in front. What a sender hands over is that, as long as the entry is not too short
for them, and for TX_DATA requests as long as the registers hold the slot.
-/

namespace TestMac

open Bytes Act

/-- The message of an entry of the DL_TTI or UL_TTI table with a file of `size` bytes. -/
def rowRequest (msgId : ℕ) (row : Mem) (size : ℕ) (gsfn : SlotIndication) : List UInt8 :=
  l1Message msgId (size - 8)
    (leBytes 2 gsfn.SFN ++ leBytes 2 gsfn.Slot ++ slice row 12 (size - 12))

/-- The TLVs of a PDU as they are sent. A TLV is sent as it stands in the entry, but for the
offset that the driver finds for data. -/
inductive FilledTLVs (env : Env) (row : Mem) : ℕ → ℕ → List UInt8 → Prop
  | nil (tlv : ℕ) : FilledTLVs env row 0 tlv []
  | kept {numTLV tlv : ℕ} {bytes : List UInt8} :
      FilledTLVs env row numTLV (tlv + sizeofL1DataTLV) bytes →
      FilledTLVs env row (numTLV + 1) tlv (slice row tlv sizeofL1DataTLV ++ bytes)
  | filled {numTLV tlv : ℕ} {bytes : List UInt8} (call dest : ℕ) : rd16 row tlv = 2 →
      env.pcxxDataAlloc call = some dest →
      FilledTLVs env row numTLV (tlv + sizeofL1DataTLV) bytes →
      FilledTLVs env row (numTLV + 1) tlv (slice row tlv 8 ++ leBytes 4 dest ++ bytes)

/-- The PDUs of an entry of the TX_DATA table as they are sent, from an offset on. -/
inductive FilledPdus (env : Env) (row : Mem) : ℕ → ℕ → List UInt8 → Prop
  | nil (offset : ℕ) : FilledPdus env row 0 offset []
  | cons {numPDUs offset : ℕ} {tlvs pdus : List UInt8} :
      FilledTLVs env row (rd32 row (8 + offset + 8)) (8 + offset + 12) tlvs →
      FilledPdus env row numPDUs
        (offset + 12 + sizeofL1DataTLV * rd32 row (8 + offset + 8)) pdus →
      FilledPdus env row (numPDUs + 1) offset (slice row (8 + offset) 12 ++ tlvs ++ pdus)

/-- The message of an entry of the TX_DATA table. -/
def TxRequestOf (env : Env) (row : Mem) (gsfn : SlotIndication) (bytes : List UInt8) : Prop :=
  ∃ pdus, FilledPdus env row (rd16 row 12) offsetofPdus pdus ∧
    bytes = l1Message fapiTxDataRequest (txLength row - 8)
      (leBytes 2 gsfn.SFN ++ leBytes 2 gsfn.Slot ++ slice row 12 4 ++ pdus)

/-- A request for a slot is the entry of the slot, with the slot in front. -/
structure EntryRequest (env : Env) (t : TcTables) (gsfn : SlotIndication) (msgId : ℕ)
    (bytes : List UInt8) : Prop where
  dltti : msgId = fapiDlTtiRequest → bytes = rowRequest fapiDlTtiRequest
    (t.gL1DLTTIReq (gsfn.SFN % 4) gsfn.Slot) (t.gL1DlttiReqSize (gsfn.SFN % 4) gsfn.Slot) gsfn
  ultti : msgId = fapiUlTtiRequest → bytes = rowRequest fapiUlTtiRequest
    (t.gL1ULTTI (gsfn.SFN % 4) gsfn.Slot) (t.gL1UlttiReqSize (gsfn.SFN % 4) gsfn.Slot) gsfn
  txdata : msgId = fapiTxDataRequest →
    TxRequestOf env (t.gL1TXDATAREQ (gsfn.SFN % 4) gsfn.Slot) gsfn bytes

/-- Every request sent between two states of a cell is the entry of one slot. -/
def SendsEntry (env : Env) (t : TcTables) (gsfn : SlotIndication) (c c' : Cell) : Prop :=
  ∃ es, c'.log = c.log ++ es ∧
    ∀ msgId bytes, .sent msgId bytes ∈ es → EntryRequest env t gsfn msgId bytes

variable {env : Env} {src : PayloadSource} {row row' : Mem} {t : TcTables} {gsfn : SlotIndication}
  {c c' c'' : Cell} {numPDUs numTLV offset tlv calls : ℕ} {bytes : List UInt8}

theorem SendsEntry.of_log_eq (h : c'.log = c.log) : SendsEntry env t gsfn c c' :=
  ⟨[], by simp [h], by simp⟩

theorem SendsEntry.trans (h : SendsEntry env t gsfn c c') (h' : SendsEntry env t gsfn c' c'') :
    SendsEntry env t gsfn c c'' := by
  obtain ⟨es, hlog, hes⟩ := h
  obtain ⟨es', hlog', hes'⟩ := h'
  refine ⟨es ++ es', by rw [hlog', hlog, List.append_assoc], ?_⟩
  intro msgId bytes hmem
  rcases List.mem_append.mp hmem with hmem | hmem
  · exact hes msgId bytes hmem
  · exact hes' msgId bytes hmem

section Rows

/-- A stamped row, as long as it is not too short for the stamp. -/
theorem slice_stamp_row {sfn slot n : ℕ} (h : 4 ≤ n) :
    slice (stamp row 8 sfn slot) 8 n = leBytes 2 sfn ++ leBytes 2 slot ++ slice row 12 (n - 4) := by
  have hrest : slice (stamp row 8 sfn slot) 12 (n - 4) = slice row 12 (n - 4) := by
    rw [slice_eq_iff]
    intro a ha _
    exact stamp_of_not_mem (.inr (by omega))
  have hsplit := slice_add (stamp row 8 sfn slot) 8 4 (n - 4)
  rw [Nat.add_sub_cancel' h] at hsplit
  rw [hsplit, slice_stamp, hrest]

/-- What is sent of a row that holds the slot. -/
theorem take_rowMessage {msgId size : ℕ} (h : 12 ≤ size) (hsize : size < 4294967296) :
    (l1Message msgId (sub32 size 8) (slice (stamp row 8 gsfn.SFN gsfn.Slot) 8 size)).take size =
      rowRequest msgId row size gsfn := by
  rw [take_l1Message _ _ (by omega) hsize, slice_stamp_row (by omega)]
  rfl

end Rows

section Filled

/-- The TLVs that are sent depend on the row where they stand. -/
theorem FilledTLVs.congr (h : FilledTLVs env row numTLV tlv bytes)
    (hrow : ∀ a, tlv ≤ a → row' a = row a) : FilledTLVs env row' numTLV tlv bytes := by
  induction h with
  | nil tlv => exact .nil tlv
  | @kept numTLV tlv bytes _ ih =>
    have hslice : slice row tlv sizeofL1DataTLV = slice row' tlv sizeofL1DataTLV :=
      slice_eq_iff.mpr fun a ha _ => (hrow a ha).symm
    rw [hslice]
    exact .kept (ih fun a ha => hrow a (by omega))
  | @filled numTLV tlv bytes call dest htag halloc _ ih =>
    have hslice : slice row tlv 8 = slice row' tlv 8 :=
      slice_eq_iff.mpr fun a ha _ => (hrow a ha).symm
    have htag' : rd16 row' tlv = rd16 row tlv := rd16_congr fun a ha _ => hrow a ha
    rw [hslice]
    exact .filled call dest (htag'.trans htag) halloc (ih fun a ha => hrow a (by omega))

theorem FilledPdus.congr (h : FilledPdus env row numPDUs offset bytes)
    (hrow : ∀ a, 8 + offset ≤ a → row' a = row a) : FilledPdus env row' numPDUs offset bytes := by
  induction h with
  | nil offset => exact .nil offset
  | @cons numPDUs offset tlvs pdus htlvs _ ih =>
    have hnum : rd32 row' (8 + offset + 8) = rd32 row (8 + offset + 8) :=
      rd32_congr fun a ha _ => hrow a (by omega)
    have hheader : slice row (8 + offset) 12 = slice row' (8 + offset) 12 :=
      slice_eq_iff.mpr fun a ha _ => (hrow a ha).symm
    rw [hheader]
    apply FilledPdus.cons
    · rw [hnum]
      exact htlvs.congr fun a ha => hrow a (by omega)
    · rw [hnum]
      exact ih fun a ha => hrow a (by omega)

/-- The TLV that a walk copies. -/
theorem slice_fillTLV (src : PayloadSource) (row : Mem) (tlv calls : ℕ) :
    slice (fillTLV src row tlv calls).row tlv sizeofL1DataTLV =
      slice row tlv sizeofL1DataTLV ∨
    rd16 row tlv = 2 ∧ ∃ dest, src.env.pcxxDataAlloc calls = some dest ∧
      slice (fillTLV src row tlv calls).row tlv sizeofL1DataTLV =
        slice row tlv 8 ++ leBytes 4 dest := by
  by_cases htag : rd16 row tlv = 2
  · rw [fillTLV, if_pos htag]
    cases halloc : src.env.pcxxDataAlloc calls with
    | none =>
      left
      dsimp only
      rw [wr32_self (Nat.mod_eq_of_lt (rd32_lt _ _))]
    | some dest =>
      right
      refine ⟨htag, dest, rfl, ?_⟩
      have hbefore : slice (wr32 row (tlv + 8) dest) tlv 8 = slice row tlv 8 :=
        slice_store_disjoint (.inl (by omega))
      have hvalue : slice (wr32 row (tlv + 8) dest) (tlv + 8) 4 = leBytes 4 dest :=
        slice_wr32 row (tlv + 8) dest
      rw [show sizeofL1DataTLV = 8 + 4 from rfl, slice_add, hbefore, hvalue]
  · rw [fillTLV, if_neg htag]
    exact .inl rfl

/-- The walk over the TLVs of a PDU copies them filled. -/
theorem filledTLVs_walkTLVs :
    FilledTLVs src.env row numTLV tlv (walkTLVs src numTLV tlv row calls).copied := by
  induction numTLV generalizing tlv row calls with
  | zero => exact .nil tlv
  | succ numTLV ih =>
    have hrest : FilledTLVs src.env row numTLV (tlv + sizeofL1DataTLV)
        (walkTLVs src numTLV (tlv + sizeofL1DataTLV) (fillTLV src row tlv calls).row
          (fillTLV src row tlv calls).calls).copied := by
      refine ih.congr fun a ha => ?_
      exact (fillTLV_row (.inr ha)).symm
    rw [walkTLVs]
    dsimp only
    rcases slice_fillTLV src row tlv calls with
      hkept | ⟨htag, dest, halloc, hfilled⟩
    · rw [hkept]
      exact .kept hrest
    · rw [hfilled]
      exact .filled calls dest htag halloc hrest

/-- The walk over the PDUs of an entry copies them with their TLVs filled. -/
theorem filledPdus_walkPdus (h : pduEnd row 8 numPDUs offset < 4294967296) :
    FilledPdus src.env row numPDUs offset (walkPdus src 8 numPDUs offset row calls).2.copied := by
  induction numPDUs generalizing offset row calls with
  | zero => exact .nil offset
  | succ numPDUs ih =>
    obtain ⟨row₁, next, tlvs, rfl, htlvs, -, hend, hbehind, -, -, hcopied⟩ :=
      walkPdus_step src calls h
    rw [hcopied, htlvs]
    refine .cons filledTLVs_walkTLVs ((ih hend).congr fun a ha => ?_)
    exact (hbehind a ha).symm

/-- What is sent of an entry of the TX_DATA table, with the slot stamped in front. -/
theorem txRequestOf_walk (h : txLength row < 4294967296) :
    TxRequestOf src.env row gsfn (txMessage src row gsfn.SFN gsfn.Slot calls) := by
  obtain ⟨hend, -, -⟩ : (txWalk src row gsfn.SFN gsfn.Slot calls).1 + _ = _ ∧ _ := txWalk_spec h
  have hpdus : FilledPdus src.env (stamp row 8 gsfn.SFN gsfn.Slot) (rd16 row 12) offsetofPdus
      (txWalk src row gsfn.SFN gsfn.Slot calls).2.copied := by
    apply filledPdus_walkPdus
    rw [pduEnd_stamp]
    exact (Nat.le_add_right _ _).trans_lt h
  refine ⟨_, hpdus.congr fun a ha => (stamp_of_not_mem (.inr ?_)).symm, ?_⟩
  · simp only [offsetofPdus] at ha
    omega
  · have hsize : (txWalk src row gsfn.SFN gsfn.Slot calls).1 = txLength row - 8 :=
      Nat.eq_sub_of_add_eq hend
    rw [txMessage, hsize, show offsetofPdus = 8 from rfl, slice_stamp_row (by decide)]

end Filled

end TestMac

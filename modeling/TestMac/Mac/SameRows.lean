import TestMac.Mac.Loaded

/-!
# Tables that send the same requests

Two tables agree for the slots of a frame when the rows of these slots agree as far as
they are sent: a DL_TTI or UL_TTI row up to its size, a TX_DATA row up to the end of the
PDUs that it announces. Loading a test case makes tables agree when nothing that is
sent comes from outside its files.
-/

namespace TestMac

open Bytes

variable {env env₁ env₂ : Env} {files : TcFiles} {t t₁ t₂ : TcTables} {n p i j : ℕ}

/-- Two rows with their sizes agree. -/
structure SameRow (size₁ size₂ : ℕ) (row₁ row₂ : Mem) : Prop where
  size : size₁ = size₂
  size_lt : size₁ < 4294967296
  row : ∀ a < size₁, row₁ a = row₂ a

/-- Two TX_DATA rows agree up to the end of the PDUs. -/
structure SameTx (row₁ row₂ : Mem) : Prop where
  length_lt : txLength row₁ < 4294967296
  row : ∀ a < txLength row₁, row₁ a = row₂ a

/-- Two tables agree for the slots of frames of `n` slots. -/
structure SameRows (n : ℕ) (t₁ t₂ : TcTables) : Prop where
  config : SameRow t₁.gL1ConfigReqSize t₂.gL1ConfigReqSize t₁.gL1ConfigRequest t₂.gL1ConfigRequest
  scs : t₁.gcurrentScs = t₂.gcurrentScs
  spacing : t₁.gcurrentScs = 15 ∧ n = 10 ∨ t₁.gcurrentScs = 30 ∧ n = 20
  dltti : ∀ i < 4, ∀ j < n, SameRow (t₁.gL1DlttiReqSize i j) (t₂.gL1DlttiReqSize i j)
    (t₁.gL1DLTTIReq i j) (t₂.gL1DLTTIReq i j)
  ultti : ∀ i < 4, ∀ j < n, SameRow (t₁.gL1UlttiReqSize i j) (t₂.gL1UlttiReqSize i j)
    (t₁.gL1ULTTI i j) (t₂.gL1ULTTI i j)
  txdata : ∀ i < 4, ∀ j < n, SameTx (t₁.gL1TXDATAREQ i j) (t₂.gL1TXDATAREQ i j)

/-- A row that is replaced in two tables. -/
theorem set_agree {α : Type} {R : ℕ → α → α → Prop} {table₁ table₂ : SlotTable α} {v₁ v₂ : α}
    (h : R (rowIndex i j) (table₁ i j) (table₂ i j)) (hv : R p v₁ v₂) :
    R (rowIndex i j) (table₁.set p v₁ i j) (table₂.set p v₂ i j) := by
  rw [SlotTable.set_row, SlotTable.set_row]
  split_ifs with hp
  · rwa [hp]
  · exact h

/-- A row of the DL_TTI table is replaced in both tables. -/
theorem SameRows.setDltti (h : SameRows n t₁ t₂) {row₁ row₂ : Mem}
    (hrow : SameRow (t₁.gL1DlttiReqSize.rows p) (t₂.gL1DlttiReqSize.rows p) row₁ row₂) :
    SameRows n { t₁ with gL1DLTTIReq := t₁.gL1DLTTIReq.set p row₁ }
      { t₂ with gL1DLTTIReq := t₂.gL1DLTTIReq.set p row₂ } :=
  { h with
    dltti := fun k hk l hl => set_agree
      (R := fun q => SameRow (t₁.gL1DlttiReqSize.rows q) (t₂.gL1DlttiReqSize.rows q))
      (h.dltti k hk l hl) hrow }

/-- A row of the UL_TTI table is replaced in both tables. -/
theorem SameRows.setUltti (h : SameRows n t₁ t₂) {row₁ row₂ : Mem}
    (hrow : SameRow (t₁.gL1UlttiReqSize.rows p) (t₂.gL1UlttiReqSize.rows p) row₁ row₂) :
    SameRows n { t₁ with gL1ULTTI := t₁.gL1ULTTI.set p row₁ }
      { t₂ with gL1ULTTI := t₂.gL1ULTTI.set p row₂ } :=
  { h with
    ultti := fun k hk l hl => set_agree
      (R := fun q => SameRow (t₁.gL1UlttiReqSize.rows q) (t₂.gL1UlttiReqSize.rows q))
      (h.ultti k hk l hl) hrow }

theorem SameRows.tti (h : SameRows n t₁ t₂) (r : TtiReq) (hi : i < 4) (hj : j < n) :
    SameRow (r.sizes t₁ i j) (r.sizes t₂ i j) (r.rows t₁ i j) (r.rows t₂ i j) := by
  cases r with
  | dl => exact h.dltti i hi j hj
  | ul => exact h.ultti i hi j hj

/-- A row of one table or the other is replaced in both. -/
theorem SameRows.setTti (h : SameRows n t₁ t₂) (r : TtiReq) {row₁ row₂ : Mem}
    (hrow : SameRow ((r.sizes t₁).rows p) ((r.sizes t₂).rows p) row₁ row₂) :
    SameRows n (r.withRows t₁ ((r.rows t₁).set p row₁))
      (r.withRows t₂ ((r.rows t₂).set p row₂)) := by
  cases r with
  | dl => exact h.setDltti hrow
  | ul => exact h.setUltti hrow

/-- A row of the TX_DATA table is replaced in both tables. -/
theorem SameRows.setTxdata (h : SameRows n t₁ t₂) {row₁ row₂ : Mem} (hrow : SameTx row₁ row₂) :
    SameRows n { t₁ with gL1TXDATAREQ := t₁.gL1TXDATAREQ.set p row₁ }
      { t₂ with gL1TXDATAREQ := t₂.gL1TXDATAREQ.set p row₂ } :=
  { h with
    txdata := fun k hk l hl => set_agree (R := fun _ => SameTx) (h.txdata k hk l hl) hrow }

theorem sixteen_le_txLength (row : Mem) : 16 ≤ txLength row := by
  have hle : offsetofPdus ≤ pduEnd row 8 (rd16 row 12) offsetofPdus := le_pduEnd
  exact Nat.add_le_add_right hle 8

end TestMac

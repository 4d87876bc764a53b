import TestMac.Mac.Runs
import TestMac.Mac.TableUses

/-!
# The rows of a cell

A cell has eighty rows in every table. What it does stays in them as long as the slots
that it prepares and the files that it finds lead to them, and then every other cell
finds its own rows as they were.
-/

namespace TestMac

open Bytes Act

variable {env : Env} {files : TcFiles} {t : TcTables} {w : World} {dev cell : ℕ}

/-- The number of rows that a cell has in a table. -/
def ownRows : ℕ := 80

/-- The subscripts lead to a row of the cell. -/
def IsOwnRow (sfn slot : ℕ) : Prop := rowIndex sfn slot < ownRows

instance (sfn slot : ℕ) : Decidable (IsOwnRow sfn slot) := inferInstanceAs (Decidable (_ < _))

/-- An input writes rows of the cell only: those of the slot that it prepares, or of the
files that it finds. -/
def CellInput.InRows (env : Env) (c : Cell) (i : CellInput) : Prop :=
  (∀ g, c.preparing env i = some g → IsOwnRow (sfnWindow g.SFN) (g.Slot % 256)) ∧
  ∀ files, i = .txCase files → ∀ sfn < 4, ∀ slot < loadSlotNum files c.tables,
    HasFile files sfn slot → IsOwnRow sfn slot

/-- The rows behind those of the cell. -/
def Cell.rowsBehind (c : Cell) : TcRows := c.tables.toTcRows.behind ownRows

theorem SlotTable.behind_set {α : Type} (table : SlotTable α) {n p : ℕ} (hp : p < n) (v : α) :
    (table.set p v).behind n = table.behind n := by
  ext k
  exact if_neg (by omega)

section Kept

/-- The handlers leave the rows behind alone. -/
theorem rowsBehind_handling : Handling fun c c' => c'.rowsBehind = c.rowsBehind where
  sending _ :=
    { refl := fun _ => rfl
      trans := fun h h' => h'.trans h
      calls := fun _ _ => rfl
      ctxt := fun _ _ => rfl
      sent := fun _ _ _ _ => rfl }
  state _ _ := rfl
  schState _ _ := rfl
  clock _ _ := rfl
  event _ _ _ := rfl

theorem rowsBehind_withRows {r : TtiReq} {p : ℕ} (hp : p < ownRows) (row : Mem) :
    (r.withRows t ((r.rows t).set p row)).toTcRows.behind ownRows =
      t.toTcRows.behind ownRows := by
  cases r with
  | dl => simp [TtiReq.withRows, TtiReq.rows, TcRows.behind, SlotTable.behind_set _ hp]
  | ul => simp [TtiReq.withRows, TtiReq.rows, TcRows.behind, SlotTable.behind_set _ hp]

/-- A request that is a row of the cell. -/
theorem rowsBehind_sendTtiReq {r : TtiReq} {sfn slot : ℕ} (h : IsOwnRow (sfnWindow sfn) slot) :
    Keeps Cell.rowsBehind (r.send env sfn slot) := by
  intro c
  have happend : ∀ {msgSize : ℕ} {body : List UInt8} (c₁ : Cell), c₁.rowsBehind = c.rowsBehind →
      Ensures (appendL1Msg env r.msgId msgSize body sfn slot r.msgType) c₁ fun _ c' =>
        c'.rowsBehind = c.rowsBehind := by
    intro msgSize body c₁ h₁
    refine Ensures.mono ((rowsBehind_handling.sending [r.msgId]).appendL1Msg
      (List.mem_singleton_self _) c₁) ?_
    intro _ c' hc'
    exact hc'.trans h₁
  simp only [TtiReq.send, ensures_bind, ensures_allocL1CtrlMsgMem, ensures_rowAt, ensures_read,
    ensures_ite, setTables, ensures_update]
  intro _ _
  exact ⟨fun _ => happend _ (rowsBehind_withRows h _), fun _ => happend _ (rowsBehind_withRows h _)⟩

/-- A TX_DATA request of a row of the cell. -/
theorem rowsBehind_sendTxdataReq {sfn slot : ℕ} (h : IsOwnRow (sfnWindow sfn) slot) :
    Keeps Cell.rowsBehind (sendTxdataReq env sfn slot) := by
  intro c
  simp only [sendTxdataReq, ensures_bind, ensures_allocL1CtrlMsgMem, ensures_rowAt, ensures_read,
    id]
  intro _ _
  refine Finishes.ensures (finishes_txdataParams.mpr ?_)
  refine Ensures.mono ((rowsBehind_handling.sending [fapiTxDataRequest]).appendL1Msg
    (List.mem_singleton_self _) _) ?_
  intro _ c' hc'
  rw [hc']
  simp [Cell.rowsBehind, Cell.walked, TcRows.behind, SlotTable.behind_set _ h]

theorem rowsBehind_clearSlot {p : ℕ} (hp : p < ownRows) :
    (clearSlot t p).toTcRows.behind ownRows = t.toTcRows.behind ownRows := by
  simp [clearSlot, clearUltti, clearTxdata, clearDltti, TcRows.behind, SlotTable.behind_set _ hp]

theorem rowsBehind_loadSlot {sfn slot : ℕ} (h : HasFile files sfn slot → IsOwnRow sfn slot) :
    (loadSlot env files t sfn slot).toTcRows.behind ownRows = t.toTcRows.behind ownRows := by
  by_cases hfile : HasFile files sfn slot
  · have hbehind : ∀ {α : Type} (table : SlotTable α) (v : α),
        (table.set (rowIndex sfn slot) v).behind ownRows = table.behind ownRows :=
      fun table v => table.behind_set (h hfile) v
    unfold loadSlot
    cases files (.ultti sfn slot) <;> cases files (.dltti sfn slot) <;>
      cases files (.txdata sfn slot) <;>
      simp [loadUltti, loadDltti, loadTxdata, TcRows.behind, hbehind]
  · simp only [HasFile, not_or, Bool.not_eq_true, Option.isSome_eq_false_iff,
      Option.isNone_iff_eq_none] at hfile
    unfold loadSlot
    rw [hfile.1, hfile.2.1, hfile.2.2]

/-- A load that finds files of the rows of the cell only. -/
theorem rowsBehind_loadTables (h : ∀ sfn < 4, ∀ slot < loadSlotNum files t,
    HasFile files sfn slot → IsOwnRow sfn slot) :
    (loadTables env files t).toTcRows.behind ownRows = t.toTcRows.behind ownRows := by
  have hclear : (clearTables t).toTcRows.behind ownRows = t.toTcRows.behind ownRows := by
    refine foldl_tables (P := fun t' => t'.toTcRows.behind ownRows = t.toTcRows.behind ownRows)
      ?_ rfl
    intro ij hij t' ht'
    obtain ⟨hi, hj⟩ := mem_frameSlots.mp hij
    have hp : rowIndex ij.1 ij.2 < ownRows := by
      unfold rowIndex ownRows
      omega
    rw [rowsBehind_clearSlot hp, ht']
  have hconfig : (loadConfig files (clearTables t)).toTcRows.behind ownRows =
      t.toTcRows.behind ownRows := by
    rw [← hclear]
    unfold loadConfig
    cases files .config <;> rfl
  refine foldl_tables (P := fun t' => t'.toTcRows.behind ownRows = t.toTcRows.behind ownRows)
    ?_ hconfig
  intro ij hij t' ht'
  obtain ⟨hi, hj⟩ := mem_frameSlots.mp hij
  rw [rowsBehind_loadSlot (h ij.1 hi ij.2 hj), ht']

/-- An input that stays in the rows of the cell leaves those behind alone. -/
theorem rowsBehind_cellAction {c : Cell} {i : CellInput} (h : i.InRows env c) :
    Ensures (cellAction env i) c fun _ c' => c'.rowsBehind = c.rowsBehind := by
  by_cases htx : ∃ files, i = .txCase files
  · obtain ⟨files, rfl⟩ := htx
    rw [cellAction, txCase, ensures_bind, macTcLoad_eq, ensures_update, ensures_bind,
      ensures_update]
    refine (rowsBehind_handling.switch _).mono ?_
    intro _ c' hc'
    exact hc'.trans (rowsBehind_loadTables (h.2 files rfl))
  · have hi : ∀ files, i ≠ .txCase files := fun files hfiles => htx ⟨files, hfiles⟩
    refine rowsBehind_handling.ensures_cellAction hi ?_ ?_ ?_
    · intro g hg
      exact rowsBehind_sendTtiReq (r := .dl) (h.1 g hg)
    · intro g hg
      exact rowsBehind_sendTtiReq (r := .ul) (h.1 g hg)
    · intro g hg c₁ _
      exact rowsBehind_sendTxdataReq (h.1 g hg) c₁

end Kept

/-- The rows of the cell are the same in every table. -/
structure TcRows.SameOwn (rows rows' : TcRows) : Prop where
  dltti : ∀ k < ownRows, rows.gL1DLTTIReq.rows k = rows'.gL1DLTTIReq.rows k
  dlttiSize : ∀ k < ownRows, rows.gL1DlttiReqSize.rows k = rows'.gL1DlttiReqSize.rows k
  ultti : ∀ k < ownRows, rows.gL1ULTTI.rows k = rows'.gL1ULTTI.rows k
  ulttiSize : ∀ k < ownRows, rows.gL1UlttiReqSize.rows k = rows'.gL1UlttiReqSize.rows k
  txdata : ∀ k < ownRows, rows.gL1TXDATAREQ.rows k = rows'.gL1TXDATAREQ.rows k
  txdataSize : ∀ k < ownRows, rows.gL1TxdataReqSize.rows k = rows'.gL1TxdataReqSize.rows k

theorem TcRows.SameOwn.refl (rows : TcRows) : rows.SameOwn rows :=
  ⟨fun _ _ => rfl, fun _ _ => rfl, fun _ _ => rfl, fun _ _ => rfl, fun _ _ => rfl, fun _ _ => rfl⟩

/-- Two cells of the process have no row in common. -/
theorem firstRow_disjoint {dev' cell' : ℕ} (hcell : cell < macMaxCellNum)
    (hcell' : cell' < macMaxCellNum) (hne : ¬ (dev' = dev ∧ cell' = cell)) :
    firstRow dev cell + ownRows ≤ firstRow dev' cell' ∨
      firstRow dev' cell' + ownRows ≤ firstRow dev cell := by
  unfold macMaxCellNum at hcell hcell'
  unfold firstRow ownRows
  omega

/-- A part of the rows that keeps the rows behind those of its cell leaves the rows of any
other cell alone. -/
theorem TcRows.sameOwn_put {rows part : TcRows} {n n' : ℕ}
    (hbehind : part.behind ownRows = (rows.behind n).behind ownRows)
    (hdisjoint : n + ownRows ≤ n' ∨ n' + ownRows ≤ n) :
    ((rows.put n part).behind n').SameOwn (rows.behind n') := by
  have hrow : ∀ {α : Type} {table part : SlotTable α} {k : ℕ}, k < ownRows →
      part.behind ownRows = (table.behind n).behind ownRows →
      ((table.put n part).behind n').rows k = (table.behind n').rows k := by
    intro α table part k hk hpart
    refine SlotTable.put_row fun hle => ?_
    have hat : ownRows + (n' + k - n - ownRows) = n' + k - n := by omega
    have hplace : n + (n' + k - n) = n' + k := by omega
    have heq := congrArg (fun table => table.rows (n' + k - n - ownRows)) hpart
    simpa [SlotTable.behind, hat, hplace] using heq
  simp only [TcRows.behind, TcRows.mk.injEq] at hbehind
  obtain ⟨h₁, h₂, h₃, h₄, h₅, h₆⟩ := hbehind
  exact ⟨fun _ hk => hrow hk h₁, fun _ hk => hrow hk h₂, fun _ hk => hrow hk h₃,
    fun _ hk => hrow hk h₄, fun _ hk => hrow hk h₅, fun _ hk => hrow hk h₆⟩

/-- An input stays in the rows of the cells that it reaches, which are cells of the
process. -/
def Input.InRows (w : World) (m : Mac) (i : Input) : Prop :=
  ∀ dev cell ci, i.atCell w m.cellNum dev cell = some ci →
    cell < macMaxCellNum ∧ ci.InRows (w.env dev cell) (m.cells dev cell)

/-- A cell that is not reached finds its own rows as they were. -/
theorem Handles.sameOwn {m m' : Mac} {i : Input} (h : Handles w m i m') (hin : i.InRows w m)
    (hcell : cell < macMaxCellNum) (hnone : i.atCell w m.cellNum dev cell = none) :
    (m'.cells dev cell).tables.toTcRows.SameOwn (m.cells dev cell).tables.toTcRows := by
  rcases h.reaches.rows with hrows | ⟨dev', cell', hreach, hrows⟩
  · have hsame : (m'.cells dev cell).tables.toTcRows = (m.cells dev cell).tables.toTcRows :=
      congrArg (fun rows => TcRows.behind rows (firstRow dev cell)) hrows
    rw [hsame]
    exact .refl _
  · obtain ⟨ci, hci⟩ := Option.ne_none_iff_exists'.mp hreach
    obtain ⟨hcell', hrowsIn⟩ := hin dev' cell' ci hci
    have hne : ¬ (dev' = dev ∧ cell' = cell) := by
      rintro ⟨rfl, rfl⟩
      exact hreach hnone
    have hhandled := h.atCell dev' cell'
    rw [hci] at hhandled
    have hbehind := rowsBehind_cellAction hrowsIn () _ hhandled
    have hput : ((m.cells.rows.put (firstRow dev' cell')
        (m'.cells dev' cell').tables.toTcRows).behind (firstRow dev cell)).SameOwn
          (m.cells.rows.behind (firstRow dev cell)) :=
      TcRows.sameOwn_put hbehind ((firstRow_disjoint hcell hcell' hne).symm)
    rw [← hrows] at hput
    exact hput

end TestMac

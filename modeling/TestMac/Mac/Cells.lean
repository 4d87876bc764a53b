import TestMac.Mac.State

/-!
# The cells of the process

The tables by frame and slot are arrays of all cells. What a cell keeps to itself is
stored by device and cell; the rows are stored once, one cell behind the other. A cell
sees them from its own first row on, and so does whoever writes behind the rows of its
own.
-/

namespace TestMac

/-- The globals of a cell without the tables by frame and slot. -/
structure CellOwn where
  ctx : MacContent
  clock : SlotClock
  gL1ConfigRequest : Bytes.Mem
  gL1ConfigReqSize : ℕ
  gcurrentScs : ℕ
  phyCtrlMsgCtxt : PhyApiTxCtxt
  calls : ℕ
  log : List CellEvent
  uses : List TableUse

/-- What a cell keeps to itself. -/
def Cell.own (c : Cell) : CellOwn where
  ctx := c.ctx
  clock := c.clock
  gL1ConfigRequest := c.tables.gL1ConfigRequest
  gL1ConfigReqSize := c.tables.gL1ConfigReqSize
  gcurrentScs := c.tables.gcurrentScs
  phyCtrlMsgCtxt := c.phyCtrlMsgCtxt
  calls := c.calls
  log := c.log
  uses := c.uses

/-- The cell with the rows that it sees. -/
def CellOwn.withRows (o : CellOwn) (rows : TcRows) : Cell where
  ctx := o.ctx
  clock := o.clock
  tables :=
    { rows with
      gL1ConfigRequest := o.gL1ConfigRequest
      gL1ConfigReqSize := o.gL1ConfigReqSize
      gcurrentScs := o.gcurrentScs }
  phyCtrlMsgCtxt := o.phyCtrlMsgCtxt
  calls := o.calls
  log := o.log
  uses := o.uses

/-- A table from a place on. -/
def SlotTable.behind {α : Type} (table : SlotTable α) (n : ℕ) : SlotTable α :=
  ⟨fun k => table.rows (n + k)⟩

/-- A table whose part from a place on is replaced. -/
def SlotTable.put {α : Type} (table : SlotTable α) (n : ℕ) (part : SlotTable α) : SlotTable α :=
  ⟨fun k => if k < n then table.rows k else part.rows (k - n)⟩

def TcRows.behind (rows : TcRows) (n : ℕ) : TcRows where
  gL1DLTTIReq := rows.gL1DLTTIReq.behind n
  gL1DlttiReqSize := rows.gL1DlttiReqSize.behind n
  gL1ULTTI := rows.gL1ULTTI.behind n
  gL1UlttiReqSize := rows.gL1UlttiReqSize.behind n
  gL1TXDATAREQ := rows.gL1TXDATAREQ.behind n
  gL1TxdataReqSize := rows.gL1TxdataReqSize.behind n

def TcRows.put (rows : TcRows) (n : ℕ) (part : TcRows) : TcRows where
  gL1DLTTIReq := rows.gL1DLTTIReq.put n part.gL1DLTTIReq
  gL1DlttiReqSize := rows.gL1DlttiReqSize.put n part.gL1DlttiReqSize
  gL1ULTTI := rows.gL1ULTTI.put n part.gL1ULTTI
  gL1UlttiReqSize := rows.gL1UlttiReqSize.put n part.gL1UlttiReqSize
  gL1TXDATAREQ := rows.gL1TXDATAREQ.put n part.gL1TXDATAREQ
  gL1TxdataReqSize := rows.gL1TxdataReqSize.put n part.gL1TxdataReqSize

/-- The globals of all cells. -/
structure Cells where
  own : ℕ → ℕ → CellOwn
  rows : TcRows

/-- The first row of a cell. -/
def firstRow (dev cell : ℕ) : ℕ := 80 * (2 * dev + cell)

/-- The cell of a device. -/
def Cells.cell (cells : Cells) (dev cell : ℕ) : Cell :=
  (cells.own dev cell).withRows (cells.rows.behind (firstRow dev cell))

instance : CoeFun Cells fun _ => ℕ → ℕ → Cell := ⟨Cells.cell⟩

/-- A cell is replaced, with the rows it sees. -/
def Cells.set (cells : Cells) (dev cell : ℕ) (c : Cell) : Cells where
  own := setEntry cells.own dev cell c.own
  rows := cells.rows.put (firstRow dev cell) c.tables.toTcRows

/-- All cells are alike, and see the same in every row. -/
def Cells.alike (c : Cell) : Cells where
  own _ _ := c.own
  rows := c.tables.toTcRows

variable {cells : Cells} {dev cell dev' cell' : ℕ} {c : Cell}

theorem withRows_own (c : Cell) : c.own.withRows c.tables.toTcRows = c := rfl

@[simp]
theorem own_withRows (o : CellOwn) (rows : TcRows) : (o.withRows rows).own = o := rfl

section Own

variable {c' : Cell} (h : c'.own = c.own)

include h

theorem own_ctx : c'.ctx = c.ctx := congrArg CellOwn.ctx h

theorem own_clock : c'.clock = c.clock := congrArg CellOwn.clock h

theorem own_log : c'.log = c.log := congrArg CellOwn.log h

theorem own_uses : c'.uses = c.uses := congrArg CellOwn.uses h

end Own

theorem SlotTable.put_behind {α : Type} (table : SlotTable α) (n : ℕ) (part : SlotTable α) :
    (table.put n part).behind n = part := by
  simp [SlotTable.put, SlotTable.behind]

theorem SlotTable.behind_put {α : Type} (table : SlotTable α) (n : ℕ) :
    table.put n (table.behind n) = table := by
  ext k
  simp only [SlotTable.put, SlotTable.behind]
  split_ifs with h
  · rfl
  · rw [Nat.add_sub_cancel' (Nat.le_of_not_lt h)]

theorem TcRows.put_behind (rows : TcRows) (n : ℕ) (part : TcRows) :
    (rows.put n part).behind n = part := by
  simp [TcRows.put, TcRows.behind, SlotTable.put_behind]

/-- The cell that has been replaced. -/
@[simp]
theorem cells_set_same : (cells.set dev cell c) dev cell = c := by
  simp only [Cells.cell, Cells.set, setEntry_same, TcRows.put_behind, withRows_own]

/-- Any other cell keeps what is its own. -/
theorem cells_set_own (h : ¬ (dev' = dev ∧ cell' = cell)) :
    ((cells.set dev cell c) dev' cell').own = (cells dev' cell').own :=
  setEntry_other h

theorem TcRows.behind_put (rows : TcRows) (n : ℕ) : rows.put n (rows.behind n) = rows := by
  simp [TcRows.put, TcRows.behind, SlotTable.behind_put]

theorem cells_set_rows (hrows : c.tables.toTcRows = (cells dev cell).tables.toTcRows) :
    (cells.set dev cell c).rows = cells.rows := by
  rw [Cells.set, hrows]
  exact TcRows.behind_put cells.rows (firstRow dev cell)

/-- A cell that keeps the rows it sees leaves every other cell alone. -/
theorem cells_set_other (hrows : c.tables.toTcRows = (cells dev cell).tables.toTcRows)
    (h : ¬ (dev' = dev ∧ cell' = cell)) :
    (cells.set dev cell c) dev' cell' = cells dev' cell' := by
  rw [Cells.cell, cells_set_rows hrows]
  simp only [Cells.cell, Cells.set, setEntry_other h]

/-- A row of another cell is kept when it lies in front of the cell, or when the cell has
kept it. -/
theorem SlotTable.put_row {α : Type} {table part : SlotTable α} {n n' k : ℕ}
    (h : n ≤ n' + k → part.rows (n' + k - n) = table.rows (n' + k)) :
    ((table.put n part).behind n').rows k = (table.behind n').rows k := by
  simp only [SlotTable.put, SlotTable.behind]
  split_ifs with hlt
  · rfl
  · exact h (Nat.le_of_not_lt hlt)

end TestMac

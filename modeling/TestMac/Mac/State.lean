import TestMac.Fapi.Layout
import TestMac.Lib.Action

/-!
# The state of a cell: `mac.h` and the globals of `mac.c`

All globals of the source are indexed by device and cell. A cell is the record of
its entries. Three more fields are of the model: the number of calls made to the
driver, the log of what the cell did, and the subscripts it has applied to the tables
by frame and slot. No handler reads them.

The tables by frame and slot have twenty slots in a frame and four frames in a cell, and
the cells of a device lie behind one another. Nothing checks a slot, so a cell finds the
row of its slot 20 in the next frame, and those behind its last frame in the next cell.

What lies outside the process is an environment: the driver answers its calls, in
order, and the configuration of the process does not change.
-/

namespace TestMac

open Bytes Act

/-- `MacStatus_e`. -/
inductive MacStatus
  | phyIdle
  | phyCfg
  | phyInit
  | phyActive
  deriving DecidableEq

/-- `MacSchStatus_e`. -/
inductive MacSchStatus
  | schStop
  | schNormal
  | schDefault
  deriving DecidableEq

/-- `TestMacRunMode_e`. -/
inductive TestMacRunMode
  | fapiGenerator
  | rctMode
  deriving DecidableEq

/-- `TestMacOperMode_e`. -/
inductive TestMacOperMode
  | auto
  | manual
  deriving DecidableEq

/-- `TestMacPdschMode_e`. -/
inductive TestMacPdschMode
  | autoMode
  | loadMode
  deriving DecidableEq

/-- `MacContent_s`, without the message rings. -/
structure MacContent where
  runMode : TestMacRunMode
  state : MacStatus
  schState : MacSchStatus
  operMode : TestMacOperMode
  pdschMode : TestMacPdschMode
  phyStub : Bool
  runttiPerTc : ℕ

/-- The counter of slots and the registers for the slot being prepared. -/
structure SlotClock where
  gSystemTtiNum : ℕ
  sMacLocalGSfn : SlotIndication
  gL2TxGSfn : SlotIndication
  gL2RxGSfn : SlotIndication
  gMacTxRfn : ℕ
  gMacTxSlot : ℕ
  gMacRxRfn : ℕ
  gMacRxSlot : ℕ

/-- A table by frame and slot, from the first row of a cell on. -/
@[ext]
structure SlotTable (α : Type) where
  rows : ℕ → α

/-- The place of a row behind the first row of its cell. -/
def rowIndex (sfn slot : ℕ) : ℕ := 20 * sfn + slot

/-- The row that two subscripts lead to. -/
def SlotTable.row {α : Type} (table : SlotTable α) (sfn slot : ℕ) : α :=
  table.rows (rowIndex sfn slot)

instance {α : Type} : CoeFun (SlotTable α) fun _ => ℕ → ℕ → α := ⟨SlotTable.row⟩

/-- Replacing the row at a place. -/
def SlotTable.set {α : Type} (table : SlotTable α) (p : ℕ) (v : α) : SlotTable α :=
  ⟨fun k => if k = p then v else table.rows k⟩

/-- The messages loaded for a test case and their sizes, of a cell and of the cells that
lie behind it. -/
structure TcRows where
  gL1DLTTIReq : SlotTable Mem
  gL1DlttiReqSize : SlotTable ℕ
  gL1ULTTI : SlotTable Mem
  gL1UlttiReqSize : SlotTable ℕ
  gL1TXDATAREQ : SlotTable Mem
  gL1TxdataReqSize : SlotTable ℕ

/-- The messages loaded for a test case, and the carrier spacing found in the
configuration. -/
structure TcTables extends TcRows where
  gL1ConfigRequest : Mem
  gL1ConfigReqSize : ℕ
  gcurrentScs : ℕ

/-- Two subscripts applied to a table by frame and slot. -/
inductive TableUse
  /-- Behind the device and the cell, to a table of requests or of their sizes. -/
  | row (sfn slot : ℕ)
  /-- Behind the cell alone, to a table of sizes. -/
  | size (sfn slot : ℕ)
  /-- `Predefine_Data_Buf`. -/
  | data (sfn slot : ℕ)
  deriving DecidableEq

/-- `PhyApiTxCtxt_s`, with the number of messages of the group header it points to. -/
structure PhyApiTxCtxt where
  msgNum : ℕ
  curMsgLen : ℕ
  maxRemLen : ℕ
  totalLen : ℕ

/-- What a cell does or learns, as far as it is seen from outside. -/
inductive CellEvent
  /-- `pcxxCtrlSend` accepts the bytes of a message. -/
  | sent (msgId : ℕ) (bytes : List UInt8)
  /-- `pcxxDataSend` is called for the bytes at an offset. -/
  | dataSent (offset : ℕ) (bytes : List UInt8)
  /-- `macSchedule` calls `macTtiTx`. -/
  | ttiTx (sfn slot : ℕ)
  | cfgResponse (errorCode : ℕ)
  | errorIndication (messageId errorCode : ℕ)
  | stopIndication
  deriving DecidableEq

/-- The globals of one device and cell. -/
structure Cell where
  ctx : MacContent
  clock : SlotClock
  tables : TcTables
  phyCtrlMsgCtxt : PhyApiTxCtxt
  /-- The calls made to the driver. -/
  calls : ℕ
  log : List CellEvent
  uses : List TableUse

/-- `MacTxEnable_t`. -/
structure MacTxEnable where
  dlttiTxEnable : ℕ
  ulttiTxEnable : ℕ
  txdataTxEnble : ℕ

/-- What surrounds the cell. The first five fields answer the calls to the driver,
by the number of the call. -/
structure Env where
  /-- `pcxxSendStart` returns 0. -/
  pcxxSendStart : ℕ → Bool
  /-- The room behind the pointer that `pcxxCtrlAlloc` hands out, or no pointer. -/
  pcxxCtrlAlloc : ℕ → Option ℕ
  /-- `pcxxCtrlSend` returns 0. -/
  pcxxCtrlSend : ℕ → Bool
  /-- `pcxxSendEnd` returns 0. -/
  pcxxSendEnd : ℕ → Bool
  /-- The offset that `pcxxDataAlloc` finds, or no room. -/
  pcxxDataAlloc : ℕ → Option ℕ
  macTxEnable : MacTxEnable
  /-- `Predefine_Data_Buf`. -/
  predefineDataBuf : ℕ → ℕ → Mem
  /-- `ConfigReqParams`, `DlttiParams` and `UlttiParams`, which serialise a message
  by its identifier in `RUNMODE_RCT_MODE`. They update the table entry. -/
  rctParams : ℕ → SlotClock → Mem → Mem × List UInt8
  /-- The number of bytes that `fread` brings into the row of a message, by the number of
  bytes in the file. It is called for one item of as many bytes as an address is large,
  and what is stored of an item that the file does not fill is left to the library. -/
  fread : ℕ → ℕ → ℕ → ℕ → ℕ
  /-- The variable `mask` of `gsfnShift` when it is not set. -/
  unsetMask : ℕ

/-- An action of one cell. -/
abbrev CellM := Act Cell

def setPhyState (state : MacStatus) : CellM Unit :=
  update fun c => { c with ctx := { c.ctx with state := state } }

def setSchState (schState : MacSchStatus) : CellM Unit :=
  update fun c => { c with ctx := { c.ctx with schState := schState } }

def setClock (f : SlotClock → SlotClock) : CellM Unit :=
  update fun c => { c with clock := f c.clock }

def setTables (f : TcTables → TcTables) : CellM Unit :=
  update fun c => { c with tables := f c.tables }

/-- Subscripts are applied to a table by frame and slot. -/
def useTable (u : TableUse) : CellM Unit := update fun c => { c with uses := c.uses ++ [u] }

/-- The place that two subscripts of a table of requests or sizes lead to. -/
def rowAt (sfn slot : ℕ) : CellM ℕ := do
  useTable (.row sfn slot)
  pure (rowIndex sfn slot)

/-- An entry of the log. -/
def logEvent (e : CellEvent) : CellM Unit :=
  update fun c => { c with log := c.log ++ [e] }

/-- A call to the driver, answered by the number of the call. -/
def pcxx {α : Type} (answer : ℕ → α) : CellM α := do
  let n ← read Cell.calls
  update fun c => { c with calls := n + 1 }
  pure (answer n)

/-- Replacing an entry of a table. -/
def setEntry {α : Type} (table : ℕ → ℕ → α) (i j : ℕ) (v : α) : ℕ → ℕ → α := fun i' j' =>
  if i' = i ∧ j' = j then v else table i' j'

section SetEntry

variable {α : Type} {table : ℕ → ℕ → α} {i j : ℕ}

@[simp]
theorem setEntry_same (v : α) : setEntry table i j v i j = v := if_pos ⟨rfl, rfl⟩

theorem setEntry_other {i' j' : ℕ} {v : α} (h : ¬ (i' = i ∧ j' = j)) :
    setEntry table i j v i' j' = table i' j' := if_neg h

@[simp]
theorem setEntry_self : setEntry table i j (table i j) = table := by
  funext i' j'
  unfold setEntry
  split_ifs with h
  · rw [h.1, h.2]
  · rfl

end SetEntry

section Rows

variable {α : Type} {table : SlotTable α} {p i j i' j' : ℕ}

@[simp]
theorem SlotTable.rows_rowIndex : table.rows (rowIndex i j) = table i j := rfl

theorem SlotTable.set_row (v : α) :
    (table.set p v) i j = if rowIndex i j = p then v else table i j := rfl

@[simp]
theorem SlotTable.set_rows_same (v : α) : (table.set p v).rows p = v := if_pos rfl

@[simp]
theorem SlotTable.set_same (v : α) : (table.set (rowIndex i j) v) i j = v := if_pos rfl

theorem SlotTable.set_other {v : α} (h : rowIndex i j ≠ p) : (table.set p v) i j = table i j :=
  if_neg h

@[simp]
theorem SlotTable.set_twice (v v' : α) : (table.set p v).set p v' = table.set p v' := by
  ext k
  simp only [SlotTable.set]
  split_ifs <;> rfl

@[simp]
theorem SlotTable.set_self : table.set p (table.rows p) = table := by
  ext k
  simp only [SlotTable.set]
  split_ifs with h
  · rw [h]
  · rfl

/-- Within the twenty slots of a frame, two subscripts are a place. -/
theorem rowIndex_inj (hj : j < 20) (hj' : j' < 20) (h : rowIndex i' j' = rowIndex i j) :
    i' = i ∧ j' = j := by
  unfold rowIndex at h
  omega

theorem rowIndex_ne (hj : j < 20) (hj' : j' < 20) (h : ¬ (i' = i ∧ j' = j)) :
    rowIndex i' j' ≠ rowIndex i j := fun heq => h (rowIndex_inj hj hj' heq)

end Rows

end TestMac

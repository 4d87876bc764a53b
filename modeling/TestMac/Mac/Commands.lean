import TestMac.Lib.Paths
import TestMac.Mac.Cells
import TestMac.Mac.Handlers

/-!
# Commands and messages: `appMgrMsgqHRecv` and the runs of the MAC

The state of all cells, and what happens to it: an application command is
handled, or the PHY sends a response or an indication to a cell. A run is a list
of such inputs; it stops short when an assertion fails.
-/

namespace TestMac

open Act

/-- `CtrlMsg_s`. -/
structure CtrlMsg where
  msgId : ℕ
  para0 : ℕ
  para1 : ℕ
  para2 : ℕ
  para3 : ℕ
  deriving DecidableEq

/-- `CtrlMsg_ev`. -/
def appStartTest : ℕ := 100
def appSimTti : ℕ := 101
def appStopTest : ℕ := 102
def appTcConfigCase : ℕ := 104
def appTcDlCase : ℕ := 105
def appTcUlCase : ℕ := 106
def appTcTxCase : ℕ := 107
def appTxCase : ℕ := 108
def appTcStop : ℕ := 109

/-- The device and the cell a command is addressed to, of type `uint8_t`. -/
def CtrlMsg.devIndex (msg : CtrlMsg) : ℕ := msg.para2 % 256

def CtrlMsg.cellId (msg : CtrlMsg) : ℕ := msg.para3 % 256

/-- The globals of the MAC: the cells by device and number, `gCellNum`,
`sTcIdInRunning` and the variable `cellNum` of `appMgrMsgqHRecv`. The devices and cells
that the tables have been subscripted by are of the model; no handler reads them. -/
structure Mac where
  cells : Cells
  cellNum : ℕ
  gCellNum : ℕ
  sTcIdInRunning : ℕ
  cellUses : List (ℕ × ℕ)

/-- What surrounds the MAC: the driver of every cell, and the files of every test
case for a cell. -/
structure World where
  env : ℕ → ℕ → Env
  files : ℕ → ℕ → TcFiles

/-- An action of one of the cells. -/
def onCell (dev cell : ℕ) (x : CellM Unit) : Act Mac Unit :=
  lift (fun mac => mac.cells dev cell)
    (fun c mac => { mac with
      cells := mac.cells.set dev cell c
      cellUses := mac.cellUses ++ [(dev, cell)] }) x

variable (w : World)

/-- `MAC_MAX_CELL_NUM`. -/
def macMaxCellNum : ℕ := 2

/-- The case `APP_TX_CASE` of `appMgrMsgqHRecv`. -/
def recvTxCase (msg : CtrlMsg) : Act Mac Unit := do
  when (msg.para1 ≠ 0 ∧ msg.para1 ≤ macMaxCellNum)
    (update fun mac => { mac with cellNum := msg.para1 })
  update fun mac => { mac with gCellNum := mac.cellNum }
  onCell msg.devIndex msg.cellId (txCase (w.env msg.devIndex msg.cellId)
    (w.files (msg.para0 % 65536) msg.cellId))

/-- The cases with a loop over the cells of a device. -/
def onCells (dev : ℕ) (x : ℕ → CellM Unit) : Act Mac Unit := do
  let cellNum ← read Mac.cellNum
  forEach (fun cell => onCell dev cell (x cell)) (List.range cellNum)

/-- `appMgrMsgqHRecv`. It returns `-1` for a command it does not know. -/
def appMgrMsgqHRecv (msg : CtrlMsg) : Act Mac ℤ :=
  let dev := msg.devIndex
  let cell := msg.cellId
  let env := w.env dev cell
  if msg.msgId = appTcConfigCase then do
    onCell dev cell (tcConfigCase env)
    pure 0
  else if msg.msgId = appTcDlCase then do
    onCell dev cell (tcDlCase env msg.para0 msg.para1)
    pure 0
  else if msg.msgId = appTcUlCase then do
    onCell dev cell (tcUlCase env msg.para0 msg.para1)
    pure 0
  else if msg.msgId = appTcTxCase then do
    onCell dev cell (tcTxCase env msg.para0 msg.para1)
    pure 0
  else if msg.msgId = appTxCase then do
    recvTxCase w msg
    pure 0
  else if msg.msgId = appTcStop then do
    onCells dev fun cell => tcStop (w.env dev cell)
    pure 0
  else if msg.msgId = appStartTest then do
    update fun mac => { mac with sTcIdInRunning := msg.para0 % 65536 }
    onCells dev fun cell => startTest (w.env dev cell)
    pure 0
  else pure (-1)

/-- What happens to the MAC. -/
inductive Input
  | appMsg (msg : CtrlMsg)
  | cfgResponse (dev cell errorCode : ℕ)
  | errorIndication (dev cell messageId errorCode : ℕ)
  | stopIndication (dev cell : ℕ)
  | slotIndication (dev cell : ℕ) (slotInd : SlotIndication)

/-- One input is handled. -/
def handle : Input → Act Mac Unit
  | .appMsg msg => do
    let _ ← appMgrMsgqHRecv w msg
  | .cfgResponse dev cell errorCode =>
    onCell dev cell (macRevCfgResonse (w.env dev cell) errorCode)
  | .errorIndication dev cell messageId errorCode =>
    onCell dev cell (macRevErrorIndication messageId errorCode)
  | .stopIndication dev cell => onCell dev cell (macRevStopIndication (w.env dev cell))
  | .slotIndication dev cell slotInd => onCell dev cell (slotIndication (w.env dev cell) slotInd)

end TestMac

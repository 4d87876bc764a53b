import TestMac.Mac.Load

/-!
# The handlers of one cell: `mac.c` and the cases of `fapiMsgDec`

What the PHY answers and indicates, and the part of every application command
that concerns one cell.
-/

namespace TestMac

open Bytes Act

variable (env : Env)

/-- `gsfnShift`. The variable `mask` is not set for other spacings than these. -/
def gsfnMask (scs : ℕ) : ℕ :=
  if scs = 15 then 10
  else if scs = 30 then 20
  else if scs = 60 then 40
  else if scs = 120 then 80
  else env.unsetMask

def gsfnShift (gsfn : SlotIndication) (shift scs : ℕ) : CellM SlotIndication := do
  let mask := gsfnMask env scs
  assert (shift < mask)
  if shift + gsfn.Slot < mask then pure ⟨gsfn.SFN, (gsfn.Slot + shift) % 65536⟩
  else pure ⟨(gsfn.SFN + 1) % 1024, (gsfn.Slot + shift - mask) % 65536⟩

/-- `macSchedule`. -/
def macSchedule (sfn slot : ℕ) : CellM Unit := do
  let ctx ← read Cell.ctx
  if ctx.schState = .schStop then pure ()
  else do
    logEvent (.ttiTx sfn slot)
    macTtiTx env sfn slot

/-- `macRevErrorIndication`. -/
def macRevErrorIndication (messageId errorCode : ℕ) : CellM Unit := do
  logEvent (.errorIndication messageId errorCode)
  if messageId = l1StartRequest then
    if errorCode ≠ 0 then setPhyState .phyIdle else setPhyState .phyActive
  else if messageId = l1StopRequest then setPhyState .phyIdle
  else pure ()

/-- `macRevCfgResonse`. -/
def macRevCfgResonse (errorCode : ℕ) : CellM Unit := do
  logEvent (.cfgResponse errorCode)
  if errorCode = 0 then do
    setPhyState .phyInit
    sendPhyStartReq env
    let ctx ← read Cell.ctx
    when (ctx.operMode = .auto) do
      setPhyState .phyInit
      when (ctx.phyStub = true) (macRevErrorIndication l1StartRequest 0)
  else setPhyState .phyIdle

/-- `macRevStopIndication`. -/
def macRevStopIndication : CellM Unit := do
  logEvent .stopIndication
  setPhyState .phyIdle
  let ctx ← read Cell.ctx
  if ctx.operMode = .auto ∧ ctx.schState ≠ .schStop then pure ()
  else do
    sendPhyConfigReq env
    setPhyState .phyCfg
    when (ctx.phyStub = true) (macRevCfgResonse env 0)

/-- The number of slots has come to a multiple of the slots of a test case. -/
def testCaseOver (runttiPerTc gSystemTtiNum : ℕ) : Prop :=
  runttiPerTc ≠ 0 ∧ gSystemTtiNum ≠ 0 ∧ gSystemTtiNum % runttiPerTc = 0

instance (runttiPerTc gSystemTtiNum : ℕ) : Decidable (testCaseOver runttiPerTc gSystemTtiNum) :=
  inferInstanceAs (Decidable (_ ∧ _))

/-- The counter of slots after one more. -/
def nextTti (clock : SlotClock) : SlotClock :=
  { clock with gSystemTtiNum := (clock.gSystemTtiNum + 1) % 4294967296 }

/-- The end of `macTxStartIndHandle`: the registers are set and the slot is scheduled. -/
def prepareSlot (slotInd : SlotIndication) : CellM Unit := do
  setClock nextTti
  let scs ← read fun c => c.tables.gcurrentScs
  let tx ← gsfnShift env slotInd 2 scs
  let rx ← gsfnShift env slotInd 2 scs
  let loc ← gsfnShift env slotInd 1 scs
  setClock fun clock => { clock with
    gL2TxGSfn := tx
    gL2RxGSfn := rx
    sMacLocalGSfn := loc
    gMacTxRfn := tx.SFN
    gMacTxSlot := tx.Slot % 256
    gMacRxRfn := rx.SFN
    gMacRxSlot := rx.Slot % 256 }
  macSchedule env tx.SFN (tx.Slot % 256)

/-- `macTxStartIndHandle`. -/
def macTxStartIndHandle (slotInd : SlotIndication) : CellM Unit := do
  let ctx ← read Cell.ctx
  when (ctx.state = .phyInit) do
    setPhyState .phyActive
    setSchState .schNormal
    setClock fun clock => { clock with gSystemTtiNum := 0, sMacLocalGSfn := ⟨0, 0⟩ }
  let c ← read id
  if c.ctx.state ≠ .phyActive then pure ()
  else do
    setClock fun clock => { clock with sMacLocalGSfn := slotInd }
    if testCaseOver c.ctx.runttiPerTc c.clock.gSystemTtiNum then do
      sendPhyStopReq env
      setSchState .schStop
      setClock nextTti
    else prepareSlot env slotInd

/-- The case `FAPI_SLOT_INDICATION` of `fapiMsgDec`. -/
def slotIndication (slotInd : SlotIndication) : CellM Unit := do
  macTxStartIndHandle env slotInd
  setPhyState .phyActive

/-- The case `APP_TC_CONFIG_CASE` of `appMgrMsgqHRecv`. -/
def tcConfigCase : CellM Unit := do
  sendPhyParamReq env
  sendPhyConfigReq env
  setPhyState .phyCfg

/-- The case `APP_TC_DL_CASE`. -/
def tcDlCase (sfn slot : ℕ) : CellM Unit := do
  setClock fun clock => { clock with gL2TxGSfn := ⟨sfn % 65536, slot % 65536⟩ }
  sendSingleDlTTIReq env (sfn % 65536) (slot % 256)

/-- The case `APP_TC_UL_CASE`. -/
def tcUlCase (sfn slot : ℕ) : CellM Unit := do
  setClock fun clock => { clock with gL2RxGSfn := ⟨sfn % 65536, slot % 65536⟩ }
  sendSingleUlTTIReq env (sfn % 65536) (slot % 256)

/-- The case `APP_TC_TX_CASE`. -/
def tcTxCase (sfn slot : ℕ) : CellM Unit := do
  setClock fun clock => { clock with gL2TxGSfn := ⟨sfn % 65536, slot % 65536⟩ }
  sendSingleTxDataReq env (sfn % 65536) (slot % 256)

/-- A stop request, confirmed at once by the stub of the PHY. -/
def stopForSwitch : CellM Unit := do
  sendPhyStopReq env
  let ctx ← read Cell.ctx
  when (ctx.phyStub = true) (macRevErrorIndication l1StopRequest 0)

/-- A configuration request, confirmed at once by the stub of the PHY. -/
def configForSwitch : CellM Unit := do
  sendPhyConfigReq env
  setPhyState .phyCfg
  let ctx ← read Cell.ctx
  when (ctx.phyStub = true) (macRevCfgResonse env 0)

/-- The case `APP_TX_CASE` for the cell it is addressed to. -/
def txCase (files : TcFiles) : CellM Unit := do
  macTcLoad env files
  update fun c => { c with ctx := { c.ctx with runMode := .fapiGenerator } }
  let ctx ← read Cell.ctx
  (if ctx.state ≠ .phyIdle then stopForSwitch env else configForSwitch env)
  setSchState .schNormal

/-- The case `APP_TC_STOP` for one cell. -/
def tcStop : CellM Unit := do
  sendPhyStopReq env
  setSchState .schStop

/-- The case `APP_START_TEST` for one cell. -/
def startTest : CellM Unit := do
  let ctx ← read Cell.ctx
  (if ctx.state ≠ .phyIdle then stopForSwitch env
    else do
      sendPhyParamReq env
      configForSwitch env)
  setSchState .schNormal

end TestMac

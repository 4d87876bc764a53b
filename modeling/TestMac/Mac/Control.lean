import TestMac.Mac.Commands

/-!
# The control machine of a cell

What decides whether a cell transmits is a small machine: the states of the PHY
and of the scheduler, the modes, and the counter of slots. Every input moves it in
one way, whatever the driver answers. `Control.next` says how, and `Control.trace`
what can be seen of it; which of the requests get through is left open.
-/

namespace TestMac

/-- The control state of a cell. -/
structure Control where
  state : MacStatus
  schState : MacSchStatus
  operMode : TestMacOperMode
  phyStub : Bool
  runttiPerTc : ℕ
  gSystemTtiNum : ℕ

/-- The control state in the globals of a cell. -/
def Cell.control (c : Cell) : Control :=
  { state := c.ctx.state
    schState := c.ctx.schState
    operMode := c.ctx.operMode
    phyStub := c.ctx.phyStub
    runttiPerTc := c.ctx.runttiPerTc
    gSystemTtiNum := c.clock.gSystemTtiNum }

theorem own_control {c c' : Cell} (h : c'.own = c.own) : c'.control = c.control := by
  simp only [Cell.control, own_ctx h, own_clock h]

/-- What happens to one cell. -/
inductive CellInput
  | tcConfigCase
  | tcDlCase (sfn slot : ℕ)
  | tcUlCase (sfn slot : ℕ)
  | tcTxCase (sfn slot : ℕ)
  | txCase (files : TcFiles)
  | tcStop
  | startTest
  | cfgResponse (errorCode : ℕ)
  | errorIndication (messageId errorCode : ℕ)
  | stopIndication
  | slotIndication (slotInd : SlotIndication)

/-- What a cell does with an input. -/
def cellAction (env : Env) : CellInput → CellM Unit
  | .tcConfigCase => tcConfigCase env
  | .tcDlCase sfn slot => tcDlCase env sfn slot
  | .tcUlCase sfn slot => tcUlCase env sfn slot
  | .tcTxCase sfn slot => tcTxCase env sfn slot
  | .txCase files => txCase env files
  | .tcStop => tcStop env
  | .startTest => startTest env
  | .cfgResponse errorCode => macRevCfgResonse env errorCode
  | .errorIndication messageId errorCode => macRevErrorIndication messageId errorCode
  | .stopIndication => macRevStopIndication env
  | .slotIndication slotInd => slotIndication env slotInd

/-- What can be seen of a step: requests with certain identifiers may be sent, data
may be sent with them; a slot is scheduled; or a certain event occurs. -/
inductive ControlEvent
  | requests (msgIds : List ℕ)
  | scheduled
  | event (e : CellEvent)

namespace Control

variable (s : Control)

/-- A PHY that has been configured becomes active with its first slot. -/
def started : Control :=
  if s.state = .phyInit then
    { s with state := .phyActive, schState := .schNormal, gSystemTtiNum := 0 }
  else s

/-- The counter of slots is stepped. -/
def counted : Control := { s with gSystemTtiNum := (s.gSystemTtiNum + 1) % 4294967296 }

/-- The started cell has transmitted for the slots of a test case. -/
def Over : Prop := testCaseOver s.runttiPerTc s.gSystemTtiNum

instance : Decidable s.Over := inferInstanceAs (Decidable (testCaseOver _ _))

/-- A slot indication goes to the scheduler, which runs. -/
def Schedules : Prop :=
  s.started.state = .phyActive ∧ ¬ s.started.Over ∧ s.started.schState ≠ .schStop

instance : Decidable s.Schedules := inferInstanceAs (Decidable (_ ∧ _ ∧ _))

/-- The handler of a slot indication does nothing for a cell that is not active. -/
def slotHandled : Control :=
  if s.started.state ≠ .phyActive then s.started
  else if s.started.Over then { s.started.counted with schState := .schStop }
  else s.started.counted

/-- A slot indication. Any cell is set to active afterwards. -/
def slotIndication : Control := { s.slotHandled with state := .phyActive }

def errorIndication (messageId errorCode : ℕ) : Control :=
  if messageId = l1StartRequest then
    { s with state := if errorCode ≠ 0 then .phyIdle else .phyActive }
  else if messageId = l1StopRequest then { s with state := .phyIdle }
  else s

/-- A response to the configuration. The stub of the PHY starts at once, but only
in automatic mode. -/
def cfgResponse (errorCode : ℕ) : Control :=
  if errorCode = 0 then
    { s with state := if s.operMode = .auto ∧ s.phyStub = true then .phyActive else .phyInit }
  else { s with state := .phyIdle }

/-- A configuration request, confirmed at once by the stub of the PHY. -/
def configured : Control :=
  if s.phyStub = true then { s with state := .phyCfg }.cfgResponse 0
  else { s with state := .phyCfg }

/-- In automatic mode a cell that has not been told to stop stays idle. -/
def stopIndication : Control :=
  if s.operMode = .auto ∧ s.schState ≠ .schStop then { s with state := .phyIdle }
  else s.configured

/-- A test case is switched: a busy cell is stopped, an idle one configured. -/
def switched : Control :=
  { (if s.state ≠ .phyIdle then
      if s.phyStub = true then { s with state := .phyIdle } else s
    else s.configured) with schState := .schNormal }

/-- The control state after an input. -/
def next : CellInput → Control
  | .tcConfigCase => { s with state := .phyCfg }
  | .tcDlCase _ _ => s
  | .tcUlCase _ _ => s
  | .tcTxCase _ _ => s
  | .txCase _ => s.switched
  | .tcStop => { s with schState := .schStop }
  | .startTest => s.switched
  | .cfgResponse errorCode => s.cfgResponse errorCode
  | .errorIndication messageId errorCode => s.errorIndication messageId errorCode
  | .stopIndication => s.stopIndication
  | .slotIndication _ => s.slotIndication

def slotTrace : List ControlEvent :=
  if s.started.state ≠ .phyActive then []
  else if s.started.Over then [.requests [fapiStopRequest]]
  else if s.started.schState = .schStop then []
  else [.scheduled, .requests [fapiDlTtiRequest, fapiUlTtiRequest, fapiTxDataRequest]]

def cfgTrace (errorCode : ℕ) : List ControlEvent :=
  if errorCode = 0 then
    [.event (.cfgResponse 0), .requests [fapiStartRequest]] ++
      if s.operMode = .auto ∧ s.phyStub = true then [.event (.errorIndication l1StartRequest 0)]
      else []
  else [.event (.cfgResponse errorCode)]

def configTrace : List ControlEvent :=
  .requests [fapiConfigRequest] :: if s.phyStub = true then s.cfgTrace 0 else []

def stopTrace : List ControlEvent :=
  .event .stopIndication ::
    if s.operMode = .auto ∧ s.schState ≠ .schStop then [] else s.configTrace

def switchTrace (first : List ControlEvent) : List ControlEvent :=
  if s.state ≠ .phyIdle then
    .requests [fapiStopRequest] ::
      if s.phyStub = true then [.event (.errorIndication l1StopRequest 0)] else []
  else first ++ s.configTrace

/-- What can be seen of an input. -/
def trace : CellInput → List ControlEvent
  | .tcConfigCase => [.requests [fapiParamRequest], .requests [fapiConfigRequest]]
  | .tcDlCase _ _ => [.requests [fapiDlTtiRequest]]
  | .tcUlCase _ _ => [.requests [fapiUlTtiRequest]]
  | .tcTxCase _ _ => [.requests [fapiTxDataRequest]]
  | .txCase _ => s.switchTrace []
  | .tcStop => [.requests [fapiStopRequest]]
  | .startTest => s.switchTrace [.requests [fapiParamRequest]]
  | .cfgResponse errorCode => s.cfgTrace errorCode
  | .errorIndication messageId errorCode => [.event (.errorIndication messageId errorCode)]
  | .stopIndication => s.stopTrace
  | .slotIndication _ => s.slotTrace

end Control

/-- A slot indication schedules the slot two ahead. -/
def Cell.Schedules (c : Cell) : Prop := c.control.Schedules

instance (c : Cell) : Decidable c.Schedules := inferInstanceAs (Decidable c.control.Schedules)

/-- A request with one of the identifiers, or data that goes with it. -/
def CellEvent.OfRequest (msgIds : List ℕ) : CellEvent → Prop
  | .sent msgId _ => msgId ∈ msgIds
  | .dataSent _ _ => True
  | _ => False

/-- The events of a cell fit a trace. -/
inductive Traces : List ControlEvent → List CellEvent → Prop
  | nil : Traces [] []
  | requests {msgIds : List ℕ} {es es' : List CellEvent} {tr : List ControlEvent} :
      (∀ e ∈ es, e.OfRequest msgIds) → Traces tr es' → Traces (.requests msgIds :: tr) (es ++ es')
  | scheduled {sfn slot : ℕ} {es : List CellEvent} {tr : List ControlEvent} :
      Traces tr es → Traces (.scheduled :: tr) (.ttiTx sfn slot :: es)
  | event {e : CellEvent} {es : List CellEvent} {tr : List ControlEvent} :
      Traces tr es → Traces (.event e :: tr) (e :: es)

/-- A cell has moved to a control state with events that fit a trace. -/
def Moves (s : Control) (tr : List ControlEvent) (c c' : Cell) : Prop :=
  c'.control = s ∧ ∃ es, c'.log = c.log ++ es ∧ Traces tr es

theorem Traces.append {tr tr' : List ControlEvent} {es es' : List CellEvent} (h : Traces tr es)
    (h' : Traces tr' es') : Traces (tr ++ tr') (es ++ es') := by
  induction h with
  | nil => exact h'
  | requests hes _ ih =>
    rw [List.append_assoc]
    exact .requests hes ih
  | scheduled _ ih => exact .scheduled ih
  | event _ ih => exact .event ih

theorem Moves.refl (c : Cell) : Moves c.control [] c c :=
  ⟨rfl, [], by simp, .nil⟩

theorem Moves.trans {s s' : Control} {tr tr' : List ControlEvent} {c c' c'' : Cell}
    (h : Moves s tr c c') (h' : Moves s' tr' c' c'') : Moves s' (tr ++ tr') c c'' := by
  obtain ⟨-, es, hlog, htr⟩ := h
  obtain ⟨hs', es', hlog', htr'⟩ := h'
  exact ⟨hs', es ++ es', by rw [hlog', hlog, List.append_assoc], htr.append htr'⟩

end TestMac

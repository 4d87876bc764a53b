import TestMac.Mac.Runs
import TestMac.Mac.Sends

/-!
# Configuration requests and the state that waits for the response

The senders return nothing, and a handler that configures a cell sets its state
whatever became of the request. The state means that a response is outstanding as
long as the driver hands every configuration request over.
-/

namespace TestMac

open Act

/-- The driver hands a configuration request over: it lets the group start at this
call, accepts the message and lets the group end. -/
def Env.HandsOver (env : Env) (n : ℕ) : Prop :=
  env.pcxxSendStart n = true ∧ env.pcxxCtrlSend (n + 4) = true ∧ env.pcxxSendEnd (n + 5) = true

instance (env : Env) (n : ℕ) : Decidable (env.HandsOver n) := inferInstanceAs (Decidable (_ ∧ _))

/-- The call behind a group of one message that starts at a call. -/
def Env.groupEnd (env : Env) (n : ℕ) : ℕ := if env.pcxxSendStart n = true then n + 6 else n + 1

/-- The call at which a handler starts the group of a configuration request, if it
sends one. -/
def CellInput.configCall (env : Env) (c : Cell) : CellInput → Option ℕ
  | .tcConfigCase => some (env.groupEnd c.calls)
  | .txCase _ => if c.ctx.state = .phyIdle then some c.calls else none
  | .startTest => if c.ctx.state = .phyIdle then some (env.groupEnd c.calls) else none
  | .stopIndication =>
    if c.ctx.operMode = .auto ∧ c.ctx.schState ≠ .schStop then none else some c.calls
  | _ => none

/-- The stub of the PHY confirms at once what this handler has sent. -/
def CellInput.Stubbed (c : Cell) (i : CellInput) : Prop :=
  c.ctx.phyStub = true ∧ i ≠ .tcConfigCase

/-- Whether a response is outstanding after one more event. -/
def CellEvent.awaits (awaited : Bool) : CellEvent → Bool
  | .sent msgId _ => awaited || msgId == fapiConfigRequest
  | .cfgResponse _ => false
  | _ => awaited

/-- A configuration request has been sent, and no response has come since. -/
def responseOutstanding (log : List CellEvent) : Bool := log.foldl CellEvent.awaits false

variable {env : Env} {c : Cell}

/-- Events that are no responses keep a response outstanding. -/
theorem awaits_keeps {es : List CellEvent} (hes : ∀ e, .cfgResponse e ∉ es) :
    es.foldl CellEvent.awaits true = true := by
  induction es with
  | nil => rfl
  | cons e es ih =>
    have htail := ih fun e' h => hes e' (List.mem_cons_of_mem e h)
    cases e with
    | cfgResponse errorCode => exact absurd List.mem_cons_self (hes errorCode)
    | sent msgId bytes => simpa [CellEvent.awaits] using htail
    | dataSent offset bytes => exact htail
    | ttiTx sfn slot => exact htail
    | errorIndication messageId errorCode => exact htail
    | stopIndication => exact htail

theorem responseOutstanding_sent (log : List CellEvent) (bytes : List UInt8) :
    responseOutstanding (log ++ [.sent fapiConfigRequest bytes]) = true := by
  simp [responseOutstanding, CellEvent.awaits]

/-- A trace that reports no response. -/
theorem Traces.no_cfgResponse {tr : List ControlEvent} {es : List CellEvent} (h : Traces tr es)
    (htr : ∀ e, .event (.cfgResponse e) ∉ tr) (e : ℕ) : .cfgResponse e ∉ es := by
  induction h with
  | nil => simp
  | requests hes _ ih =>
    intro hmem
    rcases List.mem_append.mp hmem with hmem | hmem
    · exact hes _ hmem
    · exact ih (fun e h => htr e (List.mem_cons_of_mem _ h)) hmem
  | scheduled _ ih =>
    intro hmem
    rcases List.mem_cons.mp hmem with heq | hmem
    · cases heq
    · exact ih (fun e h => htr e (List.mem_cons_of_mem _ h)) hmem
  | event _ ih =>
    intro hmem
    rcases List.mem_cons.mp hmem with heq | hmem
    · exact htr e (by rw [heq]; exact List.mem_cons_self)
    · exact ih (fun e h => htr e (List.mem_cons_of_mem _ h)) hmem

/-- The calls of a request that consists of the general header. -/
theorem ensures_sendHeaderOnly_calls {msgId msgType : ℕ} :
    Ensures (sendHeaderOnly env msgId msgType) c fun _ c' => c'.calls = env.groupEnd c.calls := by
  simp only [sendHeaderOnly, ensures_l1MsgProc, ensures_setL1CtrlMsgGrpHeader, ensures_bind,
    ensures_allocL1CtrlMsgMem, ensures_appendL1Msg, called_calls, appended_calls, allocated_calls,
    headed_calls, Env.groupEnd]
  constructor
  · intro hstart _ _ _ _ _ _ _ _
    rw [if_pos hstart]
  · intro hstart
    rw [if_neg hstart]

/-- A configuration request that is handed over ends the log. -/
theorem ensures_sendPhyConfigReq_handed (h : env.HandsOver c.calls) :
    Ensures (sendPhyConfigReq env) c fun _ c' => responseOutstanding c'.log = true := by
  refine ensures_sendPhyConfigReq_log.mono ?_
  intro _ c' hlog
  obtain ⟨bytes, hlog⟩ := hlog
  rw [hlog, if_pos ⟨h.1, h.2.1⟩]
  exact responseOutstanding_sent c.log bytes

theorem ensures_configForSwitch_handed (hstub : c.control.phyStub = false)
    (h : env.HandsOver c.calls) :
    Ensures (configForSwitch env) c fun _ c' => responseOutstanding c'.log = true := by
  rw [configForSwitch, ensures_bind]
  refine ((ensures_sendPhyConfigReq_handed h).and
    (requests_sendPhyConfigReq (List.mem_singleton_self _) c)).mono ?_
  intro _ c₁ hc₁
  obtain ⟨hlog, hctl, -⟩ := hc₁
  have hstub₁ : c₁.ctx.phyStub = false := (congrArg Control.phyStub hctl).trans hstub
  simp only [setPhyState, ensures_bind, ensures_update, ensures_read, ensures_when, hstub₁]
  constructor
  · intro hyes
    exact absurd hyes Bool.false_ne_true
  · intro _
    exact hlog

/-- A handler whose configuration request is handed over, and not confirmed by the stub
at once, leaves a response outstanding. -/
theorem configures_outstanding {i : CellInput} {n : ℕ} (hcall : i.configCall env c = some n)
    (hover : env.HandsOver n) (hstub : ¬ i.Stubbed c) :
    Ensures (cellAction env i) c fun _ c' => responseOutstanding c'.log = true := by
  cases i with
  | tcConfigCase =>
    cases hcall
    simp only [cellAction, tcConfigCase, sendPhyParamReq, ensures_bind]
    refine ensures_sendHeaderOnly_calls.mono ?_
    intro _ c₁ hcalls
    rw [← hcalls] at hover
    refine (ensures_sendPhyConfigReq_handed hover).mono ?_
    intro _ c₂ hlog
    simpa [setPhyState] using hlog
  | txCase files =>
    simp only [CellInput.configCall] at hcall
    split_ifs at hcall with hidle
    cases hcall
    have hno : c.ctx.phyStub = false := by simpa [CellInput.Stubbed] using hstub
    simp only [cellAction, txCase, macTcLoad_eq, Cell.loaded, ensures_bind, ensures_update,
      ensures_read, hidle, ne_eq, not_true_eq_false, if_false]
    refine Ensures.mono (ensures_configForSwitch_handed hno hover) ?_
    intro _ c₁ hlog
    simpa [setSchState] using hlog
  | startTest =>
    simp only [CellInput.configCall] at hcall
    split_ifs at hcall with hidle
    cases hcall
    have hno : c.ctx.phyStub = false := by simpa [CellInput.Stubbed] using hstub
    simp only [cellAction, startTest, ensures_bind, ensures_read, hidle, ne_eq, not_true_eq_false,
      if_false]
    refine (ensures_sendHeaderOnly_calls.and
      (requests_sendHeaderOnly (List.mem_singleton_self _) c)).mono ?_
    intro _ c₁ hc₁
    obtain ⟨hcalls, hctl, -⟩ := hc₁
    rw [← hcalls] at hover
    refine Ensures.mono
      (ensures_configForSwitch_handed ((congrArg Control.phyStub hctl).trans hno) hover) ?_
    intro _ c₂ hlog
    simpa [setSchState] using hlog
  | stopIndication =>
    simp only [CellInput.configCall] at hcall
    split_ifs at hcall with hstays
    cases hcall
    have hno : c.ctx.phyStub = false := by simpa [CellInput.Stubbed] using hstub
    simp only [cellAction, macRevStopIndication, logEvent, setPhyState, ensures_bind,
      ensures_update, ensures_read, hstays, if_false, ensures_when, hno]
    refine Ensures.mono (ensures_sendPhyConfigReq_handed hover) ?_
    intro _ c₁ hlog
    exact ⟨fun hconfirms => Bool.noConfusion hconfirms, fun _ => hlog⟩
  | tcDlCase sfn slot => cases hcall
  | tcUlCase sfn slot => cases hcall
  | tcTxCase sfn slot => cases hcall
  | tcStop => cases hcall
  | cfgResponse errorCode => cases hcall
  | errorIndication messageId errorCode => cases hcall
  | slotIndication slotInd => cases hcall

namespace Control

variable {s : Control}

theorem configured_state (s : Control) :
    s.configured.state = .phyCfg ↔ s.phyStub = false := by
  simp only [configured, cfgResponse]
  split_ifs with hstub h₁
  all_goals simp_all

end Control

/-- A handler that configures leaves the cell waiting exactly when the stub does not
confirm at once. -/
theorem configures_state {i : CellInput} {n : ℕ} (hcall : i.configCall env c = some n) :
    (c.control.next i).state = .phyCfg ↔ ¬ i.Stubbed c := by
  have hstub : c.control.phyStub = false ↔ ¬ c.ctx.phyStub = true := by
    simp [Cell.control]
  cases i with
  | tcConfigCase => simp [Control.next, CellInput.Stubbed]
  | txCase files =>
    simp only [CellInput.configCall] at hcall
    split_ifs at hcall with hidle
    have hstate : ¬ c.control.state ≠ .phyIdle := fun h => h hidle
    simp only [Control.next, Control.switched, if_neg hstate, Control.configured_state, hstub]
    simp [CellInput.Stubbed]
  | startTest =>
    simp only [CellInput.configCall] at hcall
    split_ifs at hcall with hidle
    have hstate : ¬ c.control.state ≠ .phyIdle := fun h => h hidle
    simp only [Control.next, Control.switched, if_neg hstate, Control.configured_state, hstub]
    simp [CellInput.Stubbed]
  | stopIndication =>
    simp only [CellInput.configCall] at hcall
    split_ifs at hcall with hstays
    have hgoes : ¬ (c.control.operMode = .auto ∧ c.control.schState ≠ .schStop) := hstays
    simp only [Control.next, Control.stopIndication, if_neg hgoes, Control.configured_state, hstub]
    simp [CellInput.Stubbed]
  | tcDlCase sfn slot => cases hcall
  | tcUlCase sfn slot => cases hcall
  | tcTxCase sfn slot => cases hcall
  | tcStop => cases hcall
  | cfgResponse errorCode => cases hcall
  | errorIndication messageId errorCode => cases hcall
  | slotIndication slotInd => cases hcall

/-- The switch of a cell that is not configured leaves it waiting only if it was, and
brings no response. -/
theorem switched_waits {s : Control} {first : List ControlEvent} (hbusy : s.state ≠ .phyIdle)
    (hnext : s.switched.state = .phyCfg) :
    s.state = .phyCfg ∧ ∀ e, .event (.cfgResponse e) ∉ s.switchTrace first := by
  simp only [Control.switched, if_pos hbusy] at hnext
  simp only [Control.switchTrace, if_pos hbusy]
  split_ifs at hnext ⊢
  exact ⟨hnext, by simp⟩

/-- Any other input leaves a cell waiting only if it was, and brings no response then. -/
theorem waits_without_configuring {i : CellInput} (hcall : i.configCall env c = none)
    (hnext : (c.control.next i).state = .phyCfg) :
    c.control.state = .phyCfg ∧ ∀ e, .event (.cfgResponse e) ∉ c.control.trace i := by
  cases i with
  | tcConfigCase => cases hcall
  | tcDlCase sfn slot => exact ⟨hnext, by simp [Control.trace]⟩
  | tcUlCase sfn slot => exact ⟨hnext, by simp [Control.trace]⟩
  | tcTxCase sfn slot => exact ⟨hnext, by simp [Control.trace]⟩
  | tcStop => exact ⟨hnext, by simp [Control.trace]⟩
  | txCase files =>
    simp only [CellInput.configCall] at hcall
    split_ifs at hcall with hbusy
    exact switched_waits hbusy hnext
  | startTest =>
    simp only [CellInput.configCall] at hcall
    split_ifs at hcall with hbusy
    exact switched_waits hbusy hnext
  | stopIndication =>
    simp only [CellInput.configCall] at hcall
    split_ifs at hcall with hstays
    have hgoes : c.control.operMode = .auto ∧ c.control.schState ≠ .schStop := hstays
    simp only [Control.next, Control.stopIndication, if_pos hgoes] at hnext
    cases hnext
  | cfgResponse errorCode =>
    simp only [Control.next, Control.cfgResponse] at hnext
    split_ifs at hnext
  | errorIndication messageId errorCode =>
    refine ⟨?_, by simp [Control.trace]⟩
    simp only [Control.next, Control.errorIndication] at hnext
    split_ifs at hnext
    exact hnext
  | slotIndication slotInd => cases hnext

variable {w : World} {dev cell : ℕ}

/-- A configuration request that the input makes the cell send is handed over, or
confirmed by the stub at once. -/
def HandedOver (w : World) (dev cell : ℕ) (m : Mac) (i : Input) : Prop :=
  ∀ ci n, i.atCell w m.cellNum dev cell = some ci →
    ci.configCall (w.env dev cell) (m.cells dev cell) = some n →
      (w.env dev cell).HandsOver n ∨ ci.Stubbed (m.cells dev cell)

/-- One step keeps the meaning of the state that waits. -/
theorem Handles.waits_outstanding {m m' : Mac} {i : Input} (h : Handles w m i m')
    (hover : HandedOver w dev cell m i)
    (hm : (m.cells dev cell).control.state = .phyCfg →
      responseOutstanding (m.cells dev cell).log = true)
    (hwaits : (m'.cells dev cell).control.state = .phyCfg) :
    responseOutstanding (m'.cells dev cell).log = true := by
  rcases h.moves dev cell with ⟨-, hsame⟩ | ⟨ci, hci, hctl, es, hlog, htr⟩
  · rw [own_control hsame] at hwaits
    rw [own_log hsame]
    exact hm hwaits
  · rw [hctl] at hwaits
    cases hcall : ci.configCall (w.env dev cell) (m.cells dev cell) with
    | none =>
      obtain ⟨hwas, hno⟩ := waits_without_configuring hcall hwaits
      have hbefore := hm hwas
      rw [responseOutstanding] at hbefore
      rw [hlog, responseOutstanding, List.foldl_append, hbefore]
      exact awaits_keeps (htr.no_cfgResponse hno)
    | some n =>
      have hstub := (configures_state hcall).mp hwaits
      have hat := h.atCell dev cell
      rw [hci] at hat
      rcases hover ci n hci hcall with hhands | hstubbed
      · exact configures_outstanding hcall hhands hstub () _ hat
      · exact absurd hstubbed hstub

/-- A handler that configures a cell leaves it waiting for the response whatever the driver
answers, unless the stub confirms the request at once. So it does this only with the
request handed over exactly when the request is handed over, or the stub confirms it. In
every run in which this is so, a cell that waits has a response outstanding. -/
theorem phyCfg_outstanding :
    (∀ {m m' : Mac} {i : Input} {ci : CellInput} {n : ℕ}, Handles w m i m' →
      i.atCell w m.cellNum dev cell = some ci →
      ci.configCall (w.env dev cell) (m.cells dev cell) = some n →
      ((m'.cells dev cell).ctx.state = .phyCfg ↔ ¬ ci.Stubbed (m.cells dev cell)) ∧
      (((m'.cells dev cell).ctx.state = .phyCfg → (w.env dev cell).HandsOver n) ↔
        (w.env dev cell).HandsOver n ∨ ci.Stubbed (m.cells dev cell))) ∧
    (∀ {m m' : Mac} {is : List Input}, m.Initial → Steps (Handles w) m is m' →
      Steps.Meets (Handles w) (HandedOver w dev cell) m is →
      (m'.cells dev cell).ctx.state = .phyCfg →
        responseOutstanding (m'.cells dev cell).log = true) := by
  constructor
  · intro m m' i ci n h hci hcall
    rcases h.moves dev cell with ⟨hnone, -⟩ | ⟨ci', hci', hctl, -⟩
    · rw [hci] at hnone
      cases hnone
    · obtain rfl := Option.some.inj (hci.symm.trans hci')
      have hstate : (m'.cells dev cell).ctx.state = .phyCfg ↔ ¬ ci.Stubbed (m.cells dev cell) := by
        rw [← configures_state hcall, ← hctl]
        rfl
      refine ⟨hstate, ?_⟩
      rw [hstate]
      tauto
  · intro m m' is hm hrun hmeets
    refine hrun.invariant (fun m => (m.cells dev cell).control.state = .phyCfg →
      responseOutstanding (m.cells dev cell).log = true) ?_ hmeets ?_
    · intro m₁ i m₂ hm₁ hover hs
      exact hs.waits_outstanding hover hm₁
    · intro hwaits
      rw [Cell.control, (hm dev cell).1] at hwaits
      cases hwaits

theorem phyCfg_outstanding_startup :
    ∃ m', Steps (Handles readyWorld) (restingMac .auto 0) [.appMsg ⟨appStartTest, 0, 0, 0, 0⟩] m' ∧
      (m'.cells 0 0).ctx.state = .phyCfg ∧ responseOutstanding (m'.cells 0 0).log = true := by
  have hrun : (runInputs readyWorld (fun _ _ => True) (restingMac .auto 0)
      [.appMsg ⟨appStartTest, 0, 0, 0, 0⟩]).map (fun m => (m.cells 0 0).ctx.state) =
      some .phyCfg := by
    decide +kernel
  obtain ⟨m', hm', hcfg⟩ := Option.map_eq_some_iff.mp hrun
  have hmeets : Steps.Meets (Handles readyWorld) (HandedOver readyWorld 0 0) (restingMac .auto 0)
      [.appMsg ⟨appStartTest, 0, 0, 0, 0⟩] := by
    apply Steps.Meets.cons
    · intro ci n _ _
      exact .inl ⟨rfl, rfl, rfl⟩
    · intro m _ ms i ns b hnil
      simp at hnil
  exact ⟨m', (path_of_runInputs hm').1, hcfg, (phyCfg_outstanding (w := readyWorld)).2
    (restingMac_initial .auto 0) (path_of_runInputs hm').1 hmeets hcfg⟩

/-- A driver that starts no group. -/
def refusingWorld : World where
  env dev cell := { readyWorld.env dev cell with pcxxSendStart := fun _ => false }
  files := readyWorld.files

/-- The cell waits for the response to a request that has never been sent. -/
theorem phyCfg_without_request :
    (restingMac .manual 0).Initial ∧
    ∃ m', Handles refusingWorld (restingMac .manual 0) (.appMsg ⟨appTcConfigCase, 0, 0, 0, 0⟩) m' ∧
      (m'.cells 0 0).ctx.state = .phyCfg ∧ (m'.cells 0 0).log = [] := by
  have hrun : (handle refusingWorld (.appMsg ⟨appTcConfigCase, 0, 0, 0, 0⟩)
      (restingMac .manual 0)).map (fun r => ((r.2.cells 0 0).ctx.state, (r.2.cells 0 0).log)) =
      some (.phyCfg, []) := by
    decide +kernel
  obtain ⟨r, hr, hend⟩ := Option.map_eq_some_iff.mp hrun
  obtain ⟨hcfg, hlog⟩ := Prod.mk.inj hend
  exact ⟨restingMac_initial .manual 0, r.2, hr, hcfg, hlog⟩

end TestMac

import TestMac.Mac.Requests

/-!
# The handlers follow the control machine

Every handler moves a cell as `Control.next` and `Control.trace` say, when no
assertion fails. The parts of a handler are taken one by one: what the first part
does is put in front of what the rest does.
-/

namespace TestMac

open Bytes Act

variable {env : Env} {ids : List ℕ}

/-- A sender, and then the rest of a handler. -/
theorem Requests.moves {c c₁ c' : Cell} {s : Control} {tr : List ControlEvent}
    (h : Requests ids c c₁) (h' : Moves s tr c₁ c') : Moves s (.requests ids :: tr) c c' := by
  obtain ⟨-, es, hlog, hes⟩ := h
  obtain ⟨hs, es', hlog', htr⟩ := h'
  exact ⟨hs, es ++ es', by rw [hlog', hlog, List.append_assoc], .requests hes htr⟩

/-- An entry of the log, and then the rest of a handler. -/
theorem moves_event {e : CellEvent} {c c' : Cell} {s : Control} {tr : List ControlEvent}
    (h : Moves s tr { c with log := c.log ++ [e] } c') : Moves s (.event e :: tr) c c' := by
  obtain ⟨hs, es, hlog, htr⟩ := h
  exact ⟨hs, e :: es, by simpa using hlog, .event htr⟩

/-- A sender is run, and the rest of a handler starts with the same control state. -/
theorem moves_bind_requests {α β : Type} {x : CellM α} {f : α → CellM β} {c : Cell} {s : Control}
    {tr : List ControlEvent} (hx : Within (Requests ids) x)
    (hf : ∀ a c', c'.control = c.control → Ensures (f a) c' fun _ c'' => Moves s tr c' c'') :
    Ensures (x >>= f) c fun _ c' => Moves s (.requests ids :: tr) c c' := by
  rw [ensures_bind]
  refine (hx c).mono ?_
  intro a c₁ hreq
  refine (hf a c₁ hreq.1).mono ?_
  intro _ c' hmoves
  exact hreq.moves hmoves

/-- A sender at the end of a handler. -/
theorem moves_requests {x : CellM Unit} (hx : Within (Requests ids) x) (c : Cell) :
    Ensures x c fun _ c' => Moves c.control [.requests ids] c c' := by
  refine (hx c).mono ?_
  intro _ c' hreq
  refine hreq.moves ?_
  rw [← hreq.1]
  exact .refl c'

/-- A change that is not logged, and then the rest of a handler. -/
theorem moves_bind_update {α : Type} {f : Cell → Cell} {g : Unit → CellM α} {c : Cell}
    {s : Control} {tr : List ControlEvent} (hlog : (f c).log = c.log)
    (h : Ensures (g ()) (f c) fun _ c' => Moves s tr (f c) c') :
    Ensures (update f >>= g) c fun _ c' => Moves s tr c c' := by
  rw [ensures_bind, ensures_update]
  refine h.mono ?_
  intro _ c' hmoves
  rw [Moves, hlog] at hmoves
  exact hmoves

/-- An entry of the log, and then the rest of a handler. -/
theorem moves_bind_logEvent {α : Type} {e : CellEvent} {g : Unit → CellM α} {c : Cell}
    {s : Control} {tr : List ControlEvent}
    (h : ∀ c₁ : Cell, c₁.control = c.control → Ensures (g ()) c₁ fun _ c' => Moves s tr c₁ c') :
    Ensures (logEvent e >>= g) c fun _ c' => Moves s (.event e :: tr) c c' := by
  rw [ensures_bind, logEvent, ensures_update]
  refine (h { c with log := c.log ++ [e] } rfl).mono ?_
  intro _ c' hmoves
  exact moves_event hmoves

theorem moves_setPhyState (state : MacStatus) (c : Cell) :
    Ensures (setPhyState state) c fun _ c' => Moves { c.control with state := state } [] c c' := by
  simp only [setPhyState, ensures_update]
  exact .refl _

theorem moves_macRevErrorIndication (messageId errorCode : ℕ) (c : Cell) :
    Ensures (macRevErrorIndication messageId errorCode) c fun _ c' =>
      Moves (c.control.errorIndication messageId errorCode)
        [.event (.errorIndication messageId errorCode)] c c' := by
  unfold macRevErrorIndication Control.errorIndication
  apply moves_bind_logEvent
  intro c₁ hctl
  rw [← hctl]
  split_ifs with hstart herror hstop
  · exact moves_setPhyState .phyIdle c₁
  · exact moves_setPhyState .phyActive c₁
  · exact moves_setPhyState .phyIdle c₁
  · rw [ensures_pure]
    exact .refl c₁

theorem moves_macRevCfgResonse (errorCode : ℕ) (c : Cell) :
    Ensures (macRevCfgResonse env errorCode) c fun _ c' =>
      Moves (c.control.cfgResponse errorCode) (c.control.cfgTrace errorCode) c c' := by
  unfold macRevCfgResonse Control.cfgResponse Control.cfgTrace
  by_cases hok : errorCode = 0
  · subst hok
    simp only [if_true]
    apply moves_bind_logEvent
    intro c₁ hctl
    apply moves_bind_update rfl
    apply moves_bind_requests (requests_sendHeaderOnly (by simp))
    intro _ c₂ hctl₂
    have hs (state : MacStatus) :
        { c.control with state := state } = { c₂.control with state := state } := by
      rw [hctl₂, ← hctl]
      rfl
    have hmode : c.control.operMode = c₂.ctx.operMode := congrArg Control.operMode (hs .phyIdle)
    have hstub : c.control.phyStub = c₂.ctx.phyStub := congrArg Control.phyStub (hs .phyIdle)
    have hinit : c₂.ctx.state = .phyInit := congrArg Control.state hctl₂
    rw [hs, hmode, hstub, ensures_bind, ensures_read]
    by_cases hauto : c₂.ctx.operMode = .auto
    · rw [when, if_pos hauto]
      apply moves_bind_update rfl
      by_cases hst : c₂.ctx.phyStub = true
      · rw [when, if_pos hst, if_pos ⟨hauto, hst⟩, if_pos ⟨hauto, hst⟩]
        exact moves_macRevErrorIndication _ _ _
      · have hboth : ¬ (c₂.ctx.operMode = .auto ∧ c₂.ctx.phyStub = true) := fun h => hst h.2
        rw [when, if_neg hst, if_neg hboth, if_neg hboth, ensures_pure]
        exact .refl _
    · have hboth : ¬ (c₂.ctx.operMode = .auto ∧ c₂.ctx.phyStub = true) := fun h => hauto h.1
      rw [when, if_neg hauto, if_neg hboth, if_neg hboth, ensures_pure, ← hinit]
      exact .refl c₂
  · simp only [hok, if_false]
    apply moves_bind_logEvent
    intro c₁ hctl
    rw [← hctl]
    exact moves_setPhyState .phyIdle c₁

/-- The stub of the PHY confirms a configuration at once. -/
theorem moves_stubConfirms {stub : Bool} {c : Cell} (hstub : c.control.phyStub = stub) :
    Ensures (when (stub = true) (macRevCfgResonse env 0)) c fun _ c' =>
      Moves (if c.control.phyStub = true then c.control.cfgResponse 0 else c.control)
        (if c.control.phyStub = true then c.control.cfgTrace 0 else []) c c' := by
  rw [hstub, ensures_when]
  constructor
  · intro hst
    rw [if_pos hst, if_pos hst]
    exact moves_macRevCfgResonse 0 c
  · intro hst
    rw [if_neg hst, if_neg hst]
    exact .refl c

/-- A configuration request, when the stub of the PHY has been looked up before. -/
theorem moves_configure {stub : Bool} {c : Cell} (hstub : c.control.phyStub = stub) :
    Ensures (do
      sendPhyConfigReq env
      setPhyState .phyCfg
      when (stub = true) (macRevCfgResonse env 0)) c fun _ c' =>
      Moves c.control.configured c.control.configTrace c c' := by
  apply moves_bind_requests (requests_sendPhyConfigReq (by simp))
  intro _ c₁ hctl
  rw [← hctl] at hstub ⊢
  apply moves_bind_update rfl
  exact moves_stubConfirms hstub

theorem moves_configForSwitch (c : Cell) :
    Ensures (configForSwitch env) c fun _ c' =>
      Moves c.control.configured c.control.configTrace c c' := by
  apply moves_bind_requests (requests_sendPhyConfigReq (by simp))
  intro _ c₁ hctl
  rw [← hctl]
  apply moves_bind_update rfl
  rw [ensures_bind, ensures_read]
  exact moves_stubConfirms rfl

theorem moves_macRevStopIndication (c : Cell) :
    Ensures (macRevStopIndication env) c fun _ c' =>
      Moves c.control.stopIndication c.control.stopTrace c c' := by
  unfold macRevStopIndication Control.stopIndication Control.stopTrace
  apply moves_bind_logEvent
  intro c₁ hctl
  apply moves_bind_update rfl
  rw [ensures_bind, ensures_read, ← hctl]
  split_ifs with hstays hstays' hstays'
  · rw [ensures_pure]
    exact .refl _
  · exact absurd hstays hstays'
  · exact absurd hstays' hstays
  · exact moves_configure rfl

theorem moves_stopForSwitch (c : Cell) :
    Ensures (stopForSwitch env) c fun _ c' =>
      Moves (if c.control.phyStub = true then { c.control with state := .phyIdle } else c.control)
        (.requests [fapiStopRequest] :: if c.control.phyStub = true then
          [.event (.errorIndication l1StopRequest 0)] else []) c c' := by
  unfold stopForSwitch
  apply moves_bind_requests (requests_sendHeaderOnly (by simp))
  intro _ c₁ hctl
  rw [← hctl, ensures_bind, ensures_read, ensures_when]
  constructor
  · intro hst
    have hs : c₁.control.phyStub = true := hst
    rw [if_pos hs, if_pos hs]
    exact moves_macRevErrorIndication _ _ c₁
  · intro hst
    have hs : ¬ c₁.control.phyStub = true := hst
    rw [if_neg hs, if_neg hs]
    exact .refl c₁

/-- The state of the scheduler is set at the end of a handler. -/
theorem moves_then_setSchState {x : CellM Unit} {schState : MacSchStatus} {c : Cell} {s : Control}
    {tr : List ControlEvent} (h : Ensures x c fun _ c' => Moves s tr c c') :
    Ensures (do x; setSchState schState) c fun _ c' =>
      Moves { s with schState := schState } tr c c' := by
  rw [ensures_bind]
  refine h.mono ?_
  intro _ c' hmoves
  obtain ⟨rfl, hlog⟩ := hmoves
  rw [setSchState, ensures_update]
  exact ⟨rfl, hlog⟩

theorem moves_startTest (c : Cell) :
    Ensures (startTest env) c fun _ c' =>
      Moves c.control.switched (c.control.switchTrace [.requests [fapiParamRequest]]) c c' := by
  unfold startTest Control.switched Control.switchTrace
  rw [ensures_bind, ensures_read]
  apply moves_then_setSchState
  have hstate : c.control.state = c.ctx.state := rfl
  rw [hstate]
  by_cases hbusy : c.ctx.state ≠ .phyIdle
  · rw [if_pos hbusy, if_pos hbusy, if_pos hbusy]
    exact moves_stopForSwitch c
  · rw [if_neg hbusy, if_neg hbusy, if_neg hbusy]
    apply moves_bind_requests (requests_sendHeaderOnly (by simp))
    intro _ c₁ hctl
    rw [← hctl]
    exact moves_configForSwitch c₁

/-- Switching the test case, after its tables have been loaded. -/
theorem moves_switch (c : Cell) :
    Ensures (do
      let ctx ← Act.read Cell.ctx
      (if ctx.state ≠ .phyIdle then stopForSwitch env else configForSwitch env)
      setSchState .schNormal) c fun _ c' =>
      Moves c.control.switched (c.control.switchTrace []) c c' := by
  unfold Control.switched Control.switchTrace
  rw [ensures_bind, ensures_read]
  apply moves_then_setSchState
  have hstate : c.control.state = c.ctx.state := rfl
  rw [hstate]
  by_cases hbusy : c.ctx.state ≠ .phyIdle
  · rw [if_pos hbusy, if_pos hbusy, if_pos hbusy]
    exact moves_stopForSwitch c
  · rw [if_neg hbusy, if_neg hbusy, if_neg hbusy]
    exact moves_configForSwitch c

theorem moves_txCase (files : TcFiles) (c : Cell) :
    Ensures (txCase env files) c fun _ c' =>
      Moves c.control.switched (c.control.switchTrace []) c c' := by
  rw [txCase, macTcLoad_eq]
  apply moves_bind_update rfl
  apply moves_bind_update rfl
  exact moves_switch _

theorem moves_tcStop (c : Cell) :
    Ensures (tcStop env) c fun _ c' =>
      Moves { c.control with schState := .schStop } [.requests [fapiStopRequest]] c c' := by
  apply moves_then_setSchState
  exact moves_requests (requests_sendHeaderOnly (by simp)) c

theorem moves_tcConfigCase (c : Cell) :
    Ensures (tcConfigCase env) c fun _ c' => Moves { c.control with state := .phyCfg }
      [.requests [fapiParamRequest], .requests [fapiConfigRequest]] c c' := by
  apply moves_bind_requests (requests_sendHeaderOnly (by simp))
  intro _ c₁ hctl
  apply moves_bind_requests (requests_sendPhyConfigReq (by simp))
  intro _ c₂ hctl₂
  rw [← hctl, ← hctl₂]
  exact moves_setPhyState .phyCfg c₂

/-- The application sends the request of one slot. -/
theorem moves_sendSingle {x : CellM Unit} (hx : Within (Requests ids) x) (f : SlotClock → SlotClock)
    (hf : ∀ clock, (f clock).gSystemTtiNum = clock.gSystemTtiNum) (c : Cell) :
    Ensures (do setClock f; x) c fun _ c' => Moves c.control [.requests ids] c c' := by
  apply moves_bind_update rfl
  have hctl : c.control = { c with clock := f c.clock }.control := by
    simp [Cell.control, hf]
  rw [hctl]
  exact moves_requests hx _

/-- Shifting a slot changes nothing in the cell. -/
theorem ensures_gsfnShift {gsfn : SlotIndication} {shift scs : ℕ} {c : Cell}
    {Q : SlotIndication → Cell → Prop} (h : ∀ g, Q g c) :
    Ensures (gsfnShift env gsfn shift scs) c Q := by
  unfold gsfnShift
  simp only [ensures_bind, ensures_assert, ensures_ite, ensures_pure]
  intro _
  exact ⟨fun _ => h _, fun _ => h _⟩

theorem moves_macSchedule (sfn slot : ℕ) (c : Cell) :
    Ensures (macSchedule env sfn slot) c fun _ c' => Moves c.control
      (if c.control.schState = .schStop then []
        else [.scheduled, .requests [fapiDlTtiRequest, fapiUlTtiRequest, fapiTxDataRequest]])
      c c' := by
  unfold macSchedule
  rw [ensures_bind, ensures_read]
  have hsch : c.control.schState = c.ctx.schState := rfl
  rw [hsch, ensures_ite]
  constructor
  · intro hstop
    rw [if_pos hstop, ensures_pure]
    exact .refl c
  · intro hstop
    rw [if_neg hstop, ensures_bind, logEvent, ensures_update]
    refine Ensures.mono (moves_requests requests_macTtiTx _) ?_
    intro _ c' hmoves
    obtain ⟨hctl, es, hlog, htr⟩ := hmoves
    exact ⟨hctl, .ttiTx sfn slot :: es, by simpa using hlog, .scheduled htr⟩

theorem moves_prepareSlot (slotInd : SlotIndication) (c : Cell) :
    Ensures (prepareSlot env slotInd) c fun _ c' => Moves c.control.counted
      (if c.control.schState = .schStop then []
        else [.scheduled, .requests [fapiDlTtiRequest, fapiUlTtiRequest, fapiTxDataRequest]])
      c c' := by
  unfold prepareSlot
  apply moves_bind_update rfl
  rw [ensures_bind, ensures_read, ensures_bind]
  apply ensures_gsfnShift
  intro tx
  rw [ensures_bind]
  apply ensures_gsfnShift
  intro rx
  rw [ensures_bind]
  apply ensures_gsfnShift
  intro loc
  apply moves_bind_update rfl
  exact moves_macSchedule _ _ _

/-- The first part of a slot indication starts the cell. -/
theorem moves_start {g : Unit → CellM Unit} {c : Cell} {s : Control} {tr : List ControlEvent}
    (h : ∀ c₁ : Cell, c₁.control = c.control.started →
      Ensures (g ()) c₁ fun _ c' => Moves s tr c₁ c') :
    Ensures ((when (c.ctx.state = .phyInit) do
      setPhyState .phyActive
      setSchState .schNormal
      setClock fun clock => { clock with gSystemTtiNum := 0, sMacLocalGSfn := ⟨0, 0⟩ }) >>= g) c
      fun _ c' => Moves s tr c c' := by
  by_cases hinit : c.ctx.state = .phyInit
  · rw [when, if_pos hinit, ensures_bind]
    simp only [setPhyState, setSchState, setClock, ensures_bind, ensures_update]
    refine (h _ ?_).mono ?_
    · exact (if_pos hinit).symm
    · intro _ c' hmoves
      exact hmoves
  · rw [when, if_neg hinit, ensures_bind, ensures_pure]
    exact h c (if_neg hinit).symm

/-- The state of the PHY is set at the end of a handler. -/
theorem moves_then_setPhyState {x : CellM Unit} {state : MacStatus} {c : Cell} {s : Control}
    {tr : List ControlEvent} (h : Ensures x c fun _ c' => Moves s tr c c') :
    Ensures (do x; setPhyState state) c fun _ c' => Moves { s with state := state } tr c c' := by
  rw [ensures_bind]
  refine h.mono ?_
  intro _ c' hmoves
  obtain ⟨rfl, hlog⟩ := hmoves
  rw [setPhyState, ensures_update]
  exact ⟨rfl, hlog⟩

theorem moves_macTxStartIndHandle (slotInd : SlotIndication) (c : Cell) :
    Ensures (macTxStartIndHandle env slotInd) c fun _ c' =>
      Moves c.control.slotHandled c.control.slotTrace c c' := by
  unfold macTxStartIndHandle Control.slotHandled Control.slotTrace
  rw [ensures_bind, ensures_read]
  apply moves_start
  intro c₁ hctl
  rw [← hctl, ensures_bind, ensures_read]
  by_cases hactive : c₁.control.state ≠ .phyActive
  · have hstate : (id c₁).ctx.state ≠ .phyActive := hactive
    rw [if_pos hactive, if_pos hactive, if_pos hstate, ensures_pure]
    exact .refl c₁
  · have hstate : ¬ (id c₁).ctx.state ≠ .phyActive := hactive
    rw [if_neg hactive, if_neg hactive, if_neg hstate]
    apply moves_bind_update rfl
    by_cases hover : c₁.control.Over
    · have hcase : testCaseOver (id c₁).ctx.runttiPerTc (id c₁).clock.gSystemTtiNum := hover
      rw [if_pos hover, if_pos hover, if_pos hcase]
      apply moves_bind_requests (requests_sendHeaderOnly (by simp))
      intro _ c₂ hctl₂
      have hcounted : { c₂.control.counted with schState := .schStop } =
          { c₁.control.counted with schState := .schStop } := by
        rw [hctl₂]
        rfl
      rw [← hcounted]
      apply moves_bind_update rfl
      rw [setClock, ensures_update]
      exact .refl _
    · have hcase : ¬ testCaseOver (id c₁).ctx.runttiPerTc (id c₁).clock.gSystemTtiNum := hover
      rw [if_neg hover, if_neg hover, if_neg hcase]
      exact moves_prepareSlot slotInd _

theorem moves_slotIndication (slotInd : SlotIndication) (c : Cell) :
    Ensures (slotIndication env slotInd) c fun _ c' =>
      Moves c.control.slotIndication c.control.slotTrace c c' := by
  apply moves_then_setPhyState
  exact moves_macTxStartIndHandle slotInd c

/-- Every input moves a cell as the control machine says. -/
theorem moves_cellAction (i : CellInput) (c : Cell) :
    Ensures (cellAction env i) c fun _ c' => Moves (c.control.next i) (c.control.trace i) c c' := by
  cases i with
  | tcConfigCase => exact moves_tcConfigCase c
  | tcDlCase sfn slot =>
    exact moves_sendSingle (requests_l1MsgProc (requests_sendDlTTIReq (List.mem_singleton_self _)))
      _ (by intro _; rfl) c
  | tcUlCase sfn slot =>
    exact moves_sendSingle (requests_l1MsgProc (requests_sendUlTTIReq (List.mem_singleton_self _)))
      _ (by intro _; rfl) c
  | tcTxCase sfn slot =>
    exact moves_sendSingle (requests_l1MsgProc (requests_sendTxdataReq (List.mem_singleton_self _)))
      _ (by intro _; rfl) c
  | txCase files => exact moves_txCase files c
  | tcStop => exact moves_tcStop c
  | startTest => exact moves_startTest c
  | cfgResponse errorCode => exact moves_macRevCfgResonse errorCode c
  | errorIndication messageId errorCode => exact moves_macRevErrorIndication messageId errorCode c
  | stopIndication => exact moves_macRevStopIndication c
  | slotIndication slotInd => exact moves_slotIndication slotInd c

end TestMac

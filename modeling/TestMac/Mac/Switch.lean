import TestMac.Mac.Runs
import TestMac.Mac.Sends

/-!
# Switching the test case of a busy cell

A busy cell is asked to stop, and its scheduler is set going before the PHY has
answered. When the stop indication comes, automatic mode takes a going scheduler
for a cell that must not be configured. Only the slot counter can save the switch,
by stopping the scheduler once more in between.
-/

namespace TestMac

open Act

namespace Control

variable {s : Control}

/-- The slot counter stops the scheduler in one of the next slots. A cell that
waits for its configuration is merely set to active by the first of them. -/
def StopsWithin (s : Control) (slots : ℕ) : Prop :=
  ∃ k < slots - (if s.state = .phyCfg then 1 else 0), (counted^[k] s.started).Over

theorem started_of_active (hs : s.state = .phyActive) : s.started = s := by
  simp [started, hs]

theorem started_started (s : Control) : s.started.started = s.started := by
  unfold started
  split_ifs with h₁ h₂
  · cases h₂
  · rfl
  · rfl

/-- Starting a cell is a part of its first slot. -/
theorem slotIndication_started (s : Control) : s.started.slotIndication = s.slotIndication := by
  simp only [slotIndication, slotHandled, started_started]

/-- One slot of an active cell. -/
theorem slotIndication_active (hs : s.state = .phyActive) :
    s.slotIndication =
      { s.counted with schState := if s.Over then .schStop else s.schState } := by
  have hctl : { s.counted with state := .phyActive } = s.counted := by
    rw [← hs]
    rfl
  simp only [slotIndication, slotHandled, started_of_active hs, ne_eq, hs, not_true_eq_false,
    if_false]
  split_ifs with hover
  · rw [← hctl]
  · exact hctl

/-- Only the counter and the length of a test case say when it is over. -/
theorem iterate_counted_over {s' : Control} (hrun : s.runttiPerTc = s'.runttiPerTc)
    (htti : s.gSystemTtiNum = s'.gSystemTtiNum) (k : ℕ) :
    (counted^[k] s).Over ↔ (counted^[k] s').Over := by
  induction k generalizing s s' with
  | zero =>
    simp only [Function.iterate_zero, id, Over]
    rw [hrun, htti]
  | succ k ih => exact ih hrun (by simp [counted, htti])

/-- The scheduler of an active cell is stopped by the slot counter alone. -/
theorem iterate_slotIndication_active (hs : s.state = .phyActive) (n : ℕ) :
    (slotIndication^[n] s).schState = .schStop ↔
      s.schState = .schStop ∨ ∃ k < n, (counted^[k] s).Over := by
  induction n generalizing s with
  | zero => simp
  | succ n ih =>
    have hnext := ih
      (s := { s.counted with schState := if s.Over then .schStop else s.schState }) hs
    have hsucc : (∃ k < n + 1, (counted^[k] s).Over) ↔
        s.Over ∨ ∃ k < n, (counted^[k] s.counted).Over := by
      constructor
      · rintro ⟨k, hk, hover⟩
        cases k with
        | zero => exact .inl hover
        | succ k => exact .inr ⟨k, by omega, hover⟩
      · rintro (hover | ⟨k, hk, hover⟩)
        · exact ⟨0, by omega, hover⟩
        · exact ⟨k + 1, by omega, hover⟩
    have hover (k : ℕ) :
        (counted^[k] { s.counted with schState := if s.Over then .schStop else s.schState }).Over ↔
          (counted^[k] s.counted).Over :=
      iterate_counted_over (by rfl) (by rfl) k
    simp only [hover] at hnext
    rw [Function.iterate_succ_apply, slotIndication_active hs, hnext, hsucc]
    by_cases hover : s.Over
    · simp [hover]
    · simp [hover, counted]

/-- The scheduler of a busy cell with a going scheduler is stopped within some slots
exactly when the slot counter stops it. -/
theorem iterate_slotIndication_stops (hbusy : s.state ≠ .phyIdle) (hsch : s.schState = .schNormal)
    (n : ℕ) : (slotIndication^[n] s).schState = .schStop ↔ s.StopsWithin n := by
  cases n with
  | zero => simp [StopsWithin, hsch]
  | succ n =>
    unfold StopsWithin
    cases hs : s.state with
    | phyIdle => exact absurd hs hbusy
    | phyCfg =>
      have hstarted : s.started = s := by simp [started, hs]
      have hfirst : s.slotIndication = { s with state := .phyActive } := by
        simp [slotIndication, slotHandled, hstarted, hs]
      have hover (k : ℕ) :
          (counted^[k] { s with state := .phyActive }).Over ↔ (counted^[k] s).Over :=
        iterate_counted_over (by rfl) (by rfl) k
      rw [Function.iterate_succ_apply, hfirst, iterate_slotIndication_active rfl, hstarted]
      simp only [hover]
      simp [hsch]
    | phyInit =>
      have hstarted : s.started.state = .phyActive ∧ s.started.schState = .schNormal := by
        simp [started, hs]
      rw [Function.iterate_succ_apply, ← slotIndication_started, ← Function.iterate_succ_apply,
        iterate_slotIndication_active hstarted.1]
      simp [hstarted.2]
    | phyActive =>
      rw [iterate_slotIndication_active hs, started_of_active hs]
      simp [hsch]

end Control

variable {w : World} {dev cell : ℕ}

/-- The input is a slot indication for the cell. -/
def Input.isSlotOf (dev cell : ℕ) : Input → Bool
  | .slotIndication dev' cell' _ => dev' == dev && cell' == cell
  | _ => false

/-- Nothing but slot indications reaches the cell. -/
def OnlySlots (w : World) (dev cell : ℕ) (m : Mac) (i : Input) : Prop :=
  ∀ ci, i.atCell w m.cellNum dev cell = some ci → ∃ slotInd, ci = .slotIndication slotInd

theorem atCell_isSlotOf {m : Mac} {i : Input} {slotInd : SlotIndication}
    (h : i.atCell w m.cellNum dev cell = some (.slotIndication slotInd)) :
    i.isSlotOf dev cell = true := by
  rw [atCell_slotIndication h]
  simp [Input.isSlotOf]

theorem isSlotOf_atCell {m : Mac} {i : Input} (h : i.isSlotOf dev cell = true) :
    ∃ slotInd, i.atCell w m.cellNum dev cell = some (.slotIndication slotInd) := by
  cases i with
  | slotIndication dev' cell' slotInd =>
    simp only [Input.isSlotOf, Bool.and_eq_true, beq_iff_eq] at h
    exact ⟨slotInd, if_pos h⟩
  | appMsg msg => cases h
  | cfgResponse dev' cell' errorCode => cases h
  | errorIndication dev' cell' messageId errorCode => cases h
  | stopIndication dev' cell' => cases h

/-- The control state after slot indications only. -/
theorem run_slots {m m' : Mac} {is : List Input} (hrun : Steps (Handles w) m is m')
    (hslots : Steps.Meets (Handles w) (OnlySlots w dev cell) m is) :
    (m'.cells dev cell).control =
      Control.slotIndication^[is.countP (Input.isSlotOf dev cell)] (m.cells dev cell).control := by
  induction hrun with
  | nil => rfl
  | @cons a b _ i is hs _ ih =>
    rw [ih (hslots.tail hs)]
    rcases hs.moves dev cell with ⟨hnone, hsame⟩ | ⟨ci, hci, hctl, -⟩
    · have hnot : ¬ i.isSlotOf dev cell = true := by
        intro h
        obtain ⟨slotInd, hsome⟩ := isSlotOf_atCell (w := w) (m := a) h
        rw [hnone] at hsome
        cases hsome
      rw [List.countP_cons_of_neg hnot, own_control hsame]
    · obtain ⟨slotInd, rfl⟩ := hslots.head ci hci
      rw [List.countP_cons_of_pos (atCell_isSlotOf hci), Function.iterate_succ_apply, hctl]
      rfl

/-- The command reaches the cell and switches its test case, and the application can
post it in the mode of the cell. -/
def Switches (w : World) (m : Mac) (dev cell : ℕ) (msg : CtrlMsg) : Prop :=
  ((m.cells dev cell).ctx.operMode = .auto ∧
    msg.atCell w m.cellNum dev cell = some .startTest) ∨
  ((m.cells dev cell).ctx.operMode = .manual ∧
    ∃ files, msg.atCell w m.cellNum dev cell = some (.txCase files))

namespace Control

variable {s : Control}

/-- What a slot indication keeps, any number of them keep. -/
theorem iterate_slotIndication_keeps {α : Type} {f : Control → α}
    (h : ∀ s, f (slotIndication s) = f s) (s : Control) (n : ℕ) :
    f (slotIndication^[n] s) = f s := by
  induction n generalizing s with
  | zero => rfl
  | succ n ih => rw [Function.iterate_succ_apply, ih, h]

theorem slotIndication_operMode (s : Control) : (slotIndication s).operMode = s.operMode := by
  simp only [slotIndication, slotHandled, started, counted]
  split_ifs
  all_goals rfl

theorem slotIndication_phyStub (s : Control) : (slotIndication s).phyStub = s.phyStub := by
  simp only [slotIndication, slotHandled, started, counted]
  split_ifs
  all_goals rfl

/-- The switch of a busy cell only sets its scheduler going. -/
theorem switched_busy (hbusy : s.state ≠ .phyIdle) (hstub : s.phyStub = false) :
    s.switched = { s with schState := .schNormal } := by
  simp [switched, hbusy, hstub]

theorem stopsWithin_with (s : Control) (schState : MacSchStatus) (n : ℕ) :
    { s with schState := schState }.StopsWithin n ↔ s.StopsWithin n := by
  have hover (k : ℕ) : (counted^[k] { s with schState := schState }.started).Over ↔
      (counted^[k] s.started).Over := by
    apply iterate_counted_over
    · simp only [started]
      split_ifs
      all_goals rfl
    · simp only [started]
      split_ifs
      all_goals rfl
  simp only [StopsWithin, hover]

/-- A stop indication is answered by a configuration, or leaves the cell idle. -/
theorem stopIndication_state (hstub : s.phyStub = false) :
    s.stopIndication.state =
      if s.operMode = .auto ∧ s.schState ≠ .schStop then .phyIdle else .phyCfg := by
  simp only [stopIndication, configured, hstub, Bool.false_eq_true, if_false]
  split_ifs
  · rfl
  · rfl

end Control

/-- The stop indication has been answered: the configuration request has been sent and
the cell waits for the response. -/
def Reconfigured (c c' : Cell) : Prop :=
  c'.ctx.state = .phyCfg ∧ ∃ bytes, .sent fapiConfigRequest bytes ∈ c'.log.drop c.log.length

/-- With a driver that accepts, a stop indication is answered by a configuration request. -/
theorem ensures_macRevStopIndication_sends {env : Env} {c : Cell}
    (hstart : ∀ n, env.pcxxSendStart n = true) (hsend : ∀ n, env.pcxxCtrlSend n = true)
    (hstub : c.ctx.phyStub = false)
    (hgoes : ¬ (c.ctx.operMode = .auto ∧ c.ctx.schState ≠ .schStop)) :
    Ensures (macRevStopIndication env) c fun _ c' =>
      ∃ bytes, .sent fapiConfigRequest bytes ∈ c'.log.drop c.log.length := by
  simp only [macRevStopIndication, logEvent, setPhyState, ensures_bind, ensures_update,
    ensures_read, hgoes, if_false, hstub, Bool.false_eq_true, ensures_when, IsEmpty.forall_iff,
    true_and, not_false_eq_true, forall_const]
  refine ensures_sendPhyConfigReq_log.mono ?_
  intro _ c' hlog
  obtain ⟨bytes, hlog⟩ := hlog
  rw [if_pos ⟨hstart _, hsend _⟩] at hlog
  exact ⟨bytes, by simp [hlog]⟩

/-- When the test case of a busy cell is switched and the stop indication comes after
slot indications only, the cell is reconfigured exactly in manual mode or when the slot
counter has stopped the scheduler in between. The driver accepts what it is given. -/
theorem switch_reconfigures_iff {m₀ m₁ m₂ m₃ : Mac} {msg : CtrlMsg} {is : List Input}
    (hstart : ∀ n, (w.env dev cell).pcxxSendStart n = true)
    (hsend : ∀ n, (w.env dev cell).pcxxCtrlSend n = true)
    (hstub : (m₀.cells dev cell).ctx.phyStub = false)
    (hbusy : (m₀.cells dev cell).ctx.state ≠ .phyIdle) (hmsg : Switches w m₀ dev cell msg)
    (hcmd : Handles w m₀ (.appMsg msg) m₁) (hrun : Steps (Handles w) m₁ is m₂)
    (hslots : Steps.Meets (Handles w) (OnlySlots w dev cell) m₁ is)
    (hstop : Handles w m₂ (.stopIndication dev cell) m₃) :
    Reconfigured (m₂.cells dev cell) (m₃.cells dev cell) ↔
      (m₀.cells dev cell).ctx.operMode = .manual ∨
        (m₀.cells dev cell).control.StopsWithin (is.countP (Input.isSlotOf dev cell)) := by
  -- the command leaves the cell busy, with a going scheduler
  have hs₁ : (m₁.cells dev cell).control =
      { (m₀.cells dev cell).control with schState := .schNormal } := by
    rcases hcmd.moves dev cell with ⟨hnone, -⟩ | ⟨ci, hci, hctl, -⟩
    · rcases hmsg with ⟨-, hsome⟩ | ⟨-, files, hsome⟩
      · exact absurd (hnone.symm.trans hsome) nofun
      · exact absurd (hnone.symm.trans hsome) nofun
    · have hnext : (m₀.cells dev cell).control.next ci = (m₀.cells dev cell).control.switched := by
        rcases hmsg with ⟨-, hsome⟩ | ⟨-, files, hsome⟩
        · obtain rfl := Option.some.inj (hci.symm.trans hsome)
          rfl
        · obtain rfl := Option.some.inj (hci.symm.trans hsome)
          rfl
      rw [hctl, hnext]
      exact Control.switched_busy hbusy hstub
  have hs₂ := run_slots hrun hslots
  rw [hs₁] at hs₂
  have hmode : (m₂.cells dev cell).ctx.operMode = (m₀.cells dev cell).ctx.operMode :=
    (congrArg Control.operMode hs₂).trans
      (Control.iterate_slotIndication_keeps Control.slotIndication_operMode _ _)
  have hstub₂ : (m₂.cells dev cell).ctx.phyStub = false :=
    ((congrArg Control.phyStub hs₂).trans
      (Control.iterate_slotIndication_keeps Control.slotIndication_phyStub _ _)).trans hstub
  have hsch : (m₂.cells dev cell).ctx.schState = .schStop ↔
      (m₀.cells dev cell).control.StopsWithin (is.countP (Input.isSlotOf dev cell)) := by
    rw [← Control.stopsWithin_with _ .schNormal, ← Control.iterate_slotIndication_stops hbusy rfl,
      ← hs₂]
    rfl
  have hact : macRevStopIndication (w.env dev cell) (m₂.cells dev cell) =
      some ((), m₃.cells dev cell) := by
    have hat := hstop.atCell dev cell
    simpa [Input.atCell, CellHandles, cellAction] using hat
  have hmoves := moves_macRevStopIndication (m₂.cells dev cell) () _ hact
  have hstate : (m₃.cells dev cell).ctx.state = (m₂.cells dev cell).control.stopIndication.state :=
    congrArg Control.state hmoves.1
  rw [Control.stopIndication_state hstub₂] at hstate
  rw [← hmode, ← hsch]
  constructor
  · intro hconf
    by_contra hnot
    have hauto : (m₂.cells dev cell).control.operMode = .auto ∧
        (m₂.cells dev cell).control.schState ≠ .schStop := by
      constructor
      · cases hm : (m₂.cells dev cell).ctx.operMode with
        | auto => exact hm
        | manual => exact absurd (Or.inl hm) hnot
      · exact fun h => hnot (Or.inr h)
    rw [if_pos hauto, hconf.1] at hstate
    cases hstate
  · intro hgoes
    have hnot : ¬ ((m₂.cells dev cell).ctx.operMode = .auto ∧
        (m₂.cells dev cell).ctx.schState ≠ .schStop) := by
      rintro ⟨hauto, hsch'⟩
      rcases hgoes with hmanual | hstopped
      · rw [hauto] at hmanual
        cases hmanual
      · exact hsch' hstopped
    refine ⟨hstate.trans (if_neg hnot), ?_⟩
    exact ensures_macRevStopIndication_sends hstart hsend hstub₂ hnot () _ hact

instance (m : Mac) (i : Input) : Decidable (OnlySlots w dev cell m i) :=
  match h : i.atCell w m.cellNum dev cell with
  | some (.slotIndication slotInd) => .isTrue (by
      intro ci hci
      rw [h] at hci
      cases hci
      exact ⟨slotInd, rfl⟩)
  | none => .isTrue (by simp [OnlySlots, h])
  | some .tcConfigCase => .isFalse (by simp [OnlySlots, h])
  | some (.tcDlCase _ _) => .isFalse (by simp [OnlySlots, h])
  | some (.tcUlCase _ _) => .isFalse (by simp [OnlySlots, h])
  | some (.tcTxCase _ _) => .isFalse (by simp [OnlySlots, h])
  | some (.txCase _) => .isFalse (by simp [OnlySlots, h])
  | some .tcStop => .isFalse (by simp [OnlySlots, h])
  | some .startTest => .isFalse (by simp [OnlySlots, h])
  | some (.cfgResponse _) => .isFalse (by simp [OnlySlots, h])
  | some (.errorIndication _ _) => .isFalse (by simp [OnlySlots, h])
  | some .stopIndication => .isFalse (by simp [OnlySlots, h])

/-- An active cell whose test case is over after every slot is switched in automatic
mode: the slot that comes in between stops the scheduler. -/
theorem switch_reconfigures_after_slot :
    ∃ m₀ m₁ m₂ m₃, Steps (Handles readyWorld) (restingMac .auto 1)
        [.appMsg ⟨appStartTest, 0, 0, 0, 0⟩, .cfgResponse 0 0 0, .slotIndication 0 0 ⟨0, 0⟩] m₀ ∧
      Handles readyWorld m₀ (.appMsg ⟨appStartTest, 1, 0, 0, 0⟩) m₁ ∧
      Steps (Handles readyWorld) m₁ [.slotIndication 0 0 ⟨0, 1⟩] m₂ ∧
      Handles readyWorld m₂ (.stopIndication 0 0) m₃ ∧
      Reconfigured (m₂.cells 0 0) (m₃.cells 0 0) := by
  have hrun : ((runInputs readyWorld (fun _ _ => True) (restingMac .auto 1)
      [.appMsg ⟨appStartTest, 0, 0, 0, 0⟩, .cfgResponse 0 0 0, .slotIndication 0 0 ⟨0, 0⟩]).bind
      fun m₀ => (handle readyWorld (.appMsg ⟨appStartTest, 1, 0, 0, 0⟩) m₀).bind
      fun r₁ => (runInputs readyWorld (OnlySlots readyWorld 0 0) r₁.2
        [.slotIndication 0 0 ⟨0, 1⟩]).bind
      fun m₂ => (handle readyWorld (.stopIndication 0 0) m₂).map
      fun _ => decide ((m₀.cells 0 0).ctx.phyStub = false ∧ (m₀.cells 0 0).ctx.operMode = .auto ∧
        m₀.cellNum = 1 ∧ (m₀.cells 0 0).ctx.state = .phyActive ∧
        (m₀.cells 0 0).control.started.Over)) = some true := by
    decide +kernel
  obtain ⟨m₀, h₀, hrun⟩ := Option.bind_eq_some_iff.mp hrun
  obtain ⟨r₁, h₁, hrun⟩ := Option.bind_eq_some_iff.mp hrun
  obtain ⟨m₂, h₂, hrun⟩ := Option.bind_eq_some_iff.mp hrun
  obtain ⟨r₃, h₃, hend⟩ := Option.map_eq_some_iff.mp hrun
  obtain ⟨hstub, hauto, hnum, hactive, hover⟩ := of_decide_eq_true hend
  obtain ⟨hpath, hslots⟩ := path_of_runInputs h₂
  have hmsg : Switches readyWorld m₀ 0 0 ⟨appStartTest, 1, 0, 0, 0⟩ := by
    refine .inl ⟨hauto, ?_⟩
    rw [hnum]
    rfl
  have hbusy : (m₀.cells 0 0).ctx.state ≠ .phyIdle := by
    rw [hactive]
    decide
  have hstops : (m₀.cells 0 0).control.StopsWithin 1 := by
    refine ⟨0, ?_, hover⟩
    rw [show (m₀.cells 0 0).control.state = .phyActive from hactive]
    decide
  exact ⟨m₀, r₁.2, m₂, r₃.2, (path_of_runInputs h₀).1, h₁, hpath, h₃,
    (switch_reconfigures_iff (fun _ => rfl) (fun _ => rfl) hstub hbusy hmsg h₁ hpath hslots h₃).mpr
      (.inr hstops)⟩

/-- In automatic mode the switch of an active cell is forgotten: the stop indication
leaves the cell idle. -/
theorem switch_forgotten_in_auto :
    (restingMac .auto 0).Initial ∧
    ∃ m₀ m₁ m₂, Steps (Handles readyWorld) (restingMac .auto 0)
        [.appMsg ⟨appStartTest, 0, 0, 0, 0⟩, .cfgResponse 0 0 0, .slotIndication 0 0 ⟨0, 0⟩] m₀ ∧
      (m₀.cells 0 0).ctx.state = .phyActive ∧
      Handles readyWorld m₀ (.appMsg ⟨appStartTest, 1, 0, 0, 0⟩) m₁ ∧
      Handles readyWorld m₁ (.stopIndication 0 0) m₂ ∧
      (m₂.cells 0 0).ctx.state = .phyIdle ∧
      (m₂.cells 0 0).log.drop (m₁.cells 0 0).log.length = [.stopIndication] := by
  have hrun : ((runInputs readyWorld (fun _ _ => True) (restingMac .auto 0)
      [.appMsg ⟨appStartTest, 0, 0, 0, 0⟩, .cfgResponse 0 0 0, .slotIndication 0 0 ⟨0, 0⟩]).bind
      fun m₀ => (handle readyWorld (.appMsg ⟨appStartTest, 1, 0, 0, 0⟩) m₀).bind
      fun r₁ => (handle readyWorld (.stopIndication 0 0) r₁.2).map
      fun r₂ => decide ((m₀.cells 0 0).ctx.state = .phyActive ∧
        (r₂.2.cells 0 0).ctx.state = .phyIdle ∧
        (r₂.2.cells 0 0).log.drop (r₁.2.cells 0 0).log.length = [.stopIndication])) =
      some true := by
    decide +kernel
  obtain ⟨m₀, h₀, hrun⟩ := Option.bind_eq_some_iff.mp hrun
  obtain ⟨r₁, h₁, hrun⟩ := Option.bind_eq_some_iff.mp hrun
  obtain ⟨r₂, h₂, hend⟩ := Option.map_eq_some_iff.mp hrun
  obtain ⟨hactive, hidle, hlog⟩ := of_decide_eq_true hend
  exact ⟨restingMac_initial .auto 0, m₀, r₁.2, r₂.2, (path_of_runInputs h₀).1, hactive, h₁, h₂,
    hidle, hlog⟩

end TestMac

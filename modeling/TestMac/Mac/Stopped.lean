import TestMac.Mac.Runs

/-!
# A stopped cell

The command that stops a cell stops the schedulers of the first cells of its device,
whichever cell it is addressed to. From then on nothing is scheduled for them, unless a
slot indication finds the PHY just configured: the cell is then started as after a switch
of the test case.
-/

namespace TestMac

open Act

/-- The commands that set a cell going again. -/
def CellInput.Restarts : CellInput → Prop
  | .tcConfigCase => True
  | .txCase _ => True
  | .startTest => True
  | _ => False

/-- Nothing that reaches the cell sets it going again. -/
def NoRestart (w : World) (dev cell : ℕ) (m : Mac) (i : Input) : Prop :=
  ∀ ci, i.atCell w m.cellNum dev cell = some ci → ¬ ci.Restarts

/-- The input is no slot indication to a cell whose PHY has just been configured. -/
def NoFirstSlot (dev cell : ℕ) (m : Mac) (i : Input) : Prop :=
  ∀ slotInd, i = .slotIndication dev cell slotInd → (m.cells dev cell).ctx.state ≠ .phyInit

/-- A trace without slots. -/
def Unscheduled (tr : List ControlEvent) : Prop :=
  ∀ e ∈ tr, e ≠ .scheduled ∧ ∀ sfn slot, e ≠ .event (.ttiTx sfn slot)

theorem Traces.no_ttiTx {tr : List ControlEvent} {es : List CellEvent} (h : Traces tr es)
    (htr : Unscheduled tr) (sfn slot : ℕ) : .ttiTx sfn slot ∉ es := by
  induction h with
  | nil => simp
  | requests hes _ ih =>
    intro hmem
    rcases List.mem_append.mp hmem with hmem | hmem
    · exact hes _ hmem
    · exact ih (fun e he => htr e (List.mem_cons_of_mem _ he)) hmem
  | scheduled _ _ => exact absurd rfl (htr .scheduled List.mem_cons_self).1
  | event _ ih =>
    intro hmem
    rcases List.mem_cons.mp hmem with heq | hmem
    · exact (htr _ List.mem_cons_self).2 sfn slot (congrArg ControlEvent.event heq.symm)
    · exact ih (fun e he => htr e (List.mem_cons_of_mem _ he)) hmem

theorem Traces.ttiTx_mem {tr : List ControlEvent} {es : List CellEvent} (h : Traces tr es)
    (htr : .scheduled ∈ tr) : ∃ sfn slot, .ttiTx sfn slot ∈ es := by
  induction h with
  | nil => simp at htr
  | requests _ _ ih =>
    obtain ⟨sfn, slot, hmem⟩ := ih (by simpa using htr)
    exact ⟨sfn, slot, List.mem_append_right _ hmem⟩
  | @scheduled sfn slot _ _ _ _ => exact ⟨sfn, slot, List.mem_cons_self⟩
  | event _ ih =>
    obtain ⟨sfn, slot, hmem⟩ := ih (by simpa using htr)
    exact ⟨sfn, slot, List.mem_cons_of_mem _ hmem⟩

theorem Unscheduled.cons {e : ControlEvent} {tr : List ControlEvent} (he : e ≠ .scheduled)
    (he' : ∀ sfn slot, e ≠ .event (.ttiTx sfn slot)) (h : Unscheduled tr) :
    Unscheduled (e :: tr) := by
  intro e' hmem
  rcases List.mem_cons.mp hmem with rfl | hmem
  · exact ⟨he, he'⟩
  · exact h e' hmem

theorem cfgTrace_unscheduled (s : Control) (errorCode : ℕ) :
    Unscheduled (s.cfgTrace errorCode) := by
  unfold Control.cfgTrace
  split_ifs
  all_goals simp [Unscheduled]

theorem configTrace_unscheduled (s : Control) : Unscheduled s.configTrace := by
  unfold Control.configTrace
  refine Unscheduled.cons (by simp) (by simp) ?_
  split_ifs
  · exact cfgTrace_unscheduled s 0
  · simp [Unscheduled]

/-- A stopped cell stays stopped, as long as it is not restarted or started anew. -/
theorem Control.next_stopped {s : Control} {i : CellInput} (hs : s.schState = .schStop)
    (hi : ¬ i.Restarts) (hslot : ∀ slotInd, i = .slotIndication slotInd → s.state ≠ .phyInit) :
    (s.next i).schState = .schStop := by
  cases i with
  | tcConfigCase => exact absurd trivial hi
  | tcDlCase sfn slot => exact hs
  | tcUlCase sfn slot => exact hs
  | tcTxCase sfn slot => exact hs
  | txCase files => exact absurd trivial hi
  | tcStop => rfl
  | startTest => exact absurd trivial hi
  | cfgResponse errorCode =>
    simp only [next, cfgResponse]
    split_ifs
    all_goals exact hs
  | errorIndication messageId errorCode =>
    simp only [next, errorIndication]
    split_ifs
    all_goals exact hs
  | stopIndication =>
    simp only [next, stopIndication, configured, cfgResponse]
    split_ifs
    all_goals exact hs
  | slotIndication slotInd =>
    have hnot := hslot slotInd rfl
    simp only [next, slotIndication, slotHandled, started, if_neg hnot, counted]
    split_ifs
    all_goals first | exact hs | rfl

theorem switchTrace_unscheduled (s : Control) {first : List ControlEvent}
    (hfirst : Unscheduled first) : Unscheduled (s.switchTrace first) := by
  unfold Control.switchTrace
  split_ifs
  · simp [Unscheduled]
  · simp [Unscheduled]
  · intro e hmem
    rcases List.mem_append.mp hmem with hmem | hmem
    · exact hfirst e hmem
    · exact configTrace_unscheduled s e hmem

/-- A slot is scheduled with a slot indication only, by a scheduler that runs. -/
theorem Control.trace_unscheduled {s : Control} {i : CellInput}
    (hslot : ∀ slotInd, i = .slotIndication slotInd → ¬ s.Schedules) :
    Unscheduled (s.trace i) := by
  cases i with
  | tcConfigCase => simp [trace, Unscheduled]
  | tcDlCase sfn slot => simp [trace, Unscheduled]
  | tcUlCase sfn slot => simp [trace, Unscheduled]
  | tcTxCase sfn slot => simp [trace, Unscheduled]
  | txCase files => exact switchTrace_unscheduled s (by simp [Unscheduled])
  | tcStop => simp [trace, Unscheduled]
  | startTest => exact switchTrace_unscheduled s (by simp [Unscheduled])
  | cfgResponse errorCode => exact cfgTrace_unscheduled s errorCode
  | errorIndication messageId errorCode => simp [trace, Unscheduled]
  | stopIndication =>
    simp only [trace, stopTrace]
    refine Unscheduled.cons (by simp) (by simp) ?_
    split_ifs
    · simp [Unscheduled]
    · exact configTrace_unscheduled s
  | slotIndication slotInd =>
    have hnot := hslot slotInd rfl
    simp only [trace, slotTrace]
    split_ifs with hactive hover hstop
    · simp [Unscheduled]
    · simp [Unscheduled]
    · simp [Unscheduled]
    · exact absurd ⟨not_not.mp hactive, hover, hstop⟩ hnot

theorem Control.slotTrace_schedules {s : Control} (hs : s.Schedules) :
    .scheduled ∈ s.slotTrace := by
  obtain ⟨hactive, hover, hstop⟩ := hs
  simp [slotTrace, hactive, hover, hstop]

/-- The first slot of a configured cell is scheduled. -/
theorem Control.schedules_of_init {s : Control} (hs : s.state = .phyInit) : s.Schedules := by
  simp [Schedules, started, hs, Over, testCaseOver]

/-- Any other slot is, when the cell is active, its scheduler runs and the test case is
not over. -/
theorem Control.schedules_iff {s : Control} (hs : s.state ≠ .phyInit) :
    s.Schedules ↔ s.state = .phyActive ∧ ¬ s.Over ∧ s.schState ≠ .schStop := by
  simp only [Schedules, started, if_neg hs]

variable {w : World} {dev cell : ℕ}

/-- The input is no slot indication that a cell schedules. -/
def NoSlot (dev cell : ℕ) (m : Mac) (i : Input) : Prop :=
  ∀ slotInd, i = .slotIndication dev cell slotInd → ¬ (m.cells dev cell).control.Schedules

/-- A slot indication that is scheduled shows in the log. -/
theorem slotIndication_scheduled {m m' : Mac} {slotInd : SlotIndication}
    (h : Handles w m (.slotIndication dev cell slotInd) m')
    (hsch : (m.cells dev cell).control.Schedules) :
    ∃ es sfn slot, (m'.cells dev cell).log = (m.cells dev cell).log ++ es ∧
      .ttiTx sfn slot ∈ es := by
  have hat : (Input.slotIndication dev cell slotInd).atCell w m.cellNum dev cell =
      some (.slotIndication slotInd) := by
    simp [Input.atCell]
  rcases h.moves dev cell with ⟨hnone, -⟩ | ⟨ci, hci, -, es, hlog, htr⟩
  · rw [hat] at hnone
    cases hnone
  · rw [hat] at hci
    cases hci
    obtain ⟨sfn, slot, hmem⟩ := htr.ttiTx_mem (Control.slotTrace_schedules hsch)
    exact ⟨es, sfn, slot, hlog, hmem⟩

/-- Any other input schedules nothing. -/
theorem Handles.no_ttiTx {m m' : Mac} {i : Input} (h : Handles w m i m')
    (hslot : NoSlot dev cell m i) :
    ∃ es, (m'.cells dev cell).log = (m.cells dev cell).log ++ es ∧
      ∀ sfn slot, .ttiTx sfn slot ∉ es := by
  rcases h.moves dev cell with ⟨-, hown⟩ | ⟨ci, hci, -, es, hlog, htr⟩
  · exact ⟨[], by simp [own_log hown], by simp⟩
  · refine ⟨es, hlog, htr.no_ttiTx (Control.trace_unscheduled ?_)⟩
    rintro slotInd rfl
    exact hslot slotInd (atCell_slotIndication hci)

theorem run_no_ttiTx {m m' : Mac} {is : List Input} (hrun : Steps (Handles w) m is m')
    (hslots : Steps.Meets (Handles w) (NoSlot dev cell) m is) :
    ∃ es, (m'.cells dev cell).log = (m.cells dev cell).log ++ es ∧
      ∀ sfn slot, .ttiTx sfn slot ∉ es := by
  induction hrun with
  | nil => exact ⟨[], by simp, by simp⟩
  | cons hs _ ih =>
    obtain ⟨es, hlog, hes⟩ := hs.no_ttiTx hslots.head
    obtain ⟨es', hlog', hes'⟩ := ih (hslots.tail hs)
    refine ⟨es ++ es', by rw [hlog', hlog, List.append_assoc], ?_⟩
    intro sfn slot hmem
    rcases List.mem_append.mp hmem with hmem | hmem
    · exact hes sfn slot hmem
    · exact hes' sfn slot hmem

/-- A run schedules no slot for a cell exactly when no slot indication finds it with a
scheduler that runs. -/
theorem unscheduled_iff {m m' : Mac} {is : List Input} (hrun : Steps (Handles w) m is m') :
    (∀ es, (m'.cells dev cell).log = (m.cells dev cell).log ++ es →
      ∀ sfn slot, .ttiTx sfn slot ∉ es) ↔ Steps.Meets (Handles w) (NoSlot dev cell) m is := by
  constructor
  · intro hunscheduled ms i ns b his hb slotInd hslot hsch
    rw [his] at hrun
    obtain ⟨b', hb', hrest⟩ := hrun.append_inv
    obtain rfl : b = b' := hb.unique (fun h h' => h.unique h') hb'
    obtain ⟨b'', hstep, hrest⟩ := hrest.cons_inv
    rw [hslot] at hstep
    obtain ⟨es₁, hlog₁⟩ := run_log_grows hb dev cell
    obtain ⟨es₂, sfn, slot, hlog₂, hmem⟩ := slotIndication_scheduled hstep hsch
    obtain ⟨es₃, hlog₃⟩ := run_log_grows hrest dev cell
    refine hunscheduled (es₁ ++ (es₂ ++ es₃)) ?_ sfn slot ?_
    · rw [hlog₃, hlog₂, hlog₁]
      simp only [List.append_assoc]
    · exact List.mem_append_right _ (List.mem_append_left _ hmem)
  · intro hslots es hlog sfn slot hmem
    obtain ⟨es', hlog', hes'⟩ := run_no_ttiTx hrun hslots
    rw [hlog, List.append_cancel_left_eq] at hlog'
    exact hes' sfn slot (hlog' ▸ hmem)

/-- A scheduler that is stopped stays so, as long as nothing restarts the cell and no first
slot starts it anew. -/
theorem stopped_lasts {m m' : Mac} {is : List Input} (hrun : Steps (Handles w) m is m')
    (hno : Steps.Meets (Handles w) (NoRestart w dev cell) m is)
    (hfirst : Steps.Meets (Handles w) (NoFirstSlot dev cell) m is)
    (hstop : (m.cells dev cell).control.schState = .schStop) :
    (m'.cells dev cell).control.schState = .schStop := by
  have hmeets : Steps.Meets (Handles w)
      (fun m i => NoRestart w dev cell m i ∧ NoFirstSlot dev cell m i) m is :=
    fun ms i ns b his hb => ⟨hno ms i ns b his hb, hfirst ms i ns b his hb⟩
  refine run_invariant (fun c => c.control.schState = .schStop) ?_ ?_ hrun hmeets hstop
  · intro c c' hown hs
    rw [own_control hown]
    exact hs
  · intro m i ci c' hs hP hci hmoves
    rw [hmoves.1]
    refine Control.next_stopped hs (hP.1 ci hci) ?_
    rintro slotInd rfl
    exact hP.2 slotInd (atCell_slotIndication hci)

instance (i : CellInput) : Decidable i.Restarts :=
  match i with
  | .tcConfigCase => .isTrue trivial
  | .txCase _ => .isTrue trivial
  | .startTest => .isTrue trivial
  | .tcDlCase _ _ => .isFalse nofun
  | .tcUlCase _ _ => .isFalse nofun
  | .tcTxCase _ _ => .isFalse nofun
  | .tcStop => .isFalse nofun
  | .cfgResponse _ => .isFalse nofun
  | .errorIndication _ _ => .isFalse nofun
  | .stopIndication => .isFalse nofun
  | .slotIndication _ => .isFalse nofun

instance (m : Mac) (i : Input) : Decidable (NoRestart w dev cell m i) :=
  match h : i.atCell w m.cellNum dev cell with
  | none => .isTrue (by simp [NoRestart, h])
  | some ci => decidable_of_iff (¬ ci.Restarts) (by simp [NoRestart, h])

/-- The command stops the scheduler of the cells that its loop comes to. -/
theorem tcStop_stops {m m' : Mac} {msg : CtrlMsg} (hmsg : msg.msgId = appTcStop)
    (hdev : msg.devIndex = dev) (h : Handles w m (.appMsg msg) m') (hcell : cell < m.cellNum) :
    (m'.cells dev cell).control.schState = .schStop := by
  have hat : (Input.appMsg msg).atCell w m.cellNum dev cell = some .tcStop := by
    simp [Input.atCell, CtrlMsg.atCell, hmsg, hdev, hcell]
  rcases h.moves dev cell with ⟨hnone, -⟩ | ⟨ci, hci, hctl, -⟩
  · rw [hat] at hnone
    cases hnone
  · rw [hat] at hci
    cases hci
    rw [hctl]
    rfl

/-- The input is no slot indication to a cell that is active, whose scheduler runs and
whose test case is not over. -/
def NoRunningSlot (dev cell : ℕ) (m : Mac) (i : Input) : Prop :=
  ∀ slotInd, i = .slotIndication dev cell slotInd → (m.cells dev cell).ctx.state = .phyActive →
    (m.cells dev cell).ctx.schState ≠ .schStop → (m.cells dev cell).control.Over

/-- After a stop command for a cell, and until a command restarts it, no slot is scheduled
for it exactly when no slot indication finds its PHY just configured and, if the cell is
not one of those that the loop of the command stops, none finds it transmitting. -/
theorem tcStop_lasts_iff {m₀ m₁ m₂ : Mac} {msg : CtrlMsg} {is : List Input}
    (hmsg : msg.msgId = appTcStop) (hdev : msg.devIndex = dev)
    (hstop : Handles w m₀ (.appMsg msg) m₁) (hrun : Steps (Handles w) m₁ is m₂)
    (hno : Steps.Meets (Handles w) (NoRestart w dev cell) m₁ is) :
    (∀ es, (m₂.cells dev cell).log = (m₁.cells dev cell).log ++ es →
      ∀ sfn slot, .ttiTx sfn slot ∉ es) ↔
    Steps.Meets (Handles w) (NoFirstSlot dev cell) m₁ is ∧
      (m₀.cellNum ≤ cell → Steps.Meets (Handles w) (NoRunningSlot dev cell) m₁ is) := by
  rw [unscheduled_iff hrun]
  constructor
  · intro hslots
    constructor
    · intro ms i ns b his hb slotInd hslot hinit
      exact hslots ms i ns b his hb slotInd hslot (Control.schedules_of_init hinit)
    · intro _ ms i ns b his hb slotInd hslot hactive hsch
      by_contra hover
      have hnot : (b.cells dev cell).control.state ≠ .phyInit := by
        intro hinit
        exact absurd (hactive.symm.trans hinit) (by decide)
      exact hslots ms i ns b his hb slotInd hslot
        ((Control.schedules_iff hnot).mpr ⟨hactive, hover, hsch⟩)
  · rintro ⟨hfirst, hrunning⟩ ms i ns b his hb slotInd hslot hsch
    have hnot : (b.cells dev cell).control.state ≠ .phyInit := hfirst ms i ns b his hb slotInd hslot
    obtain ⟨hactive, hover, hsch⟩ := (Control.schedules_iff hnot).mp hsch
    rcases Nat.lt_or_ge cell m₀.cellNum with hcell | hcell
    · rw [his] at hno hfirst
      exact hsch (stopped_lasts hb hno.left hfirst.left (tcStop_stops hmsg hdev hstop hcell))
    · exact hover (hrunning hcell ms i ns b his hb slotInd hslot hactive hsch)

theorem tcStop_lasts_without_response :
    ∃ m₁ m₂, Handles readyWorld (restingMac .manual 0) (.appMsg ⟨appTcStop, 0, 0, 0, 0⟩) m₁ ∧
      Steps (Handles readyWorld) m₁
        [.stopIndication 0 0, .slotIndication 0 0 ⟨0, 0⟩, .slotIndication 0 0 ⟨0, 1⟩] m₂ ∧
      ((∀ es, (m₂.cells 0 0).log = (m₁.cells 0 0).log ++ es →
        ∀ sfn slot, .ttiTx sfn slot ∉ es) ↔
      Steps.Meets (Handles readyWorld) (NoFirstSlot 0 0) m₁
        [.stopIndication 0 0, .slotIndication 0 0 ⟨0, 0⟩, .slotIndication 0 0 ⟨0, 1⟩] ∧
      ((restingMac .manual 0).cellNum ≤ 0 →
        Steps.Meets (Handles readyWorld) (NoRunningSlot 0 0) m₁
          [.stopIndication 0 0, .slotIndication 0 0 ⟨0, 0⟩, .slotIndication 0 0 ⟨0, 1⟩])) := by
  have hrun : ((handle readyWorld (.appMsg ⟨appTcStop, 0, 0, 0, 0⟩) (restingMac .manual 0)).bind
      fun r => runInputs readyWorld (NoRestart readyWorld 0 0) r.2
        [.stopIndication 0 0, .slotIndication 0 0 ⟨0, 0⟩, .slotIndication 0 0 ⟨0, 1⟩]).isSome =
      true := by
    decide +kernel
  obtain ⟨m₂, hm₂⟩ := Option.isSome_iff_exists.mp hrun
  obtain ⟨r, hstop, hm₂⟩ := Option.bind_eq_some_iff.mp hm₂
  obtain ⟨hpath, hno⟩ := path_of_runInputs hm₂
  exact ⟨r.2, m₂, hstop, hpath, tcStop_lasts_iff rfl rfl hstop hpath hno⟩

/-- In manual mode a stopped cell is configured again by the stop indication, and
transmits with the first slot after the response. -/
theorem tcStop_undone_by_response :
    (restingMac .manual 0).Initial ∧
    ∃ m₁ m₂ m₃, Steps (Handles readyWorld) (restingMac .manual 0)
        [.appMsg ⟨appTcConfigCase, 0, 0, 0, 0⟩, .cfgResponse 0 0 0, .slotIndication 0 0 ⟨0, 0⟩] m₁ ∧
      Handles readyWorld m₁ (.appMsg ⟨appTcStop, 0, 0, 0, 0⟩) m₂ ∧
      Steps (Handles readyWorld) m₂
        [.stopIndication 0 0, .cfgResponse 0 0 0, .slotIndication 0 0 ⟨0, 1⟩] m₃ ∧
      .ttiTx 0 3 ∈ (m₃.cells 0 0).log.drop (m₂.cells 0 0).log.length := by
  have hrun : ((runInputs readyWorld (fun _ _ => True) (restingMac .manual 0)
      [.appMsg ⟨appTcConfigCase, 0, 0, 0, 0⟩, .cfgResponse 0 0 0, .slotIndication 0 0 ⟨0, 0⟩]).bind
      fun m₁ => (handle readyWorld (.appMsg ⟨appTcStop, 0, 0, 0, 0⟩) m₁).bind
      fun r => (runInputs readyWorld (fun _ _ => True) r.2
        [.stopIndication 0 0, .cfgResponse 0 0 0, .slotIndication 0 0 ⟨0, 1⟩]).map
      fun m₃ => decide
        (.ttiTx 0 3 ∈ (m₃.cells 0 0).log.drop (r.2.cells 0 0).log.length)) = some true := by
    decide +kernel
  obtain ⟨m₁, h₁, hrun⟩ := Option.bind_eq_some_iff.mp hrun
  obtain ⟨r, h₂, hrun⟩ := Option.bind_eq_some_iff.mp hrun
  obtain ⟨m₃, h₃, hend⟩ := Option.map_eq_some_iff.mp hrun
  exact ⟨restingMac_initial .manual 0, m₁, r.2, m₃, (path_of_runInputs h₁).1, h₂,
    (path_of_runInputs h₃).1, of_decide_eq_true hend⟩

end TestMac

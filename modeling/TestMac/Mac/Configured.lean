import TestMac.Mac.Runs

/-!
# A cell transmits only while its PHY is configured

The history of a cell tells whether its PHY counts as configured. A cell that is
neither idle nor waiting for a response has a configured PHY, as long as the PHY
sends nothing unexpected. This is an invariant of all runs; it fails with the first
slot indication to a cell that waits, which the receiver sets to active.
-/

namespace TestMac

open Act

/-- Whether the PHY counts as configured after one more event. -/
def CellEvent.configures (configured : Bool) : CellEvent → Bool
  | .sent msgId _ => configured && msgId != fapiConfigRequest
  | .dataSent _ _ => configured
  | .ttiTx _ _ => configured
  | .cfgResponse errorCode => errorCode == 0
  | .errorIndication messageId errorCode =>
    configured && !(messageId == l1StartRequest && errorCode != 0)
  | .stopIndication => false

/-- A configuration has been confirmed since the last configuration request, failed
response or stop indication. -/
def phyConfigured (log : List CellEvent) : Bool := log.foldl CellEvent.configures false

/-- The cell is idle or waits for the response to its configuration. -/
def Control.Waiting (s : Control) : Prop := s.state = .phyIdle ∨ s.state = .phyCfg

instance (s : Control) : Decidable s.Waiting := inferInstanceAs (Decidable (_ ∨ _))

/-- What the PHY is expected to send: no slot before the configuration has been
confirmed, and no confirmation of a start for a PHY that is not configured. -/
def CellInput.Expected (s : Control) (configured : Bool) : CellInput → Prop
  | .slotIndication _ => ¬ s.Waiting
  | .errorIndication messageId errorCode =>
    messageId = l1StartRequest ∧ errorCode = 0 → configured = true
  | _ => True

instance (s : Control) (b : Bool) (i : CellInput) : Decidable (i.Expected s b) :=
  match i with
  | .slotIndication _ => inferInstanceAs (Decidable (¬ _))
  | .errorIndication _ _ => inferInstanceAs (Decidable (_ → _))
  | .tcConfigCase => .isTrue trivial
  | .tcDlCase _ _ => .isTrue trivial
  | .tcUlCase _ _ => .isTrue trivial
  | .tcTxCase _ _ => .isTrue trivial
  | .txCase _ => .isTrue trivial
  | .tcStop => .isTrue trivial
  | .startTest => .isTrue trivial
  | .cfgResponse _ => .isTrue trivial
  | .stopIndication => .isTrue trivial

/-- Slots are scheduled only while the PHY counts as configured. -/
def ScheduledConfigured : Bool → List CellEvent → Prop
  | _, [] => True
  | b, e :: es =>
    (∀ sfn slot, e = .ttiTx sfn slot → b = true) ∧ ScheduledConfigured (e.configures b) es

theorem scheduledConfigured_append {b : Bool} {es es' : List CellEvent} :
    ScheduledConfigured b (es ++ es') ↔
      ScheduledConfigured b es ∧ ScheduledConfigured (es.foldl CellEvent.configures b) es' := by
  induction es generalizing b with
  | nil => simp [ScheduledConfigured]
  | cons e es ih => simp [ScheduledConfigured, ih, and_assoc]

/-- Every slot in such a log follows a history that leaves the PHY configured. -/
theorem ScheduledConfigured.configured_before {log before after : List CellEvent} {sfn slot : ℕ}
    (h : ScheduledConfigured false log) (hlog : log = before ++ .ttiTx sfn slot :: after) :
    phyConfigured before = true := by
  rw [hlog, scheduledConfigured_append] at h
  exact h.2.1 sfn slot rfl

/-- Whether a trace is sure to leave the PHY configured. -/
def ControlEvent.configures (b : Bool) : ControlEvent → Bool
  | .requests msgIds => b && !msgIds.contains fapiConfigRequest
  | .scheduled => b
  | .event e => e.configures b

/-- A trace schedules slots only while the PHY is sure to be configured. -/
def TraceConfigured : Bool → List ControlEvent → Prop
  | _, [] => True
  | b, e :: tr =>
    (e = .scheduled → b = true) ∧ (∀ sfn slot, e ≠ .event (.ttiTx sfn slot)) ∧
      TraceConfigured (e.configures b) tr

theorem CellEvent.configures_mono {e : CellEvent} {b b' : Bool} (hb : b = true → b' = true)
    (h : e.configures b = true) : e.configures b' = true := by
  cases e <;> simp_all [CellEvent.configures]

/-- Requests that are no configuration requests leave the PHY configured. -/
theorem configures_requests {msgIds : List ℕ} {es : List CellEvent}
    (hes : ∀ e ∈ es, e.OfRequest msgIds) (hids : fapiConfigRequest ∉ msgIds) {b : Bool}
    (hb : b = true) : es.foldl CellEvent.configures b = true := by
  induction es generalizing b with
  | nil => exact hb
  | cons e es ih =>
    apply ih (fun e' he' => hes e' (List.mem_cons_of_mem e he'))
    have he := hes e List.mem_cons_self
    cases e with
    | sent msgId bytes =>
      have hne : msgId ≠ fapiConfigRequest := fun h => hids (h ▸ he)
      simp [CellEvent.configures, hb, hne]
    | dataSent offset bytes => exact hb
    | ttiTx sfn slot => exact he.elim
    | cfgResponse errorCode => exact he.elim
    | errorIndication messageId errorCode => exact he.elim
    | stopIndication => exact he.elim

theorem scheduledConfigured_requests {msgIds : List ℕ} {es : List CellEvent}
    (hes : ∀ e ∈ es, e.OfRequest msgIds) (b : Bool) : ScheduledConfigured b es := by
  induction es generalizing b with
  | nil => trivial
  | cons e es ih =>
    refine ⟨?_, ih (fun e' he' => hes e' (List.mem_cons_of_mem e he')) _⟩
    rintro sfn slot rfl
    exact (hes _ List.mem_cons_self).elim

/-- What is sure along a trace holds for all events that fit it. -/
theorem Traces.configures {tr : List ControlEvent} {es : List CellEvent} (h : Traces tr es)
    {b b' : Bool} (hb : b = true → b' = true)
    (htr : tr.foldl ControlEvent.configures b = true) :
    es.foldl CellEvent.configures b' = true := by
  induction h generalizing b b' with
  | nil => exact hb htr
  | requests hes _ ih =>
    rw [List.foldl_append]
    apply ih _ htr
    intro hb₁
    simp only [ControlEvent.configures, Bool.and_eq_true, Bool.not_eq_true',
      List.contains_eq_mem, decide_eq_false_iff_not] at hb₁
    exact configures_requests hes hb₁.2 (hb hb₁.1)
  | scheduled _ ih => exact ih hb htr
  | event _ ih => exact ih (CellEvent.configures_mono hb) htr

theorem Traces.scheduledConfigured {tr : List ControlEvent} {es : List CellEvent}
    (h : Traces tr es) {b b' : Bool} (hb : b = true → b' = true) (htr : TraceConfigured b tr) :
    ScheduledConfigured b' es := by
  induction h generalizing b b' with
  | nil => trivial
  | requests hes _ ih =>
    rw [scheduledConfigured_append]
    refine ⟨scheduledConfigured_requests hes b', ih ?_ htr.2.2⟩
    intro hb₁
    simp only [ControlEvent.configures, Bool.and_eq_true, Bool.not_eq_true',
      List.contains_eq_mem, decide_eq_false_iff_not] at hb₁
    exact configures_requests hes hb₁.2 (hb hb₁.1)
  | scheduled _ ih => exact ⟨fun _ _ _ => hb (htr.1 rfl), ih hb htr.2.2⟩
  | event _ ih =>
    refine ⟨?_, ih (CellEvent.configures_mono hb) htr.2.2⟩
    intro sfn slot he
    exact absurd (congrArg ControlEvent.event he) (htr.2.1 sfn slot)

/-- A trace that sends no configuration request, schedules nothing and reports no
event keeps the PHY as it is. -/
theorem traceConfigured_requests {msgIds : List ℕ} {tr : List ControlEvent} {b : Bool}
    (h : TraceConfigured (ControlEvent.configures b (.requests msgIds)) tr) :
    TraceConfigured b (.requests msgIds :: tr) :=
  ⟨nofun, nofun, h⟩

theorem traceConfigured_append {tr tr' : List ControlEvent} {b : Bool} :
    TraceConfigured b (tr ++ tr') ↔
      TraceConfigured b tr ∧ TraceConfigured (tr.foldl ControlEvent.configures b) tr' := by
  induction tr generalizing b with
  | nil => simp [TraceConfigured]
  | cons e tr ih => simp [TraceConfigured, ih, and_assoc]

/-- Requests that are no configuration requests, in a trace. -/
theorem configures_requests_eq {msgIds : List ℕ} {b : Bool}
    (hids : msgIds.contains fapiConfigRequest = false) :
    ControlEvent.configures b (.requests msgIds) = b := by
  rw [ControlEvent.configures, hids, Bool.not_false, Bool.and_true]

theorem cfgTrace_configures (s : Control) (b : Bool) :
    (s.cfgTrace 0).foldl ControlEvent.configures b = true := by
  unfold Control.cfgTrace
  by_cases hstub : s.operMode = .auto ∧ s.phyStub = true
  · rw [if_pos rfl, if_pos hstub]
    rfl
  · rw [if_pos rfl, if_neg hstub]
    rfl

theorem cfgTrace_traceConfigured (s : Control) (errorCode : ℕ) (b : Bool) :
    TraceConfigured b (s.cfgTrace errorCode) := by
  unfold Control.cfgTrace
  split_ifs
  all_goals simp [TraceConfigured]

/-- A configured cell that does not wait has been confirmed by the stub. -/
theorem configTrace_configures {s : Control} (h : ¬ s.configured.Waiting) (b : Bool) :
    s.configTrace.foldl ControlEvent.configures b = true := by
  unfold Control.configured at h
  unfold Control.configTrace
  split_ifs at h ⊢ with hstub
  · exact cfgTrace_configures s _
  · exact absurd (Or.inr rfl) h

theorem configTrace_traceConfigured (s : Control) (b : Bool) :
    TraceConfigured b s.configTrace := by
  unfold Control.configTrace
  apply traceConfigured_requests
  split_ifs
  · exact cfgTrace_traceConfigured s 0 _
  · trivial

theorem switchTrace_traceConfigured (s : Control) (first : List ControlEvent) {b : Bool}
    (hfirst : TraceConfigured b first) : TraceConfigured b (s.switchTrace first) := by
  unfold Control.switchTrace
  split_ifs
  · exact traceConfigured_requests ⟨nofun, nofun, trivial⟩
  · exact traceConfigured_requests trivial
  · exact traceConfigured_append.mpr ⟨hfirst, configTrace_traceConfigured s _⟩

/-- A test case is switched: afterwards the cell waits, or nothing has changed. -/
theorem switchTrace_configures {s : Control} {first : List ControlEvent} {b : Bool}
    (hb : ¬ s.Waiting → b = true) (hnext : ¬ s.switched.Waiting) :
    (s.switchTrace first).foldl ControlEvent.configures b = true := by
  unfold Control.switched at hnext
  unfold Control.switchTrace
  split_ifs at hnext ⊢ with hbusy hstub
  · exact absurd (Or.inl rfl) hnext
  · rw [List.foldl_cons, List.foldl_nil, configures_requests_eq (by decide)]
    exact hb hnext
  · rw [List.foldl_append]
    exact configTrace_configures hnext _

theorem slotTrace_configures (s : Control) (b : Bool) :
    s.slotTrace.foldl ControlEvent.configures b = b := by
  unfold Control.slotTrace
  split_ifs
  · rfl
  · exact configures_requests_eq (by decide)
  · rfl
  · exact configures_requests_eq (by decide)

/-- After an expected input a cell that does not wait has a configured PHY. -/
theorem Control.next_configures {s : Control} {i : CellInput} {b : Bool}
    (hb : ¬ s.Waiting → b = true) (hi : i.Expected s b) (hnext : ¬ (s.next i).Waiting) :
    (s.trace i).foldl ControlEvent.configures b = true := by
  cases i with
  | tcConfigCase => exact absurd (Or.inr rfl) hnext
  | tcDlCase sfn slot => exact (configures_requests_eq (by decide)).trans (hb hnext)
  | tcUlCase sfn slot => exact (configures_requests_eq (by decide)).trans (hb hnext)
  | tcTxCase sfn slot => exact (configures_requests_eq (by decide)).trans (hb hnext)
  | txCase files => exact switchTrace_configures hb hnext
  | tcStop => exact (configures_requests_eq (by decide)).trans (hb hnext)
  | startTest => exact switchTrace_configures hb hnext
  | cfgResponse errorCode =>
    by_cases hok : errorCode = 0
    · rw [hok]
      exact cfgTrace_configures s b
    · exact absurd (Or.inl (by simp [next, cfgResponse, hok])) hnext
  | errorIndication messageId errorCode =>
    simp only [next, errorIndication] at hnext
    simp only [trace, List.foldl_cons, List.foldl_nil, ControlEvent.configures,
      CellEvent.configures]
    split_ifs at hnext with hstart herror hstop
    · exact absurd (Or.inl rfl) hnext
    · have hok : errorCode = 0 := not_not.mp herror
      simp [hi ⟨hstart, hok⟩, hok]
    · exact absurd (Or.inl rfl) hnext
    · rw [hb hnext]
      simp [hstart]
  | stopIndication =>
    simp only [next, stopIndication] at hnext
    simp only [trace, stopTrace]
    split_ifs at hnext ⊢
    · exact absurd (Or.inl rfl) hnext
    · exact configTrace_configures hnext _
  | slotIndication slotInd => exact (slotTrace_configures s b).trans (hb hi)

/-- An expected slot indication finds the PHY configured when it is scheduled. -/
theorem Control.trace_traceConfigured {s : Control} {i : CellInput} {b : Bool}
    (hb : ¬ s.Waiting → b = true) (hi : i.Expected s b) : TraceConfigured b (s.trace i) := by
  cases i with
  | tcConfigCase => exact traceConfigured_requests (traceConfigured_requests trivial)
  | tcDlCase sfn slot => exact traceConfigured_requests trivial
  | tcUlCase sfn slot => exact traceConfigured_requests trivial
  | tcTxCase sfn slot => exact traceConfigured_requests trivial
  | txCase files => exact switchTrace_traceConfigured s [] trivial
  | tcStop => exact traceConfigured_requests trivial
  | startTest => exact switchTrace_traceConfigured s _ (traceConfigured_requests trivial)
  | cfgResponse errorCode => exact cfgTrace_traceConfigured s errorCode b
  | errorIndication messageId errorCode => exact ⟨nofun, nofun, trivial⟩
  | stopIndication =>
    refine ⟨nofun, nofun, ?_⟩
    split_ifs
    · trivial
    · exact configTrace_traceConfigured s _
  | slotIndication slotInd =>
    simp only [trace, slotTrace]
    split_ifs
    · trivial
    · exact traceConfigured_requests trivial
    · trivial
    · exact ⟨fun _ => hb hi, nofun, traceConfigured_requests trivial⟩

/-- A cell that is neither idle nor waiting has a configured PHY, and has scheduled
slots only while it was. -/
structure CellConfigured (c : Cell) : Prop where
  configured : ¬ c.control.Waiting → phyConfigured c.log = true
  scheduled : ScheduledConfigured false c.log

theorem CellConfigured.own {c c' : Cell} (hown : c'.own = c.own) (h : CellConfigured c) :
    CellConfigured c' := by
  constructor
  · rw [own_control hown, own_log hown]
    exact h.configured
  · rw [own_log hown]
    exact h.scheduled

theorem CellConfigured.moves {c c' : Cell} {i : CellInput} (h : CellConfigured c)
    (hi : i.Expected c.control (phyConfigured c.log))
    (hmoves : Moves (c.control.next i) (c.control.trace i) c c') : CellConfigured c' := by
  obtain ⟨hctl, es, hlog, htr⟩ := hmoves
  constructor
  · intro hnot
    rw [hctl] at hnot
    rw [phyConfigured, hlog, List.foldl_append]
    exact htr.configures id (Control.next_configures h.configured hi hnot)
  · rw [hlog, scheduledConfigured_append]
    exact ⟨h.scheduled, htr.scheduledConfigured id (Control.trace_traceConfigured h.configured hi)⟩

/-- Whatever an input does to the cell is expected. -/
def ExpectedAt (w : World) (dev cell : ℕ) (m : Mac) (i : Input) : Prop :=
  ∀ ci, i.atCell w m.cellNum dev cell = some ci →
    ci.Expected (m.cells dev cell).control (phyConfigured (m.cells dev cell).log)

instance (w : World) (dev cell : ℕ) (m : Mac) (i : Input) : Decidable (ExpectedAt w dev cell m i) :=
  match h : i.atCell w m.cellNum dev cell with
  | none => .isTrue (by simp [ExpectedAt, h])
  | some ci =>
    decidable_of_iff (ci.Expected (m.cells dev cell).control (phyConfigured (m.cells dev cell).log))
      (by simp [ExpectedAt, h])

/-- In every run in which the PHY sends a cell only what is expected, the cell
schedules a slot only while its PHY is configured. A slot indication leaves a waiting
cell waiting exactly when it is expected. -/
theorem macSchedule_only_configured {w : World} {m m' : Mac} {is : List Input} {dev cell : ℕ}
    (hm : m.Initial) (hrun : Steps (Handles w) m is m')
    (hmeets : Steps.Meets (Handles w) (ExpectedAt w dev cell) m is) :
    (∀ before sfn slot after,
      (m'.cells dev cell).log = before ++ .ttiTx sfn slot :: after → phyConfigured before = true) ∧
    ∀ slotInd m'', Handles w m' (.slotIndication dev cell slotInd) m'' →
      (((m'.cells dev cell).control.Waiting → (m''.cells dev cell).ctx.state ≠ .phyActive) ↔
        ExpectedAt w dev cell m' (.slotIndication dev cell slotInd)) := by
  obtain ⟨hidle, -, hlog⟩ := hm dev cell
  have hstart : CellConfigured (m.cells dev cell) := by
    constructor
    · intro hnot
      exact absurd (Or.inl hidle) hnot
    · rw [hlog]
      trivial
  have hend : CellConfigured (m'.cells dev cell) :=
    run_invariant CellConfigured CellConfigured.own
      (fun h hP hci hmoves => h.moves (hP _ hci) hmoves) hrun hmeets hstart
  refine ⟨fun before sfn slot after => hend.scheduled.configured_before, ?_⟩
  intro slotInd m'' hslot
  have hat : (Input.slotIndication dev cell slotInd).atCell w m'.cellNum dev cell =
      some (.slotIndication slotInd) := by
    simp [Input.atCell]
  have hactive : (m''.cells dev cell).ctx.state = .phyActive := by
    rcases hslot.moves dev cell with ⟨hnone, -⟩ | ⟨ci, hci, hmoves⟩
    · rw [hat] at hnone
      cases hnone
    · rw [hat] at hci
      cases hci
      exact congrArg Control.state hmoves.1
  simp only [hactive, ne_eq, not_true_eq_false, ExpectedAt, hat, Option.some.injEq]
  constructor
  · rintro hnot ci rfl
    exact hnot
  · intro h
    exact h _ rfl

theorem macSchedule_only_configured_startup :
    ∃ m', (restingMac .auto 0).Initial ∧
      Steps (Handles readyWorld) (restingMac .auto 0)
        [.appMsg ⟨appStartTest, 0, 0, 0, 0⟩, .cfgResponse 0 0 0, .slotIndication 0 0 ⟨0, 0⟩] m' ∧
      (∀ before sfn slot after, (m'.cells 0 0).log = before ++ .ttiTx sfn slot :: after →
        phyConfigured before = true) ∧
      (m'.cells 0 0).log[4]? = some (.ttiTx 0 2) := by
  have hrun : (runInputs readyWorld (ExpectedAt readyWorld 0 0) (restingMac .auto 0)
      [.appMsg ⟨appStartTest, 0, 0, 0, 0⟩, .cfgResponse 0 0 0, .slotIndication 0 0 ⟨0, 0⟩]).map
        (fun m => (m.cells 0 0).log[4]?) = some (some (.ttiTx 0 2)) := by
    decide +kernel
  obtain ⟨m', hm', hlog⟩ := Option.map_eq_some_iff.mp hrun
  obtain ⟨hpath, hmeets⟩ := path_of_runInputs hm'
  exact ⟨m', restingMac_initial .auto 0, hpath,
    (macSchedule_only_configured (restingMac_initial .auto 0) hpath hmeets).1, hlog⟩

/-- A cell that waits for the response to its configuration is set to active by a slot
indication, and transmits with the next one. -/
theorem slotIndication_activates_waiting :
    (restingMac .auto 0).Initial ∧
    ∃ m₁ m₂ m₃, Handles readyWorld (restingMac .auto 0) (.appMsg ⟨appStartTest, 0, 0, 0, 0⟩) m₁ ∧
      (m₁.cells 0 0).ctx.state = .phyCfg ∧
      Handles readyWorld m₁ (.slotIndication 0 0 ⟨0, 0⟩) m₂ ∧
      (m₂.cells 0 0).ctx.state = .phyActive ∧
      Handles readyWorld m₂ (.slotIndication 0 0 ⟨0, 1⟩) m₃ ∧
      (m₃.cells 0 0).log[2]? = some (.ttiTx 0 3) ∧
      phyConfigured ((m₃.cells 0 0).log.take 2) = false := by
  have hrun : ((handle readyWorld (.appMsg ⟨appStartTest, 0, 0, 0, 0⟩) (restingMac .auto 0)).bind
      fun r₁ => (handle readyWorld (.slotIndication 0 0 ⟨0, 0⟩) r₁.2).bind
      fun r₂ => (handle readyWorld (.slotIndication 0 0 ⟨0, 1⟩) r₂.2).map
      fun r₃ => ((r₁.2.cells 0 0).ctx.state, (r₂.2.cells 0 0).ctx.state,
        (r₃.2.cells 0 0).log[2]?, phyConfigured ((r₃.2.cells 0 0).log.take 2))) =
      some (.phyCfg, .phyActive, some (.ttiTx 0 3), false) := by
    decide +kernel
  obtain ⟨r₁, h₁, hrun⟩ := Option.bind_eq_some_iff.mp hrun
  obtain ⟨r₂, h₂, hrun⟩ := Option.bind_eq_some_iff.mp hrun
  obtain ⟨r₃, h₃, hend⟩ := Option.map_eq_some_iff.mp hrun
  simp only [Prod.mk.injEq] at hend
  obtain ⟨hcfg, hactive, hlog, hconf⟩ := hend
  exact ⟨restingMac_initial .auto 0, r₁.2, r₂.2, r₃.2, h₁, hcfg, h₂, hactive, h₃, hlog, hconf⟩

end TestMac

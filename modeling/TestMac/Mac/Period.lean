import TestMac.Mac.Switch

/-!
# The slots of a test period

A configured cell counts its slots from zero. As long as the count is below the length of
a test case it transmits; at every positive multiple of the length it asks the PHY to stop,
and after the first of them its scheduler stays off.
-/

namespace TestMac

open Act

namespace Control

/-- So many slots have been indicated since the cell was configured, for test cases of
`R` slots. -/
structure Slotted (R k : ℕ) (s : Control) : Prop where
  runttiPerTc : s.runttiPerTc = R
  state : s.started.state = .phyActive
  gSystemTtiNum : s.started.gSystemTtiNum = k
  schState : s.started.schState = if k ≤ R then .schNormal else .schStop

variable {s : Control} {R k : ℕ}

/-- A configured cell has not seen a slot. -/
theorem slotted_zero (hinit : s.state = .phyInit) : s.Slotted s.runttiPerTc 0 where
  runttiPerTc := rfl
  state := by simp [started, hinit]
  gSystemTtiNum := by simp [started, hinit]
  schState := by simp [started, hinit]

theorem started_runttiPerTc (s : Control) : s.started.runttiPerTc = s.runttiPerTc := by
  unfold started
  split_ifs
  · rfl
  · rfl

/-- The test case is over at the positive multiples of its length. -/
theorem Slotted.over_iff (h : s.Slotted R k) (hR : 0 < R) :
    s.started.Over ↔ 0 < k ∧ k % R = 0 := by
  rw [Over, testCaseOver, started_runttiPerTc, h.runttiPerTc, h.gSystemTtiNum]
  omega

/-- One more slot is counted. -/
theorem Slotted.slotIndication (h : s.Slotted R k) (hR : 0 < R) (hk : k + 1 < 4294967296) :
    s.slotIndication.Slotted R (k + 1) := by
  have hnext : s.slotIndication = { s.started.counted with
      schState := if s.started.Over then .schStop else s.started.schState } := by
    rw [← slotIndication_started, slotIndication_active h.state]
  have hactive : s.slotIndication.state = .phyActive := by
    rw [hnext]
    exact h.state
  have hover : (if s.started.Over then .schStop else s.started.schState) =
      if k + 1 ≤ R then MacSchStatus.schNormal else .schStop := by
    rw [h.schState]
    by_cases hmultiple : s.started.Over
    · obtain ⟨hpos, hmod⟩ := (h.over_iff hR).mp hmultiple
      have hle := Nat.le_of_dvd hpos (Nat.dvd_of_mod_eq_zero hmod)
      rw [if_pos hmultiple, if_neg (by omega)]
    · have hne : k ≠ R := by
        rintro rfl
        exact hmultiple ((h.over_iff hR).mpr ⟨hR, Nat.mod_self k⟩)
      rw [if_neg hmultiple]
      by_cases hle : k ≤ R
      · rw [if_pos hle, if_pos (by omega)]
      · rw [if_neg hle, if_neg (by omega)]
  constructor
  · rw [hnext]
    exact (started_runttiPerTc s).trans h.runttiPerTc
  · rw [started_of_active hactive]
    exact hactive
  · rw [started_of_active hactive, hnext]
    simp only [counted, h.gSystemTtiNum]
    exact Nat.mod_eq_of_lt hk
  · rw [started_of_active hactive, hnext]
    exact hover

/-- What a slot shows: a stop request at a positive multiple of the length of a test case,
and else a transmission in the first test case only. -/
theorem Slotted.slotTrace (h : s.Slotted R k) (hR : 0 < R) :
    s.slotTrace = if 0 < k ∧ k % R = 0 then [.requests [fapiStopRequest]]
      else if k < R then
        [.scheduled, .requests [fapiDlTtiRequest, fapiUlTtiRequest, fapiTxDataRequest]]
      else [] := by
  have hactive : ¬ s.started.state ≠ .phyActive := by simp [h.state]
  rw [Control.slotTrace, if_neg hactive, h.schState]
  by_cases hover : s.started.Over
  · rw [if_pos hover, if_pos ((h.over_iff hR).mp hover)]
  · have hno := fun hmultiple => hover ((h.over_iff hR).mpr hmultiple)
    have hne : k ≠ R := by
      rintro rfl
      exact hno ⟨hR, Nat.mod_self k⟩
    rw [if_neg hover, if_neg hno]
    by_cases hlt : k < R
    · simp [hlt, hlt.le]
    · have hnot : ¬ k ≤ R := by omega
      simp [hlt, hnot]

end Control

/-- `macSchedule` has called `macTtiTx`. -/
def CellEvent.isTtiTx : CellEvent → Bool
  | .ttiTx _ _ => true
  | _ => false

/-- A stop request has been sent. -/
def CellEvent.isStop : CellEvent → Bool
  | .sent msgId _ => msgId == fapiStopRequest
  | _ => false

variable {env : Env} {c : Cell} {R k : ℕ}

/-- Requests other than stop requests show neither a transmission nor a stop request. -/
theorem countP_requests {msgIds : List ℕ} {es : List CellEvent}
    (hes : ∀ e ∈ es, e.OfRequest msgIds) (hstop : fapiStopRequest ∉ msgIds) :
    es.countP CellEvent.isTtiTx = 0 ∧ es.countP CellEvent.isStop = 0 := by
  simp only [List.countP_eq_zero]
  constructor
  · intro e he
    cases e with
    | ttiTx sfn slot => exact (hes _ he).elim
    | _ => simp [CellEvent.isTtiTx]
  · intro e he
    cases e with
    | sent msgId bytes =>
      have hmem : msgId ∈ msgIds := hes _ he
      simp only [CellEvent.isStop, beq_iff_eq]
      rintro rfl
      exact hstop hmem
    | _ => simp [CellEvent.isStop]

/-- A transmission shows one call of `macTtiTx`, and no stop request. -/
theorem Traces.countP_transmission {es : List CellEvent}
    (h : Traces [.scheduled, .requests [fapiDlTtiRequest, fapiUlTtiRequest, fapiTxDataRequest]]
      es) : es.countP CellEvent.isTtiTx = 1 ∧ es.countP CellEvent.isStop = 0 := by
  cases h with
  | @scheduled sfn slot es' tr hrest =>
    cases hrest with
    | @requests msgIds es₁ es₂ tr' hes hnil =>
      cases hnil
      obtain ⟨htx, hstop⟩ := countP_requests hes (by decide)
      rw [List.append_nil, List.countP_cons, List.countP_cons, htx, hstop]
      exact ⟨rfl, rfl⟩

/-- What a request that consists of the general header adds to the log. -/
theorem ensures_sendHeaderOnly_log {msgId msgType : ℕ} :
    Ensures (sendHeaderOnly env msgId msgType) c fun _ c' => ∃ bytes, c'.log = c.log ++
      if env.pcxxSendStart c.calls = true ∧ env.pcxxCtrlSend (c.calls + 4) = true then
        [.sent msgId bytes]
      else [] := by
  simp only [sendHeaderOnly, ensures_l1MsgProc, ensures_setL1CtrlMsgGrpHeader, ensures_bind,
    ensures_allocL1CtrlMsgMem, ensures_appendL1Msg, called_log, Cell.appended, headed_calls,
    allocated_calls, allocated_log, headed_log, called_calls]
  constructor
  · intro hstart _ _ _ _ _ _ _ _
    by_cases hsend : env.pcxxCtrlSend (c.calls + 4) = true
    · simp only [hstart, hsend, and_self, if_true]
      exact ⟨_, rfl⟩
    · simp [hstart, hsend]
  · intro hstart
    simp [hstart]

/-- The slot at which a test case is over shows a stop request and nothing else, when the
driver accepts it. -/
theorem ensures_slotIndication_over (hstart : ∀ n, env.pcxxSendStart n = true)
    (hsend : ∀ n, env.pcxxCtrlSend n = true) (hactive : c.control.started.state = .phyActive)
    (hover : c.control.started.Over) (slotInd : SlotIndication) :
    Ensures (slotIndication env slotInd) c fun _ c' =>
      ∃ bytes, c'.log = c.log ++ [.sent fapiStopRequest bytes] := by
  have hstop : ∀ d : Cell, d.log = c.log → Ensures (sendPhyStopReq env) d fun _ d' =>
      ∃ bytes, d'.log = c.log ++ [.sent fapiStopRequest bytes] := by
    intro d hd
    refine ensures_sendHeaderOnly_log.mono ?_
    intro _ d' hlog
    simpa [hstart, hsend, hd] using hlog
  have hinit : ¬ c.ctx.state = .phyInit := by
    intro hinit
    have hzero : c.control.started.gSystemTtiNum = 0 := by
      rw [Control.started, if_pos (show c.control.state = .phyInit from hinit)]
    exact hover.2.1 hzero
  have hstarted : c.control.started = c.control := if_neg hinit
  rw [hstarted] at hactive hover
  have hno : ¬ c.ctx.state ≠ .phyActive := fun hne => hne hactive
  simp only [slotIndication, macTxStartIndHandle, setPhyState, setClock, setSchState, ensures_bind,
    ensures_read, ensures_update, when, if_neg hinit, ensures_pure, id_eq, if_neg hno]
  rw [if_pos (show testCaseOver c.ctx.runttiPerTc c.clock.gSystemTtiNum from hover)]
  simp only [ensures_bind, ensures_update]
  exact hstop _ rfl

/-- One slot of a test period: a call of `macTtiTx` in the first test case, and a stop
request at the positive multiples of its length. -/
theorem ensures_slotIndication_slotted (hstart : ∀ n, env.pcxxSendStart n = true)
    (hsend : ∀ n, env.pcxxCtrlSend n = true) (hR : 0 < R) (h : c.control.Slotted R k)
    (slotInd : SlotIndication) :
    Ensures (slotIndication env slotInd) c fun _ c' =>
      c'.control = c.control.slotIndication ∧ ∃ es, c'.log = c.log ++ es ∧
        es.countP CellEvent.isTtiTx = (if k < R then 1 else 0) ∧
        es.countP CellEvent.isStop = (if 0 < k ∧ k % R = 0 then 1 else 0) := by
  have hmoves : Ensures (slotIndication env slotInd) c fun _ c' =>
      Moves c.control.slotIndication c.control.slotTrace c c' := moves_slotIndication slotInd c
  rw [h.slotTrace hR] at hmoves
  by_cases hmultiple : 0 < k ∧ k % R = 0
  · have hle : ¬ k < R := by
      have hle := Nat.le_of_dvd hmultiple.1 (Nat.dvd_of_mod_eq_zero hmultiple.2)
      omega
    have hover := (h.over_iff hR).mpr hmultiple
    refine (hmoves.and
      (ensures_slotIndication_over hstart hsend h.state hover slotInd)).mono ?_
    rintro _ c' ⟨⟨hctl, -⟩, bytes, hlog⟩
    refine ⟨hctl, _, hlog, ?_, ?_⟩
    · rw [if_neg hle]
      rfl
    · rw [if_pos hmultiple]
      rfl
  · rw [if_neg hmultiple] at hmoves
    refine hmoves.mono ?_
    rintro _ c' ⟨hctl, es, hlog, htrace⟩
    refine ⟨hctl, es, hlog, ?_⟩
    rw [if_neg hmultiple]
    by_cases hlt : k < R
    · rw [if_pos hlt] at htrace ⊢
      exact htrace.countP_transmission
    · rw [if_neg hlt] at htrace ⊢
      cases htrace
      exact ⟨rfl, rfl⟩

end TestMac

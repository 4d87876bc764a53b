import TestMac.App.Post

/-!
# The timer of the application: `tmr_callback`

Every tenth of a second the callback simulates a slot, changes the test case when its time is
up, and gives up when the PHY has been waited for too long. The wait is counted in ticks, and
the count starts again when the PHY is seen in another state that is waited in, but not when it
is seen to have left such a state.
-/

namespace TestMac

/-- The fields of `sAppCfg` that the timer reads, and `sCaseNum`. -/
structure TimerCfg where
  operMode : TestMacOperMode
  phyStub : Bool
  runtimeTotal : ℕ
  runtimePerTc : ℕ
  sCaseNum : ℕ

/-- The counter of ticks and the static variables of `tmr_callback`. -/
structure TimerState where
  sTti : ℕ
  sCheckTti : ℕ
  caseId : ℕ
  totalRuntime : ℕ
  sPhyState : MacStatus
  deriving DecidableEq

/-- Before the first tick. -/
def TimerState.start : TimerState := ⟨0, 0, 0, 0, .phyIdle⟩

/-- The ticks that are waited for the PHY in one state. -/
def waitTicks : ℕ := 1000000

/-- A state of the PHY that is left by itself. -/
def MacStatus.Awaited (phyState : MacStatus) : Prop := phyState = .phyCfg ∨ phyState = .phyInit

instance (phyState : MacStatus) : Decidable phyState.Awaited :=
  inferInstanceAs (Decidable (_ ∨ _))

/-- The end of `tmr_callback`: `none` if the process exits. -/
def checkPhyState (st : TimerState) (phyState : MacStatus) : Option TimerState :=
  if phyState.Awaited then
    if waitTicks < st.sCheckTti then none
    else if st.sPhyState ≠ phyState then some { st with sCheckTti := 0, sPhyState := phyState }
    else some { st with sCheckTti := st.sCheckTti + 1 }
  else some st

/-- The time of the test case is up. -/
def TimerCfg.TimeUp (cfg : TimerCfg) (sTti : ℕ) : Prop :=
  cfg.runtimePerTc ≠ 0 ∧ sTti % cfg.runtimePerTc = 0

instance (cfg : TimerCfg) (sTti : ℕ) : Decidable (cfg.TimeUp sTti) :=
  inferInstanceAs (Decidable (_ ∧ _))

/-- `tmr_callback`, when the PHY is in a state: what it calls, and `none` if the process
exits. -/
def tmrCallback (cfg : TimerCfg) (st : TimerState) (phyState : MacStatus) :
    Option TimerState × List AppCall :=
  let st := { st with sTti := (st.sTti + 1) % 4294967296 }
  if 0 < cfg.runtimeTotal ∧ cfg.runtimeTotal < st.totalRuntime then (none, [.simTtiInd])
  else if cfg.TimeUp st.sTti then
    if cfg.phyStub = false ∨ cfg.sCaseNum = 0 then (some st, [.simTtiInd])
    else
      let next := (st.caseId + 1) % 65536
      let caseId := if next = cfg.sCaseNum then 0 else next
      let totalRuntime := (st.totalRuntime + cfg.runtimePerTc) % 65536
      (checkPhyState { st with caseId, totalRuntime } phyState,
        [.simTtiInd, .appTestStop st.caseId 0 0, .appTestStart caseId 0 0])
  else (checkPhyState st phyState, [.simTtiInd])

/-- Ticks, with the state that the PHY is in at each of them. -/
def timerRun (cfg : TimerCfg) (st : TimerState) (phyStates : List MacStatus) : Option TimerState :=
  phyStates.foldlM (fun st phyState => (tmrCallback cfg st phyState).1) st

/-- The callback returns before it looks at the PHY. -/
def TimerCfg.Skips (cfg : TimerCfg) (sTti : ℕ) : Prop :=
  cfg.TimeUp sTti ∧ (cfg.phyStub = false ∨ cfg.sCaseNum = 0)

instance (cfg : TimerCfg) (sTti : ℕ) : Decidable (cfg.Skips sTti) :=
  inferInstanceAs (Decidable (_ ∧ _))

/-- The states among those that the PHY goes through in which the timer finds it waiting. -/
def waitsSeen (cfg : TimerCfg) : ℕ → List MacStatus → List MacStatus
  | _, [] => []
  | sTti, phyState :: phyStates =>
    let sTti := (sTti + 1) % 4294967296
    if phyState.Awaited ∧ ¬ cfg.Skips sTti then phyState :: waitsSeen cfg sTti phyStates
    else waitsSeen cfg sTti phyStates

variable {cfg : TimerCfg} {st st' : TimerState} {phyState : MacStatus} {seen : List MacStatus}

section Blocks

variable {α : Type} {a b : α} {l l' : List α} {m n : ℕ}

/-- A longer block of equal entries at the end of a list leaves one more in front. -/
theorem not_longer_block (hm : 0 < m) (hmn : m < n) (hlast : l.getLast? ≠ some a) :
    l ++ List.replicate m a ≠ l' ++ List.replicate n b := by
  intro heq
  have hsplit : List.replicate n b = List.replicate (n - m) b ++ List.replicate m b := by
    rw [List.replicate_append_replicate]
    congr 1
    omega
  rw [hsplit, ← List.append_assoc] at heq
  obtain ⟨hfront, hblock⟩ := List.append_inj' heq (by simp)
  obtain rfl : a = b := by
    have hmem : a ∈ List.replicate m b := by
      rw [← hblock]
      exact List.mem_replicate.mpr ⟨by omega, rfl⟩
    exact List.eq_of_mem_replicate hmem
  refine hlast ?_
  rw [hfront, List.getLast?_append, List.getLast?_replicate, if_neg (by omega)]
  rfl

/-- A block of `n` equal entries with an entry behind it. -/
def HasBlock (n : ℕ) (l : List α) : Prop :=
  ∃ front a b back, l = front ++ List.replicate n a ++ b :: back

theorem hasBlock_append (h : HasBlock n l) : HasBlock n (l ++ l') := by
  obtain ⟨front, a, b, back, rfl⟩ := h
  exact ⟨front, a, b, back ++ l', by simp⟩

/-- A block that a new entry completes ends before it. -/
theorem hasBlock_concat_iff :
    HasBlock n (l ++ [b]) ↔ HasBlock n l ∨ ∃ front a, l = front ++ List.replicate n a := by
  constructor
  · rintro ⟨front, a, c, back, heq⟩
    rcases List.eq_nil_or_concat back with rfl | ⟨back, d, rfl⟩
    · obtain ⟨rfl, -⟩ := List.append_inj' heq rfl
      exact .inr ⟨front, a, rfl⟩
    · refine .inl ⟨front, a, c, back, ?_⟩
      rw [List.concat_eq_append, ← List.cons_append, ← List.append_assoc] at heq
      exact (List.append_inj' heq rfl).1
  · rintro (h | ⟨front, a, rfl⟩)
    · exact hasBlock_append h
    · exact ⟨front, a, b, [], rfl⟩

end Blocks

/-- The timer has counted the last block of equal states that it has seen. -/
structure TimerState.Counts (st : TimerState) (seen : List MacStatus) : Prop where
  unseen : seen = [] → st.sCheckTti = 0 ∧ st.sPhyState = .phyIdle
  block : seen ≠ [] → ∃ front, seen = front ++ List.replicate (st.sCheckTti + 1) st.sPhyState ∧
    front.getLast? ≠ some st.sPhyState
  small : st.sCheckTti ≤ waitTicks + 1
  awaited : ∀ phyState ∈ seen, phyState.Awaited

theorem TimerState.Counts.start : TimerState.start.Counts [] where
  unseen := fun _ => ⟨rfl, rfl⟩
  block := fun h => absurd rfl h
  small := Nat.zero_le _
  awaited := by simp

/-- The count has passed the limit exactly when the block seen last is that long. -/
theorem TimerState.Counts.passed_iff (h : st.Counts seen) :
    waitTicks < st.sCheckTti ↔ ∃ front a, seen = front ++ List.replicate (waitTicks + 2) a := by
  have hsmall := h.small
  constructor
  · intro hpassed
    have hne : seen ≠ [] := by
      intro hnil
      rw [(h.unseen hnil).1] at hpassed
      exact Nat.not_lt_zero _ hpassed
    obtain ⟨front, hseen, -⟩ := h.block hne
    exact ⟨front, st.sPhyState, by rw [hseen]; congr 2; omega⟩
  · rintro ⟨front, a, hseen⟩
    by_contra hnot
    have hne : seen ≠ [] := by simp [hseen]
    obtain ⟨front', hseen', hlast⟩ := h.block hne
    exact not_longer_block (Nat.succ_pos _) (by omega) hlast (hseen'.symm.trans hseen)

/-- A look at the PHY ends the process exactly when a long block has been seen, and counts it
otherwise. -/
theorem TimerState.Counts.check (h : st.Counts seen) (hphy : phyState.Awaited) :
    (checkPhyState st phyState = none ∧ waitTicks < st.sCheckTti) ∨
      ∃ st', checkPhyState st phyState = some st' ∧ st'.sTti = st.sTti ∧
        ¬ waitTicks < st.sCheckTti ∧ st'.Counts (seen ++ [phyState]) := by
  have hawaited : ∀ phyState' ∈ seen ++ [phyState], phyState'.Awaited := by
    intro phyState' hmem
    rcases List.mem_append.mp hmem with hmem | hmem
    · exact h.awaited phyState' hmem
    · exact List.mem_singleton.mp hmem ▸ hphy
  rw [checkPhyState, if_pos hphy]
  by_cases hpassed : waitTicks < st.sCheckTti
  · rw [if_pos hpassed]
    exact .inl ⟨rfl, hpassed⟩
  rw [if_neg hpassed]
  by_cases hsame : st.sPhyState = phyState
  · rw [if_neg (not_not.mpr hsame)]
    have hne : seen ≠ [] := by
      intro hnil
      rw [← hsame, (h.unseen hnil).2] at hphy
      exact absurd hphy (by decide)
    obtain ⟨front, hseen, hlast⟩ := h.block hne
    refine .inr ⟨_, rfl, rfl, hpassed, fun hnil => absurd hnil (by simp), fun _ =>
      ⟨front, ?_, hlast⟩, by dsimp only; omega, hawaited⟩
    rw [hseen, List.append_assoc, ← hsame, ← List.replicate_succ']
  · rw [if_pos hsame]
    refine .inr ⟨_, rfl, rfl, hpassed, fun hnil => absurd hnil (by simp), fun _ =>
      ⟨seen, rfl, ?_⟩, Nat.zero_le _, hawaited⟩
    intro hlast
    have hne : seen ≠ [] := by
      rintro rfl
      exact absurd hlast (by simp)
    obtain ⟨front, hseen, -⟩ := h.block hne
    rw [hseen, List.getLast?_append, List.getLast?_replicate, if_neg (by omega)] at hlast
    exact hsame (Option.some.inj hlast)

/-- The states that the timer sees at one tick. -/
def seenAt (cfg : TimerCfg) (sTti : ℕ) (phyState : MacStatus) : List MacStatus :=
  if phyState.Awaited ∧ ¬ cfg.Skips sTti then [phyState] else []

theorem waitsSeen_cons (sTti : ℕ) (phyStates : List MacStatus) :
    waitsSeen cfg sTti (phyState :: phyStates) =
      seenAt cfg ((sTti + 1) % 4294967296) phyState ++
        waitsSeen cfg ((sTti + 1) % 4294967296) phyStates := by
  rw [waitsSeen, seenAt]
  split_ifs <;> rfl

/-- What the other variables are does not matter for the count. -/
theorem TimerState.Counts.of_same {st' : TimerState} (h : st.Counts seen)
    (hcheck : st'.sCheckTti = st.sCheckTti) (hphy : st'.sPhyState = st.sPhyState) :
    st'.Counts seen :=
  ⟨by rw [hcheck, hphy]; exact h.unseen, by rw [hcheck, hphy]; exact h.block,
    by rw [hcheck]; exact h.small, h.awaited⟩

/-- A tick returns early or looks at the PHY, and changes neither the count nor the state
remembered before it does. -/
theorem tmrCallback_cases (htotal : cfg.runtimeTotal = 0) :
    (cfg.Skips ((st.sTti + 1) % 4294967296) ∧
        (tmrCallback cfg st phyState).1 = some { st with sTti := (st.sTti + 1) % 4294967296 }) ∨
      (¬ cfg.Skips ((st.sTti + 1) % 4294967296) ∧ ∃ st',
        st'.sTti = (st.sTti + 1) % 4294967296 ∧ st'.sCheckTti = st.sCheckTti ∧
        st'.sPhyState = st.sPhyState ∧
        (tmrCallback cfg st phyState).1 = checkPhyState st' phyState) := by
  have hrunning : ¬ (0 < cfg.runtimeTotal ∧ cfg.runtimeTotal < st.totalRuntime) := by omega
  simp only [tmrCallback, if_neg hrunning, TimerCfg.Skips]
  by_cases htime : cfg.TimeUp ((st.sTti + 1) % 4294967296)
  · simp only [htime, if_true, true_and]
    by_cases hskip : cfg.phyStub = false ∨ cfg.sCaseNum = 0
    · rw [if_pos hskip]
      exact .inl ⟨hskip, rfl⟩
    · rw [if_neg hskip]
      refine .inr ⟨hskip, _, ?_, ?_, ?_, rfl⟩ <;> rfl
  · simp only [htime, if_false, false_and]
    refine .inr ⟨not_false, _, ?_, ?_, ?_, rfl⟩ <;> rfl

/-- One tick: the process exits exactly when the PHY is seen waiting and the count has passed
the limit. -/
theorem TimerState.Counts.tick (h : st.Counts seen) (htotal : cfg.runtimeTotal = 0)
    (phyState : MacStatus) :
    ((tmrCallback cfg st phyState).1 = none ∧ waitTicks < st.sCheckTti ∧
        seenAt cfg ((st.sTti + 1) % 4294967296) phyState = [phyState]) ∨
      ∃ st', (tmrCallback cfg st phyState).1 = some st' ∧
        st'.sTti = (st.sTti + 1) % 4294967296 ∧
        (seenAt cfg ((st.sTti + 1) % 4294967296) phyState = [phyState] →
          ¬ waitTicks < st.sCheckTti) ∧
        st'.Counts (seen ++ seenAt cfg ((st.sTti + 1) % 4294967296) phyState) := by
  rw [seenAt]
  rcases @tmrCallback_cases cfg st phyState htotal with
    ⟨hskip, htick⟩ | ⟨hlook, st₁, htti, hcheck, hphy, htick⟩
  · rw [if_neg fun hboth => hboth.2 hskip, List.append_nil, htick]
    exact .inr ⟨_, rfl, rfl, fun hnil => absurd hnil (by simp), h.of_same rfl rfl⟩
  · have hcounts := h.of_same hcheck hphy
    rw [htick, ← htti, ← hcheck]
    by_cases hawaited : phyState.Awaited
    · rw [if_pos ⟨hawaited, hlook.imp (by rw [htti]; exact id)⟩]
      rcases hcounts.check hawaited with ⟨hnone, hpassed⟩ | ⟨st', hsome, htti', hnot, hnext⟩
      · exact .inl ⟨hnone, hpassed, rfl⟩
      · exact .inr ⟨st', hsome, htti', fun _ => hnot, hnext⟩
    · rw [if_neg fun hboth => hawaited hboth.1, List.append_nil, checkPhyState, if_neg hawaited]
      exact .inr ⟨st₁, rfl, rfl, fun hnil => absurd hnil (by simp), hcounts⟩

/-- A run of ticks, behind others in which no long block has been passed. -/
theorem TimerState.Counts.run (h : st.Counts seen) (hnot : ¬ HasBlock (waitTicks + 2) seen)
    (htotal : cfg.runtimeTotal = 0) (phyStates : List MacStatus) :
    timerRun cfg st phyStates = none ↔
      HasBlock (waitTicks + 2) (seen ++ waitsSeen cfg st.sTti phyStates) := by
  induction phyStates generalizing st seen with
  | nil =>
    rw [waitsSeen, List.append_nil]
    exact iff_of_false (by simp [timerRun]) hnot
  | cons phyState phyStates ih =>
    rw [waitsSeen_cons, ← List.append_assoc, timerRun, List.foldlM_cons]
    rcases h.tick htotal phyState with ⟨hnone, hpassed, hseen⟩ | ⟨st', hsome, htti, hseen, hnext⟩
    · rw [hnone, hseen]
      refine iff_of_true rfl (hasBlock_append ?_)
      exact hasBlock_concat_iff.mpr (.inr (h.passed_iff.mp hpassed))
    · rw [← htti] at hseen hnext
      rw [hsome, Option.bind_eq_bind, Option.bind_some, ← htti]
      refine ih hnext ?_
      by_cases hnil : seenAt cfg st'.sTti phyState = []
      · rwa [hnil, List.append_nil]
      · have hone : seenAt cfg st'.sTti phyState = [phyState] := by
          rw [seenAt] at hnil ⊢
          split_ifs at hnil ⊢ with hboth
          · rfl
          · exact absurd rfl hnil
        rw [hone, hasBlock_concat_iff, ← h.passed_iff]
        exact not_or.mpr ⟨hnot, hseen hone⟩

/-- Without a limit to the whole time, as the program starts, the process exits exactly when
the PHY is seen waiting behind 1000002 sights of it in one and the same state, with no other
state that is waited in seen in between: what else it has been through does not count, and
neither do the ticks that return early. -/
theorem timer_exits_iff (htotal : cfg.runtimeTotal = 0) (phyStates : List MacStatus) :
    timerRun cfg .start phyStates = none ↔ ∃ front phyState next back,
      waitsSeen cfg 0 phyStates = front ++ List.replicate 1000002 phyState ++ next :: back := by
  have hnot : ¬ HasBlock (waitTicks + 2) ([] : List MacStatus) := by
    rintro ⟨front, a, b, back, heq⟩
    exact absurd heq (by simp)
  exact TimerState.Counts.start.run hnot htotal phyStates

/-- Five ticks in one state are not too many, and the fourth returns early. -/
theorem timer_exits_iff_five :
    timerRun ⟨.manual, false, 0, 4, 0⟩ .start (List.replicate 5 .phyCfg) ≠ none ∧
      waitsSeen ⟨.manual, false, 0, 4, 0⟩ 0 (List.replicate 5 .phyCfg) =
        List.replicate 4 .phyCfg := by
  have hseen : waitsSeen ⟨.manual, false, 0, 4, 0⟩ 0 (List.replicate 5 .phyCfg) =
      List.replicate 4 .phyCfg := by
    decide
  refine ⟨fun hexit => ?_, hseen⟩
  obtain ⟨front, phyState, next, back, heq⟩ := (timer_exits_iff rfl _).mp hexit
  have hlen := congrArg List.length (hseen.symm.trans heq)
  simp only [List.length_append, List.length_replicate, List.length_cons] at hlen
  omega

end TestMac

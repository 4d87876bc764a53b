import Mathlib.Data.Int.Notation
import TestMac.Lib.Fifo
import TestMac.Lib.IndexRing

/-!
# The trace of the PHY interface: `macTrace.c`

What is sent to the PHY and received from it is put into a ring of 32 items, and a thread of
its own takes them out and sends them. The producer never looks whether the ring is full,
and equal indices stand for an empty ring. As long as fewer than 32 items wait when one is
added, and when the thread looks at the indices, the ring is a queue.
-/

namespace TestMac

/-- `MAX_PHY_TRACE_ITEM`. -/
def maxPhyTraceItem : ℕ := 32

/-- `OctString_s`: an address and a number of octets. -/
structure OctString where
  data : ℕ
  octCnt : ℕ
  deriving DecidableEq

/-- The local variables of a pass of `_phyTraceCheckProcess` that has found items. -/
structure TracePass where
  start : ℕ
  traceCnt : ℕ
  i : ℕ

/-- The globals of `macTrace.c`, the pass the thread is in, and what the ring was seen to
do. -/
structure PhyTrace where
  start : ℕ
  /-- The field `end`. -/
  fin : ℕ
  item : ℕ → OctString
  /-- `platformCfg.phyTrace.type == TRACE_UDP`. -/
  udp : Bool
  ptFd : ℤ
  pass : Option TracePass
  /-- Items added while tracing is on, items passed to `phyTrace`, and passes that find
  nothing. -/
  log : List (Fifo.Event OctString)

/-- `PHY_TRACE_ITEM_CNT`. -/
def phyTraceItemCnt (start fin : ℕ) : ℕ := (fin + maxPhyTraceItem - start) &&& (maxPhyTraceItem - 1)

/-- `addPhyTraceItem`. -/
def addPhyTraceItem (x : OctString) (s : PhyTrace) : PhyTrace :=
  if s.udp = true then
    { s with
      item := Function.update s.item s.fin x
      fin := (s.fin + 1) &&& (maxPhyTraceItem - 1)
      log := s.log ++ [.enq [x]] }
  else s

/-- `phyTrace`, up to the sending of the datagram. The first call opens the sockets: `fd` and
`rev` are what `socket` and `connect` return. -/
def phyTrace (fd rev : ℤ) (x : OctString) (s : PhyTrace) : PhyTrace :=
  let s := { s with log := s.log ++ [.deq [x]] }
  if s.udp = true ∧ s.ptFd < 0 then
    if rev < 0 then { s with ptFd := fd, udp := false } else { s with ptFd := fd }
  else s

/-- What can happen next: an item is added, or the thread does its next step. -/
inductive TraceStep
  | add (x : OctString)
  /-- A pass begins with a look at the two indices. -/
  | snapshot
  | trace (fd rev : ℤ)
  /-- A pass ends with the update of `start`. -/
  | update

/-- The next state, when the step is one that can be done. -/
def traceStep (s : PhyTrace) : TraceStep → Option PhyTrace
  | .add x => some (addPhyTraceItem x s)
  | .snapshot =>
    match s.pass with
    | some _ => none
    | none =>
      let traceCnt := phyTraceItemCnt s.start s.fin
      if traceCnt = 0 then some { s with log := s.log ++ [.front 1 []] }
      else some { s with pass := some ⟨s.start, traceCnt, 0⟩ }
  | .trace fd rev =>
    match s.pass with
    | none => none
    | some p =>
      if p.i < p.traceCnt then
        let traceIdx := (p.start + p.i) &&& (maxPhyTraceItem - 1)
        some (phyTrace fd rev (s.item traceIdx) { s with pass := some { p with i := p.i + 1 } })
      else none
  | .update =>
    match s.pass with
    | none => none
    | some p =>
      if p.i < p.traceCnt then none
      else some { s with
        start := (p.start + p.traceCnt) &&& (maxPhyTraceItem - 1)
        pass := none }

/-- Steps of the trace. -/
abbrev TraceSteps (s : PhyTrace) (ls : List TraceStep) (s' : PhyTrace) : Prop :=
  Steps (fun s l s' => traceStep s l = some s') s ls s'

/-- The items added while tracing was on, in order. -/
def PhyTrace.added (s : PhyTrace) : List OctString := s.log.flatMap Fifo.Event.enqueued

/-- The items passed to `phyTrace`, in order. -/
def PhyTrace.traced (s : PhyTrace) : List OctString := s.log.flatMap Fifo.Event.dequeued

/-- Fewer than 32 items wait to be passed to `phyTrace`. -/
def PhyTrace.HasRoom (s : PhyTrace) : Prop := s.added.length < s.traced.length + maxPhyTraceItem

instance (s : PhyTrace) : Decidable s.HasRoom := inferInstanceAs (Decidable (_ < _))

/-- There is room when an item is added, and when a pass begins. -/
def StepHasRoom (s : PhyTrace) : TraceStep → Prop
  | .add _ => s.udp = true → s.HasRoom
  | .snapshot => s.HasRoom
  | .trace _ _ => True
  | .update => True

/-- The ring as it is at first: nothing in it, and no pass. -/
structure PhyTrace.Fresh (s : PhyTrace) : Prop where
  start : s.start = 0
  fin : s.fin = 0
  pass : s.pass = none
  log : s.log = []

/-- The ring holds what waits: `n` items have been taken out of it. -/
structure PhyTrace.Queues (s : PhyTrace) (n : ℕ) (waiting : List OctString) : Prop where
  accepts : Fifo.Accepts [] s.log waiting
  traced : s.traced.length = n
  holds : IndexRing.Holds maxPhyTraceItem s.item n waiting
  fin : s.fin = (n + waiting.length) % maxPhyTraceItem
  idle : s.pass = none → s.start = n % maxPhyTraceItem
  busy : ∀ p, s.pass = some p → (p.start + p.i) % maxPhyTraceItem = n % maxPhyTraceItem ∧
    p.i ≤ p.traceCnt ∧ p.traceCnt ≤ p.i + waiting.length

variable {s s' : PhyTrace} {n : ℕ} {waiting : List OctString} {x : OctString} {fd rev : ℤ}

theorem and_31 (k : ℕ) : k &&& (maxPhyTraceItem - 1) = k % maxPhyTraceItem :=
  Nat.and_two_pow_sub_one_eq_mod k 5

/-- `phyTrace` leaves the ring and the pass alone. -/
theorem phyTrace_ring (fd rev : ℤ) (x : OctString) (s : PhyTrace) :
    (phyTrace fd rev x s).log = s.log ++ [.deq [x]] ∧
    (phyTrace fd rev x s).start = s.start ∧ (phyTrace fd rev x s).fin = s.fin ∧
    (phyTrace fd rev x s).item = s.item ∧ (phyTrace fd rev x s).pass = s.pass := by
  unfold phyTrace
  dsimp only
  split_ifs
  all_goals exact ⟨rfl, rfl, rfl, rfl, rfl⟩

theorem PhyTrace.Fresh.queues (h : s.Fresh) : s.Queues 0 [] where
  accepts := h.log ▸ .nil []
  traced := by simp [PhyTrace.traced, h.log]
  holds := IndexRing.holds_nil
  fin := h.fin
  idle _ := h.start
  busy p hp := by simp [h.pass] at hp

/-- What was added is what was passed on and what waits. -/
theorem PhyTrace.Queues.added_eq (h : s.Queues n waiting) : s.added = s.traced ++ waiting := by
  have hconserves := h.accepts.conserves
  rwa [List.nil_append] at hconserves

theorem PhyTrace.Queues.hasRoom_iff (h : s.Queues n waiting) :
    s.HasRoom ↔ waiting.length < maxPhyTraceItem := by
  rw [PhyTrace.HasRoom, h.added_eq, List.length_append]
  omega

/-- An item is added. -/
theorem PhyTrace.Queues.add (h : s.Queues n waiting) (hroom : s.udp = true → s.HasRoom)
    (x : OctString) : ∃ waiting', (addPhyTraceItem x s).Queues n waiting' := by
  rw [addPhyTraceItem]
  by_cases hudp : s.udp = true
  · rw [if_pos hudp]
    refine ⟨waiting ++ [x], ?_, ?_, ?_, ?_, h.idle, ?_⟩
    · exact h.accepts.snoc (.enq waiting [x])
    · simpa [PhyTrace.traced, Fifo.Event.dequeued] using h.traced
    · dsimp only
      rw [h.fin]
      exact h.holds.push (h.hasRoom_iff.mp (hroom hudp)) x
    · dsimp only
      rw [and_31, h.fin, List.length_append, List.length_singleton, Nat.mod_add_mod, Nat.add_assoc]
    · intro p hp
      obtain ⟨hindex, hi, hcnt⟩ := h.busy p hp
      rw [List.length_append]
      exact ⟨hindex, hi, by omega⟩
  · rw [if_neg hudp]
    exact ⟨waiting, h⟩

/-- A pass begins, or finds nothing. -/
theorem PhyTrace.Queues.snapshot (h : s.Queues n waiting) (hroom : s.HasRoom)
    (hpass : s.pass = none) (hstep : traceStep s .snapshot = some s') : s'.Queues n waiting := by
  have hlen := h.hasRoom_iff.mp hroom
  have hcnt : phyTraceItemCnt s.start s.fin = waiting.length := by
    rw [phyTraceItemCnt, and_31, h.fin, h.idle hpass]
    exact IndexRing.count_eq hlen
  simp only [traceStep, hpass, hcnt] at hstep
  split_ifs at hstep with hnone
  · obtain rfl := Option.some.inj hstep
    obtain rfl := List.length_eq_zero_iff.mp hnone
    refine ⟨h.accepts.snoc (.front [] 1), ?_, h.holds, h.fin, fun _ => h.idle hpass, ?_⟩
    · simpa [PhyTrace.traced, Fifo.Event.dequeued] using h.traced
    · intro p hp
      simp at hp
  · obtain rfl := Option.some.inj hstep
    refine ⟨h.accepts, h.traced, h.holds, h.fin, ?_, ?_⟩
    · intro hidle
      simp at hidle
    · intro p hp
      obtain rfl := Option.some.inj hp
      refine ⟨?_, Nat.zero_le _, Nat.le_of_eq (Nat.zero_add _).symm⟩
      dsimp only
      rw [Nat.add_zero, h.idle hpass, Nat.mod_mod]

/-- An item is passed on. -/
theorem PhyTrace.Queues.trace (h : s.Queues n waiting)
    (hstep : traceStep s (.trace fd rev) = some s') :
    ∃ waiting', s'.Queues (n + 1) waiting' := by
  cases hpass : s.pass with
  | none => simp [traceStep, hpass] at hstep
  | some p =>
    obtain ⟨hindex, hi, hcnt⟩ := h.busy p hpass
    simp only [traceStep, hpass] at hstep
    split_ifs at hstep with hmore
    have hs' := Option.some.inj hstep
    cases waiting with
    | nil =>
      rw [List.length_nil] at hcnt
      omega
    | cons y ys =>
      have hitem : s.item ((p.start + p.i) &&& (maxPhyTraceItem - 1)) = y := by
        rw [and_31, hindex]
        exact h.holds.head
      rw [hitem] at hs'
      subst hs'
      obtain ⟨hlog, hstart, hfin, hitems, hpass'⟩ :=
        phyTrace_ring fd rev y { s with pass := some { p with i := p.i + 1 } }
      refine ⟨ys, ?_, ?_, ?_, ?_, ?_, ?_⟩
      · rw [hlog]
        exact h.accepts.snoc (.deq [y] ys)
      · rw [PhyTrace.traced, hlog, List.flatMap_append, List.length_append, ← PhyTrace.traced]
        exact congrArg (· + 1) h.traced
      · rw [hitems]
        exact h.holds.tail
      · rw [hfin, h.fin, List.length_cons, Nat.add_assoc, Nat.add_comm 1]
      · intro hidle
        simp [hpass'] at hidle
      · intro p' hp'
        rw [hpass'] at hp'
        obtain rfl := Option.some.inj hp'
        rw [List.length_cons] at hcnt
        refine ⟨?_, by dsimp only; omega, by dsimp only; omega⟩
        dsimp only
        rw [← Nat.add_assoc, Nat.add_mod, hindex, ← Nat.add_mod]

/-- A pass ends. -/
theorem PhyTrace.Queues.update (h : s.Queues n waiting)
    (hstep : traceStep s .update = some s') : s'.Queues n waiting := by
  cases hpass : s.pass with
  | none => simp [traceStep, hpass] at hstep
  | some p =>
    obtain ⟨hindex, hi, hcnt⟩ := h.busy p hpass
    simp only [traceStep, hpass] at hstep
    split_ifs at hstep with hmore
    obtain rfl := Option.some.inj hstep
    refine ⟨h.accepts, h.traced, h.holds, h.fin, ?_, ?_⟩
    · intro _
      dsimp only
      rw [and_31, show p.traceCnt = p.i by omega, hindex]
    · intro p' hp'
      simp at hp'

/-- Every step that finds room keeps the ring a queue. -/
theorem PhyTrace.Queues.step {l : TraceStep} (h : s.Queues n waiting) (hroom : StepHasRoom s l)
    (hstep : traceStep s l = some s') : ∃ n' waiting', s'.Queues n' waiting' := by
  cases l with
  | add x =>
    obtain rfl := Option.some.inj hstep
    obtain ⟨waiting', hadd⟩ := h.add hroom x
    exact ⟨n, waiting', hadd⟩
  | snapshot =>
    cases hpass : s.pass with
    | none => exact ⟨n, waiting, h.snapshot hroom hpass hstep⟩
    | some p => simp [traceStep, hpass] at hstep
  | trace fd rev =>
    obtain ⟨waiting', htrace⟩ := h.trace hstep
    exact ⟨n + 1, waiting', htrace⟩
  | update => exact ⟨n, waiting, h.update hstep⟩

/-- In every run from the ring as it is at first whose steps find room, the items added while
tracing is on are those passed to `phyTrace`, once each and in the order of adding, followed
by those that wait; and what was seen, passes that find nothing included, is what a queue of
items shows. -/
theorem run_traces_in_order {s₀ s : PhyTrace} {ls : List TraceStep} (hfresh : s₀.Fresh)
    (hrun : TraceSteps s₀ ls s)
    (hroom : Steps.Meets (fun s l s' => traceStep s l = some s') StepHasRoom s₀ ls) :
    ∃ waiting, Fifo.Accepts [] s.log waiting ∧ s.added = s.traced ++ waiting := by
  have hqueues : ∃ n waiting, s.Queues n waiting := by
    refine Steps.invariant (fun s => ∃ n waiting, s.Queues n waiting) ?_ hrun hroom
      ⟨0, [], hfresh.queues⟩
    rintro a l b ⟨n, waiting, h⟩ hroom hstep
    exact h.step hroom hstep
  obtain ⟨n, waiting, h⟩ := hqueues
  exact ⟨waiting, h.accepts, h.added_eq⟩

/-- The ring at first, with tracing on and the socket closed. -/
def freshTrace : PhyTrace where
  start := 0
  fin := 0
  item _ := ⟨0, 0⟩
  udp := true
  ptFd := -1
  pass := none
  log := []

theorem freshTrace_fresh : freshTrace.Fresh := ⟨rfl, rfl, rfl, rfl⟩

instance (s : PhyTrace) : (l : TraceStep) → Decidable (StepHasRoom s l)
  | .add _ => inferInstanceAs (Decidable (_ → _))
  | .snapshot => inferInstanceAs (Decidable s.HasRoom)
  | .trace _ _ => isTrue trivial
  | .update => isTrue trivial

/-- Two items before a pass, one more while the pass goes through them, and a second pass with
another item added behind its snapshot. -/
def twoPasses : List TraceStep :=
  [.add ⟨1000, 8⟩, .add ⟨2000, 16⟩, .snapshot, .trace 3 0, .add ⟨3000, 24⟩, .trace 3 0, .update,
    .snapshot, .add ⟨4000, 32⟩, .trace 3 0, .update]

theorem run_traces_in_order_two_passes : ∃ s waiting, TraceSteps freshTrace twoPasses s ∧
    s.traced = [⟨1000, 8⟩, ⟨2000, 16⟩, ⟨3000, 24⟩] ∧ Fifo.Accepts [] s.log waiting ∧
    s.added = s.traced ++ waiting := by
  have hrun : (twoPasses.foldlM traceStep freshTrace).map (·.traced) =
      some [⟨1000, 8⟩, ⟨2000, 16⟩, ⟨3000, 24⟩] := by
    decide +kernel
  obtain ⟨s, hs, htraced⟩ := Option.map_eq_some_iff.mp hrun
  have hsteps : TraceSteps freshTrace twoPasses s := Steps.of_foldlM hs
  obtain ⟨waiting, haccepts, hadded⟩ :=
    run_traces_in_order freshTrace_fresh hsteps (.of_checks (by decide +kernel))
  exact ⟨s, waiting, hsteps, htraced, haccepts, hadded⟩

/-- Items that are added one after the other, with lengths 0, 1 and so on. -/
def adds (k : ℕ) : List TraceStep := (List.range k).map fun i => .add ⟨1000, i⟩

/-- A pass that begins with 32 items in the ring. -/
def fullRing : List TraceStep := adds 32 ++ [.snapshot]

/-- A pass that begins with 33 items added. -/
def overfullRing : List TraceStep := adds 33 ++ [.snapshot, .trace 3 0]

/-- With 32 items in the ring a pass finds nothing. With 33 the last one has taken the place of
the first, which is never passed on. -/
theorem fullRing_loses :
    (∃ s, TraceSteps freshTrace fullRing s ∧ ¬ ∃ waiting, Fifo.Accepts [] s.log waiting) ∧
      ∃ s, TraceSteps freshTrace overfullRing s ∧ s.traced = [⟨1000, 32⟩] ∧
        s.added.head? = some ⟨1000, 0⟩ := by
  constructor
  · have hrun : (fullRing.foldlM traceStep freshTrace).map (·.log) =
        some ((List.range 32).map (fun i => .enq [⟨1000, i⟩]) ++ [.front 1 []]) := by
      decide +kernel
    obtain ⟨s, hs, hlog⟩ := Option.map_eq_some_iff.mp hrun
    refine ⟨s, Steps.of_foldlM hs, ?_⟩
    rintro ⟨waiting, haccepts⟩
    rw [hlog] at haccepts
    have hdrained := haccepts.drained Nat.one_pos
    exact absurd hdrained (by decide +kernel)
  · have hrun : (overfullRing.foldlM traceStep freshTrace).map
        (fun s => (s.traced, s.added.head?)) = some ([⟨1000, 32⟩], some ⟨1000, 0⟩) := by
      decide +kernel
    obtain ⟨s, hs, hlists⟩ := Option.map_eq_some_iff.mp hrun
    obtain ⟨htraced, hadded⟩ := Prod.mk.inj hlists
    exact ⟨s, Steps.of_foldlM hs, htraced, hadded⟩

end TestMac

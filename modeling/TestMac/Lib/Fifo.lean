import TestMac.Lib.Paths

/-!
# A first-in first-out queue seen from outside

The queue accepts three kinds of observation: messages being committed, an
inspection of the messages at the head, and the removal of messages from the
head. A component that only ever shows observations accepted here delivers
every committed message once, in order and unchanged.
-/

namespace Fifo

variable {α : Type*}

/-- What can be seen of a queue of messages. -/
inductive Event (α : Type*)
  /-- The messages were committed, in this order. -/
  | enq (xs : List α)
  /-- An inspection of at most `k` messages at the head returned `xs`. -/
  | front (k : ℕ) (xs : List α)
  /-- The messages `xs` were removed from the head. -/
  | deq (xs : List α)
  deriving DecidableEq

/-- The observations a queue of the given contents permits. -/
inductive Step : List α → Event α → List α → Prop
  | enq (q xs : List α) : Step q (.enq xs) (q ++ xs)
  | front (q : List α) (k : ℕ) : Step q (.front k (q.take k)) q
  | deq (xs q : List α) : Step (xs ++ q) (.deq xs) q

/-- A sequence of observations permitted by a queue. -/
abbrev Accepts (q : List α) (es : List (Event α)) (q' : List α) : Prop := Steps Step q es q'

/-- The messages committed by an observation. -/
def Event.enqueued : Event α → List α
  | .enq xs => xs
  | .front _ _ => []
  | .deq _ => []

/-- The messages removed by an observation. -/
def Event.dequeued : Event α → List α
  | .enq _ => []
  | .front _ _ => []
  | .deq xs => xs

/-- One observation neither loses nor duplicates a message. -/
theorem Step.conserves {q q' : List α} {e : Event α} (h : Step q e q') :
    q ++ e.enqueued = e.dequeued ++ q' := by
  cases h <;> simp [Event.enqueued, Event.dequeued]

/-- The messages committed are exactly those removed followed by those still
queued, in the same order: nothing is lost, duplicated or reordered. -/
theorem Accepts.conserves {q q' : List α} {es : List (Event α)} (h : Accepts q es q') :
    q ++ es.flatMap Event.enqueued = es.flatMap Event.dequeued ++ q' := by
  induction h with
  | nil => simp
  | cons hs _ ih =>
    simp only [List.flatMap_cons]
    rw [← List.append_assoc, hs.conserves, List.append_assoc, ih, List.append_assoc]

/-- An inspection returns nothing exactly when the queue is empty. -/
theorem Step.front_nil_iff {q q' : List α} {k : ℕ} {xs : List α} (hk : 0 < k)
    (h : Step q (.front k xs) q') : xs = [] ↔ q = [] := by
  cases h
  simp [List.take_eq_nil_iff, Nat.ne_of_gt hk]

/-- When an inspection returns nothing, all that was committed has been removed. -/
theorem Accepts.drained {q : List α} {es : List (Event α)} {k : ℕ} (hk : 0 < k)
    (h : Accepts [] (es ++ [.front k []]) q) :
    es.flatMap Event.enqueued = es.flatMap Event.dequeued := by
  obtain ⟨q', hes, hlast⟩ := h.append_inv
  obtain ⟨q'', hfront, -⟩ := hlast.cons_inv
  have hconserves := Accepts.conserves hes
  rw [(hfront.front_nil_iff hk).mp rfl] at hconserves
  simpa using hconserves

end Fifo

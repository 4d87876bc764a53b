import TestMac.Lib.Paths

/-!
# A mailbox that is looked into

A writer puts messages into a mailbox. A reader finds it empty, or looks at the first
message, piece by piece, and takes it away. Whatever is seen belongs to the message whose
turn it is: the one that was put after as many others as have been taken.
-/

namespace Mailbox

variable {α ω : Type*}

/-- What happens to a mailbox. A look shows a piece of a message. -/
inductive Event (α ω : Type*)
  | put (x : α)
  | empty
  | look (w : ω)
  | take
  deriving DecidableEq

/-- What may happen to a mailbox with some messages in it. -/
inductive Step (shows : α → ω → Prop) : List α → Event α ω → List α → Prop
  | put (q : List α) (x : α) : Step shows q (.put x) (q ++ [x])
  | empty : Step shows [] .empty []
  | look {x : α} {w : ω} (q : List α) (h : shows x w) : Step shows (x :: q) (.look w) (x :: q)
  | take (x : α) (q : List α) : Step shows (x :: q) .take q

/-- The messages put, in their order. -/
def puts (es : List (Event α ω)) : List α := es.filterMap fun
  | .put x => some x
  | _ => none

/-- How many messages were taken. -/
def takes (es : List (Event α ω)) : ℕ := es.countP fun
  | .take => true
  | _ => false

variable {shows : α → ω → Prop} {q q' : List α} {es es' : List (Event α ω)}

/-- What is in the mailbox was put and is not among the first ones, which were taken. -/
theorem contents (h : Steps (Step shows) q es q') :
    takes es ≤ (q ++ puts es).length ∧ q' = (q ++ puts es).drop (takes es) := by
  induction h with
  | nil q => simp [takes, puts]
  | cons hs _ ih =>
    cases hs with
    | put q x => simpa [takes, puts] using ih
    | empty => simpa [takes, puts] using ih
    | look q h => simpa [takes, puts] using ih
    | take x q =>
      obtain ⟨hle, hq⟩ := ih
      simp only [takes, puts, List.countP_cons_of_pos, List.filterMap_cons, List.cons_append,
        List.length_cons, List.drop_succ_cons]
      exact ⟨Nat.succ_le_succ hle, hq⟩

/-- A look shows a piece of the message whose turn it is. -/
theorem look_shows {w : ω} (h : Steps (Step shows) [] (es ++ .look w :: es') q') :
    ∃ x, (puts es)[takes es]? = some x ∧ shows x w := by
  obtain ⟨q, hes, hrest⟩ := h.append_inv
  obtain ⟨q₁, hlook, -⟩ := hrest.cons_inv
  obtain ⟨-, hq⟩ := contents hes
  cases hlook with
  | @look x w q h =>
    refine ⟨x, ?_, h⟩
    rw [List.nil_append] at hq
    rw [← Nat.add_zero (takes es), ← List.getElem?_drop, ← hq]
    rfl

/-- The mailbox is found empty only when everything put has been taken. -/
theorem empty_taken (h : Steps (Step shows) [] (es ++ .empty :: es') q') :
    takes es = (puts es).length := by
  obtain ⟨q, hes, hrest⟩ := h.append_inv
  obtain ⟨q₁, hempty, -⟩ := hrest.cons_inv
  obtain ⟨hle, hq⟩ := contents hes
  cases hempty with
  | empty =>
    rw [List.nil_append] at hle hq
    have hlen := congrArg List.length hq
    rw [List.length_drop, List.length_nil] at hlen
    omega

end Mailbox

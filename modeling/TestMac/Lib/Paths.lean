import Mathlib.Order.Basic

/-!
# Labelled paths and runs of a stepped system

A labelled path records the labels met while following a step relation. The
same definition serves two purposes: an abstract machine accepting a list of
observed events, and a chain of records laid end to end in memory.

A stepped system answers every input with a next state and observed events.
`Runs.simulates` is the usual forward simulation: one lemma about one step
gives acceptance of a whole run.
-/

/-- Following `Step` from a state to a state, collecting the labels in order. -/
inductive Steps {A L : Type*} (Step : A → L → A → Prop) : A → List L → A → Prop
  | nil (a : A) : Steps Step a [] a
  | cons {a b c : A} {l : L} {ls : List L} : Step a l b → Steps Step b ls c →
      Steps Step a (l :: ls) c

namespace Steps

variable {A L : Type*} {Step Step' : A → L → A → Prop}

/-- A single step is a path. -/
theorem single {a b : A} {l : L} (h : Step a l b) : Steps Step a [l] b :=
  .cons h (.nil b)

/-- Paths compose, and their labels are concatenated. -/
theorem trans {a b c : A} {ls ms : List L} (h : Steps Step a ls b) (h' : Steps Step b ms c) :
    Steps Step a (ls ++ ms) c := by
  induction h with
  | nil => exact h'
  | cons hs _ ih => exact .cons hs (ih h')

/-- A step can be appended at the far end of a path. -/
theorem snoc {a b c : A} {ls : List L} {l : L} (h : Steps Step a ls b) (hs : Step b l c) :
    Steps Step a (ls ++ [l]) c :=
  h.trans (single hs)

/-- A path without labels does not move. -/
theorem eq_of_nil {a b : A} (h : Steps Step a [] b) : a = b := by
  cases h
  rfl

/-- The first label of a path is the label of its first step. -/
theorem cons_inv {a c : A} {l : L} {ls : List L} (h : Steps Step a (l :: ls) c) :
    ∃ b, Step a l b ∧ Steps Step b ls c := by
  cases h with
  | cons hs hp => exact ⟨_, hs, hp⟩

/-- A path whose labels are a concatenation passes through a middle state. -/
theorem append_inv {a c : A} {ls ms : List L} (h : Steps Step a (ls ++ ms) c) :
    ∃ b, Steps Step a ls b ∧ Steps Step b ms c := by
  induction ls generalizing a with
  | nil => exact ⟨a, .nil a, h⟩
  | cons l ls ih =>
    obtain ⟨b, hs, hp⟩ := cons_inv h
    obtain ⟨d, hl, hm⟩ := ih hp
    exact ⟨d, .cons hs hl, hm⟩

/-- When a label determines a step, the labels determine a path. -/
theorem unique (hstep : ∀ {a l b b'}, Step a l b → Step a l b' → b = b') {a b b' : A} {ls : List L}
    (h : Steps Step a ls b) (h' : Steps Step a ls b') : b = b' := by
  induction h with
  | nil => exact h'.eq_of_nil
  | cons hs _ ih =>
    obtain ⟨c, hs', hp'⟩ := cons_inv h'
    rw [← hstep hs hs'] at hp'
    exact ih hp'

/-- A path in an ordered state space whose steps strictly ascend never descends. -/
theorem le {A : Type*} [Preorder A] {Step : A → L → A → Prop}
    (hstep : ∀ {a l b}, Step a l b → a < b) {a b : A} {ls : List L}
    (h : Steps Step a ls b) : a ≤ b := by
  induction h with
  | nil => exact le_rfl
  | cons hs _ ih => exact (hstep hs).le.trans ih

/-- An ascending path with a label moves strictly. -/
theorem lt_of_ne_nil {A : Type*} [Preorder A] {Step : A → L → A → Prop}
    (hstep : ∀ {a l b}, Step a l b → a < b) {a b : A} {ls : List L}
    (h : Steps Step a ls b) (hne : ls ≠ []) : a < b := by
  cases h with
  | nil => exact absurd rfl hne
  | cons hs hp => exact (hstep hs).trans_le (hp.le hstep)

/-- Steps inside an interval may be replaced by steps of another relation that
agrees with the first one there. -/
theorem mono_within {A : Type*} [Preorder A] {Step Step' : A → L → A → Prop}
    (hstep : ∀ {a l b}, Step a l b → a < b) {lo hi a b : A} {ls : List L}
    (hmono : ∀ {a l b}, lo ≤ a → b ≤ hi → Step a l b → Step' a l b)
    (h : Steps Step a ls b) (hlo : lo ≤ a) (hhi : b ≤ hi) : Steps Step' a ls b := by
  induction h with
  | nil => exact .nil _
  | cons hs hp ih =>
    have hmid := (hp.le hstep).trans hhi
    exact .cons (hmono hlo hmid hs) (ih (hlo.trans (hstep hs).le) hhi)

/-- A run of a step function is a path. -/
theorem of_foldlM {step : A → L → Option A} {a b : A} {ls : List L}
    (h : ls.foldlM step a = some b) : Steps (fun a l b => step a l = some b) a ls b := by
  induction ls generalizing a with
  | nil =>
    obtain rfl := Option.some.inj h
    exact .nil a
  | cons l ls ih =>
    obtain ⟨c, hs, hrest⟩ := Option.bind_eq_some_iff.mp h
    exact .cons hs (ih hrest)

/-- Every label of a list is read in a state that satisfies `P` with it. -/
def Meets (Step : A → L → A → Prop) (P : A → L → Prop) (a : A) (ls : List L) : Prop :=
  ∀ ms l ns b, ls = ms ++ l :: ns → Steps Step a ms b → P b l

theorem Meets.head {P : A → L → Prop} {a : A} {l : L} {ls : List L}
    (h : Meets Step P a (l :: ls)) : P a l :=
  h [] l ls a rfl (.nil a)

theorem Meets.tail {P : A → L → Prop} {a b : A} {l : L} {ls : List L}
    (h : Meets Step P a (l :: ls)) (hs : Step a l b) : Meets Step P b ls := by
  intro ms l' ns c hls hp
  exact h (l :: ms) l' ns c (by rw [hls, List.cons_append]) (.cons hs hp)

theorem Meets.cons {P : A → L → Prop} {a : A} {l : L} {ls : List L} (hl : P a l)
    (h : ∀ b, Step a l b → Meets Step P b ls) : Meets Step P a (l :: ls) := by
  intro ms l' ns c hls hp
  cases ms with
  | nil =>
    obtain ⟨rfl, -⟩ := List.cons.inj hls
    rwa [← hp.eq_of_nil]
  | cons m ms =>
    obtain ⟨rfl, htail⟩ := List.cons.inj hls
    obtain ⟨b, hs, hp⟩ := cons_inv hp
    exact h b hs ms l' ns c htail hp

/-- A condition met along a concatenation is met along its first part. -/
theorem Meets.left {P : A → L → Prop} {a : A} {ls ms : List L} (h : Meets Step P a (ls ++ ms)) :
    Meets Step P a ls := by
  intro ks l ns b hls hp
  exact h ks l (ns ++ ms) b (by rw [hls, List.append_assoc, List.cons_append]) hp

/-- Following the labels with a step function, the condition checked before every step. -/
def checks (step : A → L → Option A) (P : A → L → Prop) [∀ a l, Decidable (P a l)] :
    A → List L → Bool
  | _, [] => true
  | a, l :: ls => decide (P a l) && (step a l).all (checks step P · ls)

theorem Meets.of_checks {step : A → L → Option A} {P : A → L → Prop} [∀ a l, Decidable (P a l)]
    {a : A} {ls : List L} (h : checks step P a ls = true) :
    Meets (fun a l b => step a l = some b) P a ls := by
  induction ls generalizing a with
  | nil =>
    intro ms l ns b hls
    simp at hls
  | cons l ls ih =>
    obtain ⟨hl, hrest⟩ := (Bool.and_eq_true _ _).mp h
    refine .cons (of_decide_eq_true hl) fun b hstep => ih ?_
    simpa only [hstep, Option.all_some] using hrest

/-- An invariant kept by every step that meets a condition holds at the end of a
path whose steps all meet it. -/
theorem invariant {P : A → L → Prop} (Inv : A → Prop)
    (hstep : ∀ {a l b}, Inv a → P a l → Step a l b → Inv b) {a b : A} {ls : List L}
    (h : Steps Step a ls b) (hmeets : Meets Step P a ls) (ha : Inv a) : Inv b := by
  induction h with
  | nil => exact ha
  | cons hs _ ih => exact ih (hmeets.tail hs) (hstep ha hmeets.head hs)

end Steps

namespace Runs

variable {S I E A : Type*}

/-- The state and the events after a list of inputs. -/
def run (step : S → I → S × List E) : S → List I → S × List E
  | s, [] => (s, [])
  | s, i :: is => ((run step (step s i).1 is).1, (step s i).2 ++ (run step (step s i).1 is).2)

/-- Every input of the list satisfies `ok` in the state that it finds. -/
def Meets (step : S → I → S × List E) (ok : S → I → Prop) : S → List I → Prop
  | _, [] => True
  | s, i :: is => ok s i ∧ Meets step ok (step s i).1 is

/-- A condition that every state meets is met along every run. -/
theorem meets_of_forall {step : S → I → S × List E} {ok : S → I → Prop} {is : List I}
    (h : ∀ s, ∀ i ∈ is, ok s i) (s : S) : Meets step ok s is := by
  induction is generalizing s with
  | nil => trivial
  | cons i is ih =>
    exact ⟨h s i (by simp), ih (fun s j hj => h s j (by simp [hj])) _⟩

/-- An invariant kept by every permitted step holds at the end of every permitted run. -/
theorem invariant {step : S → I → S × List E} {ok : S → I → Prop} {Inv : S → Prop}
    (hstep : ∀ {s i}, Inv s → ok s i → Inv (step s i).1) {s : S} {is : List I}
    (hs : Inv s) (hok : Meets step ok s is) : Inv (run step s is).1 := by
  induction is generalizing s with
  | nil => exact hs
  | cons i is ih => exact ih (hstep hs hok.1) hok.2

/-- What is said of a state and the events that led to it, and holds again behind a step exactly
when the step meets a condition, holds all along a run exactly when every step meets it. -/
theorem forall_prefix_iff {step : S → I → S × List E} {ok : S → I → Prop} (Kept : S → Prop)
    (Says : S → List E → Prop) (hkept : ∀ {s} i, Kept s → Kept (step s i).1)
    (hstep : ∀ {s es i}, Kept s → Says s es → (Says (step s i).1 (es ++ (step s i).2) ↔ ok s i))
    {s : S} {es : List E} {is : List I} (hs : Kept s) (htrue : Says s es) :
    (∀ is', is' <+: is → Says (run step s is').1 (es ++ (run step s is').2)) ↔
      Meets step ok s is := by
  induction is generalizing s es with
  | nil =>
    refine ⟨fun _ => trivial, fun _ is' hprefix => ?_⟩
    obtain rfl := List.prefix_nil.mp hprefix
    simpa [run] using htrue
  | cons i is ih =>
    rw [Meets, ← hstep hs htrue]
    constructor
    · intro h
      have hnext : Says (step s i).1 (es ++ (step s i).2) := by
        simpa [run] using h [i] ⟨is, rfl⟩
      refine ⟨hnext, (ih (hkept i hs) hnext).mp fun is' hprefix => ?_⟩
      simpa [run] using h (i :: is') (List.cons_prefix_cons.mpr ⟨rfl, hprefix⟩)
    · rintro ⟨hnext, hrest⟩ is' hprefix
      cases is' with
      | nil => simpa [run] using htrue
      | cons j is' =>
        obtain ⟨rfl, htail⟩ := List.cons_prefix_cons.mp hprefix
        simpa [run] using (ih (hkept j hs) hnext).mpr hrest is' htail

/-- The states that inputs which meet a condition lead to. -/
inductive Reachable (step : S → I → S) (ok : S → I → Prop) (s₀ : S) : S → Prop
  | start : Reachable step ok s₀ s₀
  | step {s : S} {i : I} : Reachable step ok s₀ s → ok s i → Reachable step ok s₀ (step s i)

/-- An invariant kept by every permitted step holds in every state reached. -/
theorem Reachable.invariant {step : S → I → S} {ok : S → I → Prop} {Inv : S → Prop}
    (hstep : ∀ {s i}, Inv s → ok s i → Inv (step s i)) {s₀ s : S} (h : Reachable step ok s₀ s)
    (hs₀ : Inv s₀) : Inv s := by
  induction h with
  | start => exact hs₀
  | step _ hok ih => exact hstep ih hok

/-- Every input meets the condition in the state that the inputs before it lead to. -/
def allowed (step : S → I → S) (ok : S → I → Prop) [∀ s i, Decidable (ok s i)] : S → List I → Bool
  | _, [] => true
  | s, i :: is => decide (ok s i) && allowed step ok (step s i) is

theorem Reachable.foldl {step : S → I → S} {ok : S → I → Prop} [∀ s i, Decidable (ok s i)]
    {s₀ s : S} {is : List I} (h : Reachable step ok s₀ s) (hok : allowed step ok s is = true) :
    Reachable step ok s₀ (is.foldl step s) := by
  induction is generalizing s with
  | nil => exact h
  | cons i is ih =>
    obtain ⟨hi, his⟩ := (Bool.and_eq_true _ _).mp hok
    exact ih (.step h (of_decide_eq_true hi)) his

/-- A weaker condition reaches more states. -/
theorem Reachable.mono {step : S → I → S} {ok ok' : S → I → Prop}
    (hok : ∀ {s i}, ok s i → ok' s i) {s₀ s : S} (h : Reachable step ok s₀ s) :
    Reachable step ok' s₀ s := by
  induction h with
  | start => exact .start
  | step _ hs ih => exact .step ih (hok hs)

/-- Forward simulation: when every permitted step of the system is answered by
a path of the abstract machine with the same events, so is every permitted run. -/
theorem simulates {step : S → I → S × List E} {ok : S → I → Prop}
    {Step : A → E → A → Prop} {Rel : S → A → Prop}
    (hstep : ∀ {s i a}, Rel s a → ok s i →
      ∃ a', Steps Step a (step s i).2 a' ∧ Rel (step s i).1 a')
    {s : S} {a : A} {is : List I} (hs : Rel s a) (hok : Meets step ok s is) :
    ∃ a', Steps Step a (run step s is).2 a' ∧ Rel (run step s is).1 a' := by
  induction is generalizing s a with
  | nil => exact ⟨a, .nil a, hs⟩
  | cons i is ih =>
    obtain ⟨b, hb, hrel⟩ := hstep hs hok.1
    obtain ⟨c, hc, hrel'⟩ := ih hrel hok.2
    exact ⟨c, hb.trans hc, hrel'⟩

end Runs

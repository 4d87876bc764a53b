import TestMac.Lib.Action
import TestMac.Lib.Records

/-!
# What a decoder performs

The calls of a decoder are carried out as actions on a state. A decoder performs an action
when it returns and its calls, carried out one after the other, are that action. The rules
follow the decoder, so that the action can be read off from what is encoded in the memory
instead of from the calls.
-/

namespace Act

variable {σ ι α β γ : Type}

theorem pure_bind (a : α) (f : α → Act σ β) : (pure a >>= f) = f a := rfl

theorem bind_unit (x : Act σ Unit) : (x >>= fun _ => pure ()) = x := by
  funext s
  simp only [Bind.bind]
  cases x s with
  | none => rfl
  | some as => rfl

theorem bind_assoc (x : Act σ α) (f : α → Act σ β) (g : β → Act σ γ) :
    ((x >>= f) >>= g) = x >>= fun a => f a >>= g := by
  funext s
  simp only [Bind.bind]
  cases x s with
  | none => rfl
  | some as => rfl

variable {x : ι → Act σ Unit}

theorem forEach_singleton (i : ι) : forEach x [i] = x i := bind_unit (x i)

theorem forEach_append (is js : List ι) :
    forEach x (is ++ js) = forEach x is >>= fun _ => forEach x js := by
  induction is with
  | nil => rfl
  | cons i is ih =>
    rw [List.cons_append, forEach, forEach, ih, bind_assoc]

/-- Rounds that each do a list of actions. -/
theorem forEach_flatMap {κ : Type} (f : κ → List ι) (ks : List κ) :
    forEach x (ks.flatMap f) = forEach (fun k => forEach x (f k)) ks := by
  induction ks with
  | nil => rfl
  | cons k ks ih => rw [List.flatMap_cons, forEach_append, forEach, ih]

theorem forEach_map {κ : Type} (f : κ → ι) (ks : List κ) :
    forEach x (ks.map f) = forEach (fun k => x (f k)) ks := by
  induction ks with
  | nil => rfl
  | cons k ks ih => rw [List.map_cons, forEach, forEach, ih]

theorem forEach_congr {y : ι → Act σ Unit} {is : List ι} (h : ∀ i ∈ is, x i = y i) :
    forEach x is = forEach y is := by
  induction is with
  | nil => rfl
  | cons i is ih =>
    rw [forEach, forEach, h i List.mem_cons_self, ih fun j hj => h j (List.mem_cons_of_mem i hj)]

/-- Actions that do nothing. -/
theorem forEach_pure (is : List ι) : forEach (fun _ => (pure () : Act σ Unit)) is = pure () := by
  induction is with
  | nil => rfl
  | cons i is ih => rw [forEach, ih, pure_bind]

theorem assert_eq_pure {p : Prop} [Decidable p] (h : p) : (assert p : Act σ Unit) = pure () := by
  funext s
  exact if_pos h

end Act

namespace Decoder

open Bytes

variable {E α β σ : Type} {run : E → Act σ Unit} {m : Mem} {act act' : Act σ Unit}

/-- The decoder returns `a`, and its calls carried out in their order are the action. -/
structure Performs (run : E → Act σ Unit) (m : Mem) (x : Decoder E α) (a : α)
    (act : Act σ Unit) : Prop where
  result : (x m).2 = .ok a
  performed : Act.forEach run (x.calls m) = act

namespace Performs

theorem pure (a : α) : Performs run m (Pure.pure a : Decoder E α) a (Pure.pure ()) := ⟨rfl, rfl⟩

theorem read (len addr : ℕ) :
    Performs run m (Decoder.read len addr : Decoder E ℕ) (leValue (slice m addr len))
      (Pure.pure ()) := ⟨rfl, rfl⟩

theorem call (e : E) : Performs run m (Decoder.call e) () (run e) :=
  ⟨rfl, Act.forEach_singleton e⟩

theorem assert {p : Prop} [Decidable p] (h : p) :
    Performs run m (Decoder.assert p : Decoder E Unit) () (Pure.pure ()) := by
  refine ⟨?_, rfl⟩
  rw [result_assert, if_pos h]

theorem bind {x : Decoder E α} {f : α → Decoder E β} {a : α} {b : β}
    (hx : Performs run m x a act) (hf : Performs run m (f a) b act') :
    Performs run m (x >>= f) b (act >>= fun _ => act') := by
  constructor
  · rw [result_bind, hx.result]
    exact hf.result
  · rw [calls_bind, hx.result, Act.forEach_append, hx.performed]
    dsimp only
    rw [hf.performed]

/-- A first part that changes nothing. -/
theorem silent {x : Decoder E α} {f : α → Decoder E β} {a : α} {b : β}
    (hx : Performs run m x a (Pure.pure ())) (hf : Performs run m (f a) b act) :
    Performs run m (x >>= f) b act :=
  hx.bind hf

/-- A second part that changes nothing. -/
theorem done {x : Decoder E α} {f : α → Decoder E β} {a : α} {b : β}
    (hx : Performs run m x a act) (hf : Performs run m (f a) b (Pure.pure ())) :
    Performs run m (x >>= f) b act := by
  rw [← Act.bind_unit act]
  exact hx.bind hf

/-- A call that stands for no action. -/
theorem call_unseen {e : E} (h : run e = Pure.pure ()) :
    Performs run m (Decoder.call e) () (Pure.pure ()) := by
  rw [← h]
  exact call e

/-- A part of a larger decoder. -/
theorem lift {E' : Type} {g : E → E'} {run' : E' → Act σ Unit} {x : Decoder E α} {a : α}
    (hx : Performs run m x a act) (hg : ∀ e, run' (g e) = run e) :
    Performs run' m (x.lift g) a act := by
  refine ⟨hx.result, ?_⟩
  rw [calls_lift, Act.forEach_map, ← hx.performed]
  exact Act.forEach_congr fun e _ => hg e

/-- Both ways to go on are the ways of the action. -/
theorem ite {p : Prop} [Decidable p] {x y : Decoder E α} {a : α}
    (hx : p → Performs run m x a act) (hy : ¬ p → Performs run m y a act') :
    Performs run m (if p then x else y) a (if p then act else act') := by
  by_cases hp : p
  · rw [if_pos hp, if_pos hp]
    exact hx hp
  · rw [if_neg hp, if_neg hp]
    exact hy hp

variable {κ : Type} {base bound : ℕ} {bytes : κ → List UInt8} {body : ℕ → ℕ → Decoder E ℕ}

/-- Rounds over encoded records, each of which performs the action of its record and
leaves the offset behind it. -/
theorem rounds_placed (action : κ → Act σ Unit) {xs : List κ} {i off : ℕ}
    (hround : ∀ i off, ∀ x ∈ xs, Holds m (base + off) (bytes x) →
      off + (bytes x).length ≤ bound →
      Performs run m (body i off) (off + (bytes x).length) (action x))
    (h : Holds m (base + off) (xs.flatMap bytes))
    (hbound : off + (xs.flatMap bytes).length ≤ bound) :
    Performs run m (rounds body xs.length i off) (off + (xs.flatMap bytes).length)
      (Act.forEach action xs) := by
  induction xs generalizing i off with
  | nil => exact .pure off
  | cons x xs ih =>
    obtain ⟨hx, hxs⟩ := holds_flatMap_cons.mp h
    rw [List.flatMap_cons, List.length_append] at hbound
    rw [Nat.add_assoc] at hxs
    have hfirst := hround i off x List.mem_cons_self hx (by omega)
    have hrest := ih (fun i off x' hx' => hround i off x' (List.mem_cons_of_mem x hx'))
      (i := i + 1) hxs (by omega)
    rw [List.length_cons, rounds, List.flatMap_cons, List.length_append, ← Nat.add_assoc,
      Act.forEach]
    exact hfirst.bind hrest

/-- The same for the loop of the code, whose bound fits its counter. -/
theorem loop16_placed (action : κ → Act σ Unit) {xs : List κ} {fuel off : ℕ}
    (hlt : xs.length < 65536) (hfuel : xs.length < fuel)
    (hround : ∀ i off, ∀ x ∈ xs, Holds m (base + off) (bytes x) →
      off + (bytes x).length ≤ bound →
      Performs run m (body i off) (off + (bytes x).length) (action x))
    (h : Holds m (base + off) (xs.flatMap bytes))
    (hbound : off + (xs.flatMap bytes).length ≤ bound) :
    Performs run m (loop16 xs.length body fuel 0 off) (off + (xs.flatMap bytes).length)
      (Act.forEach action xs) := by
  rw [loop16_eq_rounds hlt hfuel]
  exact rounds_placed action hround h hbound

/-- Rounds that change nothing. -/
theorem loop16_silent {τ : Type} {body : ℕ → τ → Decoder E τ} {n fuel : ℕ} (hlt : n < 65536)
    (hfuel : n < fuel) (hround : ∀ i s, ∃ s', Performs run m (body i s) s' (Pure.pure ()))
    (s : τ) : ∃ s', Performs run m (loop16 n body fuel 0 s) s' (Pure.pure ()) := by
  rw [loop16_eq_rounds hlt hfuel]
  have hrounds : ∀ k i s, ∃ s', Performs run m (rounds body k i s) s' (Pure.pure ()) := by
    intro k
    induction k with
    | zero => exact fun i s => ⟨s, .pure s⟩
    | succ k ih =>
      intro i s
      obtain ⟨s₁, hfirst⟩ := hround i s
      obtain ⟨s', hrest⟩ := ih (i + 1) s₁
      exact ⟨s', hfirst.silent hrest⟩
  exact hrounds n 0 s

end Performs

end Decoder

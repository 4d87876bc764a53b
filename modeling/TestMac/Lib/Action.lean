import Mathlib.Tactic.Common

/-!
# Actions on a state

An action changes a state and returns a result, or is abandoned by a failed
assertion. `Ensures` says what holds when an action finishes, and `Finishes` says
that it does finish as well. Both are computed backwards along the action by their
simp lemmas.
-/

/-- An action on states of type `σ`. A failed assertion gives `none`. -/
def Act (σ α : Type) := σ → Option (α × σ)

namespace Act

variable {σ τ α β : Type}

instance : Monad (Act σ) where
  pure a := fun s => some (a, s)
  bind x f := fun s =>
    match x s with
    | none => none
    | some (a, s') => f a s'

/-- A value read from the state. -/
def read (f : σ → α) : Act σ α := fun s => some (f s, s)

/-- A change of the state. -/
def update (f : σ → σ) : Act σ Unit := fun s => some ((), f s)

/-- A run-time assertion. -/
def assert (p : Prop) [Decidable p] : Act σ Unit := fun s => if p then some ((), s) else none

/-- An action done only on a condition. -/
def when (p : Prop) [Decidable p] (x : Act σ Unit) : Act σ Unit := if p then x else pure ()

/-- An action on a part of a larger state. -/
def lift (get : τ → σ) (set : σ → τ → τ) (x : Act σ α) : Act τ α := fun t =>
  match x (get t) with
  | none => none
  | some (a, s) => some (a, set s t)

/-- The same action for every element of a list, in order. -/
def forEach {ι : Type} (x : ι → Act σ Unit) : List ι → Act σ Unit
  | [] => pure ()
  | i :: is => do
    x i
    forEach x is

/-- An action after another one that finishes. -/
theorem bind_of_eq_some {s s' : σ} {x : Act σ α} {f : α → Act σ β} {a : α}
    (h : x s = some (a, s')) : (x >>= f) s = f a s' := by
  simp only [Bind.bind, h]

/-- When the action finishes, its result and the state satisfy `Q`. -/
def Ensures (x : Act σ α) (s : σ) (Q : α → σ → Prop) : Prop :=
  ∀ a s', x s = some (a, s') → Q a s'

section Ensures

variable {s : σ} {Q : α → σ → Prop}

@[simp]
theorem ensures_pure {a : α} : Ensures (pure a) s Q ↔ Q a s := by
  constructor
  · intro h
    exact h a s rfl
  · intro h b s' hb
    obtain ⟨rfl, rfl⟩ := Prod.mk.inj (Option.some.inj hb)
    exact h

@[simp]
theorem ensures_bind {x : Act σ α} {f : α → Act σ β} {R : β → σ → Prop} :
    Ensures (x >>= f) s R ↔ Ensures x s fun a s' => Ensures (f a) s' R := by
  unfold Ensures
  simp only [Bind.bind]
  constructor
  · intro h a s' hx b s'' hf
    apply h b s''
    rw [hx]
    exact hf
  · intro h b s'' hf
    match hx : x s with
    | none => simp [hx] at hf
    | some (a, s') =>
      rw [hx] at hf
      exact h a s' hx b s'' hf

@[simp]
theorem ensures_read {f : σ → α} : Ensures (read f) s Q ↔ Q (f s) s := ensures_pure

@[simp]
theorem ensures_update {f : σ → σ} {Q : Unit → σ → Prop} :
    Ensures (update f) s Q ↔ Q () (f s) := by
  constructor
  · intro h
    exact h () (f s) rfl
  · intro h _ s' hs
    obtain ⟨rfl, rfl⟩ := Prod.mk.inj (Option.some.inj hs)
    exact h

@[simp]
theorem ensures_assert {p : Prop} [Decidable p] {Q : Unit → σ → Prop} :
    Ensures (assert p) s Q ↔ (p → Q () s) := by
  by_cases hp : p
  · have hpure : (assert p : Act σ Unit) = pure () := by
      funext s
      exact if_pos hp
    rw [hpure, ensures_pure]
    simp [hp]
  · simp [Ensures, assert, hp]

@[simp]
theorem ensures_ite {p : Prop} [Decidable p] {x y : Act σ α} :
    Ensures (if p then x else y) s Q ↔ (p → Ensures x s Q) ∧ (¬ p → Ensures y s Q) := by
  by_cases hp : p
  · simp [hp]
  · simp [hp]

@[simp]
theorem ensures_when {p : Prop} [Decidable p] {x : Act σ Unit} {Q : Unit → σ → Prop} :
    Ensures (when p x) s Q ↔ (p → Ensures x s Q) ∧ (¬ p → Q () s) := by
  rw [when, ensures_ite, ensures_pure]

@[simp]
theorem ensures_lift {get : τ → σ} {set : σ → τ → τ} {x : Act σ α} {t : τ} {Q : α → τ → Prop} :
    Ensures (lift get set x) t Q ↔ Ensures x (get t) fun a s => Q a (set s t) := by
  unfold Ensures lift
  constructor
  · intro h a s hx
    exact h a (set s t) (by rw [hx])
  · intro h a t' hx
    match hs : x (get t) with
    | none => simp [hs] at hx
    | some (b, s) =>
      rw [hs] at hx
      obtain ⟨rfl, rfl⟩ := Prod.mk.inj (Option.some.inj hx)
      exact h b s hs

theorem Ensures.mono {x : Act σ α} {R : α → σ → Prop} (h : Ensures x s Q)
    (himp : ∀ a s', Q a s' → R a s') : Ensures x s R :=
  fun a s' hx => himp a s' (h a s' hx)

theorem Ensures.and {x : Act σ α} {R : α → σ → Prop} (h : Ensures x s Q) (h' : Ensures x s R) :
    Ensures x s fun a s' => Q a s' ∧ R a s' :=
  fun a s' hx => ⟨h a s' hx, h' a s' hx⟩

end Ensures

/-- The action finishes, and its result and the state satisfy `Q`. -/
def Finishes (x : Act σ α) (s : σ) (Q : α → σ → Prop) : Prop :=
  ∃ a s', x s = some (a, s') ∧ Q a s'

section Finishes

variable {s : σ} {Q : α → σ → Prop}

@[simp]
theorem finishes_pure {a : α} : Finishes (pure a) s Q ↔ Q a s := by
  constructor
  · rintro ⟨b, s', hb, hQ⟩
    obtain ⟨rfl, rfl⟩ := Prod.mk.inj (Option.some.inj hb)
    exact hQ
  · intro hQ
    exact ⟨a, s, rfl, hQ⟩

@[simp]
theorem finishes_bind {x : Act σ α} {f : α → Act σ β} {R : β → σ → Prop} :
    Finishes (x >>= f) s R ↔ Finishes x s fun a s' => Finishes (f a) s' R := by
  unfold Finishes
  simp only [Bind.bind]
  constructor
  · rintro ⟨b, s'', hb, hR⟩
    match hx : x s with
    | none => simp [hx] at hb
    | some (a, s') =>
      rw [hx] at hb
      exact ⟨a, s', rfl, b, s'', hb, hR⟩
  · rintro ⟨a, s', hx, b, s'', hf, hR⟩
    refine ⟨b, s'', ?_, hR⟩
    rw [hx]
    exact hf

@[simp]
theorem finishes_read {f : σ → α} : Finishes (read f) s Q ↔ Q (f s) s := finishes_pure

@[simp]
theorem finishes_update {f : σ → σ} {Q : Unit → σ → Prop} :
    Finishes (update f) s Q ↔ Q () (f s) := by
  constructor
  · rintro ⟨b, s', hb, hQ⟩
    obtain ⟨rfl, rfl⟩ := Prod.mk.inj (Option.some.inj hb)
    exact hQ
  · intro hQ
    exact ⟨(), f s, rfl, hQ⟩

@[simp]
theorem finishes_assert {p : Prop} [Decidable p] {Q : Unit → σ → Prop} :
    Finishes (assert p) s Q ↔ p ∧ Q () s := by
  by_cases hp : p
  · have hpure : (assert p : Act σ Unit) = pure () := by
      funext s
      exact if_pos hp
    rw [hpure, finishes_pure]
    simp [hp]
  · simp [Finishes, assert, hp]

@[simp]
theorem finishes_ite {p : Prop} [Decidable p] {x y : Act σ α} :
    Finishes (if p then x else y) s Q ↔ (p → Finishes x s Q) ∧ (¬ p → Finishes y s Q) := by
  by_cases hp : p
  · simp [hp]
  · simp [hp]

@[simp]
theorem finishes_when {p : Prop} [Decidable p] {x : Act σ Unit} {Q : Unit → σ → Prop} :
    Finishes (when p x) s Q ↔ (p → Finishes x s Q) ∧ (¬ p → Q () s) := by
  rw [when, finishes_ite, finishes_pure]

/-- An action has one outcome at most. -/
theorem Finishes.ensures {x : Act σ α} (h : Finishes x s Q) : Ensures x s Q := by
  obtain ⟨a, s', hx, hQ⟩ := h
  intro b s'' hb
  obtain ⟨rfl, rfl⟩ := Prod.mk.inj (Option.some.inj (hx.symm.trans hb))
  exact hQ

theorem Finishes.mono {x : Act σ α} {R : α → σ → Prop} (h : Finishes x s Q)
    (himp : ∀ a s', Q a s' → R a s') : Finishes x s R := by
  obtain ⟨a, s', hx, hQ⟩ := h
  exact ⟨a, s', hx, himp a s' hQ⟩

end Finishes

/-- Every finished run of the action relates the state before to the state after. -/
def Within (R : σ → σ → Prop) (x : Act σ α) : Prop :=
  ∀ s, Ensures x s fun _ s' => R s s'

section Within

variable {R : σ → σ → Prop}

theorem Within.pure (hrefl : ∀ s, R s s) (a : α) : Within R (pure a) := by
  intro s
  simpa using hrefl s

theorem Within.read (hrefl : ∀ s, R s s) (f : σ → α) : Within R (read f) := by
  intro s
  simpa using hrefl s

theorem Within.update {f : σ → σ} (h : ∀ s, R s (f s)) : Within R (update f) := by
  intro s
  simpa using h s

theorem Within.assert (hrefl : ∀ s, R s s) (p : Prop) [Decidable p] : Within R (assert p) := by
  intro s
  simp [hrefl]

theorem Within.bind (htrans : ∀ {s t u}, R s t → R t u → R s u) {x : Act σ α}
    {f : α → Act σ β} (hx : Within R x) (hf : ∀ a, Within R (f a)) : Within R (x >>= f) := by
  intro s
  rw [ensures_bind]
  refine (hx s).mono ?_
  intro a t hst
  refine (hf a t).mono ?_
  intro b u htu
  exact htrans hst htu

theorem Within.ite {p : Prop} [Decidable p] {x y : Act σ α} (hx : Within R x)
    (hy : Within R y) : Within R (if p then x else y) := by
  by_cases hp : p
  · simpa [hp] using hx
  · simpa [hp] using hy

theorem Within.when (hrefl : ∀ s, R s s) {p : Prop} [Decidable p] {x : Act σ Unit}
    (hx : Within R x) : Within R (when p x) :=
  Within.ite hx (Within.pure hrefl ())

end Within

/-- The action finishes from every state. -/
def Total (x : Act σ α) : Prop := ∀ s, Finishes x s fun _ _ => True

section Total

theorem Total.pure (a : α) : Total (pure a : Act σ α) := fun s => ⟨a, s, rfl, trivial⟩

theorem Total.read (f : σ → α) : Total (read f) := fun s => ⟨f s, s, rfl, trivial⟩

theorem Total.update (f : σ → σ) : Total (update f) := fun s => ⟨(), f s, rfl, trivial⟩

theorem Total.bind {x : Act σ α} {f : α → Act σ β} (hx : Total x) (hf : ∀ a, Total (f a)) :
    Total (x >>= f) := by
  intro s
  rw [finishes_bind]
  refine (hx s).mono ?_
  intro a s' _
  exact hf a s'

theorem Total.ite {p : Prop} [Decidable p] {x y : Act σ α} (hx : Total x) (hy : Total y) :
    Total (if p then x else y) := by
  by_cases hp : p
  · simpa [hp] using hx
  · simpa [hp] using hy

theorem Total.when {p : Prop} [Decidable p] {x : Act σ Unit} (hx : Total x) : Total (when p x) :=
  Total.ite hx (Total.pure ())

theorem Total.lift {get : τ → σ} {set : σ → τ → τ} {x : Act σ α} (hx : Total x) :
    Total (lift get set x) := by
  intro t
  obtain ⟨a, s, hs, -⟩ := hx (get t)
  refine ⟨a, set s t, ?_, trivial⟩
  simp only [Act.lift, hs]

theorem Total.forEach {ι : Type} {x : ι → Act σ Unit} (hx : ∀ i, Total (x i)) :
    ∀ is, Total (forEach x is)
  | [] => Total.pure ()
  | i :: is => Total.bind (hx i) fun _ => Total.forEach hx is

end Total

/-- Every finished run of the action keeps a part of the state. -/
def Keeps (f : σ → τ) (x : Act σ α) : Prop := Within (fun s s' => f s' = f s) x

end Act

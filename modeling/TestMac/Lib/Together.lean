import TestMac.Lib.Action

/-!
# Two actions in step

Two runs are compared from two states: either both are abandoned, or both finish, with
related results and states. An action that goes through under a condition, with one
result, is compared by its condition and its result.
-/

namespace Act

variable {σ α β α' β' ι : Type}

/-- Both actions are abandoned, or both finish and their results and states satisfy `R`. -/
def Together (x : Act σ α) (y : Act σ β) (s t : σ) (R : α → σ → β → σ → Prop) : Prop :=
  x s = none ∧ y t = none ∨
    ∃ a s' b t', x s = some (a, s') ∧ y t = some (b, t') ∧ R a s' b t'

variable {x : Act σ α} {y : Act σ β} {s t : σ} {R : α → σ → β → σ → Prop}

theorem Together.mono {R' : α → σ → β → σ → Prop} (h : Together x y s t R)
    (himp : ∀ a s' b t', R a s' b t' → R' a s' b t') : Together x y s t R' := by
  rcases h with hnone | ⟨a, s', b, t', hx, hy, hR⟩
  · exact .inl hnone
  · exact .inr ⟨a, s', b, t', hx, hy, himp a s' b t' hR⟩

/-- What one of the runs ensures. -/
theorem Together.ensures {P : α → σ → Prop} (h : Together x y s t R) (hx : Ensures x s P) :
    Together x y s t fun a s' b t' => P a s' ∧ R a s' b t' := by
  rcases h with hnone | ⟨a, s', b, t', hxs, hyt, hR⟩
  · exact .inl hnone
  · exact .inr ⟨a, s', b, t', hxs, hyt, hx a s' hxs, hR⟩

/-- When one of the runs finishes, so does the other. -/
theorem Together.finishes {a : α} {s' : σ} (h : Together x y s t R) (hx : x s = some (a, s')) :
    ∃ b t', y t = some (b, t') ∧ R a s' b t' := by
  rcases h with ⟨hnone, -⟩ | ⟨a', s'', b, t', hxs, hyt, hR⟩
  · rw [hnone] at hx
    cases hx
  · obtain ⟨rfl, rfl⟩ := Prod.mk.inj (Option.some.inj (hxs.symm.trans hx))
    exact ⟨b, t', hyt, hR⟩

theorem Together.symm (h : Together x y s t R) : Together y x t s fun b t' a s' => R a s' b t' := by
  rcases h with ⟨hx, hy⟩ | ⟨a, s', b, t', hx, hy, hR⟩
  · exact .inl ⟨hy, hx⟩
  · exact .inr ⟨b, t', a, s', hy, hx, hR⟩

/-- Two sequences are in step when their first parts are, and then their second parts. -/
theorem Together.bind {f : α → Act σ α'} {g : β → Act σ β'} {R' : α' → σ → β' → σ → Prop}
    (h : Together x y s t R) (hnext : ∀ a s' b t', R a s' b t' → Together (f a) (g b) s' t' R') :
    Together (x >>= f) (y >>= g) s t R' := by
  unfold Together
  simp only [Bind.bind]
  rcases h with ⟨hx, hy⟩ | ⟨a, s', b, t', hx, hy, hR⟩
  · rw [hx, hy]
    exact .inl ⟨rfl, rfl⟩
  · rw [hx, hy]
    exact hnext a s' b t' hR

/-- Actions that finish under one condition each, with one result. -/
theorem Together.of_finishes {p q : Prop} {a : α} {b : β} {s' t' : σ}
    (hx : ∀ Q, Finishes x s Q ↔ p ∧ Q a s') (hy : ∀ Q, Finishes y t Q ↔ q ∧ Q b t') (hpq : p ↔ q)
    (h : p → q → R a s' b t') : Together x y s t R := by
  by_cases hp : p
  · obtain ⟨a₀, s₀, hxs, rfl, rfl⟩ := (hx fun a₀ s₀ => a₀ = a ∧ s₀ = s').mpr ⟨hp, rfl, rfl⟩
    obtain ⟨b₀, t₀, hyt, rfl, rfl⟩ := (hy fun b₀ t₀ => b₀ = b ∧ t₀ = t').mpr ⟨hpq.mp hp, rfl, rfl⟩
    exact .inr ⟨a₀, s₀, b₀, t₀, hxs, hyt, h hp (hpq.mp hp)⟩
  · have hxs : x s = none := by
      cases hxs : x s with
      | none => rfl
      | some r => exact absurd ((hx fun _ _ => True).mp ⟨r.1, r.2, hxs, trivial⟩).1 hp
    have hyt : y t = none := by
      cases hyt : y t with
      | none => rfl
      | some r =>
        exact absurd (hpq.mpr ((hy fun _ _ => True).mp ⟨r.1, r.2, hyt, trivial⟩).1) hp
    exact .inl ⟨hxs, hyt⟩

theorem together_pure {a : α} {b : β} : Together (pure a) (pure b) s t R ↔ R a s b t := by
  constructor
  · rintro (⟨hx, -⟩ | ⟨a', s', b', t', hx, hy, hR⟩)
    · cases hx
    · obtain ⟨rfl, rfl⟩ := Prod.mk.inj (Option.some.inj hx)
      obtain ⟨rfl, rfl⟩ := Prod.mk.inj (Option.some.inj hy)
      exact hR
  · intro hR
    exact .inr ⟨a, s, b, t, rfl, rfl, hR⟩

theorem together_read_bind {f : σ → α'} {g : σ → β'} {x : α' → Act σ α} {y : β' → Act σ β} :
    Together (read f >>= x) (read g >>= y) s t R ↔ Together (x (f s)) (y (g t)) s t R := Iff.rfl

theorem together_update_bind {f g : σ → σ} {x : Unit → Act σ α} {y : Unit → Act σ β} :
    Together (update f >>= x) (update g >>= y) s t R ↔
      Together (x ()) (y ()) (f s) (g t) R := Iff.rfl

theorem together_update {f g : σ → σ} {R : Unit → σ → Unit → σ → Prop} :
    Together (update f) (update g) s t R ↔ R () (f s) () (g t) :=
  together_pure (s := f s) (t := g t)

/-- A choice made in step. -/
theorem Together.ite {p q : Prop} [Decidable p] [Decidable q] {x' : Act σ α} {y' : Act σ β}
    (hpq : p ↔ q) (hthen : p → q → Together x y s t R) (helse : ¬ p → ¬ q → Together x' y' s t R) :
    Together (if p then x else x') (if q then y else y') s t R := by
  by_cases hp : p
  · rw [if_pos hp, if_pos (hpq.mp hp)]
    exact hthen hp (hpq.mp hp)
  · have hq : ¬ q := fun hq => hp (hpq.mpr hq)
    rw [if_neg hp, if_neg hq]
    exact helse hp hq

theorem Together.when {p q : Prop} [Decidable p] [Decidable q] {x y : Act σ Unit}
    {R : Unit → σ → Unit → σ → Prop} (hpq : p ↔ q) (hthen : p → q → Together x y s t R)
    (helse : ¬ p → ¬ q → R () s () t) : Together (Act.when p x) (Act.when q y) s t R :=
  Together.ite hpq hthen fun hp hq => together_pure.mpr (helse hp hq)

/-- Two actions on a part of the state. -/
theorem Together.lift {τ : Type} {get : τ → σ} {set : σ → τ → τ} {s t : τ}
    {R' : α → τ → β → τ → Prop} (h : Together x y (get s) (get t) R)
    (hset : ∀ a s' b t', R a s' b t' → R' a (set s' s) b (set t' t)) :
    Together (Act.lift get set x) (Act.lift get set y) s t R' := by
  unfold Together Act.lift
  rcases h with ⟨hx, hy⟩ | ⟨a, s', b, t', hx, hy, hR⟩
  · rw [hx, hy]
    exact .inl ⟨rfl, rfl⟩
  · rw [hx, hy]
    exact .inr ⟨a, _, b, _, rfl, rfl, hset a s' b t' hR⟩

/-- The same list of actions, done in step, keeps a relation that each of them keeps. -/
theorem Together.forEach {f g : ι → Act σ Unit} {S : σ → σ → Prop} {is : List ι}
    (hstep : ∀ i ∈ is, ∀ s t, S s t → Together (f i) (g i) s t fun _ s' _ t' => S s' t')
    (h : S s t) : Together (forEach f is) (forEach g is) s t fun _ s' _ t' => S s' t' := by
  induction is generalizing s t with
  | nil => exact together_pure.mpr h
  | cons i is ih =>
    refine (hstep i List.mem_cons_self s t h).bind ?_
    intro _ s' _ t' h'
    exact ih (fun j hj => hstep j (List.mem_cons_of_mem i hj)) h'

end Act

import TestMac.Lib.Together

/-!
# Actions that do not see a part of the state

A change of the state forgets a part of it. An action that neither reads nor writes this part
does the same before the change as after it. Two runs of such an action, from states that are
the same but for the part, are in step.
-/

namespace Act

variable {σ α β : Type}

/-- From a state, the action and the change may be done in either order. -/
def Commutes (f : σ → σ) (x : Act σ α) (s : σ) : Prop := x (f s) = (x s).map fun r => (r.1, f r.2)

variable {f : σ → σ} {s t : σ}

namespace Commutes

theorem pure (a : α) : Commutes f (Pure.pure a) s := rfl

theorem read {g : σ → α} (h : g (f s) = g s) : Commutes f (Act.read g) s := by
  simp [Commutes, Act.read, h]

theorem update {g : σ → σ} (h : g (f s) = f (g s)) : Commutes f (Act.update g) s := by
  simp [Commutes, Act.update, h]

theorem assert (p : Prop) [Decidable p] : Commutes f (Act.assert p) s := by
  by_cases hp : p <;> simp [Commutes, Act.assert, hp]

theorem bind {x : Act σ α} {k : α → Act σ β} (hx : Commutes f x s)
    (hk : ∀ a s', x s = some (a, s') → Commutes f (k a) s') : Commutes f (x >>= k) s := by
  unfold Commutes at hx ⊢
  simp only [Bind.bind, hx]
  match hs : x s with
  | none => rfl
  | some (a, s') => exact hk a s' hs

/-- What is read decides how the action goes on. -/
theorem read_bind {g : σ → α} {k : α → Act σ β} (h : k (g (f s)) (f s) = k (g s) (f s))
    (hk : Commutes f (k (g s)) s) : Commutes f (Act.read g >>= k) s :=
  h.trans hk

theorem ite {p : Prop} [Decidable p] {x y : Act σ α} (hx : p → Commutes f x s)
    (hy : ¬ p → Commutes f y s) : Commutes f (if p then x else y) s := by
  split_ifs with hp
  · exact hx hp
  · exact hy hp

theorem when {p : Prop} [Decidable p] {x : Act σ Unit} (hx : p → Commutes f x s) :
    Commutes f (Act.when p x) s :=
  ite hx fun _ => pure ()

/-- An action that goes through under a condition, with one result. -/
theorem of_finishes {x : Act σ α} {p q : Prop} {a b : α} {s' t' : σ}
    (hx : ∀ Q, Finishes x s Q ↔ p ∧ Q a s') (hf : ∀ Q, Finishes x (f s) Q ↔ q ∧ Q b t')
    (hpq : p ↔ q) (h : p → a = b ∧ f s' = t') : Commutes f x s := by
  rcases Together.of_finishes (R := fun a s' b t' => a = b ∧ f s' = t') hx hf hpq fun hp _ => h hp
    with ⟨hs, ht⟩ | ⟨a₀, s₀, b₀, t₀, hs, ht, rfl, rfl⟩
  · rw [Commutes, hs, ht]
    rfl
  · rw [Commutes, hs, ht]
    rfl

/-- Two runs, from states that are the same but for what is forgotten. -/
theorem together {x : Act σ α} (hs : Commutes f x s) (ht : Commutes f x t) (h : f s = f t) :
    Together x x s t fun a s' b t' => a = b ∧ f s' = f t' := by
  unfold Commutes at hs ht
  rw [h, ht] at hs
  cases hxs : x s with
  | none =>
    rw [hxs, Option.map_none, Option.map_eq_none_iff] at hs
    exact .inl ⟨hxs, hs⟩
  | some r =>
    rw [hxs, Option.map_some, Option.map_eq_some_iff] at hs
    obtain ⟨r', hxt, heq⟩ := hs
    obtain ⟨ha, hf⟩ := Prod.mk.inj heq
    exact .inr ⟨r.1, r.2, r'.1, r'.2, hxs, hxt, ha.symm, hf.symm⟩

end Commutes

end Act

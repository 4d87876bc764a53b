import TestMac.Lib.Together

/-!
# Actions on independent channels

A state is seen through one view for every channel. An action is owned by a channel from
some states on when what it does to the view of this channel depends on this view alone,
and when it leaves the views of all others. A run of actions, each from such a state, does
to every channel what the actions of this channel alone do, whatever else stands in the
state.
-/

namespace Act

variable {σ ι V ε α : Type} {view : ι → σ → V} {i : ι} {G H : σ → Prop}

/-- From the states that satisfy `G`, the action concerns one channel only. -/
structure Owned (view : ι → σ → V) (i : ι) (G : σ → Prop) (x : Act σ Unit) : Prop where
  own : ∀ {s t}, G s → view i s = view i t →
    Together x x s t fun _ s' _ t' => view i s' = view i t'
  others : ∀ {s s'}, G s → x s = some ((), s') → ∀ j, j ≠ i → view j s' = view j s

/-- Every action of a list is done from a state that satisfies its condition. -/
def Meets (step : ε → Act σ Unit) (G : ε → σ → Prop) : List ε → σ → Prop
  | [], _ => True
  | e :: es, s => G e s ∧ ∀ s', step e s = some ((), s') → Meets step G es s'

/-- A computed run tells whether its actions meet their conditions. -/
instance decidableMeets (step : ε → Act σ Unit) (G : ε → σ → Prop) [∀ e s, Decidable (G e s)] :
    ∀ es s, Decidable (Meets step G es s)
  | [], _ => .isTrue trivial
  | e :: es, s =>
    have : Decidable (∀ s', step e s = some ((), s') → Meets step G es s') :=
      match _hstep : step e s with
      | none => .isTrue fun _ hs' => absurd hs' (Option.some_ne_none _).symm
      | some ((), s₁) =>
        have := decidableMeets step G es s₁
        decidable_of_iff (Meets step G es s₁)
          ⟨fun h _ hs' => (Prod.mk.inj (Option.some.inj hs')).2 ▸ h, fun h => h s₁ rfl⟩
    inferInstanceAs (Decidable (_ ∧ _))

theorem forEach_cons_eq {step : ε → Act σ Unit} {e : ε} {es : List ε} {s s' : σ} :
    forEach step (e :: es) s = some ((), s') ↔
      ∃ t, step e s = some ((), t) ∧ forEach step es t = some ((), s') := by
  simp only [forEach, Bind.bind]
  match step e s with
  | none => simp
  | some ((), t) => simp

namespace Owned

/-- An action that is owned from more states. -/
theorem mono {x : Act σ Unit} (hx : Owned view i G x) (h : ∀ s, H s → G s) :
    Owned view i H x where
  own hs := hx.own (h _ hs)
  others hs := hx.others (h _ hs)

theorem pure : Owned view i G (Pure.pure ()) where
  own _ hview := together_pure.mpr hview
  others := by
    intro s s' _ hs j _
    obtain ⟨-, rfl⟩ := Prod.mk.inj (Option.some.inj hs)
    rfl

theorem update {f : σ → σ} (hown : ∀ {s t}, view i s = view i t → view i (f s) = view i (f t))
    (hothers : ∀ s j, j ≠ i → view j (f s) = view j s) : Owned view i G (update f) where
  own _ hview := together_update.mpr (hown hview)
  others := by
    intro s s' _ hs j hj
    obtain ⟨-, rfl⟩ := Prod.mk.inj (Option.some.inj hs)
    exact hothers s j hj

/-- A failed assertion that does not depend on the state. -/
theorem assert (p : Prop) [Decidable p] : Owned view i G (Act.assert p) := by
  by_cases hp : p
  · have hpure : (Act.assert p : Act σ Unit) = Pure.pure () := by
      funext s
      exact if_pos hp
    rw [hpure]
    exact pure
  · have hnone : ∀ s : σ, Act.assert p s = none := fun _ => if_neg hp
    exact ⟨fun _ _ => .inl ⟨hnone _, hnone _⟩, fun _ hs => by simp [hnone] at hs⟩

theorem bind {x y : Act σ Unit} (hx : Owned view i G x) (hy : Owned view i H y)
    (hnext : ∀ s s', G s → x s = some ((), s') → H s') :
    Owned view i G (x >>= fun _ => y) where
  own := by
    intro s t hs hview
    refine ((hx.own hs hview).ensures fun _ s' => hnext s s' hs).bind ?_
    rintro _ s' _ t' ⟨hs', hview'⟩
    exact hy.own hs' hview'
  others := by
    intro s s'' hs hrun j hj
    simp only [Bind.bind] at hrun
    match hxs : x s with
    | none => simp [hxs] at hrun
    | some ((), s') =>
      rw [hxs] at hrun
      rw [hy.others (hnext s s' hs hxs) hrun j hj, hx.others hs hxs j hj]

theorem forEach {step : ε → Act σ Unit} {G : ε → σ → Prop} {es : List ε}
    (h : ∀ e ∈ es, Owned view i (G e) (step e)) :
    Owned view i (Meets step G es) (Act.forEach step es) := by
  induction es with
  | nil => exact pure
  | cons e es ih =>
    have hstep := (h e List.mem_cons_self).mono fun s (hs : Meets step G (e :: es) s) => hs.1
    exact hstep.bind (ih fun e' he' => h e' (List.mem_cons_of_mem e he')) fun s s' hs => hs.2 s'

end Owned

section Runs

variable [DecidableEq ι] {step : ε → Act σ Unit} {chan : ε → ι} {G : ε → σ → Prop} {s t s' : σ}
  {es : List ε}

/-- A run whose actions meet their conditions shows to every channel what the actions of this
channel alone show. -/
theorem forEach_filter (howned : ∀ e, Owned view (chan e) (G e) (step e))
    (hmeets : Meets step G es s) (hview : view i s = view i t)
    (hrun : forEach step es s = some ((), s')) :
    ∃ t', forEach step (es.filter (chan · = i)) t = some ((), t') ∧ view i s' = view i t' := by
  induction es generalizing s t with
  | nil =>
    obtain ⟨-, rfl⟩ := Prod.mk.inj (Option.some.inj hrun)
    exact ⟨t, rfl, hview⟩
  | cons e es ih =>
    obtain ⟨s₁, hstep, hrest⟩ := forEach_cons_eq.mp hrun
    obtain ⟨he, hmeets⟩ := hmeets
    by_cases hchan : chan e = i
    · obtain ⟨⟨⟩, t₁, hstep', hview₁⟩ :=
        ((hchan ▸ howned e : Owned view i (G e) (step e)).own he hview).finishes hstep
      obtain ⟨t', hrest', hview'⟩ := ih (hmeets s₁ hstep) hview₁ hrest
      rw [List.filter_cons_of_pos (by simpa using hchan)]
      exact ⟨t', forEach_cons_eq.mpr ⟨t₁, hstep', hrest'⟩, hview'⟩
    · rw [List.filter_cons_of_neg (by simpa using hchan)]
      refine ih (hmeets s₁ hstep) ?_ hrest
      rw [(howned e).others he hstep i (Ne.symm hchan), hview]

/-- A run whose actions meet their conditions finishes when the actions of every channel alone
do, each from a state that looks the same to its channel. -/
theorem forEach_finishes (howned : ∀ e, Owned view (chan e) (G e) (step e))
    (hmeets : Meets step G es s) (ts : ι → σ) (hview : ∀ i, view i s = view i (ts i))
    (halone : ∀ i, ∃ t, forEach step (es.filter (chan · = i)) (ts i) = some ((), t)) :
    ∃ s', forEach step es s = some ((), s') := by
  induction es generalizing s ts with
  | nil => exact ⟨s, rfl⟩
  | cons e es ih =>
    obtain ⟨he, hmeets⟩ := hmeets
    obtain ⟨t, ht⟩ := halone (chan e)
    rw [List.filter_cons_of_pos (by simp)] at ht
    obtain ⟨t₁, hstep, hown⟩ := forEach_cons_eq.mp ht
    obtain ⟨⟨⟩, s₁, hstep', hview₁⟩ := ((howned e).own he (hview (chan e))).symm.finishes hstep
    -- the other channels do not see the step, so their own actions go on as before
    suffices hrest : ∃ s', forEach step es s₁ = some ((), s') by
      obtain ⟨s', hs'⟩ := hrest
      exact ⟨s', forEach_cons_eq.mpr ⟨s₁, hstep', hs'⟩⟩
    apply ih (hmeets s₁ hstep') (Function.update ts (chan e) t₁)
    · intro i
      by_cases hchan : i = chan e
      · rw [hchan, Function.update_self, hview₁]
      · rw [Function.update_of_ne hchan, (howned e).others he hstep' i hchan, hview]
    · intro i
      by_cases hchan : i = chan e
      · rw [hchan, Function.update_self]
        exact ⟨t, hown⟩
      · obtain ⟨u, hu⟩ := halone i
        rw [List.filter_cons_of_neg (by simpa using Ne.symm hchan)] at hu
        rw [Function.update_of_ne hchan]
        exact ⟨u, hu⟩

end Runs

end Act

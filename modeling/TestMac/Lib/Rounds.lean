import TestMac.Lib.Decoder

/-!
# Loops of decoders as a number of rounds

A loop whose bound fits its 16-bit counter is that many rounds of its body, one after the
other. A loop whose bound does not fit never ends. Whether a decoder without loops comes to
an end is read off its parts.
-/

namespace Decoder

variable {E σ α β : Type}

/-- A number of rounds of a loop, from a value of the counter on. -/
def rounds (body : ℕ → σ → Decoder E σ) : ℕ → ℕ → σ → Decoder E σ
  | 0, _, s => pure s
  | k + 1, i, s => body i s >>= fun s' => rounds body k (i + 1) s'

variable {body body' : ℕ → σ → Decoder E σ} {m : Bytes.Mem} {n fuel : ℕ}

theorem bind_apply (x : Decoder E α) (f : α → Decoder E β) (m : Bytes.Mem) :
    (x >>= f) m = match x m with
      | (es, .ok a) => (es ++ (f a m).1, (f a m).2)
      | (es, .assertFailed) => (es, .assertFailed)
      | (es, .running) => (es, .running) := rfl

/-- What follows a read is compared for the number that is read. -/
theorem read_bind_congr {len addr : ℕ} {f g : ℕ → Decoder E β}
    (h : f (Bytes.leValue (Bytes.slice m addr len)) m =
      g (Bytes.leValue (Bytes.slice m addr len)) m) :
    (read len addr >>= f) m = (read len addr >>= g) m := by
  simp only [bind_apply, read, h]

/-- The first of two parts does the same. -/
theorem bind_congr_left {x y : Decoder E α} (f : α → Decoder E β) (h : x m = y m) :
    (x >>= f) m = (y >>= f) m := by
  rw [bind_apply, bind_apply, h]

/-- The second of two parts does the same, whatever the first one returns. -/
theorem bind_congr_right (x : Decoder E α) {f g : α → Decoder E β} (h : ∀ a, f a m = g a m) :
    (x >>= f) m = (x >>= g) m := by
  simp only [bind_apply, h]

/-- A loop whose bound fits its counter makes as many rounds as the bound says. -/
theorem loop16_eq_rounds (hn : n < 65536) (hfuel : n < fuel) (s : σ) :
    loop16 n body fuel 0 s = rounds body n 0 s := by
  have hfrom : ∀ k i s fuel, k + i = n → k < fuel →
      loop16 n body fuel i s = rounds body k i s := by
    intro k
    induction k with
    | zero =>
      intro i s fuel hi hfuel
      obtain ⟨fuel, rfl⟩ := Nat.exists_eq_add_of_lt hfuel
      rw [loop16, if_neg (by omega), rounds]
    | succ k ih =>
      intro i s fuel hi hfuel
      obtain ⟨fuel, rfl⟩ := Nat.exists_eq_add_of_lt hfuel
      rw [loop16_step (by omega) hn, rounds]
      congr 1
      funext s'
      exact ih (i + 1) s' _ (by omega) (by omega)
  exact hfrom n 0 s fuel (Nat.add_zero n) hfuel

/-- Rounds that do the same on a memory, as long as the states satisfy an invariant of the
rounds left. -/
theorem rounds_congr (Inv : ℕ → σ → Prop)
    (hbody : ∀ k i s, Inv (k + 1) s → body i s m = body' i s m ∧
      ∀ s', (body' i s m).2 = .ok s' → Inv k s') {k i : ℕ} {s : σ} (hs : Inv k s) :
    rounds body k i s m = rounds body' k i s m := by
  induction k generalizing i s with
  | zero => rfl
  | succ k ih =>
    obtain ⟨hsame, hnext⟩ := hbody k i s hs
    rw [rounds, rounds, bind_apply, bind_apply, hsame]
    cases hout : body' i s m with
    | mk es res =>
      cases res with
      | ok s' =>
        rw [hout] at hnext
        dsimp only
        rw [ih (hnext s' rfl)]
      | assertFailed => rfl
      | running => rfl

/-- A loop whose bound does not fit its counter runs on for ever when its rounds return. -/
theorem loop16_running (hn : 65536 ≤ n) (hbody : ∀ i s, ∃ s', (body i s m).2 = .ok s')
    (fuel : ℕ) {i : ℕ} (hi : i < 65536) (s : σ) : (loop16 n body fuel i s m).2 = .running := by
  induction fuel generalizing i s with
  | zero => rfl
  | succ fuel ih =>
    obtain ⟨s', hs'⟩ := hbody i s
    rw [loop16, if_pos (by omega), result_bind, hs']
    exact ih (Nat.mod_lt _ (by omega)) s'

/-- The decoder comes to an end, with a result or at an assertion. -/
def Ends (m : Bytes.Mem) (x : Decoder E α) : Prop := (x m).2 ≠ .running

/-- The decoder comes to an end with a result. -/
def Completes (m : Bytes.Mem) (x : Decoder E α) : Prop := ∃ a, (x m).2 = .ok a

theorem Completes.pure (a : α) : Completes m (pure a : Decoder E α) := ⟨a, rfl⟩

theorem Completes.read (len addr : ℕ) : Completes m (read len addr : Decoder E ℕ) := ⟨_, rfl⟩

theorem Completes.call (e : E) : Completes m (call e) := ⟨(), rfl⟩

theorem Completes.bind {x : Decoder E α} {f : α → Decoder E β} (hx : Completes m x)
    (hf : ∀ a, Completes m (f a)) : Completes m (x >>= f) := by
  obtain ⟨a, ha⟩ := hx
  obtain ⟨b, hb⟩ := hf a
  refine ⟨b, ?_⟩
  rw [result_bind, ha]
  exact hb

theorem Completes.ite {p : Prop} [Decidable p] {x y : Decoder E α} (hx : Completes m x)
    (hy : Completes m y) : Completes m (if p then x else y) := by
  split
  · exact hx
  · exact hy

theorem Completes.rounds (hbody : ∀ i s, Completes m (body i s)) (k i : ℕ) (s : σ) :
    Completes m (Decoder.rounds body k i s) := by
  induction k generalizing i s with
  | zero => exact .pure s
  | succ k ih => exact (hbody i s).bind fun s' => ih (i + 1) s'

theorem Completes.ends {x : Decoder E α} (h : Completes m x) : Ends m x := by
  obtain ⟨a, ha⟩ := h
  simp [Ends, ha]

theorem Completes.congr {x y : Decoder E α} (hy : Completes m y) (h : x m = y m) :
    Completes m x := by
  unfold Completes
  rw [h]
  exact hy

theorem Ends.congr {x y : Decoder E α} (hy : Ends m y) (h : x m = y m) : Ends m x := by
  unfold Ends
  rw [h]
  exact hy

theorem Ends.assert (p : Prop) [Decidable p] : Ends m (assert p : Decoder E Unit) := by
  unfold Ends
  rw [result_assert]
  split <;> simp

theorem Ends.bind {x : Decoder E α} {f : α → Decoder E β} (hx : Ends m x)
    (hf : ∀ a, Ends m (f a)) : Ends m (x >>= f) := by
  unfold Ends at *
  rw [result_bind]
  cases hout : (x m).2 with
  | ok a => exact hf a
  | assertFailed => simp
  | running => exact absurd hout hx

theorem Ends.closed : Closed fun {α : Type} (x : Decoder E α) => Ends m x where
  pure a := (Completes.pure a).ends
  read len addr := (Completes.read len addr).ends
  assert := Ends.assert
  bind := Ends.bind

theorem Ends.rounds (hbody : ∀ i s, Ends m (body i s)) (k i : ℕ) (s : σ) :
    Ends m (Decoder.rounds body k i s) := by
  induction k generalizing i s with
  | zero => exact (Completes.pure s).ends
  | succ k ih => exact (hbody i s).bind fun s' => ih (i + 1) s'

end Decoder

import Mathlib.Tactic.Common

/-!
# A ring of entries between two indices

The entries from one position on, taken around a ring, are the items that wait. When the
ring is not full, an item can be put behind them, and the indices tell how many there are.
When it is full the two indices are equal, as they are when nothing waits.
-/

namespace IndexRing

variable {α : Type} {N n : ℕ} {item : ℕ → α} {x : α} {xs : List α}

/-- The entries from position `n` on, around a ring of `N`, are the items. -/
def Holds (N : ℕ) (item : ℕ → α) (n : ℕ) (xs : List α) : Prop :=
  ∀ k (h : k < xs.length), item ((n + k) % N) = xs[k]

theorem holds_nil : Holds N item n ([] : List α) := fun _ h => absurd h (Nat.not_lt_zero _)

/-- Two positions less than a round apart are different. -/
theorem index_ne {k l : ℕ} (hkl : k < l) (hl : l < N) : (n + k) % N ≠ (n + l) % N := by
  intro h
  have hzero : (n + l - (n + k)) % N = 0 := Nat.sub_mod_eq_zero_of_mod_eq h.symm
  rw [Nat.mod_eq_of_lt (by omega)] at hzero
  omega

/-- An item is put behind the others, into an entry that holds none of them. -/
theorem Holds.push (h : Holds N item n xs) (hroom : xs.length < N) (x : α) :
    Holds N (Function.update item ((n + xs.length) % N) x) n (xs ++ [x]) := by
  intro k hk
  rw [List.length_append, List.length_singleton] at hk
  by_cases hlast : k = xs.length
  · subst hlast
    simp
  · have hlt : k < xs.length := by omega
    rw [Function.update_of_ne (index_ne hlt hroom), List.getElem_append_left hlt]
    exact h k hlt

/-- The first item is the entry at the position. -/
theorem Holds.head (h : Holds N item n (x :: xs)) : item (n % N) = x :=
  h 0 (by simp)

theorem Holds.tail (h : Holds N item n (x :: xs)) : Holds N item (n + 1) xs := by
  intro k hk
  have hnext := h (k + 1) (by simpa using hk)
  rw [show n + 1 + k = n + (k + 1) by omega]
  simpa using hnext

/-- The indices tell how many items wait while the ring is not full. -/
theorem count_eq {len : ℕ} (h : len < N) : ((n + len) % N + N - n % N) % N = len := by
  have hpos : 0 < N := by omega
  have hn := Nat.mod_lt n hpos
  have hsum : (n + len) % N = (n % N + len) % N := by simp
  rw [hsum]
  by_cases hwrap : n % N + len < N
  · rw [Nat.mod_eq_of_lt hwrap, show n % N + len + N - n % N = len + N by omega,
      Nat.add_mod_right, Nat.mod_eq_of_lt h]
  · have hwrapped : (n % N + len) % N = n % N + len - N := by
      rw [Nat.mod_eq_sub_mod (by omega), Nat.mod_eq_of_lt (by omega)]
    rw [hwrapped, show n % N + len - N + N - n % N = len by omega, Nat.mod_eq_of_lt h]

end IndexRing

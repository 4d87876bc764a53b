import TestMac.Lib.Rounds

/-!
# Records that stand one behind the other

A loop that handles one record in each round and moves on by its size handles every record
at its place.
-/

namespace Bytes

variable {α : Type} {m : Mem} {a : ℕ} {bytes : α → List UInt8}

/-- The records of a list with the addresses they stand at. -/
def placed (bytes : α → List UInt8) : ℕ → List α → List (ℕ × α)
  | _, [] => []
  | a, x :: xs => (a, x) :: placed bytes (a + (bytes x).length) xs

/-- The records alone are those of the list. -/
@[simp]
theorem placed_map_snd (bytes : α → List UInt8) (a : ℕ) (xs : List α) :
    (placed bytes a xs).map Prod.snd = xs := by
  induction xs generalizing a with
  | nil => rfl
  | cons x xs ih => rw [placed, List.map_cons, ih]

/-- What is shown of the records alone does not depend on where they stand. -/
theorem placed_flatMap_snd {β : Type} (bytes : α → List UInt8) (f : α → List β) (a : ℕ)
    (xs : List α) : ((placed bytes a xs).flatMap fun p => f p.2) = xs.flatMap f := by
  conv_rhs => rw [← placed_map_snd bytes a xs, List.flatMap_map]

theorem holds_flatMap_cons {x : α} {xs : List α} :
    Holds m a ((x :: xs).flatMap bytes) ↔
      Holds m a (bytes x) ∧ Holds m (a + (bytes x).length) (xs.flatMap bytes) := by
  rw [List.flatMap_cons, holds_append]

/-- A number of 32 bits is read back. -/
theorem Holds.rd32_eq {x : UInt32} (h : Holds m a (leBytes 4 x.toNat)) : rd32 m a = x.toNat := by
  rw [rd32, h.leValue_eq]
  exact Nat.mod_eq_of_lt x.toNat_lt

/-- A number of 16 bits is read back. -/
theorem Holds.rd16_eq {x : UInt16} (h : Holds m a (leBytes 2 x.toNat)) : rd16 m a = x.toNat := by
  rw [rd16, h.leValue_eq]
  exact Nat.mod_eq_of_lt x.toNat_lt

theorem holds_singleton {b : UInt8} : Holds m a [b] ↔ m a = b := by
  simp [Holds, slice]

/-- A byte is read back. -/
theorem Holds.rd8_eq {b : UInt8} (h : Holds m a [b]) : rd8 m a = b.toNat := by
  have hbyte : slice m a 1 = [b] := h
  rw [rd8, hbyte, leValue, leValue, Nat.mul_zero, Nat.add_zero]

end Bytes

namespace Decoder

open Bytes

variable {E F α : Type} {view : E → Option F} {m : Mem} {base bound : ℕ}
  {bytes : α → List UInt8} {body : ℕ → ℕ → Decoder E ℕ}

/-- A result that is not used any more. -/
theorem Returns.done {β : Type} {x : Decoder E β} {es : List F} {b : β}
    (hx : Returns view m x es b) :
    Returns view m (x >>= fun _ => (Pure.pure () : Decoder E Unit)) es () := by
  rw [← List.append_nil es]
  exact hx.bind (Returns.pure ())

/-- Rounds over the records of a list, each of which shows something of its record and
leaves the offset behind it. -/
theorem Returns.rounds_placed (shown : ℕ → α → List F) {xs : List α} {i off : ℕ}
    (hround : ∀ i off, ∀ x ∈ xs, Holds m (base + off) (bytes x) →
      off + (bytes x).length ≤ bound →
      Returns view m (body i off) (shown (base + off) x) (off + (bytes x).length))
    (h : Holds m (base + off) (xs.flatMap bytes))
    (hbound : off + (xs.flatMap bytes).length ≤ bound) :
    Returns view m (rounds body xs.length i off)
      ((placed bytes (base + off) xs).flatMap fun p => shown p.1 p.2)
      (off + (xs.flatMap bytes).length) := by
  induction xs generalizing i off with
  | nil => exact .pure off
  | cons x xs ih =>
    obtain ⟨hx, hxs⟩ := holds_flatMap_cons.mp h
    rw [List.flatMap_cons, List.length_append] at hbound
    rw [Nat.add_assoc] at hxs
    have hfirst := hround i off x List.mem_cons_self hx (by omega)
    have hrest := ih (fun i off x' hx' => hround i off x' (List.mem_cons_of_mem x hx'))
      (i := i + 1) hxs (by omega)
    rw [List.length_cons, rounds, placed, List.flatMap_cons, List.flatMap_cons, List.length_append,
      ← Nat.add_assoc, Nat.add_assoc base]
    exact hfirst.bind hrest

/-- The same for the loop of the code, whose bound fits its counter. -/
theorem Returns.loop16_placed (shown : ℕ → α → List F) {xs : List α} {fuel off : ℕ}
    (hlt : xs.length < 65536) (hfuel : xs.length < fuel)
    (hround : ∀ i off, ∀ x ∈ xs, Holds m (base + off) (bytes x) →
      off + (bytes x).length ≤ bound →
      Returns view m (body i off) (shown (base + off) x) (off + (bytes x).length))
    (h : Holds m (base + off) (xs.flatMap bytes))
    (hbound : off + (xs.flatMap bytes).length ≤ bound) :
    Returns view m (loop16 xs.length body fuel 0 off)
      ((placed bytes (base + off) xs).flatMap fun p => shown p.1 p.2)
      (off + (xs.flatMap bytes).length) := by
  rw [loop16_eq_rounds hlt hfuel]
  exact Returns.rounds_placed shown hround h hbound

end Decoder

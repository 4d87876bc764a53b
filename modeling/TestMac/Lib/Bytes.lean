import Mathlib.Data.List.Range
import Mathlib.Tactic.Common
import Mathlib.Tactic.Ring

/-!
# Byte-addressed memory

A memory is a function from addresses to cells, most often to bytes. Everything
is read and written through two operations: `slice`, the cells of an interval,
and `store`, which replaces the cells of an interval. Integers are little-endian.
-/

namespace Bytes

/-- A memory, addressed by bytes. -/
abbrev Mem := ℕ → UInt8

/-- The cells of the interval of length `n` that starts at `a`. -/
def slice {C : Type*} (m : ℕ → C) (a n : ℕ) : List C := (List.range n).map fun k => m (a + k)

/-- The memory after copying the cells `l` to address `a`. -/
def store {C : Type*} (m : ℕ → C) (a : ℕ) (l : List C) : ℕ → C := fun i =>
  if a ≤ i then l[i - a]?.getD (m i) else m i

/-- Replacing the cells of a list from an offset. -/
def overwrite {C : Type*} (l : List C) (off : ℕ) (data : List C) : List C :=
  l.take off ++ data ++ l.drop (off + data.length)

/-- The memory after setting `n` bytes from address `a` to zero. -/
def zero (m : Mem) (a n : ℕ) : Mem := store m a (List.replicate n 0)

/-- The `n` little-endian bytes of a number. -/
def leBytes : ℕ → ℕ → List UInt8
  | 0, _ => []
  | n + 1, v => UInt8.ofNat v :: leBytes n (v / 256)

/-- The number that little-endian bytes spell. -/
def leValue : List UInt8 → ℕ
  | [] => 0
  | b :: bs => b.toNat + 256 * leValue bs

/-- The byte at an address, as a number. -/
def rd8 (m : Mem) (a : ℕ) : ℕ := leValue (slice m a 1)

/-- The 16-bit number at an address. -/
def rd16 (m : Mem) (a : ℕ) : ℕ := leValue (slice m a 2)

/-- The 32-bit number at an address. -/
def rd32 (m : Mem) (a : ℕ) : ℕ := leValue (slice m a 4)

/-- The memory after writing a 16-bit number. -/
def wr16 (m : Mem) (a v : ℕ) : Mem := store m a (leBytes 2 v)

/-- The memory after writing a 32-bit number. -/
def wr32 (m : Mem) (a v : ℕ) : Mem := store m a (leBytes 4 v)

section Cells

variable {C : Type*} {m m' : ℕ → C} {a b n k : ℕ} {l : List C}

@[simp] theorem slice_length (m : ℕ → C) (a n : ℕ) : (slice m a n).length = n := by
  simp [slice]

@[simp] theorem slice_zero_length (m : ℕ → C) (a : ℕ) : slice m a 0 = [] := rfl

/-- Two memories have the same cells in an interval exactly when they agree there. -/
theorem slice_eq_iff : slice m a n = slice m' a n ↔ ∀ i, a ≤ i → i < a + n → m i = m' i := by
  simp only [slice, List.map_inj_left, List.mem_range]
  constructor
  · intro h i hai hin
    have hk := h (i - a) (by omega)
    rwa [Nat.add_sub_cancel' hai] at hk
  · intro h k hk
    exact h (a + k) (by omega) (by omega)

/-- Cells outside the interval written are kept. -/
theorem store_of_not_mem {i : ℕ} (h : i < a ∨ a + l.length ≤ i) : store m a l i = m i := by
  unfold store
  split
  · rw [List.getElem?_eq_none (by omega), Option.getD_none]
  · rfl

/-- A cell after a write depends on what it was before only. -/
theorem store_congr {i : ℕ} (h : m i = m' i) : store m a l i = store m' a l i := by
  rw [store, store, h]

/-- The cells of an interval, split at a point. -/
theorem slice_add (m : ℕ → C) (a n k : ℕ) :
    slice m a (n + k) = slice m a n ++ slice m (a + n) k := by
  simp only [slice, List.range_add, List.map_append, List.map_map]
  congr 1
  apply List.map_congr_left
  intro i _
  simp [Nat.add_assoc]

/-- A subinterval of a slice. -/
theorem slice_drop_take (m : ℕ → C) (a n k j : ℕ) (h : k + j ≤ n) :
    ((slice m a n).drop k).take j = slice m (a + k) j := by
  obtain ⟨r, rfl⟩ := Nat.exists_eq_add_of_le h
  rw [slice_add m a (k + j) r, slice_add m a k j]
  simp [List.append_assoc]

/-- The rest of a slice. -/
theorem slice_drop (m : ℕ → C) (a : ℕ) (h : k ≤ n) :
    (slice m a n).drop k = slice m (a + k) (n - k) := by
  obtain ⟨j, rfl⟩ := Nat.exists_eq_add_of_le h
  rw [slice_add, List.drop_left' (slice_length m a k), Nat.add_sub_cancel_left]

/-- The cells just written read back. -/
@[simp] theorem slice_store_self (m : ℕ → C) (a : ℕ) (l : List C) :
    slice (store m a l) a l.length = l := by
  apply List.ext_getElem
  · simp
  · intro i h₁ h₂
    simp [slice, store, h₂]

/-- The cells just written read back, with the length given separately. -/
theorem slice_store_eq (h : l.length = n) : slice (store m a l) a n = l := by
  subst h
  exact slice_store_self m a l

/-- A write leaves a disjoint interval unchanged. -/
theorem slice_store_disjoint (h : b + n ≤ a ∨ a + l.length ≤ b) :
    slice (store m a l) b n = slice m b n := by
  rw [slice_eq_iff]
  intro i hbi hin
  exact store_of_not_mem (by omega)

theorem length_overwrite (h : k + l.length ≤ n) (ln : List C) (hn : ln.length = n) :
    (overwrite ln k l).length = n := by
  simp only [overwrite, List.length_append, List.length_take, List.length_drop]
  omega

/-- A write inside an interval replaces that part of its cells. -/
theorem slice_store_within (h : k + l.length ≤ n) :
    slice (store m (a + k) l) a n = overwrite (slice m a n) k l := by
  obtain ⟨j, rfl⟩ := Nat.exists_eq_add_of_le h
  have hfront : (slice m a k ++ slice m (a + k) l.length).length = k + l.length := by simp
  rw [overwrite, slice_add, slice_add, slice_add m a, slice_add m a k, slice_store_self,
    slice_store_disjoint (.inl le_rfl), slice_store_disjoint (.inr (by omega)),
    List.drop_left' hfront, List.append_assoc (slice m a k) (slice m (a + k) l.length),
    List.take_left' (slice_length m a k)]

end Cells

@[simp] theorem leBytes_length (n v : ℕ) : (leBytes n v).length = n := by
  induction n generalizing v with
  | zero => rfl
  | succ n ih => simp [leBytes, ih]

/-- Little-endian bytes read back as the number, reduced to the width they hold. -/
theorem leValue_leBytes (n v : ℕ) : leValue (leBytes n v) = v % 256 ^ n := by
  induction n generalizing v with
  | zero => simp [leBytes, leValue, Nat.mod_one]
  | succ n ih =>
    have hbyte : (UInt8.ofNat v).toNat = v % 256 := by simp
    rw [leBytes, leValue, ih, hbyte, Nat.pow_succ, Nat.mul_comm (256 ^ n) 256, Nat.mod_mul]

/-- Bytes are those of the number that they spell. -/
theorem leBytes_leValue {l : List UInt8} {n : ℕ} (h : l.length = n) :
    leBytes n (leValue l) = l := by
  induction l generalizing n with
  | nil =>
    subst h
    rfl
  | cons b l ih =>
    subst h
    have hb := b.toNat_lt
    have hdiv : (b.toNat + 256 * leValue l) / 256 = leValue l := by omega
    have hbyte : UInt8.ofNat (b.toNat + 256 * leValue l) = b := by
      rw [← UInt8.toNat_inj, UInt8.toNat_ofNat']
      omega
    rw [leValue, List.length_cons, leBytes, hdiv, hbyte, ih rfl]

/-- Little-endian bytes spell a number of their width. -/
theorem leValue_lt (l : List UInt8) : leValue l < 256 ^ l.length := by
  induction l with
  | nil => simp [leValue]
  | cons b l ih =>
    have hb := b.toNat_lt
    rw [leValue, List.length_cons, Nat.pow_succ]
    omega

theorem rd8_lt (m : Mem) (a : ℕ) : rd8 m a < 256 := by
  simpa [rd8] using leValue_lt (slice m a 1)

theorem rd16_lt (m : Mem) (a : ℕ) : rd16 m a < 65536 := by
  simpa [rd16] using leValue_lt (slice m a 2)

theorem rd32_lt (m : Mem) (a : ℕ) : rd32 m a < 4294967296 := by
  simpa [rd32] using leValue_lt (slice m a 4)

/-- Reading from an interval where two memories agree. -/
theorem rd8_congr {m m' : Mem} {a : ℕ} (h : ∀ i, a ≤ i → i < a + 1 → m i = m' i) :
    rd8 m a = rd8 m' a := by
  rw [rd8, rd8, slice_eq_iff.mpr h]

theorem rd16_congr {m m' : Mem} {a : ℕ} (h : ∀ i, a ≤ i → i < a + 2 → m i = m' i) :
    rd16 m a = rd16 m' a := by
  rw [rd16, rd16, slice_eq_iff.mpr h]

theorem rd32_congr {m m' : Mem} {a : ℕ} (h : ∀ i, a ≤ i → i < a + 4 → m i = m' i) :
    rd32 m a = rd32 m' a := by
  rw [rd32, rd32, slice_eq_iff.mpr h]

theorem rd16_wr16 {m : Mem} {a v : ℕ} (h : v < 65536) : rd16 (wr16 m a v) a = v := by
  rw [rd16, wr16, slice_store_eq (leBytes_length 2 v), leValue_leBytes]
  exact Nat.mod_eq_of_lt h

theorem wr16_of_not_mem {m : Mem} {a v i : ℕ} (h : i < a ∨ a + 2 ≤ i) : wr16 m a v i = m i :=
  store_of_not_mem (by rwa [leBytes_length])

/-- A number away from one that is written. -/
theorem rd16_wr16_of_disjoint {m : Mem} {a b v : ℕ} (h : b + 2 ≤ a ∨ a + 2 ≤ b) :
    rd16 (wr16 m a v) b = rd16 m b :=
  rd16_congr fun _ _ _ => wr16_of_not_mem (by omega)

/-- A 32-bit number just written reads back. -/
theorem rd32_wr32 {m : Mem} {a v : ℕ} (h : v < 4294967296) : rd32 (wr32 m a v) a = v := by
  rw [rd32, wr32, slice_store_eq (leBytes_length 4 v), leValue_leBytes]
  exact Nat.mod_eq_of_lt h

/-- Zeroed bytes read as zeros. -/
theorem slice_zero (m : Mem) (a n : ℕ) : slice (zero m a n) a n = List.replicate n 0 :=
  slice_store_eq (by simp)

/-- The cells `l` stand at the address `a`. -/
def Holds {C : Type*} (m : ℕ → C) (a : ℕ) (l : List C) : Prop := slice m a l.length = l

/-- Cells stand one list after the other exactly when each list stands at its place. -/
theorem holds_append {C : Type*} {m : ℕ → C} {a : ℕ} {l l' : List C} :
    Holds m a (l ++ l') ↔ Holds m a l ∧ Holds m (a + l.length) l' := by
  unfold Holds
  rw [List.length_append, slice_add]
  constructor
  · exact fun h => List.append_inj h (by simp)
  · rintro ⟨h, h'⟩
    rw [h, h']

/-- Cells written behind an interval lengthen it. -/
theorem slice_store_append {C : Type*} (m : ℕ → C) (a n : ℕ) (l l' : List C) :
    slice (store m (a + n) (l ++ l')) a (n + l.length) = slice m a n ++ l := by
  have hholds : Holds (store m (a + n) (l ++ l')) (a + n) (l ++ l') := slice_store_self _ _ _
  rw [slice_add, slice_store_disjoint (.inl le_rfl), (holds_append.mp hholds).1]

theorem Holds.leValue_eq {m : Mem} {a n v : ℕ} (h : Holds m a (leBytes n v)) :
    leValue (slice m a n) = v % 256 ^ n := by
  unfold Holds at h
  rw [leBytes_length] at h
  rw [h, leValue_leBytes]

end Bytes

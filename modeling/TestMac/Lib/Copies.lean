import TestMac.Lib.Bytes

/-!
# Blocks copied one after the other

A serialiser copies blocks of a memory to the end of its output. When every block
starts where the one before ends, the output is a single interval of the memory. A
block that starts elsewhere shows in the first byte it puts out.
-/

namespace Bytes

/-- A block of a memory: its address and its length. -/
structure Block where
  src : ℕ
  len : ℕ
  deriving DecidableEq

namespace Block

variable {C : Type*} {m m' : ℕ → C} {a k n : ℕ} {b : Block} {bs cs : List Block}

/-- What copying the blocks puts out. -/
def copied (m : ℕ → C) (bs : List Block) : List C := bs.flatMap fun b => slice m b.src b.len

/-- The length of what is put out. -/
def total (bs : List Block) : ℕ := (bs.map len).sum

/-- Every block starts where the one before ends, the first one at `a`. -/
def Chained : ℕ → List Block → Prop
  | _, [] => True
  | a, b :: bs => b.src = a ∧ Chained (a + b.len) bs

/-- The elements of an array, copied one by one. -/
def row (src stride count : ℕ) : List Block :=
  (List.range count).map fun i => ⟨src + stride * i, stride⟩

/-- The loop `for (i = 0; i < count; i++)` of a 16-bit counter that copies an element in
every round, for at most as many rounds as allowed. -/
def rowLoop (count stride : ℕ) : ℕ → ℕ → ℕ → Option (List Block)
  | 0, i, _ => if i < count then none else some []
  | rounds + 1, i, src =>
    if i < count then
      match rowLoop count stride rounds ((i + 1) % 65536) (src + stride) with
      | none => none
      | some rest => some (⟨src, stride⟩ :: rest)
    else some []

@[simp] theorem copied_nil (m : ℕ → C) : copied m [] = [] := rfl

@[simp] theorem copied_cons (m : ℕ → C) (b : Block) (bs : List Block) :
    copied m (b :: bs) = slice m b.src b.len ++ copied m bs := rfl

@[simp] theorem copied_append (m : ℕ → C) (bs cs : List Block) :
    copied m (bs ++ cs) = copied m bs ++ copied m cs := List.flatMap_append

@[simp] theorem total_nil : total [] = 0 := rfl

@[simp] theorem total_cons (b : Block) (bs : List Block) : total (b :: bs) = b.len + total bs := by
  simp [total]

@[simp] theorem total_append (bs cs : List Block) : total (bs ++ cs) = total bs + total cs := by
  simp [total]

@[simp] theorem copied_length (m : ℕ → C) (bs : List Block) : (copied m bs).length = total bs := by
  induction bs with
  | nil => rfl
  | cons b bs ih => simp [ih]

@[simp] theorem chained_nil (a : ℕ) : Chained a [] := trivial

@[simp] theorem chained_cons : Chained a (b :: bs) ↔ b.src = a ∧ Chained (a + b.len) bs := Iff.rfl

theorem chained_append : Chained a (bs ++ cs) ↔ Chained a bs ∧ Chained (a + total bs) cs := by
  induction bs generalizing a with
  | nil => simp
  | cons b bs ih => simp [ih, and_assoc, Nat.add_assoc]

/-- Chained blocks put out an interval. -/
theorem Chained.copied_eq (h : Chained a bs) (m : ℕ → C) : copied m bs = slice m a (total bs) := by
  induction bs generalizing a with
  | nil => rfl
  | cons b bs ih =>
    obtain ⟨hsrc, hbs⟩ := h
    rw [copied_cons, ih hbs, total_cons, slice_add, hsrc]

theorem row_succ (src stride count : ℕ) :
    row src stride (count + 1) = row src stride count ++ [⟨src + stride * count, stride⟩] := by
  simp [row, List.range_succ]

@[simp] theorem total_row (src stride count : ℕ) :
    total (row src stride count) = stride * count := by
  induction count with
  | zero => rfl
  | succ count ih =>
    rw [row_succ, total_append, ih, total_cons, total_nil]
    ring

/-- The elements of an array are chained. -/
theorem chained_row (src stride count : ℕ) : Chained src (row src stride count) := by
  induction count with
  | zero => trivial
  | succ count ih =>
    rw [row_succ, chained_append]
    refine ⟨ih, ?_, trivial⟩
    rw [total_row]

theorem row_cons (src stride count : ℕ) :
    row src stride (count + 1) = ⟨src, stride⟩ :: row (src + stride) stride count := by
  simp only [row, List.range_succ_eq_map, List.map_cons, List.map_map]
  congr 1
  apply List.map_congr_left
  intro i _
  simp only [Function.comp_apply, Nat.succ_eq_add_one, Block.mk.injEq, and_true]
  ring

/-- A loop whose bound fits its counter copies the elements one by one and ends. -/
theorem rowLoop_eq_row {src stride count rounds : ℕ} (hcount : count < 65536)
    (hrounds : count ≤ rounds) :
    rowLoop count stride rounds 0 src = some (row src stride count) := by
  have hfrom : ∀ rounds i src, i ≤ count → count ≤ rounds + i →
      rowLoop count stride rounds i src = some (row src stride (count - i)) := by
    intro rounds
    induction rounds with
    | zero =>
      intro i src _ _
      rw [rowLoop, if_neg (by omega), show count - i = 0 by omega]
      rfl
    | succ rounds ih =>
      intro i src hi hle
      rw [rowLoop]
      by_cases hlt : i < count
      · rw [if_pos hlt, Nat.mod_eq_of_lt (by omega), ih _ _ (by omega) (by omega),
          show count - i = count - (i + 1) + 1 by omega, row_cons]
      · rw [if_neg hlt, show count - i = 0 by omega]
        rfl
  exact hfrom rounds 0 src (Nat.zero_le _) (by omega)

theorem slice_getElem? (m : ℕ → C) (a : ℕ) (h : k < n) : (slice m a n)[k]? = some (m (a + k)) := by
  simp [slice, h]

/-- The first byte of a block, in what is put out. -/
theorem copied_getElem? (m : ℕ → C) (bs cs : List Block) (hb : 0 < b.len) :
    (copied m (bs ++ b :: cs))[total bs]? = some (m b.src) := by
  rw [copied_append, List.getElem?_append_right (by simp), copied_length, Nat.sub_self,
    copied_cons, List.getElem?_append_left (by simpa using hb), slice_getElem? m _ hb, Nat.add_zero]

/-- A byte that is put out of its place spoils an interval. -/
theorem copied_ne_slice (hk : k < b.len) (h : m (b.src + k) ≠ m (a + (total bs + k))) :
    copied m (bs ++ b :: cs) ≠ slice m a n := by
  intro hcopied
  have hlength := congrArg List.length hcopied
  rw [copied_length, slice_length, total_append, total_cons] at hlength
  have hbyte := congrArg (fun out => out[total bs + k]?) hcopied
  rw [copied_append, List.getElem?_append_right (by simp), copied_length, Nat.add_sub_cancel_left,
    copied_cons, List.getElem?_append_left (by simpa using hk), slice_getElem? m _ hk,
    slice_getElem? m _ (by omega)] at hbyte
  exact h (Option.some.inj hbyte)

/-- Two addresses can be told apart, if necessary by a change of the byte at one of them. -/
theorem exists_ne_at {src dst : ℕ} (h : src ≠ dst) (m : Mem) :
    ∃ m' : Mem, (∀ i, i ≠ dst → m' i = m i) ∧ m' src ≠ m' dst := by
  by_cases hdiff : m src = m dst
  · refine ⟨fun i => if i = dst then m i + 1 else m i, fun i hi => if_neg hi, ?_⟩
    simp [h, hdiff]
  · exact ⟨m, fun _ _ => rfl, hdiff⟩

end Block

end Bytes

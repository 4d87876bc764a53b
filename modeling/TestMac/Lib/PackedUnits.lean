import TestMac.Lib.Copies

/-!
# Units packed one after the other

A message consists of units of various shapes, each with a header of four bytes whose
last two are the size of the unit. A serialiser walks over the units, copies blocks of
each to its output and sets the size. It is right when it puts out the units as they are
packed, with their sizes set. Whether it is right for all messages of given shapes
depends on each shape alone: a shape that is serialised wrongly in one memory spoils a
message, whatever stands around the unit.
-/

namespace Bytes

open Block

/-- Units of some shapes: the length of a unit, and when a memory holds one at an address.
The two bytes of the size do not matter. -/
structure Format (S : Type) where
  len : S → ℕ
  At : Mem → ℕ → S → Prop
  four_le : ∀ s, 4 ≤ len s
  congr : ∀ {m m' : Mem} {a : ℕ} {s : S},
    (∀ i, a ≤ i → i < a + len s → i ≠ a + 2 → i ≠ a + 3 → m i = m' i) → At m a s → At m' a s

/-- The serialiser of a list of units, by the blocks that it copies of one unit. It gives
the memory with the sizes set, and what is put out. -/
def serialise (unit : Mem → ℕ → Option (List Block)) : ℕ → ℕ → Mem → Option (Mem × List UInt8)
  | 0, _, m => some (m, [])
  | n + 1, a, m =>
    match unit m a with
    | none => none
    | some blocks =>
      let m₁ := wr16 m (a + 2) (4 + Block.total blocks)
      match serialise unit n (a + 4 + Block.total blocks) m₁ with
      | none => none
      | some (m₂, out) => some (m₂, slice m₁ a 4 ++ copied m blocks ++ out)

/-- The blocks that the serialiser copies of all units, their headers apart. -/
def copiedBlocks (unit : Mem → ℕ → Option (List Block)) : ℕ → ℕ → Mem → Option (List Block)
  | 0, _, _ => some []
  | n + 1, a, m =>
    match unit m a with
    | none => none
    | some blocks =>
      (copiedBlocks unit n (a + 4 + Block.total blocks)
        (wr16 m (a + 2) (4 + Block.total blocks))).map (blocks ++ ·)

section CopiedBlocks

variable {unit : Mem → ℕ → Option (List Block)} {n a : ℕ} {m : Mem} {all : List Block}

/-- The serialiser comes to an end exactly when it copies some blocks. -/
theorem isSome_serialise : (serialise unit n a m).isSome = (copiedBlocks unit n a m).isSome := by
  induction n generalizing a m with
  | zero => rfl
  | succ n ih =>
    rw [serialise, copiedBlocks]
    cases unit m a with
    | none => rfl
    | some blocks =>
      dsimp only
      rw [Option.isSome_map, ← ih]
      cases serialise unit n (a + 4 + Block.total blocks)
        (wr16 m (a + 2) (4 + Block.total blocks)) with
      | none => rfl
      | some r => rfl

/-- The blocks copied of the first unit, and those of the others. -/
theorem copiedBlocks_succ (h : copiedBlocks unit (n + 1) a m = some all) :
    ∃ blocks rest, unit m a = some blocks ∧ copiedBlocks unit n (a + 4 + Block.total blocks)
      (wr16 m (a + 2) (4 + Block.total blocks)) = some rest ∧ all = blocks ++ rest := by
  rw [copiedBlocks] at h
  cases hunit : unit m a with
  | none => simp [hunit] at h
  | some blocks =>
    rw [hunit, Option.map_eq_some_iff] at h
    obtain ⟨rest, hrest, rfl⟩ := h
    exact ⟨blocks, rest, rfl, hrest, rfl⟩

end CopiedBlocks

namespace Format

variable {S : Type} (L : Format S)

/-- The memory holds units of these shapes, the first one at an address. -/
def AllAt (m : Mem) : ℕ → List S → Prop
  | _, [] => True
  | a, s :: ss => L.At m a s ∧ AllAt m (a + L.len s) ss

def total (ss : List S) : ℕ := (ss.map L.len).sum

/-- The memory with the sizes of the units set. -/
def sized : Mem → ℕ → List S → Mem
  | m, _, [] => m
  | m, a, s :: ss => sized (wr16 m (a + 2) (L.len s)) (a + L.len s) ss

/-- What is put out starts with the units and what follows them, up to a length. -/
def StartsRight (unit : Mem → ℕ → Option (List Block)) (m : Mem) (a : ℕ) (ss : List S) (n : ℕ) :
    Prop :=
  ∃ m' out post, serialise unit ss.length a m = some (m', out) ∧
    out ++ post = slice (L.sized m a ss) a (L.total ss + n)

/-- The blocks copied of a unit are the unit as it is packed. -/
def CopiedWhole (a : ℕ) (s : S) (blocks : List Block) : Prop :=
  Chained (a + 4) blocks ∧ 4 + Block.total blocks = L.len s

/-- The blocks copied of a unit give another size, or another byte. -/
def CopiedWrong (m : Mem) (a : ℕ) (s : S) (blocks : List Block) : Prop :=
  (4 + Block.total blocks) % 65536 = L.len s % 65536 →
    ∃ k, 4 + k < L.len s ∧ ∃ b, (copied m blocks)[k]? = some b ∧ b ≠ m (a + 4 + k)

variable {L} {m m' : Mem} {a n : ℕ} {s : S} {ss : List S} {blocks : List Block}
  {unit : Mem → ℕ → Option (List Block)}

@[simp] theorem total_nil : L.total [] = 0 := rfl

@[simp] theorem total_cons : L.total (s :: ss) = L.len s + L.total ss := by
  simp [total]

theorem sized_of_lt {i : ℕ} (h : i < a) : L.sized m a ss i = m i := by
  induction ss generalizing m a with
  | nil => rfl
  | cons s ss ih =>
    have hlen := L.four_le s
    rw [sized, ih (by omega)]
    exact store_of_not_mem (.inl (by omega))

theorem sized_of_ge {i : ℕ} (h : a + L.total ss ≤ i) : L.sized m a ss i = m i := by
  induction ss generalizing m a with
  | nil => rfl
  | cons s ss ih =>
    have hlen := L.four_le s
    have hw : (leBytes 2 (L.len s)).length = 2 := leBytes_length 2 _
    rw [total_cons] at h
    rw [sized, ih (by omega)]
    exact store_of_not_mem (.inr (by omega))

theorem allAt_congr (h : ∀ i, a ≤ i → i < a + L.total ss → m i = m' i) (hm : L.AllAt m a ss) :
    L.AllAt m' a ss := by
  induction ss generalizing a with
  | nil => trivial
  | cons s ss ih =>
    rw [total_cons] at h
    obtain ⟨hs, hss⟩ := hm
    refine ⟨L.congr ?_ hs, ih ?_ hss⟩
    · intro i hai hil _ _
      exact h i hai (by omega)
    · intro i hai hil
      exact h i (by omega) (by omega)

/-- Setting the size of the first unit leaves the others in place. -/
theorem allAt_tail_wr16 {v : ℕ} (hss : L.AllAt m (a + L.len s) ss) :
    L.AllAt (wr16 m (a + 2) v) (a + L.len s) ss := by
  have hlen := L.four_le s
  refine allAt_congr ?_ hss
  intro i hai _
  have hw : (leBytes 2 v).length = 2 := leBytes_length 2 v
  exact (store_of_not_mem (.inr (by omega))).symm

/-- Units one behind the other, in two parts. -/
theorem allAt_append {ss' : List S} :
    L.AllAt m a (ss ++ ss') ↔ L.AllAt m a ss ∧ L.AllAt m (a + L.total ss) ss' := by
  induction ss generalizing a with
  | nil => simp [AllAt]
  | cons s ss ih => simp [AllAt, ih, and_assoc, Nat.add_assoc]

/-- Every one of the units stands somewhere. -/
theorem exists_at_of_mem (hm : L.AllAt m a ss) (hs : s ∈ ss) : ∃ a', L.At m a' s := by
  obtain ⟨front, rest, rfl⟩ := List.append_of_mem hs
  obtain ⟨-, hat, -⟩ := allAt_append.mp hm
  exact ⟨_, hat⟩

/-- Units that can be stored can be stored one behind the other, in front of others. -/
theorem exists_allAt_append {ss' : List S}
    (hss : ∀ s ∈ ss, ∀ (m : Mem) (a : ℕ), ∃ m', L.At m' a s ∧
      ∀ i, ¬ (a ≤ i ∧ i < a + L.len s) → m' i = m i)
    (hm : L.AllAt m (a + L.total ss) ss') :
    ∃ m', L.AllAt m' a (ss ++ ss') ∧ ∀ i, ¬ (a ≤ i ∧ i < a + L.total ss) → m' i = m i := by
  induction ss generalizing a with
  | nil => exact ⟨m, hm, fun _ _ => rfl⟩
  | cons s ss ih =>
    rw [total_cons, ← Nat.add_assoc] at hm
    obtain ⟨m₁, hm₁, hsame₁⟩ := ih (fun s' hs' => hss s' (List.mem_cons_of_mem s hs')) hm
    obtain ⟨m₂, hm₂, hsame₂⟩ := hss s List.mem_cons_self m₁ a
    refine ⟨m₂, ⟨hm₂, allAt_congr (fun i hi _ => (hsame₂ i (by omega)).symm) hm₁⟩, ?_⟩
    intro i hi
    rw [total_cons] at hi
    rw [hsame₂ i (by omega), hsame₁ i (by omega)]

/-- Units with their sizes set are units of the same shapes. -/
theorem allAt_sized (hm : L.AllAt m a ss) : L.AllAt (L.sized m a ss) a ss := by
  induction ss generalizing m a with
  | nil => trivial
  | cons s ss ih =>
    obtain ⟨hs, hss⟩ := hm
    refine ⟨L.congr ?_ hs, ih (allAt_tail_wr16 hss)⟩
    intro i _ hi h₂ h₃
    have hw : (leBytes 2 (L.len s)).length = 2 := leBytes_length 2 _
    rw [sized, sized_of_lt hi, wr16, store_of_not_mem (by omega)]

/-- The first unit, with its size set, in what is expected. -/
theorem slice_sized_cons :
    slice (L.sized m a (s :: ss)) a (L.total (s :: ss) + n) =
      slice (wr16 m (a + 2) (L.len s)) a (L.len s) ++
        slice (L.sized (wr16 m (a + 2) (L.len s)) (a + L.len s) ss) (a + L.len s)
          (L.total ss + n) := by
  rw [total_cons, Nat.add_assoc, slice_add]
  congr 1
  rw [slice_eq_iff]
  intro i _ hi
  exact sized_of_lt hi

/-- What the serialiser does for a unit that is copied whole. -/
theorem serialise_cons (hunit : unit m a = some blocks) (hwhole : L.CopiedWhole a s blocks) :
    serialise unit (n + 1) a m =
      (serialise unit n (a + L.len s) (wr16 m (a + 2) (L.len s))).map fun r =>
        (r.1, slice (wr16 m (a + 2) (L.len s)) a (L.len s) ++ r.2) := by
  obtain ⟨hchained, htotal⟩ := hwhole
  have hsplit : slice (wr16 m (a + 2) (L.len s)) a (L.len s) =
      slice (wr16 m (a + 2) (L.len s)) a 4 ++ copied m blocks := by
    have hw : (leBytes 2 (L.len s)).length = 2 := leBytes_length 2 _
    rw [hchained.copied_eq, ← slice_store_disjoint (m := m) (a := a + 2) (l := leBytes 2 (L.len s))
      (.inr (by omega)), ← wr16, ← slice_add, htotal]
  have hnext : a + 4 + Block.total blocks = a + L.len s := by omega
  rw [serialise, hunit, hsplit]
  dsimp only
  rw [htotal, hnext]
  cases serialise unit n (a + L.len s) (wr16 m (a + 2) (L.len s)) with
  | none => rfl
  | some r => rfl

/-- The blocks copied behind a unit that is copied whole. -/
theorem copiedBlocks_cons (hunit : unit m a = some blocks) (hwhole : L.CopiedWhole a s blocks) :
    copiedBlocks unit (n + 1) a m =
      (copiedBlocks unit n (a + L.len s) (wr16 m (a + 2) (L.len s))).map (blocks ++ ·) := by
  have hnext : a + 4 + Block.total blocks = a + L.len s := by
    have htotal := hwhole.2
    omega
  rw [copiedBlocks, hunit]
  dsimp only
  rw [hwhole.2, hnext]

/-- Units that are all copied whole are put out as they are packed. -/
theorem serialise_eq {good : S → Prop}
    (hunit : ∀ {m : Mem} {a : ℕ} {s : S}, L.At m a s → good s →
      ∃ blocks, unit m a = some blocks ∧ L.CopiedWhole a s blocks)
    (hm : L.AllAt m a ss) (hgood : ∀ s ∈ ss, good s) :
    serialise unit ss.length a m =
      some (L.sized m a ss, slice (L.sized m a ss) a (L.total ss)) := by
  induction ss generalizing m a with
  | nil => rfl
  | cons s ss ih =>
    obtain ⟨hs, hss⟩ := hm
    obtain ⟨blocks, hblocks, hwhole⟩ := hunit hs (hgood s (List.mem_cons_self ..))
    have htail := ih (m := wr16 m (a + 2) (L.len s)) (allAt_tail_wr16 hss)
      fun s' hs' => hgood s' (List.mem_cons_of_mem s hs')
    rw [List.length_cons, serialise_cons hblocks hwhole, htail]
    have hslice := @slice_sized_cons S L m a 0 s ss
    rw [Nat.add_zero, Nat.add_zero] at hslice
    rw [hslice]
    rfl

/-- Behind a unit that is copied whole, the output goes on as for the units that follow. -/
theorem StartsRight.tail (h : L.StartsRight unit m a (s :: ss) n)
    (hwhole : ∀ blocks, unit m a = some blocks → L.CopiedWhole a s blocks) :
    L.StartsRight unit (wr16 m (a + 2) (L.len s)) (a + L.len s) ss n := by
  obtain ⟨m', out, post, hrun, hout⟩ := h
  match hblocks : unit m a with
  | none => simp [serialise, hblocks] at hrun
  | some blocks =>
    rw [List.length_cons, serialise_cons hblocks (hwhole blocks hblocks),
      Option.map_eq_some_iff] at hrun
    obtain ⟨r, hrun, heq⟩ := hrun
    obtain ⟨hm', hr⟩ := Prod.mk.inj heq
    refine ⟨r.1, r.2, post, hrun, ?_⟩
    rw [slice_sized_cons, ← hr, List.append_assoc] at hout
    exact List.append_cancel_left hout

/-- A unit that is copied wrongly is not put out as it is packed. -/
theorem not_startsRight (hwrong : ∀ blocks, unit m a = some blocks → L.CopiedWrong m a s blocks) :
    ¬ L.StartsRight unit m a (s :: ss) n := by
  rintro ⟨m', out, post, hrun, hout⟩
  match hblocks : unit m a with
  | none => simp [serialise, hblocks] at hrun
  | some blocks =>
    have hlen := L.four_le s
    rw [List.length_cons, serialise, hblocks] at hrun
    dsimp only at hrun
    match hrest : serialise unit ss.length (a + 4 + Block.total blocks)
        (wr16 m (a + 2) (4 + Block.total blocks)) with
    | none => simp [hrest] at hrun
    | some (m₂, out₂) =>
      rw [hrest] at hrun
      obtain ⟨-, rfl⟩ := Prod.mk.inj (Option.some.inj hrun)
      obtain ⟨r, hr⟩ := Nat.exists_eq_add_of_le hlen
      rw [slice_sized_cons, hr, slice_add _ a 4 r, List.append_assoc, List.append_assoc,
        List.append_assoc] at hout
      obtain ⟨hheader, hbody⟩ := List.append_inj hout (by simp)
      have hsize : (4 + Block.total blocks) % 65536 = L.len s % 65536 := by
        have hbytes := congrArg (fun l => leValue (List.drop 2 l)) hheader
        simpa [slice_drop, wr16, slice_store_eq (leBytes_length 2 _), leValue_leBytes,
          hr] using hbytes
      obtain ⟨k, hk, b, hb, hne⟩ := hwrong blocks hblocks hsize
      have hkout : k < (copied m blocks).length := by
        rw [List.getElem?_eq_some_iff] at hb
        exact hb.1
      apply hne
      have hbyte := congrArg (fun l => l[k]?) hbody
      rw [List.getElem?_append_left hkout, hb, List.getElem?_append_left (by simp; omega),
        slice_getElem? _ _ (by omega)] at hbyte
      have hw : (leBytes 2 (4 + r)).length = 2 := leBytes_length 2 _
      rw [Option.some.inj hbyte]
      exact store_of_not_mem (.inr (by omega))

/-- A shape that is copied wrongly in some memory spoils every message it occurs in: the
bytes of one unit can be changed so that the message is not put out as it is packed,
whatever the serialiser is given besides. -/
theorem exists_not_startsRight {F : Type} {units : F → Mem → ℕ → Option (List Block)}
    {good : S → Prop}
    (hgood : ∀ {f : F} {m : Mem} {a : ℕ} {s : S} {blocks : List Block}, L.At m a s → good s →
      units f m a = some blocks → L.CopiedWhole a s blocks)
    (hbad : ∀ {m : Mem} {a : ℕ} {s : S}, L.At m a s → ¬ good s → ∃ m' : Mem, L.At m' a s ∧
      (∀ i, ¬ (a + 4 ≤ i ∧ i < a + L.len s) → m' i = m i) ∧
      ∀ f blocks, units f m' a = some blocks → L.CopiedWrong m' a s blocks)
    (hm : L.AllAt m a ss) (hss : ∃ s ∈ ss, ¬ good s) :
    ∃ m' : Mem, L.AllAt m' a ss ∧ (∀ i, ¬ (a ≤ i ∧ i < a + L.total ss) → m' i = m i) ∧
      ∀ f, ¬ L.StartsRight (units f) m' a ss n := by
  induction ss generalizing m a with
  | nil => simp at hss
  | cons s ss ih =>
    have hlen := L.four_le s
    obtain ⟨hs, hall⟩ := hm
    by_cases hsgood : good s
    · have htail : ∃ s ∈ ss, ¬ good s := by
        obtain ⟨s', hs', hbads'⟩ := hss
        rcases List.mem_cons.mp hs' with rfl | hs'
        · exact absurd hsgood hbads'
        · exact ⟨s', hs', hbads'⟩
      obtain ⟨m₁, hm₁, hsame, hnot⟩ := ih (m := wr16 m (a + 2) (L.len s))
        (allAt_tail_wr16 hall) htail
      -- the memory before the size of the first unit is set
      let m' : Mem := fun i => if i < a + L.len s then m i else m₁ i
      have hw : (leBytes 2 (L.len s)).length = 2 := leBytes_length 2 _
      have hbefore : ∀ i, i < a + L.len s → m' i = m i := fun i hi => if_pos hi
      have hbehind : ∀ i, a + L.len s ≤ i → m' i = m₁ i := fun i hi => if_neg (by omega)
      have hset : wr16 m' (a + 2) (L.len s) = m₁ := by
        funext i
        by_cases hi : i < a + L.len s
        · rw [hsame i (by omega), wr16, wr16, store_congr (hbefore i hi)]
        · rw [wr16, store_of_not_mem (.inr (by omega)), hbehind i (by omega)]
      refine ⟨m', ⟨L.congr ?_ hs, allAt_congr ?_ hm₁⟩, ?_, ?_⟩
      · intro i _ hi _ _
        exact (hbefore i hi).symm
      · intro i hi _
        exact (hbehind i hi).symm
      · intro i hi
        rw [total_cons] at hi
        by_cases hlt : i < a + L.len s
        · exact hbefore i hlt
        · rw [hbehind i (by omega), hsame i (by omega), wr16, store_of_not_mem (.inr (by omega))]
      · intro f hstarts
        have hs' : L.At m' a s := by
          refine L.congr ?_ hs
          intro i _ hi _ _
          exact (hbefore i hi).symm
        have hrest := hstarts.tail fun blocks hblocks => hgood hs' hsgood hblocks
        rw [hset] at hrest
        exact hnot f hrest
    · obtain ⟨m', hm', hsame, hwrong⟩ := hbad hs hsgood
      refine ⟨m', ⟨hm', allAt_congr ?_ hall⟩, ?_, ?_⟩
      · intro i hai _
        exact (hsame i (by omega)).symm
      · intro i hi
        rw [total_cons] at hi
        exact hsame i (by omega)
      · intro f
        exact not_startsRight (hwrong f)

/-- A block that is not where it would be packed shows in its first byte, in the memory at
hand or after a change of the byte that stands in its place. -/
theorem exists_copiedWrong {F : Type} {units : F → Mem → ℕ → Option (List Block)} {p : List Block}
    {b : Block} (hlen : 0 < b.len)
    (hsrc : b.src ≠ a + 4 + Block.total p) (hin : 4 + Block.total p < L.len s)
    (hunits : ∀ m' : Mem, (∀ i, i ≠ a + 4 + Block.total p → m' i = m i) → L.At m' a s ∧
      ∀ f blocks, units f m' a = some blocks → ∃ post, blocks = p ++ b :: post) :
    ∃ m' : Mem, L.At m' a s ∧ (∀ i, ¬ (a + 4 ≤ i ∧ i < a + L.len s) → m' i = m i) ∧
      ∀ f blocks, units f m' a = some blocks → L.CopiedWrong m' a s blocks := by
  obtain ⟨m', hsame, hne⟩ := exists_ne_at hsrc m
  obtain ⟨hm', hblocks'⟩ := hunits m' hsame
  refine ⟨m', hm', ?_, ?_⟩
  · intro i hi
    exact hsame i (by omega)
  · intro f blocks hblocks _
    obtain ⟨post, rfl⟩ := hblocks' f blocks hblocks
    exact ⟨Block.total p, hin, m' b.src, copied_getElem? m' p post hlen, hne⟩

end Format

end Bytes

import TestMac.Lib.PackedUnits
import TestMac.Mac.Transmit

/-!
# Serialising the requests of a slot: what `DlttiParams` and `UlttiParams` share

Both set the SFN and the slot of a request, walk over its PDUs, and copy its groups. They
differ in the PDUs. The offset they return is the number of bytes they have written, and
is taken not to pass 2³².
-/

namespace TestMac

open Bytes Block

/-- The loop over the groups, of which the first stands at an offset. -/
def groupBlocks (tti : Mem) : ℕ → ℕ → List Block
  | 0, _ => []
  | nGroup + 1, offset =>
    let nUe := rd8 tti offset
    ⟨offset, 4⟩ :: row (offset + 4) 4 nUe ++ groupBlocks tti nGroup (offset + 4 + 4 * nUe)

/-- `DlttiParams` and `UlttiParams`, by the blocks copied of a PDU. -/
def ttiParams (pdu : Mem → ℕ → Option (List Block)) (sfn slot : ℕ) (tti : Mem) :
    Option (Mem × List UInt8) :=
  let tti := stamp tti 0 sfn slot
  match serialise pdu (rd16 tti 4) 20 tti with
  | none => none
  | some (sized, out) =>
    let groups := groupBlocks sized (rd8 sized 7) (20 + out.length)
    some (sized, slice tti 0 20 ++ out ++ copied sized groups)

/-- A clock with all its registers at zero. -/
def zeroClock : SlotClock := ⟨0, ⟨0, 0⟩, ⟨0, 0⟩, ⟨0, 0⟩, 0, 0, 0, 0⟩

/-- The shape of a request: the shapes of its PDUs, and the numbers of UEs of its groups. -/
structure TtiShape (S : Type) where
  pdus : List S
  groups : List ℕ

/-- The memory holds groups with these numbers of UEs. -/
def GroupsAt (m : Mem) : ℕ → List ℕ → Prop
  | _, [] => True
  | a, nUe :: groups => rd8 m a = nUe ∧ GroupsAt m (a + 4 + 4 * nUe) groups

def groupsLen (groups : List ℕ) : ℕ := (groups.map fun nUe => 4 + 4 * nUe).sum

namespace TtiShape

variable {S : Type} (L : Format S) (r : TtiShape S)

/-- The memory holds a packed request of the shape. -/
structure At (m : Mem) : Prop where
  nPDUs : rd16 m 4 = r.pdus.length
  nGroup : rd8 m 7 = r.groups.length
  pdus : L.AllAt m 20 r.pdus
  groups : GroupsAt m (20 + L.total r.pdus) r.groups

/-- The packed length of a request. -/
def len : ℕ := 20 + L.total r.pdus + groupsLen r.groups

/-- The request with its SFN and slot and the sizes of its PDUs set. -/
def completed (sfn slot : ℕ) (m : Mem) : Mem := L.sized (stamp m 0 sfn slot) 20 r.pdus

/-- A serialiser returns the packed length and writes the request as it is packed, with
its SFN, its slot and the sizes of its PDUs set. -/
def Serialised (pdu : Mem → ℕ → Option (List Block)) (sfn slot : ℕ) (m : Mem) : Prop :=
  ttiParams pdu sfn slot m =
    some (r.completed L sfn slot m, slice (r.completed L sfn slot m) 0 (r.len L))

end TtiShape

variable {S : Type} {L : Format S} {r : TtiShape S} {m m' : Mem} {sfn slot a : ℕ}
  {groups : List ℕ}

theorem groupsAt_congr (h : ∀ i, a ≤ i → m i = m' i) (hm : GroupsAt m a groups) :
    GroupsAt m' a groups := by
  induction groups generalizing a with
  | nil => trivial
  | cons nUe groups ih =>
    obtain ⟨hnUe, hgroups⟩ := hm
    refine ⟨?_, ih (fun i hi => h i (by omega)) hgroups⟩
    rw [← hnUe, rd8, rd8, slice_eq_iff.mpr fun i hi _ => (h i hi).symm]

/-- The groups are copied as they are packed, whatever they are. -/
theorem chained_groupBlocks (hm : GroupsAt m a groups) :
    Chained a (groupBlocks m groups.length a) ∧
      Block.total (groupBlocks m groups.length a) = groupsLen groups := by
  induction groups generalizing a with
  | nil => exact ⟨trivial, rfl⟩
  | cons nUe groups ih =>
    obtain ⟨hnUe, hgroups⟩ := hm
    obtain ⟨hchained, htotal⟩ := ih hgroups
    rw [List.length_cons, groupBlocks, hnUe]
    constructor
    · rw [List.cons_append, chained_cons, chained_append, total_row]
      exact ⟨rfl, chained_row _ _ _, hchained⟩
    · simp only [List.cons_append, Block.total_cons, total_append, total_row, htotal, groupsLen,
        List.map_cons, List.sum_cons]
      omega

/-- What a request holds does not depend on its SFN and its slot. -/
theorem TtiShape.At.congr (h : r.At L m) (hsame : ∀ i, 4 ≤ i → m i = m' i) : r.At L m' where
  nPDUs := by rw [← h.nPDUs, rd16_congr fun i hi _ => (hsame i (by omega)).symm]
  nGroup := by rw [← h.nGroup, rd8, rd8, slice_eq_iff.mpr fun i hi _ => (hsame i (by omega)).symm]
  pdus := Format.allAt_congr (fun i hi _ => hsame i (by omega)) h.pdus
  groups := groupsAt_congr (fun i hi => hsame i (by omega)) h.groups

theorem TtiShape.At.stamp (h : r.At L m) (sfn slot : ℕ) : r.At L (stamp m 0 sfn slot) :=
  h.congr fun _ hi => (stamp_of_not_mem (.inr hi)).symm

/-- A request that has the SFN and the slot already is not changed by setting them. -/
theorem stamp_eq_self (h : ∀ i < 4, m i = TestMac.stamp m' 0 sfn slot i) :
    TestMac.stamp m 0 sfn slot = m := by
  funext i
  by_cases hi : i < 4
  · rw [h i hi]
    have hslice : slice (TestMac.stamp m 0 sfn slot) 0 4 =
        slice (TestMac.stamp m' 0 sfn slot) 0 4 := by
      rw [slice_stamp, slice_stamp]
    exact slice_eq_iff.mp hslice i (by omega) (by omega)
  · exact stamp_of_not_mem (.inr (by omega))

/-- Setting the sizes of its PDUs leaves a request of the same shape. -/
theorem TtiShape.At.completed (h : r.At L m) (sfn slot : ℕ) :
    r.At L (r.completed L sfn slot m) := by
  have hat := h.stamp sfn slot
  have hhead : ∀ i < 20, r.completed L sfn slot m i = TestMac.stamp m 0 sfn slot i :=
    fun i hi => Format.sized_of_lt hi
  have hbehind : ∀ i, 20 + L.total r.pdus ≤ i →
      r.completed L sfn slot m i = TestMac.stamp m 0 sfn slot i := fun i hi => Format.sized_of_ge hi
  constructor
  · rw [← hat.nPDUs]
    exact rd16_congr fun i _ hi => hhead i (by omega)
  · rw [← hat.nGroup, rd8, rd8, slice_eq_iff.mpr fun i _ hi => hhead i (by omega)]
  · exact Format.allAt_sized hat.pdus
  · exact groupsAt_congr (fun i hi => (hbehind i hi).symm) hat.groups

namespace TtiShape

variable {F : Type} {pdu : F → Mem → ℕ → Option (List Block)} {good : S → Prop}

/-- A request whose PDUs are all copied whole is serialised as it is packed. -/
theorem serialised {pdu : Mem → ℕ → Option (List Block)}
    (hpdu : ∀ {m : Mem} {a : ℕ} {s : S}, L.At m a s → good s →
      ∃ blocks, pdu m a = some blocks ∧ L.CopiedWhole a s blocks)
    (hm : r.At L m) (hgood : ∀ s ∈ r.pdus, good s) : r.Serialised L pdu sfn slot m := by
  have hat := hm.stamp sfn slot
  have hcompleted := hm.completed sfn slot
  obtain ⟨hchained, htotal⟩ := chained_groupBlocks hcompleted.groups
  rw [Serialised, ttiParams]
  dsimp only
  rw [hat.nPDUs, Format.serialise_eq hpdu hat.pdus hgood]
  dsimp only
  have hhead : slice (TestMac.stamp m 0 sfn slot) 0 20 = slice (r.completed L sfn slot m) 0 20 := by
    rw [slice_eq_iff]
    intro i _ hi
    exact (Format.sized_of_lt (by omega)).symm
  rw [← completed, slice_length, hcompleted.nGroup, hchained.copied_eq, htotal, hhead,
    ← slice_add _ 0 20, len, slice_add _ 0 (20 + L.total r.pdus), Nat.zero_add]

/-- With a PDU that is copied wrongly, a request of the same shape is serialised wrongly. -/
theorem exists_not_serialised
    (hgood : ∀ {f : F} {m : Mem} {a : ℕ} {s : S} {blocks : List Block}, L.At m a s → good s →
      pdu f m a = some blocks → L.CopiedWhole a s blocks)
    (hbad : ∀ {m : Mem} {a : ℕ} {s : S}, L.At m a s → ¬ good s → ∃ m' : Mem, L.At m' a s ∧
      (∀ i, ¬ (a + 4 ≤ i ∧ i < a + L.len s) → m' i = m i) ∧
      ∀ f blocks, pdu f m' a = some blocks → L.CopiedWrong m' a s blocks)
    (hm : r.At L m) (hss : ∃ s ∈ r.pdus, ¬ good s) :
    ∃ m', r.At L m' ∧ ∀ f, ¬ r.Serialised L (pdu f) sfn slot m' := by
  have hat := hm.stamp sfn slot
  obtain ⟨m', hm', hsame, hnot⟩ := Format.exists_not_startsRight
    (n := groupsLen r.groups) hgood hbad hat.pdus hss
  have hhead : ∀ i < 20, m' i = TestMac.stamp m 0 sfn slot i := fun i hi => hsame i (by omega)
  have hbehind : ∀ i, 20 + L.total r.pdus ≤ i → m' i = TestMac.stamp m 0 sfn slot i :=
    fun i hi => hsame i (by omega)
  have hstamp : TestMac.stamp m' 0 sfn slot = m' :=
    stamp_eq_self fun i hi => hhead i (by omega)
  have hat' : r.At L m' := by
    constructor
    · rw [← hat.nPDUs]
      exact rd16_congr fun i _ hi => hhead i (by omega)
    · rw [← hat.nGroup, rd8, rd8, slice_eq_iff.mpr fun i _ hi => hhead i (by omega)]
    · exact hm'
    · exact groupsAt_congr (fun i hi => (hbehind i hi).symm) hat.groups
  refine ⟨m', hat', ?_⟩
  intro f hserialised
  rw [Serialised, ttiParams, hstamp] at hserialised
  dsimp only at hserialised
  rw [hat'.nPDUs] at hserialised
  cases hrun : serialise (pdu f) r.pdus.length 20 m' with
  | none => simp [hrun] at hserialised
  | some packed =>
    obtain ⟨sized, out⟩ := packed
    rw [hrun] at hserialised
    obtain ⟨-, hout⟩ := Prod.mk.inj (Option.some.inj hserialised)
    apply hnot f
    rw [completed, hstamp, len, Nat.add_assoc, slice_add _ 0 20, List.append_assoc] at hout
    exact ⟨sized, out, _, hrun, (List.append_inj hout (by simp)).2⟩

/-- All requests of a shape are serialised as they are packed exactly when all their PDUs
are of shapes that are copied whole. -/
theorem serialised_iff (pdu : F → Mem → ℕ → Option (List Block)) (sfn slot : ℕ)
    (hfinish : ∃ f : F, ∀ {m : Mem} {a : ℕ} {s : S}, L.At m a s → good s →
      ∃ blocks, pdu f m a = some blocks)
    (hgood : ∀ {f : F} {m : Mem} {a : ℕ} {s : S} {blocks : List Block}, L.At m a s → good s →
      pdu f m a = some blocks → L.CopiedWhole a s blocks)
    (hbad : ∀ {m : Mem} {a : ℕ} {s : S}, L.At m a s → ¬ good s → ∃ m' : Mem, L.At m' a s ∧
      (∀ i, ¬ (a + 4 ≤ i ∧ i < a + L.len s) → m' i = m i) ∧
      ∀ f blocks, pdu f m' a = some blocks → L.CopiedWrong m' a s blocks)
    (hm : r.At L m) :
    (∀ m', r.At L m' → ∃ f, r.Serialised L (pdu f) sfn slot m') ↔ ∀ s ∈ r.pdus, good s := by
  constructor
  · intro hall
    by_contra hsome
    push Not at hsome
    obtain ⟨m', hm', hnot⟩ := exists_not_serialised hgood hbad hm hsome
    obtain ⟨f, hf⟩ := hall m' hm'
    exact hnot f hf
  · intro hpdus m' hm'
    obtain ⟨f, hf⟩ := hfinish
    refine ⟨f, serialised ?_ hm' hpdus⟩
    intro m a s hs hsgood
    obtain ⟨blocks, hblocks⟩ := hf hs hsgood
    exact ⟨blocks, hblocks, hgood hs hsgood hblocks⟩

end TtiShape

end TestMac

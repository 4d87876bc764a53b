import TestMac.Rx.UeTable

/-!
# Which UEs have an entry of their own

The entries of the table are used as intended exactly when the RNTIs in force lie in the
lower 256 values of their residues modulo 4096, and no two UEs are reported under the
same residue.
-/

namespace TestMac

open Bytes

/-- How many of the accesses to an entry that were made for a UE reported `crc`. -/
def countOf (xs : List UeAccess) (index : ℕ) (ue : Ue) (crc : ℕ) : ℕ :=
  xs.countP fun x => x.index = index ∧ x.ue = ue ∧ x.crc = crc

/-- Every access lies inside the table, no two UEs share an entry, and the entry used for
a UE counts what was reported of this UE alone. -/
structure UeTableSound (rs : List UciReceived) : Prop where
  inside : ∀ x ∈ accessesOf rs, x.index < maxUeNumInOneCell
  alone : ∀ x ∈ accessesOf rs, ∀ y ∈ accessesOf rs, x.index = y.index → x.ue = y.ue
  counted : ∀ x ∈ accessesOf rs, tableOf rs x.index =
    ⟨countOf (accessesOf rs) x.index x.ue 0 % 4294967296,
      countOf (accessesOf rs) x.index x.ue 1 % 4294967296⟩

/-- The lower twelve bits of an RNTI. -/
theorem ueIndex_eq (cRnti : ℕ) : ueIndex cRnti = cRnti % 4096 :=
  Nat.and_two_pow_sub_one_eq_mod cRnti 12

/-- Counting a report steps one counter of its entry. -/
theorem count_apply (r : CsiReport) (t : ℕ → MacUeCtxt) (index : ℕ) :
    r.count t index =
      ⟨if ueIndex r.rnti = index ∧ r.crc = 0 then ((t index).numCsiPart1CrcPass + 1) % 4294967296
        else (t index).numCsiPart1CrcPass,
      if ueIndex r.rnti = index ∧ r.crc = 1 then ((t index).numCsiPart1CrcFail + 1) % 4294967296
        else (t index).numCsiPart1CrcFail⟩ := by
  by_cases hindex : ueIndex r.rnti = index
  · subst hindex
    by_cases hpass : r.crc = 0
    · simp [CsiReport.count, hpass, MacUeCtxt.csiPart1Crc]
    · by_cases hfail : r.crc = 1
      · simp [CsiReport.count, hfail, MacUeCtxt.csiPart1Crc]
      · simp [CsiReport.count, hpass, hfail]
  · have hne : index ≠ ueIndex r.rnti := Ne.symm hindex
    have hkeep : r.count t index = t index := by
      unfold CsiReport.count
      split_ifs
      · exact Function.update_of_ne hne _ _
      · exact Function.update_of_ne hne _ _
      · rfl
    rw [hkeep]
    simp [hindex]

/-- After a run every entry holds the numbers of the reports that were made to it. -/
theorem foldl_count (rs : List CsiReport) (t : ℕ → MacUeCtxt) (index : ℕ)
    (hpass : (t index).numCsiPart1CrcPass < 4294967296)
    (hfail : (t index).numCsiPart1CrcFail < 4294967296) :
    rs.foldl CsiReport.count t index =
      ⟨((t index).numCsiPart1CrcPass +
          rs.countP fun r => ueIndex r.rnti = index ∧ r.crc = 0) % 4294967296,
        ((t index).numCsiPart1CrcFail +
          rs.countP fun r => ueIndex r.rnti = index ∧ r.crc = 1) % 4294967296⟩ := by
  induction rs generalizing t with
  | nil =>
    simp only [List.foldl_nil, List.countP_nil, Nat.add_zero, Nat.mod_eq_of_lt hpass,
      Nat.mod_eq_of_lt hfail]
  | cons r rs ih =>
    have hstep := count_apply r t index
    have hpass' : (r.count t index).numCsiPart1CrcPass < 4294967296 := by
      rw [hstep]
      dsimp only
      split_ifs <;> omega
    have hfail' : (r.count t index).numCsiPart1CrcFail < 4294967296 := by
      rw [hstep]
      dsimp only
      split_ifs <;> omega
    rw [List.foldl_cons, ih _ hpass' hfail', hstep, List.countP_cons, List.countP_cons]
    simp only [decide_eq_true_eq, MacUeCtxt.mk.injEq]
    constructor
    · split_ifs <;> omega
    · split_ifs <;> omega

/-- The reports of a run that are counted for an entry. -/
theorem tableOf_apply (rs : List UciReceived) (index : ℕ) : tableOf rs index =
    ⟨((accessesOf rs).countP fun x => x.index = index ∧ x.crc = 0) % 4294967296,
      ((accessesOf rs).countP fun x => x.index = index ∧ x.crc = 1) % 4294967296⟩ := by
  rw [tableOf_eq, foldl_count _ _ _ (by decide) (by decide), accessesOf_eq, List.countP_map,
    List.countP_map, Nat.zero_add, Nat.zero_add]
  rfl

/-- The table is sound exactly when the RNTIs in force at the reports of CSI part 1 are
below 256 modulo 4096, and reports under the same residue come from one UE. -/
theorem ueTable_sound_iff (rs : List UciReceived) : UeTableSound rs ↔
    (∀ r ∈ reportsOf rs, r.rnti % 4096 < 256) ∧
    ∀ r ∈ reportsOf rs, ∀ r' ∈ reportsOf rs, r.rnti % 4096 = r'.rnti % 4096 → r.ue = r'.ue := by
  have hmem : ∀ {P : UeAccess → Prop}, (∀ x ∈ accessesOf rs, P x) ↔
      ∀ r ∈ reportsOf rs, P r.access := by
    intro P
    rw [accessesOf_eq, List.forall_mem_map]
  constructor
  · intro hsound
    constructor
    · intro r hr
      rw [← ueIndex_eq]
      exact hmem.mp hsound.inside r hr
    · intro r hr r' hr' hrnti
      rw [← ueIndex_eq, ← ueIndex_eq] at hrnti
      exact hmem.mp (hmem.mp hsound.alone r hr) r' hr' hrnti
  · rintro ⟨hinside, hsame⟩
    have halone : ∀ x ∈ accessesOf rs, ∀ y ∈ accessesOf rs, x.index = y.index → x.ue = y.ue := by
      refine hmem.mpr fun r hr => hmem.mpr fun r' hr' => ?_
      intro hindex
      apply hsame r hr r' hr'
      rw [← ueIndex_eq, ← ueIndex_eq]
      exact hindex
    refine ⟨?_, halone, ?_⟩
    · refine hmem.mpr fun r hr => ?_
      have hindex : r.access.index = r.rnti % 4096 := ueIndex_eq r.rnti
      rw [hindex]
      exact hinside r hr
    · -- all accesses to the entry were made for the same UE
      intro x hx
      have hcount : ∀ crc, ((accessesOf rs).countP fun y => y.index = x.index ∧ y.crc = crc) =
          countOf (accessesOf rs) x.index x.ue crc := by
        intro crc
        refine List.countP_congr fun y hy => ?_
        simp only [decide_eq_true_eq]
        constructor
        · rintro ⟨hindex, hcrc⟩
          exact ⟨hindex, halone y hy x hx hindex, hcrc⟩
        · rintro ⟨hindex, -, hcrc⟩
          exact ⟨hindex, hcrc⟩
      rw [tableOf_apply, hcount, hcount]

/-- An indication with one PDU on the PUCCH that reports CSI part 1. -/
def oneReport (ch : Channel) (RNTI : ℕ) : UciReceived :=
  ⟨ch, store (fun _ => 0) 1000 ([0, 0, 0, 0, 1, 0, 0, 0, 2, 0, 56, 0, 0, 0, 0, 0] ++
    leBytes 2 RNTI ++ [0, 0, 0, 0, 0, 0, 2, 4]), 1000⟩

/-- The RNTI 4864 leads to entry 768 of a table of 256, and a UE of one cell shares its
entry with the UE of the same RNTI in the other cell. -/
theorem ueTable_outside_and_shared :
    ¬ UeTableSound [oneReport ⟨0, 0⟩ 4864] ∧
    ¬ UeTableSound [oneReport ⟨0, 0⟩ 4097, oneReport ⟨0, 1⟩ 4097] := by
  constructor
  · intro hsound
    have haccess : ⟨⟨⟨0, 0⟩, 4864⟩, 768, 0⟩ ∈ accessesOf [oneReport ⟨0, 0⟩ 4864] := by
      decide +kernel
    have hinside := hsound.inside _ haccess
    revert hinside
    decide
  · intro hsound
    have hfirst : ⟨⟨⟨0, 0⟩, 4097⟩, 1, 0⟩ ∈
        accessesOf [oneReport ⟨0, 0⟩ 4097, oneReport ⟨0, 1⟩ 4097] := by decide +kernel
    have hsecond : ⟨⟨⟨0, 1⟩, 4097⟩, 1, 0⟩ ∈
        accessesOf [oneReport ⟨0, 0⟩ 4097, oneReport ⟨0, 1⟩ 4097] := by decide +kernel
    have hue := hsound.alone _ hfirst _ hsecond rfl
    revert hue
    decide

end TestMac

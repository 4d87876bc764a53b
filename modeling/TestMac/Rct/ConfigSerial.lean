import TestMac.Rct.ConfigReqParams

/-!
# When `ConfigReqParams` serialises a request as it is packed

A list that is not empty moves the member behind it away from its fixed place, so only
precoding matrices, which come last, do no harm.
-/

namespace TestMac

open Bytes Block

variable {m m' : Mem} {a k x : ℕ} {prach maps : List ℕ} {matrices : List (ℕ × ℕ)}
  {r : ConfigShape}

section Totals

theorem total_upToPrach (m : Mem) (a : ℕ) :
    Block.total (upToPrach m a) = 72 + Block.total (prachConfigurations m a) := by
  rw [upToPrach, total_cons]

theorem total_upToMaps (m : Mem) (a : ℕ) :
    Block.total (upToMaps m a) =
      Block.total (upToPrach m a) + 1220 + Block.total (uciMaps m a) := by
  simp only [upToMaps, total_append, total_cons]
  omega

theorem total_upToPatterns (m : Mem) (a : ℕ) :
    Block.total (upToPatterns m a) = Block.total (upToMaps m a) + 4 +
      12 * rd8 m (a + 1293) + 44 * rd8 m (a + 1292) := by
  simp only [upToPatterns, rateMatchPatterns, total_append, total_cons, total_row]
  omega

theorem total_upToBwps (m : Mem) (a : ℕ) :
    Block.total (upToBwps m a) =
      Block.total (upToPatterns m a) + 4 + 4 * rd8 m (a + 1296) := by
  simp only [upToBwps, total_append, total_cons, total_row]
  omega

theorem total_upToBeams (m : Mem) (a : ℕ) :
    Block.total (upToBeams m a) = Block.total (upToBwps m a) + 8 +
      rd16 m (a + 1304) * (4 + 4 * rd16 m (a + 1306)) := by
  simp only [upToBeams, total_append, total_cons, total_nil, total_digBeams]

theorem prachConfigurations_of_eq_zero (h : rd16 m (a + 68) = 0) :
    prachConfigurations m a = [] := by
  rw [prachConfigurations, h]
  rfl

theorem uciMaps_of_eq_zero (h : rd16 m (a + 1288) = 0) : uciMaps m a = [] := by
  rw [uciMaps, h]
  rfl

theorem total_prachConfigurations_pos (h : rd16 m (a + 68) ≠ 0) :
    0 < Block.total (prachConfigurations m a) := by
  obtain ⟨n, hn⟩ := Nat.exists_eq_succ_of_ne_zero h
  rw [prachConfigurations, hn, List.range_succ_eq_map, List.flatMap_cons, total_append, total_cons]
  simp only
  omega

theorem total_uciMaps_pos (h : rd16 m (a + 1288) ≠ 0) : 0 < Block.total (uciMaps m a) := by
  obtain ⟨n, hn⟩ := Nat.exists_eq_succ_of_ne_zero h
  rw [uciMaps, hn, List.range_succ_eq_map, List.flatMap_cons, total_append, total_cons]
  simp only
  omega

end Totals

section Shape

theorem ConfigShape.prach_eq_nil (h : prachLen r.prach = 0) : r.prach = [] := by
  cases hprach : r.prach with
  | nil => rfl
  | cons occasions prach =>
    rw [hprach, prachLen, List.map_cons, List.sum_cons] at h
    omega

theorem ConfigShape.maps_eq_nil (h : mapsLen r.maps = 0) : r.maps = [] := by
  cases hmaps : r.maps with
  | nil => rfl
  | cons params maps =>
    rw [hmaps, mapsLen, List.map_cons, List.sum_cons] at h
    omega

/-- A byte of the first list that is not empty. The member behind the list is copied with
the byte in the same place, as if the list were empty. -/
def ConfigShape.Spoils (r : ConfigShape) (k : ℕ) : Prop :=
  k = 72 ∧ 12 ≤ prachLen r.prach ∨
  k = 1294 ∧ prachLen r.prach = 0 ∧ 6 ≤ mapsLen r.maps ∨
  k = 1298 ∧ r.mapsEnd = 0 ∧ 12 ≤ r.patternsEnd ∨
  k = 1300 ∧ r.patternsEnd = 0 ∧ 4 ≤ r.bwpsEnd ∨
  k = 1310 ∧ r.bwpsEnd = 0 ∧ 4 ≤ r.beamsEnd

/-- A request that is not in place has such a byte. -/
theorem ConfigShape.exists_spoils (hr : ¬ r.InPlace) : ∃ k, r.Spoils k := by
  have hmapsEnd : r.mapsEnd = prachLen r.prach + mapsLen r.maps := rfl
  have hpatternsEnd : r.patternsEnd =
    r.mapsEnd + 12 * r.coresetRmPatterns + 44 * r.prbSymbPatterns := rfl
  have hbwpsEnd : r.bwpsEnd = r.patternsEnd + 4 * r.ulBwpIds := rfl
  unfold Spoils
  cases hprach : r.prach with
  | cons occasions prach =>
    refine ⟨72, .inl ⟨rfl, ?_⟩⟩
    rw [prachLen, List.map_cons, List.sum_cons]
    omega
  | nil =>
    have hprachLen : prachLen r.prach = 0 := by rw [hprach]; rfl
    cases hmaps : r.maps with
    | cons params maps =>
      refine ⟨1294, .inr (.inl ⟨rfl, rfl, ?_⟩)⟩
      rw [mapsLen, List.map_cons, List.sum_cons]
      omega
    | nil =>
      have hmapsLen : mapsLen r.maps = 0 := by rw [hmaps]; rfl
      by_cases hpatterns : r.patternsEnd = 0
      · by_cases hbwps : r.bwpsEnd = 0
        · have hbeams : r.digBeams ≠ 0 := fun hbeams =>
            hr ⟨hprach, hmaps, by omega, by omega, by omega, hbeams⟩
          have hbeamsLen : 1 * 4 ≤ r.digBeams * (4 + 4 * r.basebandPorts) :=
            Nat.mul_le_mul (by omega) (by omega)
          refine ⟨1310, .inr (.inr (.inr (.inr ⟨rfl, hbwps, ?_⟩)))⟩
          unfold beamsEnd
          omega
        · exact ⟨1300, .inr (.inr (.inr (.inl ⟨rfl, hpatterns, by omega⟩)))⟩
      · have hsome : r.coresetRmPatterns ≠ 0 ∨ r.prbSymbPatterns ≠ 0 := by omega
        exact ⟨1298, .inr (.inr (.inl ⟨rfl, by omega, by omega⟩))⟩

theorem prachAt_congr (hsame : ∀ i, i ≠ x → m' i = m i) (hx : x < a + 6) (h : PrachAt m a prach) :
    PrachAt m' a prach := by
  induction prach generalizing a with
  | nil => trivial
  | cons occasions prach ih =>
    obtain ⟨hnum, hprach⟩ := h
    refine ⟨?_, ih (by omega) hprach⟩
    rw [← hnum, rd8_congr fun i _ _ => hsame i (by omega)]

theorem mapsAt_congr (hsame : ∀ i, i ≠ x → m' i = m i) (hxa : x ≠ a) (hx : x < a + 6)
    (h : MapsAt m a maps) : MapsAt m' a maps := by
  induction maps generalizing a with
  | nil => trivial
  | cons params maps ih =>
    obtain ⟨hnum, hmaps⟩ := h
    refine ⟨?_, ih (by omega) (by omega) hmaps⟩
    rw [← hnum, rd8_congr fun i _ _ => hsame i (by omega)]

theorem matricesAt_congr (hsame : ∀ i, i ≠ x → m' i = m i) (hx : x < a)
    (h : MatricesAt m a matrices) : MatricesAt m' a matrices := by
  induction matrices generalizing a with
  | nil => trivial
  | cons matrix matrices ih =>
    obtain ⟨hlayers, hports, hmatrices⟩ := h
    refine ⟨?_, ?_, ih (by omega) hmatrices⟩
    · rw [← hlayers, rd16_congr fun i _ _ => hsame i (by omega)]
    · rw [← hports, rd16_congr fun i _ _ => hsame i (by omega)]

/-- Such a byte is none of the numbers of the shape. -/
theorem ConfigShape.At.congr (hm : r.At m a) (hk : r.Spoils k)
    (hsame : ∀ i, i ≠ a + k → m' i = m i) : r.At m' a := by
  have hmapsEnd : r.mapsEnd = prachLen r.prach + mapsLen r.maps := rfl
  have hpatternsEnd : r.mapsEnd ≤ r.patternsEnd := by
    unfold patternsEnd
    omega
  have hbwpsEnd : r.patternsEnd ≤ r.bwpsEnd := Nat.le_add_right _ _
  have hbeamsEnd : r.bwpsEnd ≤ r.beamsEnd := Nat.le_add_right _ _
  have hrd8 : ∀ y, y ≠ a + k → rd8 m' y = rd8 m y := fun y hy =>
    rd8_congr fun i _ _ => hsame i (by omega)
  have hrd16 : ∀ y, y ≠ a + k → y + 1 ≠ a + k → rd16 m' y = rd16 m y := fun y hy hy' =>
    rd16_congr fun i _ _ => hsame i (by omega)
  unfold Spoils at hk
  constructor
  · exact (hrd16 _ (by omega) (by omega)).trans hm.numPrachConfigurations
  · by_cases hprach : prachLen r.prach = 0
    · rw [r.prach_eq_nil hprach]
      trivial
    · exact prachAt_congr hsame (by omega) hm.prach
  · exact (hrd16 _ (by omega) (by omega)).trans hm.numUci2Maps
  · by_cases hmaps : mapsLen r.maps = 0
    · rw [r.maps_eq_nil hmaps]
      trivial
    · exact mapsAt_congr hsame (by omega) (by omega) hm.maps
  · exact (hrd8 _ (by omega)).trans hm.numberOfPrbSymbRateMatchPatterns
  · exact (hrd8 _ (by omega)).trans hm.numCoresetRmPatterns
  · exact (hrd8 _ (by omega)).trans hm.numUlBwpIds
  · exact (hrd16 _ (by omega) (by omega)).trans hm.numDigBeams
  · exact (hrd16 _ (by omega) (by omega)).trans hm.numBasebandPorts
  · exact (hrd16 _ (by omega) (by omega)).trans hm.numPMTables
  · exact matricesAt_congr hsame (by omega) hm.matrices

end Shape

section Empty

/-! What is copied in front of the first list that is not empty. -/

theorem upToPrach_of_empty (hm : r.At m a) (h : prachLen r.prach = 0) :
    upToPrach m a = [⟨a, 72⟩] := by
  have hnum := hm.numPrachConfigurations
  rw [r.prach_eq_nil h] at hnum
  rw [upToPrach, prachConfigurations_of_eq_zero hnum]

theorem upToMaps_of_empty (hm : r.At m a) (h : r.mapsEnd = 0) :
    upToMaps m a = [⟨a, 72⟩, ⟨a + 72, 88⟩, ⟨a + 160, 1124⟩, ⟨a + 1284, 4⟩, ⟨a + 1288, 4⟩] := by
  obtain ⟨hprach, hmaps⟩ := Nat.add_eq_zero_iff.mp h
  have hnum := hm.numUci2Maps
  rw [hprach, r.maps_eq_nil hmaps] at hnum
  rw [upToMaps, upToPrach_of_empty hm hprach, uciMaps_of_eq_zero hnum]
  rfl

theorem upToPatterns_of_empty (hm : r.At m a) (h : r.patternsEnd = 0) :
    upToPatterns m a = upToMaps m a ++ [⟨a + 1292, 4⟩] := by
  have hpatternsEnd : r.patternsEnd =
    r.mapsEnd + 12 * r.coresetRmPatterns + 44 * r.prbSymbPatterns := rfl
  have hmapsEnd : r.mapsEnd = 0 := by omega
  have hcoreset := hm.numCoresetRmPatterns
  have hprb := hm.numberOfPrbSymbRateMatchPatterns
  rw [hmapsEnd] at hcoreset hprb
  have hnoCoreset : rd8 m (a + 1293) = 0 := hcoreset.trans (by omega)
  have hnoPrb : rd8 m (a + 1292) = 0 := hprb.trans (by omega)
  rw [upToPatterns, rateMatchPatterns, hnoCoreset, hnoPrb]
  rfl

theorem upToBwps_of_empty (hm : r.At m a) (h : r.bwpsEnd = 0) :
    upToBwps m a = upToPatterns m a ++ [⟨a + 1296, 4⟩] := by
  obtain ⟨hpatterns, hbwps⟩ := Nat.add_eq_zero_iff.mp h
  have hnum := hm.numUlBwpIds
  rw [hpatterns] at hnum
  have hnoBwps : rd8 m (a + 1296) = 0 := hnum.trans (by omega)
  rw [upToBwps, hnoBwps]
  rfl

theorem upToBeams_of_empty (hm : r.At m a) (h : r.beamsEnd = 0) :
    upToBeams m a = upToBwps m a ++ [⟨a + 1300, 4⟩, ⟨a + 1304, 4⟩] := by
  obtain ⟨hbwps, hbeams⟩ := Nat.add_eq_zero_iff.mp h
  have hnum := hm.numDigBeams
  rw [hbwps] at hnum
  have hnoBeams : rd16 m (a + 1304) = 0 := by
    rcases Nat.mul_eq_zero.mp hbeams with hbeams | hbeams
    · exact hnum.trans hbeams
    · omega
  rw [upToBeams, hnoBeams, digBeams, List.append_nil]

theorem total_upToMaps_of_empty (hm : r.At m a) (h : r.mapsEnd = 0) :
    Block.total (upToMaps m a) = 1292 := by
  simp [upToMaps_of_empty hm h]

theorem total_upToPatterns_of_empty (hm : r.At m a) (h : r.patternsEnd = 0) :
    Block.total (upToPatterns m a) = 1296 := by
  have hle : r.mapsEnd ≤ r.patternsEnd := by
    unfold ConfigShape.patternsEnd
    omega
  rw [upToPatterns_of_empty hm h, total_append, total_upToMaps_of_empty hm (by omega)]
  rfl

theorem total_upToBwps_of_empty (hm : r.At m a) (h : r.bwpsEnd = 0) :
    Block.total (upToBwps m a) = 1300 := by
  obtain ⟨hpatterns, -⟩ := Nat.add_eq_zero_iff.mp h
  rw [upToBwps_of_empty hm h, total_append, total_upToPatterns_of_empty hm hpatterns]
  rfl

/-- A request in place is serialised as it is packed. -/
theorem configReqParams_of_empty (hm : r.At m a) (h : r.beamsEnd = 0) :
    configReqParams m a = slice m a r.len := by
  obtain ⟨hbwps, -⟩ := Nat.add_eq_zero_iff.mp h
  obtain ⟨hpatterns, -⟩ := Nat.add_eq_zero_iff.mp hbwps
  have hle : r.mapsEnd ≤ r.patternsEnd := by
    unfold ConfigShape.patternsEnd
    omega
  have hnum := hm.numPMTables
  have hmatrices := hm.matrices
  rw [h] at hnum hmatrices
  have hpms : rd16 m (a + 1308) = r.matrices.length := hnum
  obtain ⟨hchained, htotal⟩ := chained_pmTables hmatrices
  have htotalBeams : Block.total (upToBeams m a) = 1308 := by
    rw [upToBeams_of_empty hm h, total_append, total_upToBwps_of_empty hm hbwps]
    rfl
  have hbehind : a + 1308 + 4 = a + 1312 + 0 := Nat.add_assoc a 1308 4
  have hblocks : configBlocks m a =
      upToBeams m a ++ ⟨a + 1308, 4⟩ :: pmTables m r.matrices.length (a + 1312 + 0) := by
    rw [configBlocks, htotalBeams, hpms, hbehind]
  have hinPlace : Chained a (configBlocks m a) := by
    rw [hblocks, chained_append, htotalBeams, chained_cons]
    refine ⟨?_, rfl, hbehind ▸ hchained⟩
    rw [upToBeams_of_empty hm h, upToBwps_of_empty hm hbwps, upToPatterns_of_empty hm hpatterns,
      upToMaps_of_empty hm (by omega)]
    simp
  have hlen : Block.total (configBlocks m a) = r.len := by
    rw [hblocks, total_append, total_cons, htotalBeams, ConfigShape.len, h, ← htotal]
    exact (Nat.add_assoc _ _ _).symm
  rw [configReqParams, hinPlace.copied_eq, hlen]

end Empty

section Spoiled

/-- The blocks up to the PRACH configurations do not depend on the other bytes of these. -/
theorem prachConfigurations_congr (hsame : ∀ i, i ≠ a + 72 → m' i = m i) :
    prachConfigurations m' a = prachConfigurations m a := by
  have hnum : rd16 m' (a + 68) = rd16 m (a + 68) := rd16_congr fun i _ _ => hsame i (by omega)
  rw [prachConfigurations, prachConfigurations, hnum]
  apply List.flatMap_congr
  intro i _
  have hoccasions : rd8 m' (a + 72 + 12 * i + 6) = rd8 m (a + 72 + 12 * i + 6) :=
    rd8_congr fun j _ _ => hsame j (by omega)
  dsimp only
  rw [hoccasions]

theorem uciMaps_congr (hsame : ∀ i, i ≠ a + 1294 → m' i = m i) : uciMaps m' a = uciMaps m a := by
  have hnum : rd16 m' (a + 1288) = rd16 m (a + 1288) := rd16_congr fun i _ _ => hsame i (by omega)
  rw [uciMaps, uciMaps, hnum]
  apply List.flatMap_congr
  intro i _
  have hparams : rd8 m' (a + 1292 + 6 * i) = rd8 m (a + 1292 + 6 * i) :=
    rd8_congr fun j _ _ => hsame j (by omega)
  dsimp only
  rw [hparams]

/-- A member copied from its fixed place, with a list in front of it: the byte there can be
told apart from the one that is packed where the member comes to stand. -/
theorem exists_spoiled (pre : Mem → List Block) (b : Block) (j : ℕ) (hm : r.At m a)
    (hk : r.Spoils k) (hj : j < b.len) (hbyte : b.src + j = a + k)
    (hsplit : ∀ m', ∃ rest, configBlocks m' a = pre m' ++ b :: rest)
    (hmoved : k < Block.total (pre m) + j)
    (hcongr : ∀ m', (∀ i, i ≠ a + k → m' i = m i) → r.At m' a →
      Block.total (pre m') = Block.total (pre m)) :
    ∃ m', r.At m' a ∧ configReqParams m' a ≠ slice m' a r.len := by
  have hplace : a + (Block.total (pre m) + j) ≠ a + k := by omega
  obtain ⟨m', hsame, hne⟩ := exists_ne_at hplace m
  have hm' := hm.congr hk hsame
  obtain ⟨rest, hrest⟩ := hsplit m'
  refine ⟨m', hm', ?_⟩
  rw [configReqParams, hrest]
  apply copied_ne_slice hj
  rw [hbyte, hcongr m' hsame hm']
  exact hne.symm

/-- With a list that is not empty, some request of the shape is serialised wrongly. -/
theorem exists_spoiled_of_spoils (hm : r.At m a) (hk : r.Spoils k) :
    ∃ m', r.At m' a ∧ configReqParams m' a ≠ slice m' a r.len := by
  have hk' := hk
  rcases hk' with ⟨rfl, hlen⟩ | ⟨rfl, hprach, hlen⟩ | ⟨rfl, hmaps, hlen⟩ | ⟨rfl, hpatterns, hlen⟩ |
    ⟨rfl, hbwps, hlen⟩
  · -- the SSB table, behind PRACH configurations
    refine exists_spoiled (upToPrach · a) ⟨a + 72, 88⟩ 0 hm hk (Nat.succ_pos _) rfl
      ?_ ?_ ?_
    · intro m'
      exact ⟨_, by simp [configBlocks, upToBeams, upToBwps, upToPatterns, upToMaps]; rfl⟩
    · have hnum : rd16 m (a + 68) ≠ 0 := by
        rw [hm.numPrachConfigurations, Ne, List.length_eq_zero_iff]
        intro hprach
        rw [hprach, prachLen] at hlen
        exact absurd hlen (by simp)
      have hpos := total_prachConfigurations_pos hnum
      have htotal := total_upToPrach m a
      omega
    · intro m' hsame _
      rw [total_upToPrach, prachConfigurations_congr hsame, ← total_upToPrach]
  · -- the rate match patterns, behind UCI maps
    refine exists_spoiled (upToMaps · a) ⟨a + 1292, 4⟩ 2 hm hk (by simp)
      rfl ?_ ?_ ?_
    · intro m'
      exact ⟨_, by simp [configBlocks, upToBeams, upToBwps, upToPatterns]; rfl⟩
    · have hnum := hm.numUci2Maps
      rw [hprach] at hnum
      have hmaps : rd16 m (a + 1288) ≠ 0 := by
        rw [show rd16 m (a + 1288) = r.maps.length from hnum, Ne, List.length_eq_zero_iff]
        intro hmaps
        rw [hmaps, mapsLen] at hlen
        exact absurd hlen (by simp)
      have hpos := total_uciMaps_pos hmaps
      have htotal := total_upToMaps m a
      have hfirst := total_upToPrach m a
      omega
    · intro m' hsame hm'
      rw [total_upToMaps, total_upToMaps, uciMaps_congr hsame, upToPrach_of_empty hm hprach,
        upToPrach_of_empty hm' hprach]
  · -- the PUCCH configuration, behind rate match patterns
    have hmapsTotal := fun m' (hm' : r.At m' a) => total_upToMaps_of_empty hm' hmaps
    have hpatterns : ∀ m', r.At m' a → Block.total (upToPatterns m' a) = 1296 + r.patternsEnd := by
      intro m' hm'
      have hcoreset := hm'.numCoresetRmPatterns
      have hprb := hm'.numberOfPrbSymbRateMatchPatterns
      rw [hmaps] at hcoreset hprb
      rw [total_upToPatterns, hmapsTotal m' hm', show rd8 m' (a + 1293) = _ from hcoreset,
        show rd8 m' (a + 1292) = _ from hprb, ConfigShape.patternsEnd, hmaps]
      omega
    refine exists_spoiled (upToPatterns · a) ⟨a + 1296, 4⟩ 2 hm hk (by simp)
      rfl ?_ ?_ ?_
    · intro m'
      exact ⟨_, by simp [configBlocks, upToBeams, upToBwps]; rfl⟩
    · have htotal := hpatterns m hm
      omega
    · intro m' _ hm'
      rw [hpatterns m hm, hpatterns m' hm']
  · -- the PDSCH configuration, behind UL BWPs
    have hbwps : ∀ m', r.At m' a → Block.total (upToBwps m' a) = 1300 + r.bwpsEnd := by
      intro m' hm'
      have hnum := hm'.numUlBwpIds
      rw [hpatterns] at hnum
      rw [total_upToBwps, total_upToPatterns_of_empty hm' hpatterns,
        show rd8 m' (a + 1296) = _ from hnum, ConfigShape.bwpsEnd, hpatterns]
      omega
    refine exists_spoiled (upToBwps · a) ⟨a + 1300, 4⟩ 0 hm hk (Nat.succ_pos _)
      rfl ?_ ?_ ?_
    · intro m'
      exact ⟨_, by simp [configBlocks, upToBeams]; rfl⟩
    · have htotal := hbwps m hm
      omega
    · intro m' _ hm'
      rw [hbwps m hm, hbwps m' hm']
  · -- the precoding matrices, behind digital beams
    have hbeams : ∀ m', r.At m' a → Block.total (upToBeams m' a) = 1308 + r.beamsEnd := by
      intro m' hm'
      have hnum := hm'.numDigBeams
      have hports := hm'.numBasebandPorts
      rw [hbwps] at hnum hports
      rw [total_upToBeams, total_upToBwps_of_empty hm' hbwps,
        show rd16 m' (a + 1304) = _ from hnum, show rd16 m' (a + 1306) = _ from hports,
        ConfigShape.beamsEnd, hbwps]
      omega
    refine exists_spoiled (upToBeams · a) ⟨a + 1308, 4⟩ 2 hm hk (by simp)
      rfl ?_ ?_ ?_
    · intro m'
      exact ⟨_, rfl⟩
    · have htotal := hbeams m hm
      omega
    · intro m' _ hm'
      rw [hbeams m hm, hbeams m' hm']

end Spoiled

theorem ConfigShape.InPlace.beamsEnd_eq_zero (hr : r.InPlace) : r.beamsEnd = 0 := by
  rw [ConfigShape.beamsEnd, ConfigShape.bwpsEnd, ConfigShape.patternsEnd, ConfigShape.mapsEnd,
    hr.prach, hr.maps, hr.coresetRmPatterns, hr.prbSymbPatterns, hr.ulBwpIds, hr.digBeams,
    Nat.zero_mul]
  rfl

/-- `ConfigReqParams` serialises all requests of a shape as they are packed exactly when
they have no lists but precoding matrices. -/
theorem configReqParams_serialised_iff {m₀ : Mem} (hm₀ : r.At m₀ a) :
    (∀ m, r.At m a → configReqParams m a = slice m a r.len) ↔ r.InPlace := by
  constructor
  · intro hall
    by_contra hr
    obtain ⟨k, hk⟩ := r.exists_spoils hr
    obtain ⟨m, hm, hne⟩ := exists_spoiled_of_spoils hm₀ hk
    exact hne (hall m hm)
  · intro hr m hm
    exact configReqParams_of_empty hm hr.beamsEnd_eq_zero

end TestMac

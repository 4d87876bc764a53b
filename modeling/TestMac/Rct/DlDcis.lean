import TestMac.Rct.DlttiParams

/-!
# The loop over the DCIs of a PDCCH PDU

The loop is followed along the packed DCIs. As long as the index points to the DCI that
comes next, the DCI is copied whole. The index is the number of beams of the DCI before,
plus one, so it keeps pointing to the next one for two DCIs at most; otherwise the loop
stops too early, goes on for ever, or copies a DCI from a place where it is not.
-/

namespace TestMac

open Bytes Block

variable {m m' : Mem} {a offset i n k rounds dlDCIs : ℕ} {dci : DlDci} {dcis : List DlDci}
  {blocks : List Block}

theorem DlDci.len_ge (dci : DlDci) : 44 ≤ dci.len := by
  unfold len
  omega

theorem chained_txPrecodeBeam (m : Mem) (info offset : ℕ) :
    Chained offset (txPrecodeBeam m info offset) := by
  rw [txPrecodeBeam, chained_append, total_row]
  exact ⟨chained_row _ _ _, chained_row _ _ _⟩

@[simp] theorem total_txPrecodeBeam (m : Mem) (info offset : ℕ) :
    Block.total (txPrecodeBeam m info offset) = 2 * rd16 m info + 2 * rd8 m (info + 4) := by
  rw [txPrecodeBeam, total_append, total_row, total_row]

/-- The blocks of one DCI, taken from the index it has. -/
def dciBlocks (m : Mem) (dlDCIs i offset : ℕ) : List Block :=
  ⟨dlDCIs + 44 * i, 44⟩ :: txPrecodeBeam m (dlDCIs + 44 * i + 36) (offset + 44)

theorem total_dciBlocks (hnum : rd16 m (dlDCIs + 44 * i + 36) = dci.numPRGs)
    (hdig : rd8 m (dlDCIs + 44 * i + 40) = dci.digBFInterfaces) :
    Block.total (dciBlocks m dlDCIs i offset) = dci.len := by
  rw [dciBlocks, total_cons, total_txPrecodeBeam, hnum, hdig, DlDci.len]
  simp only
  omega

theorem dlDcis_of_ge (h : n ≤ i) : dlDcis m dlDCIs n rounds i offset = some [] := by
  cases rounds with
  | zero => rw [dlDcis, if_neg (by omega)]
  | succ rounds => rw [dlDcis, if_neg (by omega)]

/-- A round of the loop, at an index below the number of DCIs. -/
theorem dlDcis_round (h : i < n) :
    dlDcis m dlDCIs n (rounds + 1) i offset =
      (dlDcis m dlDCIs n rounds (rd8 m (dlDCIs + 44 * i + 40) + 1)
        (offset + Block.total (dciBlocks m dlDCIs i offset))).map
          fun rest => dciBlocks m dlDCIs i offset ++ rest := by
  rw [dlDcis, if_pos h, dciBlocks, total_cons, ← Nat.add_assoc]
  dsimp only
  cases dlDcis m dlDCIs n rounds (rd8 m (dlDCIs + 44 * i + 40) + 1) (offset + 44 +
    Block.total (txPrecodeBeam m (dlDCIs + 44 * i + 36) (offset + 44))) with
  | none => rfl
  | some rest => rfl

/-- The loop has made a round when it has come to an end. -/
theorem dlDcis_inv (h : i < n) (hrun : dlDcis m dlDCIs n rounds i offset = some blocks) :
    ∃ rounds' rest, dlDcis m dlDCIs n rounds' (rd8 m (dlDCIs + 44 * i + 40) + 1)
        (offset + Block.total (dciBlocks m dlDCIs i offset)) = some rest ∧
      blocks = dciBlocks m dlDCIs i offset ++ rest := by
  cases rounds with
  | zero =>
    rw [dlDcis, if_pos h] at hrun
    cases hrun
  | succ rounds =>
    rw [dlDcis_round h, Option.map_eq_some_iff] at hrun
    obtain ⟨rest, hrest, rfl⟩ := hrun
    exact ⟨rounds, rest, hrest, rfl⟩

/-- The blocks that are as long as a DCI. -/
def dciCopies (blocks : List Block) : List Block := blocks.filter fun b => b.len = 44

@[simp] theorem dciCopies_nil : dciCopies [] = [] := rfl

@[simp] theorem dciCopies_append (blocks blocks' : List Block) :
    dciCopies (blocks ++ blocks') = dciCopies blocks ++ dciCopies blocks' := List.filter_append ..

@[simp] theorem dciCopies_cons {b : Block} (h : b.len ≠ 44) (blocks : List Block) :
    dciCopies (b :: blocks) = dciCopies blocks := List.filter_cons_of_neg (by simp [h])

theorem dciCopies_row {src stride count : ℕ} (h : stride ≠ 44) :
    dciCopies (row src stride count) = [] := by
  simp [dciCopies, row, h]

@[simp] theorem dciCopies_txPrecodeBeam (info : ℕ) :
    dciCopies (txPrecodeBeam m info offset) = [] := by
  rw [txPrecodeBeam, dciCopies_append, dciCopies_row (by decide), dciCopies_row (by decide)]
  rfl

@[simp] theorem dciCopies_dciBlocks :
    dciCopies (dciBlocks m dlDCIs i offset) = [⟨dlDCIs + 44 * i, 44⟩] := by
  have hself : dciCopies [⟨dlDCIs + 44 * i, 44⟩] = [⟨dlDCIs + 44 * i, 44⟩] := rfl
  rw [dciBlocks, ← List.singleton_append, dciCopies_append, hself, dciCopies_txPrecodeBeam]
  rfl

/-- The loop does not end when the second DCI of several has no beams. -/
theorem dlDcis_forever (hn : 1 < n) (hdig : rd8 m (dlDCIs + 44 * 1 + 40) = 0) :
    dlDcis m dlDCIs n rounds 1 offset = none := by
  induction rounds generalizing offset with
  | zero => rw [dlDcis, if_pos hn]
  | succ rounds ih => rw [dlDcis_round hn, hdig, ih, Option.map_none]

/-- What is copied of the DCIs from `a` on is too short, or has another byte. -/
def DcisWrong (m : Mem) (a : ℕ) (dcis : List DlDci) (blocks : List Block) : Prop :=
  Block.total blocks < dcisLen dcis ∨
    ∃ k, k < dcisLen dcis ∧ ∃ b, (copied m blocks)[k]? = some b ∧ b ≠ m (a + k)

/-- Some content of the DCIs from `a` on, of the same shape, is copied wrongly. -/
def DcisMayGoWrong (m : Mem) (dlDCIs n i a : ℕ) (dcis : List DlDci) : Prop :=
  ∃ m' : Mem, DcisAt m' a dcis ∧ (∀ j, ¬ (a ≤ j ∧ j < a + dcisLen dcis) → m' j = m j) ∧
    ∀ rounds blocks, dlDcis m' dlDCIs n rounds i a = some blocks → DcisWrong m' a dcis blocks

/-- A DCI copied whole, in front of others that may go wrong. -/
theorem DcisMayGoWrong.cons (ha : a = dlDCIs + 44 * i) (hi : i < n)
    (hnum : rd16 m (a + 36) = dci.numPRGs) (hdig : rd8 m (a + 40) = dci.digBFInterfaces)
    (h : DcisMayGoWrong m dlDCIs n (dci.digBFInterfaces + 1) (a + dci.len) dcis) :
    DcisMayGoWrong m dlDCIs n i a (dci :: dcis) := by
  obtain ⟨m', hdcis, hsame, hwrong⟩ := h
  have hlen := dci.len_ge
  have hnum' : rd16 m' (a + 36) = dci.numPRGs := by
    rw [← hnum, rd16_congr fun j _ _ => hsame j (by omega)]
  have hdig' : rd8 m' (a + 40) = dci.digBFInterfaces := by
    rw [← hdig, rd8_congr fun j _ _ => hsame j (by omega)]
  refine ⟨m', ⟨hnum', hdig', hdcis⟩, ?_, ?_⟩
  · intro j hj
    rw [dcisLen_cons] at hj
    exact hsame j (by omega)
  · intro rounds blocks hrun
    obtain ⟨rounds', rest, hrest, rfl⟩ := dlDcis_inv hi hrun
    have htotal : Block.total (dciBlocks m' dlDCIs i a) = dci.len :=
      total_dciBlocks (ha ▸ hnum') (ha ▸ hdig')
    rw [htotal, ← ha, hdig'] at hrest
    rcases hwrong rounds' rest hrest with hshort | ⟨k, hk, b, hb, hne⟩
    · left
      rw [total_append, htotal, dcisLen_cons]
      omega
    · right
      refine ⟨dci.len + k, by rw [dcisLen_cons]; omega, b, ?_, by rwa [← Nat.add_assoc]⟩
      rw [copied_append, List.getElem?_append_right (by rw [copied_length]; omega), copied_length,
        htotal, Nat.add_sub_cancel_left, hb]

/-- The loop stops in front of a DCI. -/
theorem dcisMayGoWrong_of_stop {dci' : DlDci} (ha : a = dlDCIs + 44 * i) (hi : i < n)
    (hm : DcisAt m a (dci :: dci' :: dcis)) (hstop : n ≤ dci.digBFInterfaces + 1) :
    DcisMayGoWrong m dlDCIs n i a (dci :: dci' :: dcis) := by
  refine ⟨m, hm, fun _ _ => rfl, ?_⟩
  intro rounds blocks hrun
  obtain ⟨hnum, hdig, -⟩ := hm
  subst ha
  obtain ⟨rounds', rest, hrest, rfl⟩ := dlDcis_inv hi hrun
  rw [hdig, dlDcis_of_ge hstop] at hrest
  have hlen := dci'.len_ge
  left
  rw [← Option.some.inj hrest, List.append_nil, total_dciBlocks hnum hdig, dcisLen_cons,
    dcisLen_cons]
  omega

/-- The index points to another place than where the next DCI is packed. -/
theorem dcisMayGoWrong_of_misplaced {dci' : DlDci} (ha : a = dlDCIs + 44 * i) (hi : i < n)
    (hm : DcisAt m a (dci :: dci' :: dcis)) (hnext : dci.digBFInterfaces + 1 < n)
    (hplace : dlDCIs + 44 * (dci.digBFInterfaces + 1) ≠ a + dci.len) :
    DcisMayGoWrong m dlDCIs n i a (dci :: dci' :: dcis) := by
  obtain ⟨m', hsame, hne⟩ := exists_ne_at hplace m
  obtain ⟨hnum, hdig, hnum', hdig', hdcis⟩ := hm
  have hlen := dci.len_ge
  have hlen' := dci'.len_ge
  have hnumm : rd16 m' (a + 36) = dci.numPRGs := by
    rw [← hnum, rd16_congr fun j _ _ => hsame j (by omega)]
  have hdigm : rd8 m' (a + 40) = dci.digBFInterfaces := by
    rw [← hdig, rd8_congr fun j _ _ => hsame j (by omega)]
  refine ⟨m', ⟨hnumm, hdigm, ?_, ?_, ?_⟩, ?_, ?_⟩
  · rw [← hnum', rd16_congr fun j _ _ => hsame j (by omega)]
  · rw [← hdig', rd8_congr fun j _ _ => hsame j (by omega)]
  · exact dcisAt_congr (fun j _ _ => (hsame j (by omega)).symm) hdcis
  · intro j hj
    rw [dcisLen_cons, dcisLen_cons] at hj
    exact hsame j (by omega)
  · intro rounds blocks hrun
    obtain ⟨rounds', rest, hrest, rfl⟩ := dlDcis_inv hi hrun
    have htotal : Block.total (dciBlocks m' dlDCIs i a) = dci.len :=
      total_dciBlocks (ha ▸ hnumm) (ha ▸ hdigm)
    rw [← ha, hdigm] at hrest
    obtain ⟨-, rest', -, rfl⟩ := dlDcis_inv hnext hrest
    right
    refine ⟨dci.len, by rw [dcisLen_cons, dcisLen_cons]; omega, _, ?_, hne⟩
    rw [← htotal]
    exact copied_getElem? (b := ⟨dlDCIs + 44 * (dci.digBFInterfaces + 1), 44⟩) m' _ _
      (Nat.succ_pos _)

/-- Along the packed DCIs: `k` of them are behind, with `beams` matrices and beams in all,
and the index points to the next one. Either all are copied whole, which leaves two cases,
or some content goes wrong. -/
theorem dcis_walk {beams : ℕ} (ha : a = dlDCIs + 44 * i) (hi : i < n)
    (hn : n = k + (dci :: dcis).length) (hplace : 44 * i = 44 * k + 2 * beams)
    (hindex : k = 0 ∨ ∃ dig ≤ beams, i = dig + 1) (hm : DcisAt m a (dci :: dcis)) :
    (k = 0 ∧ DlPdu.DcisInPlace (dci :: dcis)) ∨
    (k = 1 ∧ beams = 0 ∧ dcis = [] ∧ dci.digBFInterfaces ≠ 0) ∨
      DcisMayGoWrong m dlDCIs n i a (dci :: dcis) := by
  induction dcis generalizing k beams i a dci with
  | nil =>
    rw [List.length_singleton] at hn
    rcases hindex with hk | ⟨dig, hdig, hidig⟩
    · exact .inl ⟨hk, trivial⟩
    · -- the last DCI, at the index that its place has
      have hk : k = 1 := by omega
      have hbeams : beams = 0 := by omega
      by_cases hzero : dci.digBFInterfaces = 0
      · refine .inr (.inr ⟨m, hm, fun _ _ => rfl, ?_⟩)
        intro rounds blocks hrun
        have hione : i = 1 := by omega
        subst hione
        have hbeam : rd8 m (dlDCIs + 44 * 1 + 40) = 0 := by rw [← ha, hm.2.1, hzero]
        rw [dlDcis_forever (by omega) hbeam] at hrun
        cases hrun
      · exact .inr (.inl ⟨hk, hbeams, rfl, hzero⟩)
  | cons dci' dcis ih =>
    by_cases hstop : n ≤ dci.digBFInterfaces + 1
    · exact .inr (.inr (dcisMayGoWrong_of_stop ha hi hm hstop))
    · have hlen : dci.len = 44 + 2 * dci.numPRGs + 2 * dci.digBFInterfaces := rfl
      by_cases hnext : dlDCIs + 44 * (dci.digBFInterfaces + 1) = a + dci.len
      · obtain ⟨hnum, hdig, hdcis⟩ := hm
        have hn' : n = k + 1 + (dci' :: dcis).length := by
          rw [List.length_cons] at hn
          omega
        have hplace' : 44 * (dci.digBFInterfaces + 1) =
            44 * (k + 1) + 2 * (beams + dci.numPRGs + dci.digBFInterfaces) := by
          omega
        have hindex' : k + 1 = 0 ∨ ∃ dig ≤ beams + dci.numPRGs + dci.digBFInterfaces,
            dci.digBFInterfaces + 1 = dig + 1 :=
          .inr ⟨dci.digBFInterfaces, by omega, rfl⟩
        rcases ih hnext.symm (by omega) hn' hplace' hindex' hdcis with
          ⟨hk, -⟩ | ⟨hk, hbeams, rfl, hlast⟩ | hwrong
        · omega
        · exact .inl ⟨by omega, by omega, by omega, hlast⟩
        · exact .inr (.inr (hwrong.cons ha hi hnum hdig))
      · exact .inr (.inr (dcisMayGoWrong_of_misplaced ha hi hm (by omega) hnext))

end TestMac

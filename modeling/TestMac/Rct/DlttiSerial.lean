import TestMac.Rct.DlDcis

/-!
# When `DlttiParams` serialises a request as it is packed

CSI-RS and SSB PDUs are always copied whole. A PDSCH PDU never is: four bytes are copied
twice. A PDCCH PDU is when its DCIs lead the loop from one to the next.
-/

namespace TestMac

open Bytes Block

variable {m : Mem} {a n rounds : ℕ} {dcis : List DlDci} {blocks : List Block} {s : DlPdu}

theorem chained_dciBlocks (m : Mem) (dlDCIs i : ℕ) :
    Chained (dlDCIs + 44 * i) (dciBlocks m dlDCIs i (dlDCIs + 44 * i)) :=
  ⟨rfl, chained_txPrecodeBeam m _ _⟩

/-- The places of packed DCIs, of which the first stands at an address. -/
def dciPlaces : ℕ → List DlDci → List Block
  | _, [] => []
  | a, dci :: dcis => ⟨a, 44⟩ :: dciPlaces (a + dci.len) dcis

/-- DCIs in place are copied whole, one after the other. -/
theorem dlDcis_inPlace (hm : DcisAt m a dcis) (hplace : DlPdu.DcisInPlace dcis)
    (hrun : dlDcis m a dcis.length rounds 0 a = some blocks) :
    Chained a blocks ∧ Block.total blocks = dcisLen dcis ∧ dciCopies blocks = dciPlaces a dcis := by
  match dcis, hplace with
  | [], _ =>
    have hend : dlDcis m a 0 rounds 0 a = some [] := dlDcis_of_ge (Nat.zero_le _)
    cases hend.symm.trans hrun
    exact ⟨trivial, rfl, rfl⟩
  | [dci], _ =>
    obtain ⟨hnum, hdig, -⟩ := hm
    obtain ⟨rounds', rest, hrest, rfl⟩ := dlDcis_inv (by simp) hrun
    rw [dlDcis_of_ge (by simp)] at hrest
    cases hrest
    rw [List.append_nil]
    refine ⟨chained_dciBlocks m a 0, ?_, dciCopies_dciBlocks⟩
    rw [total_dciBlocks hnum hdig]
    rfl
  | [dci, dci'], hplace =>
    obtain ⟨hprgs, hbeams, hlast⟩ := hplace
    obtain ⟨hnum, hdig, hnum', hdig', -⟩ := hm
    have hlen : dci.len = 44 := by rw [DlDci.len, hprgs, hbeams]
    rw [hlen] at hnum' hdig'
    obtain ⟨rounds', rest, hrest, rfl⟩ := dlDcis_inv (by simp) hrun
    have htotal : Block.total (dciBlocks m a 0 a) = dci.len := total_dciBlocks hnum hdig
    have hzero : rd8 m (a + 44 * 0 + 40) = 0 := hdig.trans hbeams
    rw [htotal, hlen, hzero] at hrest
    obtain ⟨rounds'', rest', hrest', rfl⟩ := dlDcis_inv (by simp) hrest
    have hbeam : rd8 m (a + 44 * (0 + 1) + 40) = dci'.digBFInterfaces := hdig'
    have htotal' : Block.total (dciBlocks m a (0 + 1) (a + 44)) = dci'.len :=
      total_dciBlocks hnum' hdig'
    rw [dlDcis_of_ge (by rw [hbeam]; simp; omega)] at hrest'
    cases hrest'
    rw [List.append_nil, chained_append, total_append, dciCopies_append, htotal, htotal', hlen]
    refine ⟨⟨chained_dciBlocks m a 0, chained_dciBlocks m a 1⟩, by simp [hlen], ?_⟩
    simp [dciPlaces, hlen]

/-- Two rounds are enough for DCIs in place. -/
theorem exists_dlDcis (hm : DcisAt m a dcis) (hplace : DlPdu.DcisInPlace dcis) :
    ∃ blocks, dlDcis m a dcis.length 2 0 a = some blocks := by
  match dcis, hplace with
  | [], _ => exact ⟨[], dlDcis_of_ge (Nat.zero_le _)⟩
  | [dci], _ =>
    rw [dlDcis_round (by simp), dlDcis_of_ge (by simp)]
    exact ⟨_, rfl⟩
  | [dci, dci'], hplace =>
    obtain ⟨hprgs, hbeams, hlast⟩ := hplace
    obtain ⟨hnum, hdig, hnum', hdig', -⟩ := hm
    have hlen : dci.len = 44 := by rw [DlDci.len, hprgs, hbeams]
    rw [hlen] at hnum' hdig'
    have hzero : rd8 m (a + 44 * 0 + 40) = 0 := hdig.trans hbeams
    have hbeam : rd8 m (a + 44 * (0 + 1) + 40) = dci'.digBFInterfaces := hdig'
    rw [dlDcis_round (by simp), hzero, dlDcis_round (by simp),
      dlDcis_of_ge (by rw [hbeam]; simp; omega)]
    exact ⟨_, rfl⟩

theorem dlPdu_pdcch (hm : (DlPdu.pdcch dcis).Numbers m a) :
    dlPdu rounds m a =
      (dlDcis m (a + 32) dcis.length rounds 0 (a + 32)).map fun dcis => ⟨a + 4, 28⟩ :: dcis := by
  rw [dlPdu, hm.1, ← hm.2.1]
  simp only [pdcchPdu]
  cases dlDcis m (a + 4 + 28) (rd16 m (a + 4 + 2)) rounds 0 (a + 4 + 28) with
  | none => rfl
  | some rest => rfl

theorem dlPdu_pdsch {pduBitmap numCoresetRMP numCsiRsForRM numPRGs digBFInterfaces : ℕ}
    (hm : (DlPdu.pdsch pduBitmap numCoresetRMP numCsiRsForRM numPRGs digBFInterfaces).Numbers m a) :
    dlPdu rounds m a = some (pdschPdu m (a + 4)) := by
  rw [dlPdu, hm.1]
  rfl

/-- A PDU in place is copied whole. -/
theorem dlPdu_copiedWhole (hm : s.At m a) (hs : s.InPlace)
    (hblocks : dlPdu rounds m a = some blocks) : dlFormat.CopiedWhole a s blocks := by
  obtain ⟨-, hm⟩ := hm
  cases s with
  | pdsch => exact absurd hs id
  | pdcch dcis =>
    rw [dlPdu_pdcch hm, Option.map_eq_some_iff] at hblocks
    obtain ⟨rest, hrest, rfl⟩ := hblocks
    obtain ⟨hchained, htotal, -⟩ := dlDcis_inPlace hm.2.2 hs hrest
    refine ⟨⟨rfl, hchained⟩, ?_⟩
    rw [total_cons, htotal]
    simp only [dlFormat, DlPdu.len]
    omega
  | csiRs numPRGs digBFInterfaces =>
    obtain ⟨htype, hnum, hdig⟩ := hm
    rw [dlPdu, htype] at hblocks
    cases hblocks
    refine ⟨⟨rfl, chained_txPrecodeBeam m _ _⟩, ?_⟩
    rw [total_cons, total_txPrecodeBeam, hnum, hdig]
    simp only [dlFormat, DlPdu.len]
    omega
  | ssb numPRGs digBFInterfaces =>
    obtain ⟨htype, hnum, hdig⟩ := hm
    rw [dlPdu, htype] at hblocks
    cases hblocks
    refine ⟨⟨rfl, chained_txPrecodeBeam m _ _⟩, ?_⟩
    rw [total_cons, total_txPrecodeBeam, hnum, hdig]
    simp only [dlFormat, DlPdu.len]
    omega

theorem exists_dlPdu (hm : s.At m a) (hs : s.InPlace) : ∃ blocks, dlPdu 2 m a = some blocks := by
  obtain ⟨-, hm⟩ := hm
  cases s with
  | pdsch => exact absurd hs id
  | pdcch dcis =>
    obtain ⟨rest, hrest⟩ := exists_dlDcis hm.2.2 hs
    rw [dlPdu_pdcch hm, hrest]
    exact ⟨_, rfl⟩
  | csiRs numPRGs digBFInterfaces =>
    rw [dlPdu, hm.1]
    exact ⟨_, rfl⟩
  | ssb numPRGs digBFInterfaces =>
    rw [dlPdu, hm.1]
    exact ⟨_, rfl⟩

/-- Some content of a PDU, of the same shape, is copied wrongly, in any number of rounds. -/
def DlPdu.MayGoWrong (m : Mem) (a : ℕ) (s : DlPdu) : Prop :=
  ∃ m' : Mem, dlFormat.At m' a s ∧ (∀ i, ¬ (a + 4 ≤ i ∧ i < a + dlFormat.len s) → m' i = m i) ∧
    ∀ rounds blocks, dlPdu rounds m' a = some blocks → dlFormat.CopiedWrong m' a s blocks

/-- The four bytes behind the eight copied from `nIdPdsch` on are copied from four bytes
before. -/
theorem mayGoWrong_pdsch {pduBitmap numCoresetRMP numCsiRsForRM numPRGs digBFInterfaces : ℕ}
    (hm : (DlPdu.pdsch pduBitmap numCoresetRMP numCsiRsForRM numPRGs digBFInterfaces).At m a) :
    (DlPdu.pdsch pduBitmap numCoresetRMP numCsiRsForRM numPRGs digBFInterfaces).MayGoWrong m a := by
  obtain ⟨hlen, htype, hbitmap, hcoreset, hcsi, hnum, hdig⟩ := hm
  have hpdsch : 128 ≤ DlPdu.pdschLen pduBitmap numCoresetRMP numCsiRsForRM := by
    unfold DlPdu.pdschLen
    omega
  refine Format.exists_copiedWrong (b := ⟨a + 4 + 56, 12⟩)
    (p := [⟨a + 4, 16⟩, ⟨a + 4 + 16, 36⟩, ⟨a + 4 + 52, 8⟩]) (Nat.succ_pos _) ?_ ?_ ?_
  · simp
  · simp only [total_cons, total_nil, dlFormat, DlPdu.len]
    omega
  · simp only [total_cons, total_nil]
    intro m' hsame
    have hm' : (DlPdu.pdsch pduBitmap numCoresetRMP numCsiRsForRM numPRGs
        digBFInterfaces).At m' a := by
      refine ⟨hlen, ?_, ?_, ?_, ?_, ?_, ?_⟩
      · rw [← htype, rd16_congr fun i _ _ => hsame i (by omega)]
      · rw [← hbitmap, rd16_congr fun i _ _ => hsame i (by omega)]
      · rw [← hcoreset, rd8_congr fun i _ _ => hsame i (by omega)]
      · rw [← hcsi, rd8_congr fun i _ _ => hsame i (by omega)]
      · rw [← hnum, rd16_congr fun i _ _ => hsame i (by omega)]
      · rw [← hdig, rd8_congr fun i _ _ => hsame i (by omega)]
    refine ⟨hm', ?_⟩
    intro rounds blocks hblocks
    rw [dlPdu_pdsch hm'.2] at hblocks
    cases hblocks
    exact ⟨_, rfl⟩

theorem mayGoWrong_pdcch (hm : (DlPdu.pdcch dcis).At m a) (hs : ¬ DlPdu.DcisInPlace dcis) :
    (DlPdu.pdcch dcis).MayGoWrong m a := by
  obtain ⟨hlen, htype, hnum, hdcis⟩ := hm
  have hlen' : (DlPdu.pdcch dcis).len = 32 + dcisLen dcis := rfl
  cases dcis with
  | nil => exact absurd trivial hs
  | cons dci dcis =>
    have hplace : 44 * 0 = 44 * 0 + 2 * 0 := rfl
    rcases dcis_walk rfl (by simp) (Nat.zero_add _).symm hplace (.inl rfl) hdcis with
      ⟨-, hplace⟩ | ⟨hk, -⟩ | ⟨m', hdcis', hsame, hwrong⟩
    · exact absurd hplace hs
    · omega
    · have hm' : (DlPdu.pdcch (dci :: dcis)).At m' a := by
        refine ⟨hlen, ?_, ?_, hdcis'⟩
        · rw [← htype, rd16_congr fun i _ _ => hsame i (by omega)]
        · rw [← hnum, rd16_congr fun i _ _ => hsame i (by omega)]
      refine ⟨m', hm', ?_, ?_⟩
      · intro i hi
        simp only [dlFormat] at hi
        exact hsame i (by omega)
      · intro rounds blocks hblocks hsize
        rw [dlPdu_pdcch hm'.2, Option.map_eq_some_iff] at hblocks
        obtain ⟨rest, hrest, rfl⟩ := hblocks
        simp only [dlFormat, total_cons] at hsize ⊢
        rcases hwrong rounds rest hrest with hshort | ⟨k, hk, b, hb, hne⟩
        · omega
        · refine ⟨28 + k, by omega, b, ?_, by rwa [← Nat.add_assoc]⟩
          rw [copied_cons, List.getElem?_append_right (by simp), slice_length,
            Nat.add_sub_cancel_left, hb]

theorem mayGoWrong_of_not_dlInPlace (hm : s.At m a) (hs : ¬ s.InPlace) : s.MayGoWrong m a := by
  cases s with
  | pdcch dcis => exact mayGoWrong_pdcch hm hs
  | pdsch => exact mayGoWrong_pdsch hm
  | csiRs => exact absurd trivial hs
  | ssb => exact absurd trivial hs

/-- `DlttiParams` serialises all requests of a shape as they are packed exactly when all
their PDUs are in place. -/
theorem dlttiParams_serialised_iff {r : TtiShape DlPdu} {m₀ : Mem} (clock : SlotClock)
    (hm₀ : r.At dlFormat m₀) :
    (∀ m, r.At dlFormat m → ∃ rounds, dlttiParams rounds clock m = some
      (r.completed dlFormat clock.gMacTxRfn clock.gMacTxSlot m,
        slice (r.completed dlFormat clock.gMacTxRfn clock.gMacTxSlot m) 0 (r.len dlFormat))) ↔
    ∀ s ∈ r.pdus, s.InPlace :=
  TtiShape.serialised_iff dlPdu clock.gMacTxRfn clock.gMacTxSlot ⟨2, exists_dlPdu⟩ dlPdu_copiedWhole
    mayGoWrong_of_not_dlInPlace hm₀

/-- A request of one PDCCH PDU with two DCIs, the second of which has one beam. -/
def twoDciRequest : Mem := fun i => if i = 4 ∨ i = 136 then 1 else if i = 26 then 2 else 0

/-- It and every other request of that shape are serialised as they are packed. -/
theorem dlttiParams_serialised_two_dcis :
    (⟨[.pdcch [⟨0, 0⟩, ⟨0, 1⟩]], []⟩ : TtiShape DlPdu).At dlFormat twoDciRequest ∧
    ∀ m, (⟨[.pdcch [⟨0, 0⟩, ⟨0, 1⟩]], []⟩ : TtiShape DlPdu).At dlFormat m →
      ∃ rounds, dlttiParams rounds zeroClock m = some
        ((⟨[.pdcch [⟨0, 0⟩, ⟨0, 1⟩]], []⟩ : TtiShape DlPdu).completed dlFormat 0 0 m,
          slice ((⟨[.pdcch [⟨0, 0⟩, ⟨0, 1⟩]], []⟩ : TtiShape DlPdu).completed dlFormat 0 0 m)
            0 142) := by
  have hpdcch : (DlPdu.pdcch [⟨0, 0⟩, ⟨0, 1⟩]).At twoDciRequest 20 :=
    ⟨by decide, by decide +kernel, by decide +kernel, by decide +kernel, by decide +kernel,
      by decide +kernel, by decide +kernel, trivial⟩
  have hat : (⟨[.pdcch [⟨0, 0⟩, ⟨0, 1⟩]], []⟩ : TtiShape DlPdu).At dlFormat twoDciRequest :=
    ⟨by decide +kernel, by decide +kernel, ⟨hpdcch, trivial⟩, trivial⟩
  refine ⟨hat, (dlttiParams_serialised_iff zeroClock hat).mpr ?_⟩
  intro s hs
  rw [List.mem_singleton.mp hs]
  exact ⟨rfl, rfl, by decide⟩

/-- A request of one PDSCH PDU on one DMRS port. -/
def pdschRequest : Mem := fun i => if i = 4 ∨ i = 20 ∨ i = 84 then 1 else 0

/-- The DMRS port is lost. -/
theorem dlttiParams_loses_dmrsPorts :
    (⟨[.pdsch 0 0 0 0 0], []⟩ : TtiShape DlPdu).At dlFormat pdschRequest ∧
      ∀ rounds, dlttiParams rounds zeroClock pdschRequest ≠ some
        ((⟨[.pdsch 0 0 0 0 0], []⟩ : TtiShape DlPdu).completed dlFormat 0 0 pdschRequest,
          slice ((⟨[.pdsch 0 0 0 0 0], []⟩ : TtiShape DlPdu).completed dlFormat 0 0 pdschRequest)
            0 160) := by
  have hpdsch : (DlPdu.pdsch 0 0 0 0 0).At pdschRequest 20 :=
    ⟨by decide, by decide +kernel, by decide +kernel, by decide +kernel, by decide +kernel,
      by decide +kernel, by decide +kernel⟩
  refine ⟨⟨by decide +kernel, by decide +kernel, ⟨hpdsch, trivial⟩, trivial⟩, ?_⟩
  intro rounds hserialised
  have hrounds : dlttiParams rounds zeroClock pdschRequest = dlttiParams 0 zeroClock pdschRequest :=
    rfl
  rw [hrounds] at hserialised
  have hbyte := congrArg (fun result => result.map fun out => out.2[84]?) hserialised
  revert hbyte
  decide +kernel

end TestMac

import Mathlib.Algebra.Order.BigOperators.Group.List
import Mathlib.Data.List.Perm.Subperm
import TestMac.Rct.DlttiSerial

/-!
# Whether `DlttiParams` ends

All loops but one count to a number of the request with a counter that has room for it.
The loop over the DCIs of a PDCCH PDU counts with the variable that the loops inside it
leave at the number of beams. It copies the packed DCIs once only when there is at most
one, or when there are two of which the first has no precoding matrices and no beams and the
second has beams.
-/

namespace TestMac

open Bytes Block

/-- The DCIs of a PDU. Only PDCCH PDUs have any. -/
def DlPdu.dcis : DlPdu → List DlDci
  | .pdcch dcis => dcis
  | _ => []

/-- The places of the DCIs of packed PDUs, of which the first stands at an address. -/
def pdusDcis : ℕ → List DlPdu → List Block
  | _, [] => []
  | a, s :: ss => dciPlaces (a + 32) s.dcis ++ pdusDcis (a + s.len) ss

/-- The blocks that `DlttiParams` copies of the PDUs, their headers apart. -/
def dlttiBlocks (rounds : ℕ) (clock : SlotClock) (dltti : Mem) : Option (List Block) :=
  let dltti := stamp dltti 0 clock.gMacTxRfn clock.gMacTxSlot
  copiedBlocks (dlPdu rounds) (rd16 dltti 4) 20 dltti

/-- `DlttiParams` ends, and of all blocks that are as long as a DCI it copies the DCIs of the
request, each of them once. -/
def CopiesDcisOnce (clock : SlotClock) (dltti : Mem) (pdus : List DlPdu) : Prop :=
  ∃ rounds out blocks, dlttiParams rounds clock dltti = some out ∧
    dlttiBlocks rounds clock dltti = some blocks ∧ (dciCopies blocks).Perm (pdusDcis 20 pdus)

/-- The PDU is a PDSCH PDU. -/
def DlPdu.IsPdsch : DlPdu → Prop
  | .pdsch .. => True
  | _ => False

/-- No PDSCH PDU stands in front of another PDU. -/
def PdschLast (pdus : List DlPdu) : Prop := ∀ s ∈ pdus.dropLast, ¬ s.IsPdsch

variable {m : Mem} {a n i offset rounds dlDCIs : ℕ} {dci : DlDci} {dcis : List DlDci}
  {blocks all : List Block} {s : DlPdu} {ss : List DlPdu}

theorem PdschLast.eq_nil (h : PdschLast (s :: ss)) (hs : s.IsPdsch) : ss = [] := by
  cases ss with
  | nil => rfl
  | cons s' ss => exact absurd hs (h s (by simp))

theorem PdschLast.tail (h : PdschLast (s :: ss)) : PdschLast ss := by
  intro s' hs'
  cases ss with
  | nil => simp at hs'
  | cons s₁ ss => exact h s' (by simpa using .inr hs')

section Places

theorem dciPlaces_append (dcis' : List DlDci) :
    dciPlaces a (dcis ++ dcis') = dciPlaces a dcis ++ dciPlaces (a + dcisLen dcis) dcis' := by
  induction dcis generalizing a with
  | nil => rfl
  | cons dci dcis ih => simp [dciPlaces, ih, Nat.add_assoc]

theorem le_of_mem_dciPlaces {b : Block} (h : b ∈ dciPlaces a dcis) : a ≤ b.src := by
  induction dcis generalizing a with
  | nil => simp [dciPlaces] at h
  | cons dci dcis ih =>
    rcases List.mem_cons.mp h with rfl | h
    · exact le_rfl
    · exact (Nat.le_add_right _ _).trans (ih h)

theorem nodup_dciPlaces : (dciPlaces a dcis).Nodup := by
  induction dcis generalizing a with
  | nil => exact List.nodup_nil
  | cons dci dcis ih =>
    refine List.nodup_cons.mpr ⟨?_, ih⟩
    intro hmem
    have hle := le_of_mem_dciPlaces hmem
    have hlen := dci.len_ge
    simp only at hle
    omega

/-- The length of a DCI, by the numbers that stand in it. -/
def dciLength (m : Mem) (b : Block) : ℕ := 44 + 2 * rd16 m (b.src + 36) + 2 * rd8 m (b.src + 40)

theorem sum_dciLength (hm : DcisAt m a dcis) :
    ((dciPlaces a dcis).map (dciLength m)).sum = dcisLen dcis := by
  induction dcis generalizing a with
  | nil => rfl
  | cons dci dcis ih =>
    obtain ⟨hnum, hdig, hdcis⟩ := hm
    rw [dciPlaces, List.map_cons, List.sum_cons, ih hdcis, dcisLen_cons, dciLength, hnum, hdig,
      DlDci.len]

theorem dcisAt_left {dcis' : List DlDci} (hm : DcisAt m a (dcis ++ dcis')) : DcisAt m a dcis := by
  induction dcis generalizing a with
  | nil => trivial
  | cons dci dcis ih => exact ⟨hm.1, hm.2.1, ih hm.2.2⟩

theorem le_dcisLen : 44 * dcis.length ≤ dcisLen dcis := by
  induction dcis with
  | nil => exact le_rfl
  | cons dci dcis ih =>
    have hlen := dci.len_ge
    rw [List.length_cons, dcisLen_cons]
    omega

/-- DCIs that take no more room than the elements of an array have no lists. -/
theorem eq_of_dcisLen_le (h : dcisLen dcis ≤ 44 * dcis.length) : ∀ dci ∈ dcis, dci = ⟨0, 0⟩ := by
  induction dcis with
  | nil => simp
  | cons dci dcis ih =>
    have hlen : dci.len = 44 + 2 * dci.numPRGs + 2 * dci.digBFInterfaces := rfl
    have hle : 44 * dcis.length ≤ dcisLen dcis := le_dcisLen
    rw [List.length_cons, dcisLen_cons] at h
    refine List.forall_mem_cons.mpr ⟨?_, ih (by omega)⟩
    obtain ⟨numPRGs, digBFInterfaces⟩ := dci
    simp only at hlen
    rw [DlDci.mk.injEq]
    omega

end Places

section Loop

/-- The loop copies elements of the array, and as many bytes as their numbers say. -/
theorem dlDcis_copies (h : dlDcis m dlDCIs n rounds i offset = some blocks) :
    (∀ b ∈ dciCopies blocks, ∃ j < n, b = ⟨dlDCIs + 44 * j, 44⟩) ∧
      Block.total blocks = ((dciCopies blocks).map (dciLength m)).sum := by
  induction rounds generalizing i offset blocks with
  | zero =>
    rw [dlDcis] at h
    split at h
    · simp at h
    · obtain rfl := Option.some.inj h
      exact ⟨by simp, rfl⟩
  | succ rounds ih =>
    by_cases hi : i < n
    · rw [dlDcis_round hi, Option.map_eq_some_iff] at h
      obtain ⟨rest, hrest, rfl⟩ := h
      obtain ⟨hmem, htotal⟩ := ih hrest
      rw [dciCopies_append, dciCopies_dciBlocks]
      constructor
      · intro b hb
        rcases List.mem_append.mp hb with hb | hb
        · exact ⟨i, hi, List.mem_singleton.mp hb⟩
        · exact hmem b hb
      · have hdci : Block.total (dciBlocks m dlDCIs i offset) =
            dciLength m ⟨dlDCIs + 44 * i, 44⟩ :=
          @total_dciBlocks m offset i dlDCIs ⟨_, _⟩ rfl rfl
        rw [total_append, htotal, hdci, List.map_append, List.sum_append, List.map_singleton,
          List.sum_singleton]
    · rw [dlDcis_of_ge (by omega)] at h
      obtain rfl := Option.some.inj h
      exact ⟨by simp, rfl⟩

/-- A number of DCIs beyond all numbers of beams is never reached. -/
theorem dlDcis_endless (hn : 256 < n) (hi : i < n) :
    dlDcis m dlDCIs n rounds i offset = none := by
  induction rounds generalizing i offset with
  | zero => rw [dlDcis, if_pos hi]
  | succ rounds ih =>
    have hdig := rd8_lt m (dlDCIs + 44 * i + 40)
    rw [dlDcis_round hi, ih (by omega), Option.map_none]

/-- When each DCI is copied, or stands behind all that is copied, each of them is copied: in
front of one that is not there are those that are. -/
theorem dcis_copied (hm : DcisAt m a dcis) (hrun : dlDcis m a n rounds i offset = some blocks)
    (hall : ∀ b ∈ dciPlaces a dcis, b ∈ dciCopies blocks ∨ a + Block.total blocks < b.src) :
    ∀ b ∈ dciPlaces a dcis, b ∈ dciCopies blocks := by
  induction dcis using List.reverseRecOn with
  | nil => simp [dciPlaces]
  | append_singleton dcis dci ih =>
    rw [dciPlaces_append, List.forall_mem_append] at hall ⊢
    have hcopied := ih (dcisAt_left hm) hall.1
    refine ⟨hcopied, ?_⟩
    intro b hb
    refine (hall.2 b hb).resolve_right ?_
    obtain rfl : b = ⟨a + dcisLen dcis, 44⟩ := by simpa [dciPlaces] using hb
    obtain ⟨l, hperm, hsub⟩ := nodup_dciPlaces.subperm hcopied
    have hsum := (hsub.map (dciLength m)).sum_le_sum (by simp)
    rw [(hperm.map (dciLength m)).sum_eq, sum_dciLength (dcisAt_left hm),
      ← (dlDcis_copies hrun).2] at hsum
    simp only
    omega

/-- A loop that ends and copies all packed DCIs finds them in place. -/
theorem dcisInPlace_of_copied (hm : DcisAt m a dcis)
    (hrun : dlDcis m a dcis.length rounds 0 offset = some blocks)
    (hall : ∀ b ∈ dciPlaces a dcis, b ∈ dciCopies blocks) : DlPdu.DcisInPlace dcis := by
  -- the last DCI is an element of the array, so those in front of it have no lists
  have hfront : ∀ dci ∈ dcis.dropLast, dci = ⟨0, 0⟩ := by
    rcases List.eq_nil_or_concat' dcis with rfl | ⟨front, last, rfl⟩
    · simp
    · have hlast : (⟨a + dcisLen front, 44⟩ : Block) ∈ dciPlaces a (front ++ [last]) := by
        simp [dciPlaces_append, dciPlaces]
      obtain ⟨j, hj, hplace⟩ := (dlDcis_copies hrun).1 _ (hall _ hlast)
      have hsrc := congrArg Block.src hplace
      simp only at hsrc
      rw [List.length_append, List.length_singleton] at hj
      rw [List.dropLast_concat]
      exact eq_of_dcisLen_le (by omega)
  rcases dcis with - | ⟨dci, - | ⟨dci', rest⟩⟩
  · trivial
  · trivial
  · obtain rfl : dci = ⟨0, 0⟩ := hfront dci (by simp)
    obtain ⟨-, hdig, -, hdig', -⟩ := hm
    -- without beams the second DCI leads to itself
    have hbeams : dci'.digBFInterfaces ≠ 0 := by
      intro hzero
      obtain ⟨rounds', rest', hrest, -⟩ := dlDcis_inv (by simp) hrun
      rw [show rd8 m (a + 44 * 0 + 40) = 0 from hdig,
        dlDcis_forever (by simp) (hdig'.trans hzero)] at hrest
      cases hrest
    cases rest with
    | nil => exact ⟨rfl, rfl, hbeams⟩
    | cons dci'' rest =>
      exact absurd (congrArg DlDci.digBFInterfaces (hfront dci' (by simp))) hbeams

end Loop

section Pdus

/-- A PDCCH PDU, whatever the shape of its DCIs. -/
theorem dlPdu_of_type (htype : rd16 m a = 0) :
    dlPdu rounds m a = (dlDcis m (a + 32) (rd16 m (a + 6)) rounds 0 (a + 32)).map
      fun dcis => ⟨a + 4, 28⟩ :: dcis := by
  rw [dlPdu, htype]
  simp only [pdcchPdu]
  cases dlDcis m (a + 4 + 28) (rd16 m (a + 4 + 2)) rounds 0 (a + 4 + 28) with
  | none => rfl
  | some rest => rfl

theorem dciCopies_ite {p : Prop} [Decidable p] {src len : ℕ} (hlen : len ≠ 44) :
    dciCopies (if p then [⟨src, len⟩] else []) = [] := by
  split_ifs
  · rw [dciCopies_cons hlen, dciCopies_nil]
  · rfl

theorem dciCopies_pdschPdu (m : Mem) (pdsch : ℕ) : dciCopies (pdschPdu m pdsch) = [] := by
  simp only [pdschPdu, pdschFixed, dciCopies_append, dciCopies_txPrecodeBeam,
    dciCopies_row (show 1 ≠ 44 by decide), dciCopies_row (show 2 ≠ 44 by decide),
    dciCopies_ite (show 8 ≠ 44 by decide), dciCopies_ite (show 12 ≠ 44 by decide)]
  rfl

/-- Only of PDCCH PDUs are blocks copied that are as long as a DCI. -/
theorem dciCopies_dlPdu (htype : rd16 m a ≠ 0) (h : dlPdu rounds m a = some blocks) :
    dciCopies blocks = [] := by
  unfold dlPdu at h
  split at h
  · contradiction
  · obtain rfl := Option.some.inj h
    exact dciCopies_pdschPdu m (a + 4)
  · obtain rfl := Option.some.inj h
    rw [dciCopies_cons (by simp), dciCopies_txPrecodeBeam]
  · obtain rfl := Option.some.inj h
    rw [dciCopies_cons (by simp), dciCopies_txPrecodeBeam]
  · obtain rfl := Option.some.inj h
    rfl

/-- They stand behind the fixed part of the PDU. -/
theorem le_of_mem_dlPdu (h : dlPdu rounds m a = some blocks) {b : Block}
    (hb : b ∈ dciCopies blocks) : a + 32 ≤ b.src := by
  by_cases htype : rd16 m a = 0
  · rw [dlPdu_of_type htype, Option.map_eq_some_iff] at h
    obtain ⟨dcis, hrun, rfl⟩ := h
    rw [dciCopies_cons (by simp)] at hb
    obtain ⟨j, -, rfl⟩ := (dlDcis_copies hrun).1 b hb
    exact Nat.le_add_right _ _
  · rw [dciCopies_dlPdu htype h] at hb
    simp at hb

theorem le_of_mem_copiedBlocks (h : copiedBlocks (dlPdu rounds) n a m = some all) {b : Block}
    (hb : b ∈ dciCopies all) : a + 32 ≤ b.src := by
  induction n generalizing a m all with
  | zero =>
    obtain rfl := Option.some.inj h
    simp at hb
  | succ n ih =>
    obtain ⟨blocks, rest, hunit, hrest, rfl⟩ := copiedBlocks_succ h
    rw [dciCopies_append] at hb
    rcases List.mem_append.mp hb with hb | hb
    · exact le_of_mem_dlPdu hunit hb
    · have hle := ih hrest hb
      omega

/-- Of a PDU in place the DCIs are copied, one after the other. -/
theorem dciCopies_inPlace (hm : s.At m a) (hs : s.InPlace)
    (h : dlPdu rounds m a = some blocks) : dciCopies blocks = dciPlaces (a + 32) s.dcis := by
  obtain ⟨-, hm⟩ := hm
  cases s with
  | pdcch dcis =>
    rw [dlPdu_pdcch hm, Option.map_eq_some_iff] at h
    obtain ⟨rest, hrest, rfl⟩ := h
    rw [dciCopies_cons (by simp)]
    exact (dlDcis_inPlace hm.2.2 hs hrest).2.2
  | pdsch => exact hs.elim
  | csiRs numPRGs digBFInterfaces => exact dciCopies_dlPdu (by rw [hm.1]; decide) h
  | ssb numPRGs digBFInterfaces => exact dciCopies_dlPdu (by rw [hm.1]; decide) h

/-- A PDU that is no PDSCH PDU is in place when its DCIs are. -/
theorem inPlace_iff (hs : ¬ s.IsPdsch) : s.InPlace ↔ DlPdu.DcisInPlace s.dcis := by
  cases s with
  | pdsch => exact absurd trivial hs
  | _ => exact Iff.rfl

/-- When the DCIs of all PDUs are copied once, those of a first PDU that is no PDSCH PDU are in
place, and those of the others are copied once as well. -/
theorem first_inPlace (hm : dlFormat.AllAt m a (s :: ss)) (hs : ¬ s.IsPdsch)
    (hrun : copiedBlocks (dlPdu rounds) (n + 1) a m = some all)
    (honce : (dciCopies all).Perm (pdusDcis a (s :: ss))) :
    s.InPlace ∧ ∃ rest,
      copiedBlocks (dlPdu rounds) n (a + s.len) (wr16 m (a + 2) s.len) = some rest ∧
      (dciCopies rest).Perm (pdusDcis (a + s.len) ss) := by
  have hplace : s.InPlace := by
    rw [inPlace_iff hs]
    cases s with
    | pdcch dcis =>
      obtain ⟨-, hnumbers⟩ := hm.1
      obtain ⟨blocks, rest, hunit, hrest, rfl⟩ := copiedBlocks_succ hrun
      rw [dlPdu_pdcch hnumbers, Option.map_eq_some_iff] at hunit
      obtain ⟨blocks, hdcis, rfl⟩ := hunit
      refine dcisInPlace_of_copied hnumbers.2.2 hdcis ?_
      refine dcis_copied hnumbers.2.2 hdcis ?_
      intro b hb
      have hmem : b ∈ dciCopies (⟨a + 4, 28⟩ :: blocks ++ rest) :=
        honce.mem_iff.mpr (List.mem_append_left _ hb)
      rw [dciCopies_append, dciCopies_cons (by simp)] at hmem
      refine (List.mem_append.mp hmem).imp_right ?_
      intro hrest'
      have hle := le_of_mem_copiedBlocks hrest hrest'
      rw [total_cons] at hle
      simp only at hle
      omega
    | pdsch => exact absurd trivial hs
    | csiRs => trivial
    | ssb => trivial
  refine ⟨hplace, ?_⟩
  obtain ⟨blocks, -, hunit, -, -⟩ := copiedBlocks_succ hrun
  rw [Format.copiedBlocks_cons hunit (dlPdu_copiedWhole hm.1 hplace hunit),
    Option.map_eq_some_iff] at hrun
  obtain ⟨rest, hrest, rfl⟩ := hrun
  refine ⟨rest, hrest, ?_⟩
  rw [dciCopies_append, dciCopies_inPlace hm.1 hplace hunit, pdusDcis,
    List.perm_append_left_iff] at honce
  exact honce

/-- When the DCIs of all PDUs are copied once, they are in place, up to the first PDSCH PDU
that stands in front of another PDU. -/
theorem inPlace_of_once (hm : dlFormat.AllAt m a ss) (hlast : PdschLast ss)
    (hrun : copiedBlocks (dlPdu rounds) ss.length a m = some all)
    (honce : (dciCopies all).Perm (pdusDcis a ss)) : ∀ s ∈ ss, DlPdu.DcisInPlace s.dcis := by
  induction ss generalizing m a all with
  | nil => simp
  | cons s ss ih =>
    by_cases hs : s.IsPdsch
    · obtain rfl := hlast.eq_nil hs
      cases s with
      | pdsch => simp [DlPdu.dcis, DlPdu.DcisInPlace]
      | _ => exact hs.elim
    · obtain ⟨hplace, rest, hrest, honce'⟩ := first_inPlace hm hs hrun honce
      refine List.forall_mem_cons.mpr ⟨(inPlace_iff hs).mp hplace, ?_⟩
      exact ih (Format.allAt_tail_wr16 hm.2) hlast.tail hrest honce'

/-- DCIs in place are copied once, when no PDSCH PDU stands in front of another PDU. -/
theorem once_of_inPlace (hm : dlFormat.AllAt m a ss) (hlast : PdschLast ss)
    (hplace : ∀ s ∈ ss, DlPdu.DcisInPlace s.dcis) :
    ∃ all, copiedBlocks (dlPdu 2) ss.length a m = some all ∧ dciCopies all = pdusDcis a ss := by
  induction ss generalizing m a with
  | nil => exact ⟨[], rfl, rfl⟩
  | cons s ss ih =>
    by_cases hs : s.IsPdsch
    · obtain rfl := hlast.eq_nil hs
      cases s with
      | pdsch pduBitmap numCoresetRMP numCsiRsForRM numPRGs digBFInterfaces =>
        refine ⟨pdschPdu m (a + 4), ?_, ?_⟩
        · simp [copiedBlocks, dlPdu_pdsch hm.1.2]
        · rw [dciCopies_pdschPdu]
          rfl
      | _ => exact hs.elim
    · have hinPlace : s.InPlace := (inPlace_iff hs).mpr (hplace s List.mem_cons_self)
      obtain ⟨blocks, hunit⟩ := exists_dlPdu hm.1 hinPlace
      obtain ⟨rest, hrest, hcopies⟩ := ih (m := wr16 m (a + 2) (dlFormat.len s))
        (Format.allAt_tail_wr16 hm.2) hlast.tail fun s' hs' =>
          hplace s' (List.mem_cons_of_mem s hs')
      refine ⟨blocks ++ rest, ?_, ?_⟩
      · rw [List.length_cons,
          Format.copiedBlocks_cons hunit (dlPdu_copiedWhole hm.1 hinPlace hunit), hrest]
        rfl
      · rw [dciCopies_append, dciCopies_inPlace hm.1 hinPlace hunit, hcopies]
        rfl

end Pdus

end TestMac

import TestMac.Rct.DlRounds

/-!
# PDUs behind a PDSCH PDU

A PDSCH PDU is taken to be four bytes longer than it is, so `DlttiParams` reads the PDU
behind it from its fifth byte on. What stands there may pass for a PDCCH PDU with more DCIs
than the loop can ever count to. Whatever the PDUs of a request are, one behind a PDSCH PDU
may hold such bytes.
-/

namespace TestMac

open Bytes Block

/-- What a PDU is, with the DCIs of a PDCCH PDU. -/
inductive DlKind
  | pdcch (dcis : List DlDci)
  | pdsch
  | csiRs
  | ssb

def DlPdu.kind : DlPdu → DlKind
  | .pdcch dcis => .pdcch dcis
  | .pdsch .. => .pdsch
  | .csiRs .. => .csiRs
  | .ssb .. => .ssb

/-- A PDU of a kind without optional parts and lists, those of DCIs apart. -/
def DlKind.plain : DlKind → DlPdu
  | .pdcch dcis => .pdcch dcis
  | .pdsch => .pdsch 0 0 0 0 0
  | .csiRs => .csiRs 0 0
  | .ssb => .ssb 0 0

/-- A PDSCH PDU with both its optional parts, which ends where its fields do. -/
def fullPdsch : DlPdu := .pdsch 3 0 0 0 0

/-- Read from its fifth byte on, the PDU at an address is a PDCCH PDU with 65535 DCIs. -/
def Misread (m : Mem) (a : ℕ) : Prop := rd16 m (a + 4) = 0 ∧ rd16 m (a + 10) = 65535

variable {m m' : Mem} {a b n rounds : ℕ} {dcis : List DlDci} {all : List Block} {s : DlPdu}
  {ss front : List DlPdu}

/-- The serialiser does not come to an end behind a full PDSCH PDU when the next PDU is
misread. -/
theorem copiedBlocks_misread (hm : fullPdsch.At m a) (hmisread : Misread m (a + 160)) :
    copiedBlocks (dlPdu rounds) (n + 2) a m = none := by
  obtain ⟨-, -, hbitmap, hcoreset, hcsi, hnum, hdig⟩ := id hm
  have htotal : Block.total (pdschPdu m (a + 4)) = 160 := by
    have hbitmap' : rd16 m (a + 4) = 3 := hbitmap
    have hcoreset' : rd8 m (a + 4 + 118) = 0 := hcoreset
    have hcsi' : rd8 m (a + 4 + 119) = 0 := hcsi
    have hnum' : rd16 m (a + 4 + 148) = 0 := hnum
    have hdig' : rd8 m (a + 4 + 148 + 4) = 0 := hdig
    simp only [pdschPdu, pdschFixed, total_append, total_txPrecodeBeam, total_row, hbitmap',
      hcoreset', hcsi', hnum', hdig']
    rfl
  have hfree : ∀ k, 4 ≤ k → rd16 (wr16 m (a + 2) 164) (a + 160 + k) = rd16 m (a + 160 + k) :=
    fun k hk => rd16_wr16_of_disjoint (by omega)
  have hloop : dlPdu rounds (wr16 m (a + 2) 164) (a + 164) = none := by
    have htype : rd16 (wr16 m (a + 2) 164) (a + 164) = 0 := (hfree 4 le_rfl).trans hmisread.1
    have hcount : rd16 (wr16 m (a + 2) 164) (a + 164 + 6) = 65535 :=
      (hfree 10 (by omega)).trans hmisread.2
    rw [dlPdu_of_type htype, hcount, dlDcis_endless (by decide) (by decide), Option.map_none]
  have hpdsch : dlPdu rounds m a = some (pdschPdu m (a + 4)) := dlPdu_pdsch hm.2
  rw [copiedBlocks, hpdsch]
  dsimp only
  rw [htotal, copiedBlocks, show a + 4 + 160 = a + 164 from rfl, hloop]
  rfl

/-- The same behind other PDUs whose DCIs are copied once. -/
theorem not_once_misread (hm : dlFormat.AllAt m a (front ++ fullPdsch :: s :: ss))
    (hfront : ∀ s' ∈ front, ¬ s'.IsPdsch)
    (hmisread : Misread m (a + dlFormat.total front + 160))
    (hrun : copiedBlocks (dlPdu rounds) (front ++ fullPdsch :: s :: ss).length a m = some all) :
    ¬ (dciCopies all).Perm (pdusDcis a (front ++ fullPdsch :: s :: ss)) := by
  induction front generalizing m a all with
  | nil =>
    rw [List.nil_append, List.length_cons, List.length_cons, copiedBlocks_misread hm.1 hmisread]
      at hrun
    cases hrun
  | cons s' front ih =>
    intro honce
    rw [List.forall_mem_cons] at hfront
    obtain ⟨-, rest, hrest, honce'⟩ := first_inPlace hm hfront.1 hrun honce
    have hlen : 4 ≤ s'.len := dlFormat.four_le s'
    have htotal : dlFormat.total (s' :: front) = s'.len + dlFormat.total front := Format.total_cons
    rw [htotal, ← Nat.add_assoc a] at hmisread
    refine ih (Format.allAt_tail_wr16 hm.2) hfront.2 ?_ hrest honce'
    exact ⟨(rd16_wr16_of_disjoint (by omega)).trans hmisread.1,
      (rd16_wr16_of_disjoint (by omega)).trans hmisread.2⟩

section Stored

/-- The numbers of DCIs that stand in a memory. -/
theorem dcis_lt (hm : DcisAt m a dcis) :
    ∀ dci ∈ dcis, dci.numPRGs < 65536 ∧ dci.digBFInterfaces < 256 := by
  induction dcis generalizing a with
  | nil => simp
  | cons dci dcis ih =>
    obtain ⟨hnum, hdig, hdcis⟩ := hm
    refine List.forall_mem_cons.mpr ⟨⟨?_, ?_⟩, ih hdcis⟩
    · rw [← hnum]
      exact rd16_lt m _
    · rw [← hdig]
      exact rd8_lt m _

/-- DCIs can be stored. -/
theorem exists_dcisAt (h : ∀ dci ∈ dcis, dci.numPRGs < 65536 ∧ dci.digBFInterfaces < 256)
    (m : Mem) (a : ℕ) :
    ∃ m', DcisAt m' a dcis ∧ ∀ i, ¬ (a ≤ i ∧ i < a + dcisLen dcis) → m' i = m i := by
  induction dcis generalizing a with
  | nil => exact ⟨m, trivial, fun _ _ => rfl⟩
  | cons dci dcis ih =>
    obtain ⟨⟨hnum, hdig⟩, hdcis⟩ := List.forall_mem_cons.mp h
    obtain ⟨m₁, hm₁, hsame₁⟩ := ih hdcis (a + dci.len)
    have hlen := dci.len_ge
    have hone : (leBytes 1 dci.digBFInterfaces).length = 1 := leBytes_length 1 _
    let m₂ := store (wr16 m₁ (a + 36) dci.numPRGs) (a + 40) (leBytes 1 dci.digBFInterfaces)
    have hsame₂ : ∀ i, ¬ (a ≤ i ∧ i < a + dci.len) → m₂ i = m₁ i := by
      intro i hi
      exact (store_of_not_mem (by omega)).trans (wr16_of_not_mem (by omega))
    refine ⟨m₂, ⟨?_, ?_, dcisAt_congr (fun i _ _ => (hsame₂ i (by omega)).symm) hm₁⟩, ?_⟩
    · have hread : rd16 m₂ (a + 36) = rd16 (wr16 m₁ (a + 36) dci.numPRGs) (a + 36) :=
        rd16_congr fun i _ _ => store_of_not_mem (by omega)
      rw [hread, rd16_wr16 hnum]
    · rw [rd8, slice_store_eq hone, leValue_leBytes]
      exact Nat.mod_eq_of_lt hdig
    · intro i hi
      rw [dcisLen_cons] at hi
      rw [hsame₂ i (by omega), hsame₁ i (by omega)]

/-- The first twelve bytes of a PDU that is misread, with a number in the place of that of
the DCIs. -/
def misreadHeader (m : Mem) (a type count : ℕ) : Mem :=
  wr16 (wr16 (wr16 (wr16 m a type) (a + 4) 0) (a + 6) count) (a + 10) 65535

theorem misreadHeader_spec (m : Mem) (a : ℕ) {type count : ℕ} (htype : type < 65536)
    (hcount : count < 65536) :
    rd16 (misreadHeader m a type count) a = type ∧ Misread (misreadHeader m a type count) a ∧
      rd16 (misreadHeader m a type count) (a + 6) = count ∧
      ∀ i, ¬ (a ≤ i ∧ i < a + 12) → misreadHeader m a type count i = m i := by
  unfold misreadHeader
  refine ⟨?_, ⟨?_, ?_⟩, ?_, ?_⟩
  · rw [rd16_wr16_of_disjoint (by omega), rd16_wr16_of_disjoint (by omega),
      rd16_wr16_of_disjoint (by omega), rd16_wr16 htype]
  · rw [rd16_wr16_of_disjoint (by omega), rd16_wr16_of_disjoint (by omega),
      rd16_wr16 (by decide)]
  · rw [rd16_wr16 (by decide)]
  · rw [rd16_wr16_of_disjoint (by omega), rd16_wr16 hcount]
  · intro i hi
    rw [wr16_of_not_mem (by omega), wr16_of_not_mem (by omega), wr16_of_not_mem (by omega),
      wr16_of_not_mem (by omega)]

/-- A PDU of zeros behind such a header. -/
theorem exists_plainZeros (m : Mem) (a type n : ℕ) (htype : type < 65536) (hn : 12 ≤ n) :
    ∃ m', rd16 m' a = type ∧
      (∀ k, 12 ≤ k → k + 2 ≤ n → rd16 m' (a + k) = 0 ∧ rd8 m' (a + k) = 0) ∧ Misread m' a ∧
      ∀ i, ¬ (a ≤ i ∧ i < a + n) → m' i = m i := by
  let m₁ : Mem := fun i => if a ≤ i ∧ i < a + n then 0 else m i
  obtain ⟨hread, hmisread, -, hsame⟩ := misreadHeader_spec m₁ a htype (show 0 < 65536 by decide)
  have hzero : ∀ i, a + 12 ≤ i → i < a + n →
      misreadHeader m₁ a type 0 i = (fun _ => 0 : Mem) i := by
    intro i hi hin
    rw [hsame i (by omega)]
    exact if_pos ⟨by omega, hin⟩
  refine ⟨misreadHeader m₁ a type 0, hread, ?_, hmisread, ?_⟩
  · intro k hk hkn
    constructor
    · rw [rd16_congr fun i _ _ => hzero i (by omega) (by omega)]
      rfl
    · rw [rd8_congr fun i _ _ => hzero i (by omega) (by omega)]
      rfl
  · intro i hi
    rw [hsame i (by omega)]
    exact if_neg hi

/-- A plain PDU can be stored so that it is misread, if one of its kind can be stored at all. -/
theorem exists_plainAt (hs : s.At m b) (m₀ : Mem) (a : ℕ) :
    ∃ m', s.kind.plain.At m' a ∧ (∀ i, ¬ (a ≤ i ∧ i < a + s.kind.plain.len) → m' i = m₀ i) ∧
      Misread m' a := by
  obtain ⟨hlen, hs⟩ := hs
  cases s with
  | pdcch dcis =>
    obtain ⟨-, hcount, hdcis⟩ := hs
    obtain ⟨m₁, hm₁, hsame₁⟩ := exists_dcisAt (dcis_lt hdcis) m₀ (a + 32)
    obtain ⟨htype, hmisread, hread, hsame⟩ :=
      misreadHeader_spec m₁ a (show 0 < 65536 by decide) (hcount ▸ rd16_lt m _)
    refine ⟨_, ⟨hlen, htype, hread, dcisAt_congr ?_ hm₁⟩, ?_, hmisread⟩
    · intro i _ _
      exact (hsame i (by omega)).symm
    · intro i hi
      simp only [DlPdu.kind, DlKind.plain, DlPdu.len] at hi
      rw [hsame i (by omega), hsame₁ i (by omega)]
  | pdsch pduBitmap numCoresetRMP numCsiRsForRM numPRGs digBFInterfaces =>
    obtain ⟨m', htype, hzeros, hmisread, hsame⟩ :=
      exists_plainZeros m₀ a 1 140 (by decide) (by decide)
    refine ⟨m', ⟨show 140 < 65536 by decide, htype, hmisread.1, ?_, ?_, ?_, ?_⟩, hsame, hmisread⟩
    · exact (hzeros 122 (by decide) (by decide)).2
    · exact (hzeros 123 (by decide) (by decide)).2
    · exact (hzeros 132 (by decide) (by decide)).1
    · exact (hzeros 136 (by decide) (by decide)).2
  | csiRs numPRGs digBFInterfaces =>
    obtain ⟨m', htype, hzeros, hmisread, hsame⟩ :=
      exists_plainZeros m₀ a 2 40 (by decide) (by decide)
    refine ⟨m', ⟨show 40 < 65536 by decide, htype, ?_, ?_⟩, hsame, hmisread⟩
    · exact (hzeros 32 (by decide) (by decide)).1
    · exact (hzeros 36 (by decide) (by decide)).2
  | ssb numPRGs digBFInterfaces =>
    obtain ⟨m', htype, hzeros, hmisread, hsame⟩ :=
      exists_plainZeros m₀ a 3 20 (by decide) (by decide)
    refine ⟨m', ⟨show 20 < 65536 by decide, htype, ?_, ?_⟩, hsame, hmisread⟩
    · exact (hzeros 12 (by decide) (by decide)).1
    · exact (hzeros 16 (by decide) (by decide)).2

theorem exists_fullPdschAt (m₀ : Mem) (a : ℕ) :
    ∃ m', fullPdsch.At m' a ∧ ∀ i, ¬ (a ≤ i ∧ i < a + 160) → m' i = m₀ i := by
  obtain ⟨m₁, htype, hzeros, -, hsame⟩ := exists_plainZeros m₀ a 1 160 (by decide) (by decide)
  have hfree : ∀ k, 12 ≤ k → k + 2 ≤ 160 →
      rd16 (wr16 m₁ (a + 4) 3) (a + k) = 0 ∧ rd8 (wr16 m₁ (a + 4) 3) (a + k) = 0 := by
    intro k hk hkn
    rw [rd16_wr16_of_disjoint (by omega), rd8_congr fun i _ _ => wr16_of_not_mem (by omega)]
    exact hzeros k hk hkn
  refine ⟨wr16 m₁ (a + 4) 3, ⟨by decide, ?_, rd16_wr16 (by decide), ?_, ?_, ?_, ?_⟩, ?_⟩
  · rw [rd16_wr16_of_disjoint (by omega), htype]
  · exact (hfree 122 (by decide) (by decide)).2
  · exact (hfree 123 (by decide) (by decide)).2
  · exact (hfree 152 (by decide) (by decide)).1
  · exact (hfree 156 (by decide) (by decide)).2
  · intro i hi
    rw [wr16_of_not_mem (by omega), hsame i hi]

end Stored

/-- The first PDSCH PDU that stands in front of another PDU. -/
theorem exists_first_pdsch (h : ¬ PdschLast ss) :
    ∃ front p s rest, ss = front ++ p :: s :: rest ∧ p.IsPdsch ∧ ∀ s' ∈ front, ¬ s'.IsPdsch := by
  induction ss with
  | nil => exact absurd (by simp [PdschLast]) h
  | cons p ss ih =>
    cases ss with
    | nil => exact absurd (by simp [PdschLast]) h
    | cons s rest =>
      by_cases hp : p.IsPdsch
      · exact ⟨[], p, s, rest, rfl, hp, by simp⟩
      · obtain ⟨front, p', s', rest', heq, hp', hfront⟩ := ih fun hlast => h (by
          intro s' hs'
          rcases List.mem_cons.mp (by simpa using hs') with rfl | hs'
          · exact hp
          · exact hlast s' hs')
        exact ⟨p :: front, p', s', rest', by rw [heq]; rfl, hp',
          List.forall_mem_cons.mpr ⟨hp, hfront⟩⟩

@[simp] theorem plain_kind (k : DlKind) : k.plain.kind = k := by
  cases k <;> rfl

/-- Plain PDUs of the same kinds. -/
def plains (pdus : List DlPdu) : List DlPdu := pdus.map fun s => s.kind.plain

theorem kinds_plains : (plains ss).map DlPdu.kind = ss.map DlPdu.kind := by
  simp [plains, Function.comp_def]

theorem not_isPdsch_plains (h : ∀ s ∈ ss, ¬ s.IsPdsch) : ∀ s ∈ plains ss, ¬ s.IsPdsch := by
  intro s hs
  obtain ⟨s₀, hs₀, rfl⟩ := List.mem_map.mp hs
  have hnot := h s₀ hs₀
  cases s₀ with
  | pdsch => exact absurd trivial hnot
  | _ => exact hnot

/-- PDUs of the kinds of some that stand in a memory can be stored. -/
theorem exists_plainsAt (h : ∀ s ∈ ss, ∃ b, s.At m b) : ∀ s ∈ plains ss, ∀ (m : Mem) (a : ℕ),
    ∃ m', dlFormat.At m' a s ∧ ∀ i, ¬ (a ≤ i ∧ i < a + dlFormat.len s) → m' i = m i := by
  intro s hs m a
  obtain ⟨s₀, hs₀, rfl⟩ := List.mem_map.mp hs
  obtain ⟨b, hb⟩ := h s₀ hs₀
  obtain ⟨m', hm', hsame, -⟩ := exists_plainAt hb m a
  exact ⟨m', hm', hsame⟩

/-- PDUs of given kinds with a full PDSCH PDU among them, behind which a PDU is misread. They are
written from the last one to the first. -/
theorem exists_misreadAt (hfront : ∀ s ∈ front, ∃ b, s.At m b) (hs : ∃ b, s.At m b)
    (hss : ∀ s ∈ ss, ∃ b, s.At m b) (m₀ : Mem) (a : ℕ) :
    ∃ m', dlFormat.AllAt m' a (plains front ++ fullPdsch :: s.kind.plain :: plains ss) ∧
      Misread m' (a + dlFormat.total (plains front) + 160) ∧ ∀ i < a, m' i = m₀ i := by
  have hstored : ∀ s' ∈ plains front ++ [fullPdsch], ∀ (m : Mem) (a : ℕ), ∃ m',
      dlFormat.At m' a s' ∧ ∀ i, ¬ (a ≤ i ∧ i < a + dlFormat.len s') → m' i = m i := by
    rw [List.forall_mem_append, List.forall_mem_singleton]
    exact ⟨exists_plainsAt hfront, exists_fullPdschAt⟩
  have htotal : dlFormat.total (plains front ++ [fullPdsch]) =
      dlFormat.total (plains front) + 160 := by
    simp [Format.total]
    rfl
  obtain ⟨b, hb⟩ : ∃ b, b = a + dlFormat.total (plains front ++ [fullPdsch]) := ⟨_, rfl⟩
  have hlen : dlFormat.len s.kind.plain = s.kind.plain.len := rfl
  have hend : dlFormat.AllAt m₀ (b + s.kind.plain.len + dlFormat.total (plains ss)) [] := trivial
  obtain ⟨m₁, hrest, hsame₁⟩ := Format.exists_allAt_append (exists_plainsAt hss) hend
  rw [List.append_nil] at hrest
  obtain ⟨bs, hbs⟩ := hs
  obtain ⟨m₂, hs₂, hsame₂, hmisread⟩ := exists_plainAt hbs m₁ b
  have htail : dlFormat.AllAt m₂ b (s.kind.plain :: plains ss) :=
    ⟨hs₂, Format.allAt_congr (fun i hi _ => (hsame₂ i (by omega)).symm) hrest⟩
  rw [hb] at htail
  obtain ⟨m₃, hall, hsame₃⟩ := Format.exists_allAt_append hstored htail
  rw [List.append_assoc, List.singleton_append] at hall
  have hread : ∀ k, rd16 m₃ (b + k) = rd16 m₂ (b + k) := fun k =>
    rd16_congr fun i _ _ => hsame₃ i (by omega)
  refine ⟨m₃, hall, ?_, ?_⟩
  · rw [Nat.add_assoc, ← htotal, ← hb]
    exact ⟨(hread 4).trans hmisread.1, (hread 10).trans hmisread.2⟩
  · intro i hi
    rw [hsame₃ i (by omega), hsame₂ i (by omega), hsame₁ i (by omega)]

/-- Of the kinds of PDUs of any request in which a PDSCH PDU stands in front of another one,
there is a request whose DCIs are not copied once. -/
theorem exists_not_once {r : TtiShape DlPdu} (hm : r.At dlFormat m) (hnot : ¬ PdschLast r.pdus)
    (clock : SlotClock) :
    ∃ (r' : TtiShape DlPdu) (m' : Mem), r'.pdus.map DlPdu.kind = r.pdus.map DlPdu.kind ∧
      r'.At dlFormat m' ∧ ¬ CopiesDcisOnce clock m' r'.pdus := by
  obtain ⟨front, p, s, rest, hpdus, hp, hfront⟩ := exists_first_pdsch hnot
  have hstored : ∀ s' ∈ front ++ p :: s :: rest, ∃ b, s'.At m b := by
    rw [← hpdus]
    exact fun s' hs' => Format.exists_at_of_mem hm.pdus hs'
  have hlength : r.pdus.length < 65536 := by
    rw [← hm.nPDUs]
    exact rd16_lt m 4
  have hstoredFront : ∀ s' ∈ front, ∃ b, s'.At m b := fun s' hs' => hstored s' (by simp [hs'])
  have hstoredRest : ∀ s' ∈ rest, ∃ b, s'.At m b := fun s' hs' => hstored s' (by simp [hs'])
  obtain ⟨m', hall, hmisread, hhead⟩ := exists_misreadAt hstoredFront (hstored s (by simp))
    hstoredRest (wr16 (fun _ => 0) 4 r.pdus.length) 20
  let r' : TtiShape DlPdu := ⟨plains front ++ fullPdsch :: s.kind.plain :: plains rest, []⟩
  have hkinds : r'.pdus.map DlPdu.kind = r.pdus.map DlPdu.kind := by
    have hpdsch : p.kind = fullPdsch.kind := by
      cases p with
      | pdsch => rfl
      | _ => exact hp.elim
    simp [r', hpdus, kinds_plains, hpdsch]
  have hat : r'.At dlFormat m' := by
    refine ⟨?_, ?_, hall, trivial⟩
    · have hcount : r'.pdus.length = r.pdus.length := by simpa using congrArg List.length hkinds
      rw [rd16_congr fun i _ _ => hhead i (by omega), hcount, rd16_wr16 hlength]
    · rw [rd8_congr fun i _ _ => hhead i (by omega),
        rd8_congr fun i _ _ => wr16_of_not_mem (by omega)]
      rfl
  refine ⟨r', m', hkinds, hat, ?_⟩
  rintro ⟨rounds, out, blocks, -, hblocks, honce⟩
  have hstamp := hat.stamp clock.gMacTxRfn clock.gMacTxSlot
  have hfree : ∀ k,
      rd16 (stamp m' 0 clock.gMacTxRfn clock.gMacTxSlot) (20 + k) = rd16 m' (20 + k) := by
    intro k
    exact rd16_congr fun i _ _ => stamp_of_not_mem (.inr (by omega))
  rw [dlttiBlocks, hstamp.nPDUs] at hblocks
  refine not_once_misread hstamp.pdus (not_isPdsch_plains hfront) ⟨?_, ?_⟩ hblocks honce
  · rw [Nat.add_assoc, Nat.add_assoc, hfree, ← Nat.add_assoc, ← Nat.add_assoc]
    exact hmisread.1
  · rw [Nat.add_assoc, Nat.add_assoc, hfree, ← Nat.add_assoc, ← Nat.add_assoc]
    exact hmisread.2

variable {r : TtiShape DlPdu} {clock : SlotClock}

theorem isSome_dlttiParams (dltti : Mem) :
    (dlttiParams rounds clock dltti).isSome = (dlttiBlocks rounds clock dltti).isSome := by
  rw [dlttiBlocks, ← isSome_serialise, dlttiParams, ttiParams]
  dsimp only
  split
  · simp [*]
  · simp [*]

/-- Of a request in which no PDSCH PDU stands in front of another PDU, the DCIs are copied once
exactly when they are in place. -/
theorem once_iff (hm : r.At dlFormat m) (hlast : PdschLast r.pdus) :
    CopiesDcisOnce clock m r.pdus ↔ ∀ s ∈ r.pdus, DlPdu.DcisInPlace s.dcis := by
  have hat := hm.stamp clock.gMacTxRfn clock.gMacTxSlot
  constructor
  · rintro ⟨rounds, out, blocks, -, hblocks, honce⟩
    rw [dlttiBlocks, hat.nPDUs] at hblocks
    exact inPlace_of_once hat.pdus hlast hblocks honce
  · intro hplace
    obtain ⟨blocks, hrun, hcopies⟩ := once_of_inPlace hat.pdus hlast hplace
    have hblocks : dlttiBlocks 2 clock m = some blocks := by
      rw [dlttiBlocks, hat.nPDUs]
      exact hrun
    have hends : (dlttiParams 2 clock m).isSome = true := by
      rw [isSome_dlttiParams, hblocks]
      rfl
    obtain ⟨out, hout⟩ := Option.isSome_iff_exists.mp hends
    exact ⟨2, out, blocks, hout, hblocks, List.Perm.of_eq hcopies⟩

/-- Which PDUs are PDSCH PDUs, and what DCIs they have, is given by their kinds. -/
theorem kinds_congr {ss' : List DlPdu} (h : ss'.map DlPdu.kind = ss.map DlPdu.kind) :
    (PdschLast ss' ↔ PdschLast ss) ∧
      ((∀ s ∈ ss', DlPdu.DcisInPlace s.dcis) ↔ ∀ s ∈ ss, DlPdu.DcisInPlace s.dcis) := by
  have hpdsch : ∀ s : DlPdu, s.IsPdsch ↔ s.kind.plain.IsPdsch := by
    intro s
    cases s <;> exact Iff.rfl
  have hdcis : ∀ s : DlPdu, s.dcis = s.kind.plain.dcis := by
    intro s
    cases s <;> rfl
  have hlast : ∀ l : List DlPdu,
      PdschLast l ↔ ∀ k ∈ (l.map DlPdu.kind).dropLast, ¬ k.plain.IsPdsch := by
    intro l
    rw [PdschLast, ← List.map_dropLast, List.forall_mem_map]
    exact forall₂_congr fun s _ => not_congr (hpdsch s)
  have hplace : ∀ l : List DlPdu, (∀ s ∈ l, DlPdu.DcisInPlace s.dcis) ↔
      ∀ k ∈ l.map DlPdu.kind, DlPdu.DcisInPlace k.plain.dcis := by
    intro l
    rw [List.forall_mem_map]
    exact forall₂_congr fun s _ => by rw [hdcis s]
  rw [hlast, hlast, hplace, hplace, h]
  exact ⟨Iff.rfl, Iff.rfl⟩

/-- `DlttiParams` ends and copies each DCI of each PDCCH PDU exactly once, for all requests
whose PDUs are of the same kinds, if and only if the DCIs of every PDCCH PDU are in place and
no PDSCH PDU stands in front of another PDU. As long as none does, it is so of every single
request. Its other loops, whose bounds are numbers of 16 or 8 bits in the request, always
end. -/
theorem dlttiParams_once_iff (clock : SlotClock) (hm : r.At dlFormat m) :
    (∀ (m : Mem) (addr src stride : ℕ),
      rowLoop (rd16 m addr) stride 65536 0 src = some (row src stride (rd16 m addr)) ∧
      rowLoop (rd8 m addr) stride 65536 0 src = some (row src stride (rd8 m addr))) ∧
    (PdschLast r.pdus →
      (CopiesDcisOnce clock m r.pdus ↔ ∀ s ∈ r.pdus, DlPdu.DcisInPlace s.dcis)) ∧
    ((∀ (r' : TtiShape DlPdu) (m' : Mem), r'.pdus.map DlPdu.kind = r.pdus.map DlPdu.kind →
        r'.At dlFormat m' → CopiesDcisOnce clock m' r'.pdus) ↔
      PdschLast r.pdus ∧ ∀ s ∈ r.pdus, DlPdu.DcisInPlace s.dcis) := by
  refine ⟨?_, once_iff hm, ?_⟩
  · intro m addr src stride
    have h16 := rd16_lt m addr
    have h8 := rd8_lt m addr
    exact ⟨rowLoop_eq_row h16 h16.le, rowLoop_eq_row (by omega) (by omega)⟩
  · constructor
    · intro hall
      have hlast : PdschLast r.pdus := by
        by_contra hnot
        obtain ⟨r', m', hkinds, hat, hnot'⟩ := exists_not_once hm hnot clock
        exact hnot' (hall r' m' hkinds hat)
      exact ⟨hlast, (once_iff hm hlast).mp (hall r m rfl hm)⟩
    · rintro ⟨hlast, hplace⟩ r' m' hkinds hat
      obtain ⟨hlast', hplace'⟩ := kinds_congr hkinds
      exact (once_iff hat (hlast'.mpr hlast)).mpr (hplace'.mpr hplace)

/-- A request of a PDCCH PDU with two DCIs, the second of which has one beam, an SSB PDU, and a
PDSCH PDU. -/
def mixedRequest : Mem := fun i =>
  if i = 4 ∨ i = 142 then 3 else if i = 26 then 2 else if i = 136 ∨ i = 162 then 1 else 0

/-- Each of its two DCIs is copied once. -/
theorem dlttiParams_once_two_dcis :
    CopiesDcisOnce zeroClock mixedRequest
      [.pdcch [⟨0, 0⟩, ⟨0, 1⟩], .ssb 0 0, .pdsch 0 0 0 0 0] := by
  have hpdcch : (DlPdu.pdcch [⟨0, 0⟩, ⟨0, 1⟩]).At mixedRequest 20 :=
    ⟨by decide, by decide +kernel, by decide +kernel, by decide +kernel, by decide +kernel,
      by decide +kernel, by decide +kernel, trivial⟩
  have hssb : (DlPdu.ssb 0 0).At mixedRequest 142 :=
    ⟨by decide, by decide +kernel, by decide +kernel, by decide +kernel⟩
  have hpdsch : (DlPdu.pdsch 0 0 0 0 0).At mixedRequest 162 :=
    ⟨by decide, by decide +kernel, by decide +kernel, by decide +kernel, by decide +kernel,
      by decide +kernel, by decide +kernel⟩
  have hat : (⟨[.pdcch [⟨0, 0⟩, ⟨0, 1⟩], .ssb 0 0, .pdsch 0 0 0 0 0], []⟩ :
      TtiShape DlPdu).At dlFormat mixedRequest :=
    ⟨by decide +kernel, by decide +kernel, ⟨hpdcch, hssb, hpdsch, trivial⟩, trivial⟩
  refine ((dlttiParams_once_iff zeroClock hat).2.1 ?_).mpr ?_
  · intro s hs
    rcases List.mem_pair.mp hs with rfl | rfl
    · exact id
    · exact id
  · intro s hs
    rcases List.mem_cons.mp hs with rfl | hs
    · exact ⟨rfl, rfl, by decide⟩
    · rcases List.mem_pair.mp hs with rfl | rfl
      · exact trivial
      · exact trivial

/-- A request of one PDCCH PDU with two DCIs without beams. -/
def beamlessRequest : Mem := fun i => if i = 4 then 1 else if i = 26 then 2 else 0

/-- For two DCIs without beams the loop does not end. -/
theorem dlttiParams_forever :
    (⟨[.pdcch [⟨0, 0⟩, ⟨0, 0⟩]], []⟩ : TtiShape DlPdu).At dlFormat beamlessRequest ∧
      ∀ rounds, dlttiParams rounds zeroClock beamlessRequest = none := by
  have hpdcch : (DlPdu.pdcch [⟨0, 0⟩, ⟨0, 0⟩]).At beamlessRequest 20 :=
    ⟨by decide, by decide +kernel, by decide +kernel, by decide +kernel, by decide +kernel,
      by decide +kernel, by decide +kernel, trivial⟩
  refine ⟨⟨by decide +kernel, by decide +kernel, ⟨hpdcch, trivial⟩, trivial⟩, ?_⟩
  intro rounds
  have hone : rd16 (stamp beamlessRequest 0 0 0) 4 = 1 := by decide +kernel
  have htype : rd16 (stamp beamlessRequest 0 0 0) 20 = 0 := by decide +kernel
  have hnum : rd16 (stamp beamlessRequest 0 0 0) 26 = 2 := by decide +kernel
  have hloop : dlDcis (stamp beamlessRequest 0 0 0) 52 2 rounds 0 52 = none := by
    cases rounds with
    | zero => rfl
    | succ rounds =>
      have hdig : rd8 (stamp beamlessRequest 0 0 0) (52 + 44 * 0 + 40) = 0 := by decide +kernel
      rw [dlDcis_round (by omega), hdig, dlDcis_forever (by omega) (by decide +kernel),
        Option.map_none]
  have hpdu : dlPdu rounds (stamp beamlessRequest 0 0 0) 20 = none := by
    rw [dlPdu_of_type htype, hnum, hloop, Option.map_none]
  simp only [dlttiParams, ttiParams, zeroClock, hone, serialise, hpdu]

end TestMac

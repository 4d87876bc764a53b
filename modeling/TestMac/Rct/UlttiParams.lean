import TestMac.Rct.TtiParams

/-!
# The serialiser of UL_TTI requests: `UlttiParams`

The PDUs of a request are packed one after the other, and so are the optional blocks of a
PUSCH PDU. The serialiser finds the PDUs by a running offset, but the blocks of a PUSCH
PDU by the members of `L1PuschPduInfo_t`, where all blocks are present and have no
variable part. The two agree only for some PDUs.
-/

namespace TestMac

open Bytes Block

/-- `L1Uci1ToUci2Info_t` with its part 2 types. -/
def uci1ToUci2Info (m : Mem) (info : ℕ) : List Block := ⟨info, 4⟩ :: row (info + 4) 20 (rd16 m info)

/-- `puschData`, when the bitmap says so. -/
def puschData (pduBitmap pusch : ℕ) : List Block :=
  if pduBitmap &&& 1 ≠ 0 then [⟨pusch + 112, 140⟩] else []

/-- `puschUci`, when the bitmap says so. -/
def puschUci (m : Mem) (pduBitmap pusch : ℕ) : List Block :=
  if pduBitmap &&& 2 ≠ 0 then ⟨pusch + 252, 12⟩ :: uci1ToUci2Info m (pusch + 264) else []

/-- `puschPtrs` with its ports, when the bitmap says so. -/
def puschPtrs (m : Mem) (pduBitmap pusch : ℕ) : List Block :=
  if pduBitmap &&& 4 ≠ 0 then ⟨pusch + 268, 4⟩ :: row (pusch + 272) 4 (rd8 m (pusch + 271)) else []

/-- `dftsOfdm`, when the bitmap says so. -/
def dftsOfdm (pduBitmap pusch : ℕ) : List Block :=
  if pduBitmap &&& 8 ≠ 0 then [⟨pusch + 272, 8⟩] else []

/-- The case `PUSCH_PDU`. -/
def puschPdu (m : Mem) (pusch : ℕ) : List Block :=
  let pduBitmap := rd16 m (pusch + 4)
  ⟨pusch, 112⟩ :: (puschData pduBitmap pusch ++ puschUci m pduBitmap pusch ++
    puschPtrs m pduBitmap pusch ++ dftsOfdm pduBitmap pusch)

/-- The blocks that `UlttiParams` copies of the PDU at an offset, behind its header. -/
def ulPdu (m : Mem) (offset : ℕ) : List Block :=
  match rd16 m offset with
  | 0 => [⟨offset + 4, 24⟩] -- PRACH_PDU
  | 1 => puschPdu m (offset + 4)
  | 2 => ⟨offset + 4, 52⟩ :: ⟨offset + 56, 4⟩ :: uci1ToUci2Info m (offset + 60) -- PUCCH_PDU
  | 3 => [⟨offset + 4, 56⟩] -- SRS_PDU
  | _ => []

/-- `UlttiParams`. -/
def ulttiParams (clock : SlotClock) (ultti : Mem) : Option (Mem × List UInt8) :=
  ttiParams (fun m offset => some (ulPdu m offset)) clock.gMacRxRfn clock.gMacRxSlot ultti

/-- The shape of a PDU: its type and the numbers that give its packed length. -/
inductive UlPdu
  | prach
  | pusch (pduBitmap numPart2Types numPtrsPorts : ℕ)
  | pucch (numPart2Types : ℕ)
  | srs

namespace UlPdu

/-- The packed lengths of the optional blocks of a PUSCH PDU. -/
def dataLen (pduBitmap : ℕ) : ℕ := if pduBitmap &&& 1 ≠ 0 then 140 else 0

def uciLen (pduBitmap numPart2Types : ℕ) : ℕ :=
  if pduBitmap &&& 2 ≠ 0 then 16 + 20 * numPart2Types else 0

def ptrsLen (pduBitmap numPtrsPorts : ℕ) : ℕ :=
  if pduBitmap &&& 4 ≠ 0 then 4 + 4 * numPtrsPorts else 0

def dftsLen (pduBitmap : ℕ) : ℕ := if pduBitmap &&& 8 ≠ 0 then 8 else 0

/-- The packed length of a PDU, its header included. -/
def len : UlPdu → ℕ
  | .prach => 28
  | .pusch pduBitmap numPart2Types numPtrsPorts => 116 + dataLen pduBitmap +
    uciLen pduBitmap numPart2Types + ptrsLen pduBitmap numPtrsPorts + dftsLen pduBitmap
  | .pucch numPart2Types => 64 + 20 * numPart2Types
  | .srs => 60

/-- The memory holds a packed PDU of the shape. -/
def At (m : Mem) (a : ℕ) : UlPdu → Prop
  | .prach => rd16 m a = 0
  | .pusch pduBitmap numPart2Types numPtrsPorts =>
    rd16 m a = 1 ∧ rd16 m (a + 8) = pduBitmap ∧
      (pduBitmap &&& 2 ≠ 0 → rd16 m (a + 116 + dataLen pduBitmap + 12) = numPart2Types) ∧
      (pduBitmap &&& 4 ≠ 0 → rd8 m (a + 116 + dataLen pduBitmap +
        uciLen pduBitmap numPart2Types + 3) = numPtrsPorts)
  | .pucch numPart2Types => rd16 m a = 2 ∧ rd16 m (a + 60) = numPart2Types
  | .srs => rd16 m a = 3

/-- The blocks of a PUSCH PDU are packed where the members of its structure are. -/
def InPlace : UlPdu → Prop
  | .pusch pduBitmap numPart2Types numPtrsPorts =>
    (pduBitmap &&& 2 ≠ 0 → pduBitmap &&& 1 ≠ 0) ∧
    (pduBitmap &&& 4 ≠ 0 → pduBitmap &&& 1 ≠ 0 ∧ pduBitmap &&& 2 ≠ 0 ∧ numPart2Types = 0) ∧
    (pduBitmap &&& 8 ≠ 0 → pduBitmap &&& 1 ≠ 0 ∧ pduBitmap &&& 2 ≠ 0 ∧ numPart2Types = 0 ∧
      pduBitmap &&& 4 ≠ 0 ∧ numPtrsPorts = 0)
  | _ => True

end UlPdu

namespace UlPdu

theorem at_congr {m m' : Mem} {a : ℕ} {s : UlPdu}
    (h : ∀ i, a ≤ i → i < a + s.len → i ≠ a + 2 → i ≠ a + 3 → m i = m' i) (hm : s.At m a) :
    s.At m' a := by
  have hrd : ∀ k, k + 2 ≤ s.len → (k = 0 ∨ 4 ≤ k) → rd16 m' (a + k) = rd16 m (a + k) :=
    fun k hk hk' => rd16_congr fun i _ _ => (h i (by omega) (by omega) (by omega) (by omega)).symm
  have hrd8 : ∀ k, k + 1 ≤ s.len → 4 ≤ k → rd8 m' (a + k) = rd8 m (a + k) := fun k hk hk' =>
    rd8_congr fun i _ _ => (h i (by omega) (by omega) (by omega) (by omega)).symm
  cases s with
  | prach => exact (hrd 0 (by simp [len]) (.inl rfl)).trans hm
  | srs => exact (hrd 0 (by simp [len]) (.inl rfl)).trans hm
  | pucch numPart2Types =>
    obtain ⟨htype, hnum⟩ := hm
    have hlen : len (.pucch numPart2Types) = 64 + 20 * numPart2Types := rfl
    exact ⟨(hrd 0 (by omega) (.inl rfl)).trans htype,
      (hrd 60 (by omega) (.inr (by omega))).trans hnum⟩
  | pusch pduBitmap numPart2Types numPtrsPorts =>
    obtain ⟨htype, hbitmap, huci, hptrs⟩ := hm
    have hlen : len (.pusch pduBitmap numPart2Types numPtrsPorts) = 116 + dataLen pduBitmap +
      uciLen pduBitmap numPart2Types + ptrsLen pduBitmap numPtrsPorts + dftsLen pduBitmap := rfl
    refine ⟨(hrd 0 (by omega) (.inl rfl)).trans htype,
      (hrd 8 (by omega) (.inr (by omega))).trans hbitmap, ?_, ?_⟩
    · intro hbit
      have huciLen : uciLen pduBitmap numPart2Types = 16 + 20 * numPart2Types := if_pos hbit
      rw [← huci hbit, Nat.add_assoc a, Nat.add_assoc a]
      exact hrd _ (by omega) (.inr (by omega))
    · intro hbit
      have hptrsLen : ptrsLen pduBitmap numPtrsPorts = 4 + 4 * numPtrsPorts := if_pos hbit
      rw [← hptrs hbit, Nat.add_assoc a, Nat.add_assoc a, Nat.add_assoc a]
      exact hrd8 _ (by omega) (by omega)

end UlPdu

/-- Packed UL PDUs. -/
def ulFormat : Format UlPdu where
  len := UlPdu.len
  At := fun m a s => s.At m a
  four_le := by
    intro s
    cases s <;> simp only [UlPdu.len] <;> omega
  congr := UlPdu.at_congr

section Pusch

variable {m m' : Mem} {a pusch pduBitmap numPart2Types numPtrsPorts : ℕ}

theorem chained_uci1ToUci2Info (m : Mem) (a : ℕ) : Chained a (uci1ToUci2Info m a) :=
  ⟨rfl, chained_row _ _ _⟩

@[simp] theorem total_uci1ToUci2Info (m : Mem) (a : ℕ) :
    Block.total (uci1ToUci2Info m a) = 4 + 20 * rd16 m a := by
  simp [uci1ToUci2Info]

theorem total_puschData : Block.total (puschData pduBitmap pusch) = UlPdu.dataLen pduBitmap := by
  unfold puschData UlPdu.dataLen
  split_ifs <;> rfl

theorem chained_puschData : Chained (pusch + 112) (puschData pduBitmap pusch) := by
  unfold puschData
  split_ifs
  · exact ⟨rfl, trivial⟩
  · trivial

theorem total_puschUci : Block.total (puschUci m pduBitmap pusch) =
    UlPdu.uciLen pduBitmap (rd16 m (pusch + 264)) := by
  unfold puschUci UlPdu.uciLen
  split_ifs
  · simp only [total_cons, total_uci1ToUci2Info]
    omega
  · rfl

theorem chained_puschUci (h : pduBitmap &&& 2 ≠ 0 → pduBitmap &&& 1 ≠ 0) :
    Chained (pusch + 112 + UlPdu.dataLen pduBitmap) (puschUci m pduBitmap pusch) := by
  unfold puschUci
  split_ifs with hbit
  · rw [UlPdu.dataLen, if_pos (h hbit)]
    exact ⟨rfl, chained_uci1ToUci2Info m _⟩
  · trivial

theorem total_puschPtrs : Block.total (puschPtrs m pduBitmap pusch) =
    UlPdu.ptrsLen pduBitmap (rd8 m (pusch + 271)) := by
  unfold puschPtrs UlPdu.ptrsLen
  split_ifs
  · simp
  · rfl

theorem chained_puschPtrs (h : pduBitmap &&& 4 ≠ 0 → pduBitmap &&& 1 ≠ 0 ∧ pduBitmap &&& 2 ≠ 0 ∧
      numPart2Types = 0) :
    Chained (pusch + 112 + UlPdu.dataLen pduBitmap + UlPdu.uciLen pduBitmap numPart2Types)
      (puschPtrs m pduBitmap pusch) := by
  unfold puschPtrs
  split_ifs with hbit
  · obtain ⟨hdata, huci, hnum⟩ := h hbit
    rw [UlPdu.dataLen, if_pos hdata, UlPdu.uciLen, if_pos huci, hnum]
    exact ⟨rfl, chained_row _ _ _⟩
  · trivial

theorem chained_dftsOfdm (h : pduBitmap &&& 8 ≠ 0 → pduBitmap &&& 1 ≠ 0 ∧ pduBitmap &&& 2 ≠ 0 ∧
      numPart2Types = 0 ∧ pduBitmap &&& 4 ≠ 0 ∧ numPtrsPorts = 0) :
    Chained (pusch + 112 + UlPdu.dataLen pduBitmap + UlPdu.uciLen pduBitmap numPart2Types +
      UlPdu.ptrsLen pduBitmap numPtrsPorts) (dftsOfdm pduBitmap pusch) := by
  unfold dftsOfdm
  split_ifs with hbit
  · obtain ⟨hdata, huci, hnum, hptrs, hports⟩ := h hbit
    rw [UlPdu.dataLen, if_pos hdata, UlPdu.uciLen, if_pos huci, hnum, UlPdu.ptrsLen, if_pos hptrs,
      hports]
    exact ⟨rfl, trivial⟩
  · trivial

theorem total_dftsOfdm : Block.total (dftsOfdm pduBitmap pusch) = UlPdu.dftsLen pduBitmap := by
  unfold dftsOfdm UlPdu.dftsLen
  split_ifs <;> rfl

theorem puschUci_congr {m m' : Mem} (h : rd16 m' (pusch + 264) = rd16 m (pusch + 264)) :
    puschUci m' pduBitmap pusch = puschUci m pduBitmap pusch := by
  simp only [puschUci, uci1ToUci2Info, h]

theorem puschPtrs_congr {m m' : Mem} (h : rd8 m' (pusch + 271) = rd8 m (pusch + 271)) :
    puschPtrs m' pduBitmap pusch = puschPtrs m pduBitmap pusch := by
  simp only [puschPtrs, h]

/-- The number of part 2 types is read where it is packed, when the data are present. -/
theorem uciLen_eq (hm : (UlPdu.pusch pduBitmap numPart2Types numPtrsPorts).At m a)
    (h : pduBitmap &&& 2 ≠ 0 → pduBitmap &&& 1 ≠ 0) :
    UlPdu.uciLen pduBitmap (rd16 m (a + 4 + 264)) = UlPdu.uciLen pduBitmap numPart2Types := by
  obtain ⟨-, -, huci, -⟩ := hm
  unfold UlPdu.uciLen
  split_ifs with hbit
  · have hnum := huci hbit
    rw [UlPdu.dataLen, if_pos (h hbit)] at hnum
    rw [← hnum]
  · rfl

/-- The number of ports is read where it is packed, when data and UCI without part 2 are
present. -/
theorem ptrsLen_eq (hm : (UlPdu.pusch pduBitmap numPart2Types numPtrsPorts).At m a)
    (h : pduBitmap &&& 4 ≠ 0 → pduBitmap &&& 1 ≠ 0 ∧ pduBitmap &&& 2 ≠ 0 ∧ numPart2Types = 0) :
    UlPdu.ptrsLen pduBitmap (rd8 m (a + 4 + 271)) = UlPdu.ptrsLen pduBitmap numPtrsPorts := by
  obtain ⟨-, -, -, hptrs⟩ := hm
  unfold UlPdu.ptrsLen
  split_ifs with hbit
  · obtain ⟨hdata, huci, hnum⟩ := h hbit
    have hports := hptrs hbit
    rw [UlPdu.dataLen, if_pos hdata, UlPdu.uciLen, if_pos huci, hnum] at hports
    rw [← hports]
  · rfl

/-- The blocks of a PUSCH PDU up to the UCI. -/
theorem chained_upToUci (hm : (UlPdu.pusch pduBitmap numPart2Types numPtrsPorts).At m a)
    (h : pduBitmap &&& 2 ≠ 0 → pduBitmap &&& 1 ≠ 0) :
    Chained (a + 4) (⟨a + 4, 112⟩ ::
        (puschData pduBitmap (a + 4) ++ puschUci m pduBitmap (a + 4))) ∧
      Block.total (⟨a + 4, 112⟩ :: (puschData pduBitmap (a + 4) ++ puschUci m pduBitmap (a + 4))) =
        112 + UlPdu.dataLen pduBitmap + UlPdu.uciLen pduBitmap numPart2Types := by
  constructor
  · rw [chained_cons, chained_append, total_puschData]
    exact ⟨rfl, chained_puschData, chained_puschUci h⟩
  · rw [total_cons, total_append, total_puschData, total_puschUci, uciLen_eq hm h, Nat.add_assoc]

/-- The blocks of a PUSCH PDU up to the ports of PTRS. -/
theorem chained_upToPtrs (hm : (UlPdu.pusch pduBitmap numPart2Types numPtrsPorts).At m a)
    (h : pduBitmap &&& 2 ≠ 0 → pduBitmap &&& 1 ≠ 0)
    (h' : pduBitmap &&& 4 ≠ 0 → pduBitmap &&& 1 ≠ 0 ∧ pduBitmap &&& 2 ≠ 0 ∧ numPart2Types = 0) :
    Chained (a + 4) (⟨a + 4, 112⟩ :: (puschData pduBitmap (a + 4) ++
        puschUci m pduBitmap (a + 4) ++ puschPtrs m pduBitmap (a + 4))) ∧
      Block.total (⟨a + 4, 112⟩ :: (puschData pduBitmap (a + 4) ++
        puschUci m pduBitmap (a + 4) ++ puschPtrs m pduBitmap (a + 4))) =
        112 + UlPdu.dataLen pduBitmap + UlPdu.uciLen pduBitmap numPart2Types +
          UlPdu.ptrsLen pduBitmap numPtrsPorts := by
  obtain ⟨hchained, htotal⟩ := chained_upToUci hm h
  constructor
  · rw [← List.cons_append, chained_append, htotal, ← Nat.add_assoc, ← Nat.add_assoc]
    exact ⟨hchained, chained_puschPtrs h'⟩
  · rw [← List.cons_append, total_append, htotal, total_puschPtrs, ptrsLen_eq hm h']

theorem ulPdu_pusch (hm : (UlPdu.pusch pduBitmap numPart2Types numPtrsPorts).At m a) :
    ulPdu m a = ⟨a + 4, 112⟩ :: (puschData pduBitmap (a + 4) ++ puschUci m pduBitmap (a + 4) ++
      puschPtrs m pduBitmap (a + 4) ++ dftsOfdm pduBitmap (a + 4)) := by
  rw [ulPdu, hm.1]
  simp only [puschPdu, hm.2.1]

end Pusch

variable {m : Mem} {a : ℕ} {s : UlPdu}

/-- A PDU whose blocks are in place is copied whole. -/
theorem ulPdu_copiedWhole (hm : s.At m a) (hs : s.InPlace) :
    ulFormat.CopiedWhole a s (ulPdu m a) := by
  cases s with
  | prach =>
    rw [ulPdu, show rd16 m a = 0 from hm]
    exact ⟨⟨rfl, trivial⟩, rfl⟩
  | srs =>
    rw [ulPdu, show rd16 m a = 3 from hm]
    exact ⟨⟨rfl, trivial⟩, rfl⟩
  | pucch numPart2Types =>
    obtain ⟨htype, hnum⟩ := hm
    rw [ulPdu, htype]
    refine ⟨⟨rfl, rfl, chained_uci1ToUci2Info m (a + 60)⟩, ?_⟩
    simp only [total_cons, total_uci1ToUci2Info, hnum, ulFormat, UlPdu.len]
    omega
  | pusch pduBitmap numPart2Types numPtrsPorts =>
    obtain ⟨huci, hptrs, hdfts⟩ := hs
    obtain ⟨hchained, htotal⟩ := chained_upToPtrs hm huci hptrs
    rw [ulPdu_pusch hm, ← List.cons_append]
    constructor
    · rw [chained_append, htotal, ← Nat.add_assoc, ← Nat.add_assoc, ← Nat.add_assoc]
      exact ⟨hchained, chained_dftsOfdm hdfts⟩
    · rw [total_append, htotal, total_dftsOfdm]
      simp only [ulFormat, UlPdu.len]
      omega

/-- A PUSCH PDU stays one of its shape when a byte changes that is none of its numbers. -/
theorem UlPdu.at_of_pusch {m m' : Mem} {pduBitmap numPart2Types numPtrsPorts dst : ℕ}
    (hm : (UlPdu.pusch pduBitmap numPart2Types numPtrsPorts).At m a)
    (hsame : ∀ i, i ≠ dst → m' i = m i) (hdst : a + 116 ≤ dst)
    (huci : pduBitmap &&& 2 ≠ 0 → dst ≠ a + 116 + dataLen pduBitmap + 12 ∧
      dst ≠ a + 116 + dataLen pduBitmap + 13)
    (hptrs : pduBitmap &&& 4 ≠ 0 →
      dst ≠ a + 116 + dataLen pduBitmap + uciLen pduBitmap numPart2Types + 3) :
    (UlPdu.pusch pduBitmap numPart2Types numPtrsPorts).At m' a := by
  obtain ⟨htype, hbitmap, hnum, hports⟩ := hm
  refine ⟨?_, ?_, ?_, ?_⟩
  · rw [← htype, rd16_congr fun i _ _ => hsame i (by omega)]
  · rw [← hbitmap, rd16_congr fun i _ _ => hsame i (by omega)]
  · intro hbit
    obtain ⟨h₁, h₂⟩ := huci hbit
    rw [← hnum hbit, rd16_congr fun i _ _ => hsame i (by omega)]
  · intro hbit
    have h₁ := hptrs hbit
    rw [← hports hbit, rd8_congr fun i _ _ => hsame i (by omega)]

/-- The serialiser of PDUs, which needs nothing besides. -/
def ulPdus (_ : Unit) (m : Mem) (offset : ℕ) : Option (List Block) := some (ulPdu m offset)

/-- Some content of a PDU, of the same shape, is copied wrongly. -/
def UlPdu.MayGoWrong (m : Mem) (a : ℕ) (s : UlPdu) : Prop :=
  ∃ m' : Mem, ulFormat.At m' a s ∧ (∀ i, ¬ (a + 4 ≤ i ∧ i < a + ulFormat.len s) → m' i = m i) ∧
    ∀ f blocks, ulPdus f m' a = some blocks → ulFormat.CopiedWrong m' a s blocks

section Misplaced

variable {pduBitmap numPart2Types numPtrsPorts : ℕ}

theorem dataLen_cases (pduBitmap : ℕ) :
    pduBitmap &&& 1 ≠ 0 ∧ UlPdu.dataLen pduBitmap = 140 ∨
      ¬ pduBitmap &&& 1 ≠ 0 ∧ UlPdu.dataLen pduBitmap = 0 := by
  unfold UlPdu.dataLen
  split_ifs with hbit
  · exact .inl ⟨hbit, rfl⟩
  · exact .inr ⟨hbit, rfl⟩

theorem uciLen_cases (pduBitmap numPart2Types : ℕ) :
    pduBitmap &&& 2 ≠ 0 ∧ UlPdu.uciLen pduBitmap numPart2Types = 16 + 20 * numPart2Types ∨
      ¬ pduBitmap &&& 2 ≠ 0 ∧ UlPdu.uciLen pduBitmap numPart2Types = 0 := by
  unfold UlPdu.uciLen
  split_ifs with hbit
  · exact .inl ⟨hbit, rfl⟩
  · exact .inr ⟨hbit, rfl⟩

theorem ptrsLen_cases (pduBitmap numPtrsPorts : ℕ) :
    pduBitmap &&& 4 ≠ 0 ∧ UlPdu.ptrsLen pduBitmap numPtrsPorts = 4 + 4 * numPtrsPorts ∨
      ¬ pduBitmap &&& 4 ≠ 0 ∧ UlPdu.ptrsLen pduBitmap numPtrsPorts = 0 := by
  unfold UlPdu.ptrsLen
  split_ifs with hbit
  · exact .inl ⟨hbit, rfl⟩
  · exact .inr ⟨hbit, rfl⟩

/-- The UCI without data: they are copied from behind the place of the data. -/
theorem mayGoWrong_uci (hm : (UlPdu.pusch pduBitmap numPart2Types numPtrsPorts).At m a)
    (hbit : pduBitmap &&& 2 ≠ 0) (hnodata : ¬ pduBitmap &&& 1 ≠ 0) :
    (UlPdu.pusch pduBitmap numPart2Types numPtrsPorts).MayGoWrong m a := by
  have huciLen := uciLen_cases pduBitmap numPart2Types
  refine Format.exists_copiedWrong (b := ⟨a + 4 + 252, 12⟩) (p := [⟨a + 4, 112⟩])
    (Nat.succ_pos _) ?_ ?_ ?_
  · simp
  · simp only [total_cons, total_nil, ulFormat, UlPdu.len]
    omega
  · simp only [total_cons, total_nil]
    intro m' hsame
    have hm' := UlPdu.at_of_pusch hm hsame (by omega) (by omega) (by omega)
    refine ⟨hm', ?_⟩
    rintro _ blocks hblocks
    refine ⟨uci1ToUci2Info m' (a + 4 + 264) ++ puschPtrs m' pduBitmap (a + 4) ++
      dftsOfdm pduBitmap (a + 4), ?_⟩
    rw [← Option.some.inj hblocks, ulPdu_pusch hm', puschUci, if_pos hbit, puschData,
      if_neg hnodata]
    simp

/-- PTRS that are not behind data and UCI without part 2. -/
theorem mayGoWrong_ptrs (hm : (UlPdu.pusch pduBitmap numPart2Types numPtrsPorts).At m a)
    (huci : pduBitmap &&& 2 ≠ 0 → pduBitmap &&& 1 ≠ 0) (hbit : pduBitmap &&& 4 ≠ 0)
    (hptrs : ¬ (pduBitmap &&& 1 ≠ 0 ∧ pduBitmap &&& 2 ≠ 0 ∧ numPart2Types = 0)) :
    (UlPdu.pusch pduBitmap numPart2Types numPtrsPorts).MayGoWrong m a := by
  obtain ⟨-, htotal⟩ := chained_upToUci hm huci
  have hdataLen := dataLen_cases pduBitmap
  have huciLen := uciLen_cases pduBitmap numPart2Types
  have hptrsLen := ptrsLen_cases pduBitmap numPtrsPorts
  have hplace : UlPdu.dataLen pduBitmap + UlPdu.uciLen pduBitmap numPart2Types ≠ 156 := by
    rcases hdataLen with ⟨h₁, hd⟩ | ⟨h₁, hd⟩
    · rcases huciLen with ⟨h₂, hu⟩ | ⟨-, hu⟩
      · have hnum : numPart2Types ≠ 0 := fun hnum => hptrs ⟨h₁, h₂, hnum⟩
        omega
      · omega
    · rcases huciLen with ⟨h₂, -⟩ | ⟨-, hu⟩
      · exact absurd (huci h₂) h₁
      · omega
  refine Format.exists_copiedWrong (b := ⟨a + 4 + 268, 4⟩) (p := ⟨a + 4, 112⟩ ::
    (puschData pduBitmap (a + 4) ++ puschUci m pduBitmap (a + 4))) (Nat.succ_pos _) ?_ ?_ ?_
  · rw [htotal]
    simp only
    omega
  · rw [htotal]
    simp only [ulFormat, UlPdu.len]
    omega
  · rw [htotal]
    intro m' hsame
    have hm' := UlPdu.at_of_pusch hm hsame (by omega) (by omega) (by omega)
    refine ⟨hm', ?_⟩
    rintro _ blocks hblocks
    refine ⟨row (a + 4 + 272) 4 (rd8 m' (a + 4 + 271)) ++ dftsOfdm pduBitmap (a + 4), ?_⟩
    rw [← Option.some.inj hblocks, ulPdu_pusch hm', puschPtrs, if_pos hbit,
      puschUci_congr (rd16_congr fun i _ _ => hsame i (by omega))]
    simp

/-- DFT-s-OFDM that are not behind all other blocks, without variable parts. -/
theorem mayGoWrong_dfts (hm : (UlPdu.pusch pduBitmap numPart2Types numPtrsPorts).At m a)
    (huci : pduBitmap &&& 2 ≠ 0 → pduBitmap &&& 1 ≠ 0)
    (hptrs : pduBitmap &&& 4 ≠ 0 → pduBitmap &&& 1 ≠ 0 ∧ pduBitmap &&& 2 ≠ 0 ∧ numPart2Types = 0)
    (hbit : pduBitmap &&& 8 ≠ 0)
    (hdfts : ¬ (pduBitmap &&& 1 ≠ 0 ∧ pduBitmap &&& 2 ≠ 0 ∧ numPart2Types = 0 ∧
      pduBitmap &&& 4 ≠ 0 ∧ numPtrsPorts = 0)) :
    (UlPdu.pusch pduBitmap numPart2Types numPtrsPorts).MayGoWrong m a := by
  obtain ⟨-, htotal⟩ := chained_upToPtrs hm huci hptrs
  have hdataLen := dataLen_cases pduBitmap
  have huciLen := uciLen_cases pduBitmap numPart2Types
  have hptrsLen := ptrsLen_cases pduBitmap numPtrsPorts
  have hdftsLen : UlPdu.dftsLen pduBitmap = 8 := if_pos hbit
  have hplace : UlPdu.dataLen pduBitmap + UlPdu.uciLen pduBitmap numPart2Types +
      UlPdu.ptrsLen pduBitmap numPtrsPorts ≠ 160 := by
    rcases hptrsLen with ⟨h₄, hp⟩ | ⟨-, hp⟩
    · obtain ⟨h₁, h₂, hnum⟩ := hptrs h₄
      have hports : numPtrsPorts ≠ 0 := fun hports => hdfts ⟨h₁, h₂, hnum, h₄, hports⟩
      omega
    · omega
  refine Format.exists_copiedWrong (b := ⟨a + 4 + 272, 8⟩)
    (p := ⟨a + 4, 112⟩ :: (puschData pduBitmap (a + 4) ++ puschUci m pduBitmap (a + 4) ++
      puschPtrs m pduBitmap (a + 4))) (Nat.succ_pos _) ?_ ?_ ?_
  · rw [htotal]
    simp only
    omega
  · rw [htotal]
    simp only [ulFormat, UlPdu.len]
    omega
  · rw [htotal]
    intro m' hsame
    have hm' := UlPdu.at_of_pusch hm hsame (by omega) (by omega) (by omega)
    refine ⟨hm', ?_⟩
    rintro _ blocks hblocks
    refine ⟨[], ?_⟩
    rw [← Option.some.inj hblocks, ulPdu_pusch hm', dftsOfdm, if_pos hbit,
      puschUci_congr (rd16_congr fun i _ _ => hsame i (by omega)),
      puschPtrs_congr (rd8_congr fun i _ _ => hsame i (by omega))]
    simp

end Misplaced

/-- A PDU whose blocks are not all in place is copied wrongly, for some content. -/
theorem mayGoWrong_of_not_inPlace (hm : s.At m a) (hs : ¬ s.InPlace) : s.MayGoWrong m a := by
  cases s with
  | prach => exact absurd trivial hs
  | pucch numPart2Types => exact absurd trivial hs
  | srs => exact absurd trivial hs
  | pusch pduBitmap numPart2Types numPtrsPorts =>
    by_cases huci : pduBitmap &&& 2 ≠ 0 → pduBitmap &&& 1 ≠ 0
    · by_cases hptrs : pduBitmap &&& 4 ≠ 0 →
          pduBitmap &&& 1 ≠ 0 ∧ pduBitmap &&& 2 ≠ 0 ∧ numPart2Types = 0
      · have hdfts := fun hdfts => hs ⟨huci, hptrs, hdfts⟩
        rw [imp_false, Classical.not_imp] at hdfts
        exact mayGoWrong_dfts hm huci hptrs hdfts.1 hdfts.2
      · rw [Classical.not_imp] at hptrs
        exact mayGoWrong_ptrs hm huci hptrs.1 hptrs.2
    · rw [Classical.not_imp] at huci
      exact mayGoWrong_uci hm huci.1 huci.2

/-- `UlttiParams` serialises all requests of a shape as they are packed exactly when the
blocks of all their PUSCH PDUs are packed in place. -/
theorem ulttiParams_serialised_iff {r : TtiShape UlPdu} {m₀ : Mem} (clock : SlotClock)
    (hm₀ : r.At ulFormat m₀) :
    (∀ m, r.At ulFormat m → ulttiParams clock m = some
      (r.completed ulFormat clock.gMacRxRfn clock.gMacRxSlot m,
        slice (r.completed ulFormat clock.gMacRxRfn clock.gMacRxSlot m) 0 (r.len ulFormat))) ↔
    ∀ s ∈ r.pdus, s.InPlace := by
  have hiff := TtiShape.serialised_iff ulPdus clock.gMacRxRfn clock.gMacRxSlot
    ⟨(), fun _ _ => ⟨_, rfl⟩⟩
    (fun hs hinPlace hblocks => Option.some.inj hblocks ▸ ulPdu_copiedWhole hs hinPlace)
    mayGoWrong_of_not_inPlace hm₀
  rw [← hiff]
  constructor
  · intro hall m hm
    exact ⟨(), hall m hm⟩
  · intro hall m hm
    obtain ⟨f, hserialised⟩ := hall m hm
    exact hserialised

/-- A request of one PUSCH PDU with data and UCI. -/
def dataUciRequest : Mem := fun i => if i = 4 ∨ i = 20 then 1 else if i = 28 then 3 else 0

/-- It and every other request of that shape are serialised as they are packed. -/
theorem ulttiParams_serialised_data_uci :
    (⟨[.pusch 3 0 0], []⟩ : TtiShape UlPdu).At ulFormat dataUciRequest ∧
    ∀ m, (⟨[.pusch 3 0 0], []⟩ : TtiShape UlPdu).At ulFormat m → ulttiParams zeroClock m = some
      ((⟨[.pusch 3 0 0], []⟩ : TtiShape UlPdu).completed ulFormat 0 0 m,
        slice ((⟨[.pusch 3 0 0], []⟩ : TtiShape UlPdu).completed ulFormat 0 0 m) 0 292) := by
  have hpusch : (UlPdu.pusch 3 0 0).At dataUciRequest 20 :=
    ⟨by decide +kernel, by decide +kernel, fun _ => by decide +kernel,
      fun h => absurd (by decide) h⟩
  have hat : (⟨[.pusch 3 0 0], []⟩ : TtiShape UlPdu).At ulFormat dataUciRequest :=
    ⟨by decide +kernel, by decide +kernel, ⟨hpusch, trivial⟩, trivial⟩
  refine ⟨hat, (ulttiParams_serialised_iff zeroClock hat).mpr ?_⟩
  intro s hs
  rw [List.mem_singleton.mp hs]
  exact ⟨by decide, by decide, by decide⟩

/-- A request of one PUSCH PDU with UCI but no data: one bit of HARQ. -/
def uciRequest : Mem := fun i => if i = 4 ∨ i = 20 ∨ i = 136 then 1 else if i = 28 then 2 else 0

/-- The number of HARQ bits is lost. -/
theorem ulttiParams_loses_uci :
    (⟨[.pusch 2 0 0], []⟩ : TtiShape UlPdu).At ulFormat uciRequest ∧
      ulttiParams zeroClock uciRequest ≠ some
        ((⟨[.pusch 2 0 0], []⟩ : TtiShape UlPdu).completed ulFormat 0 0 uciRequest,
          slice
            ((⟨[.pusch 2 0 0], []⟩ : TtiShape UlPdu).completed ulFormat 0 0 uciRequest) 0 152) := by
  have hpusch : (UlPdu.pusch 2 0 0).At uciRequest 20 :=
    ⟨by decide +kernel, by decide +kernel, fun _ => by decide +kernel,
      fun h => absurd (by decide) h⟩
  refine ⟨⟨by decide +kernel, by decide +kernel, ⟨hpusch, trivial⟩, trivial⟩, ?_⟩
  intro hserialised
  have hbyte := congrArg (fun result => result.map fun out => out.2[136]?) hserialised
  revert hbyte
  decide +kernel

end TestMac

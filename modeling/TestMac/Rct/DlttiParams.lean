import TestMac.Rct.TtiParams

/-!
# The serialiser of DL_TTI requests: `DlttiParams`

The PDUs of a request are packed one after the other, and so are the DCIs of a PDCCH PDU,
each with its own lists of precoding matrices and beams. The serialiser takes the DCIs
for the elements of an array, and counts them with the variable that it also counts the
beams with: the loop may leave DCIs out, and it may not end.
-/

namespace TestMac

open Bytes Block

/-- The loops over `PMidx` and `beamIdx` of a `L1TxPrecodingBeamformingPdu_t`, whose
elements are taken from an offset on. -/
def txPrecodeBeam (m : Mem) (info offset : ℕ) : List Block :=
  row offset 2 (rd16 m info) ++ row (offset + 2 * rd16 m info) 2 (rd8 m (info + 4))

/-- The loop over the DCIs from the one at index `i` on, for a number of rounds. The
loops over precoding matrices and beams are inside and use `i` themselves, which leaves
it at the number of beams before it is increased. -/
def dlDcis (m : Mem) (dlDCIs numDlDci : ℕ) : ℕ → ℕ → ℕ → Option (List Block)
  | 0, i, _ => if i < numDlDci then none else some []
  | rounds + 1, i, offset =>
    if i < numDlDci then
      let dlDciInfo := dlDCIs + 44 * i
      let beams := txPrecodeBeam m (dlDciInfo + 36) (offset + 44)
      let digBFInterfaces := rd8 m (dlDciInfo + 40)
      match dlDcis m dlDCIs numDlDci rounds (digBFInterfaces + 1)
          (offset + 44 + Block.total beams) with
      | none => none
      | some rest => some (⟨dlDciInfo, 44⟩ :: beams ++ rest)
    else some []

/-- The case `PDCCH_PDU`. -/
def pdcchPdu (rounds : ℕ) (m : Mem) (pdcch : ℕ) : Option (List Block) :=
  match dlDcis m (pdcch + 28) (rd16 m (pdcch + 2)) rounds 0 (pdcch + 28) with
  | none => none
  | some dcis => some (⟨pdcch, 28⟩ :: dcis)

/-- The blocks of a PDSCH PDU up to its precoding and beamforming information. Eight
bytes are copied from `nIdPdsch` on, and the two lists for rate matching share an address. -/
def pdschFixed (m : Mem) (pdsch : ℕ) : List Block :=
  [⟨pdsch, 16⟩, ⟨pdsch + 16, 36⟩, ⟨pdsch + 52, 8⟩, ⟨pdsch + 56, 12⟩, ⟨pdsch + 68, 48⟩,
      ⟨pdsch + 116, 4⟩] ++
    (row (pdsch + 120) 1 (rd8 m (pdsch + 118)) ++ row (pdsch + 120) 2 (rd8 m (pdsch + 119)) ++
      [⟨pdsch + 120, 4⟩, ⟨pdsch + 124, 4⟩] ++
      (if rd16 m pdsch &&& 1 ≠ 0 then [⟨pdsch + 128, 8⟩] else []) ++
      (if rd16 m pdsch &&& 2 ≠ 0 then [⟨pdsch + 136, 12⟩] else []) ++ [⟨pdsch + 148, 8⟩])

/-- The case `PDSCH_PDU`. -/
def pdschPdu (m : Mem) (pdsch : ℕ) : List Block :=
  pdschFixed m pdsch ++
    txPrecodeBeam m (pdsch + 148) (pdsch + Block.total (pdschFixed m pdsch))

/-- The blocks that `DlttiParams` copies of the PDU at an offset, behind its header. -/
def dlPdu (rounds : ℕ) (m : Mem) (offset : ℕ) : Option (List Block) :=
  match rd16 m offset with
  | 0 => pdcchPdu rounds m (offset + 4)
  | 1 => some (pdschPdu m (offset + 4))
  | 2 => some (⟨offset + 4, 36⟩ :: txPrecodeBeam m (offset + 32) (offset + 40)) -- CSI_RS_PDU
  | 3 => some (⟨offset + 4, 16⟩ :: txPrecodeBeam m (offset + 12) (offset + 20)) -- SSB_PDU
  | _ => some []

/-- `DlttiParams`, for a number of rounds of the loop over DCIs. -/
def dlttiParams (rounds : ℕ) (clock : SlotClock) (dltti : Mem) : Option (Mem × List UInt8) :=
  ttiParams (dlPdu rounds) clock.gMacTxRfn clock.gMacTxSlot dltti

/-- A DCI by its numbers of precoding matrices and of beams. -/
structure DlDci where
  numPRGs : ℕ
  digBFInterfaces : ℕ

/-- The packed length of a DCI. -/
def DlDci.len (dci : DlDci) : ℕ := 44 + 2 * dci.numPRGs + 2 * dci.digBFInterfaces

def dcisLen (dcis : List DlDci) : ℕ := (dcis.map DlDci.len).sum

/-- The memory holds packed DCIs. -/
def DcisAt (m : Mem) : ℕ → List DlDci → Prop
  | _, [] => True
  | a, dci :: dcis => rd16 m (a + 36) = dci.numPRGs ∧ rd8 m (a + 40) = dci.digBFInterfaces ∧
    DcisAt m (a + dci.len) dcis

/-- The shape of a PDU: its type and the numbers that give its packed length. -/
inductive DlPdu
  | pdcch (dcis : List DlDci)
  | pdsch (pduBitmap numCoresetRMP numCsiRsForRM numPRGs digBFInterfaces : ℕ)
  | csiRs (numPRGs digBFInterfaces : ℕ)
  | ssb (numPRGs digBFInterfaces : ℕ)

namespace DlPdu

/-- The packed length of a PDSCH PDU before its precoding and beamforming information. -/
def pdschLen (pduBitmap numCoresetRMP numCsiRsForRM : ℕ) : ℕ :=
  128 + numCoresetRMP + 2 * numCsiRsForRM + (if pduBitmap &&& 1 ≠ 0 then 8 else 0) +
    if pduBitmap &&& 2 ≠ 0 then 12 else 0

/-- The packed length of a PDU, its header included. -/
def len : DlPdu → ℕ
  | .pdcch dcis => 32 + dcisLen dcis
  | .pdsch pduBitmap numCoresetRMP numCsiRsForRM numPRGs digBFInterfaces =>
    4 + pdschLen pduBitmap numCoresetRMP numCsiRsForRM + 8 + 2 * numPRGs + 2 * digBFInterfaces
  | .csiRs numPRGs digBFInterfaces => 40 + 2 * numPRGs + 2 * digBFInterfaces
  | .ssb numPRGs digBFInterfaces => 20 + 2 * numPRGs + 2 * digBFInterfaces

/-- The numbers that a packed PDU of the shape has in a memory. -/
def Numbers (m : Mem) (a : ℕ) : DlPdu → Prop
  | .pdcch dcis => rd16 m a = 0 ∧ rd16 m (a + 6) = dcis.length ∧ DcisAt m (a + 32) dcis
  | .pdsch pduBitmap numCoresetRMP numCsiRsForRM numPRGs digBFInterfaces =>
    rd16 m a = 1 ∧ rd16 m (a + 4) = pduBitmap ∧ rd8 m (a + 122) = numCoresetRMP ∧
      rd8 m (a + 123) = numCsiRsForRM ∧
      rd16 m (a + 4 + pdschLen pduBitmap numCoresetRMP numCsiRsForRM) = numPRGs ∧
      rd8 m (a + 4 + pdschLen pduBitmap numCoresetRMP numCsiRsForRM + 4) = digBFInterfaces
  | .csiRs numPRGs digBFInterfaces =>
    rd16 m a = 2 ∧ rd16 m (a + 32) = numPRGs ∧ rd8 m (a + 36) = digBFInterfaces
  | .ssb numPRGs digBFInterfaces =>
    rd16 m a = 3 ∧ rd16 m (a + 12) = numPRGs ∧ rd8 m (a + 16) = digBFInterfaces

/-- The memory holds a packed PDU of the shape. Its length fits the size in its header. -/
def At (m : Mem) (a : ℕ) (s : DlPdu) : Prop := s.len < 65536 ∧ s.Numbers m a

/-- The DCIs are packed like the elements of an array, and the number of beams of each
leads to the next one. -/
def DcisInPlace : List DlDci → Prop
  | [] => True
  | [_] => True
  | [dci, dci'] =>
    dci.numPRGs = 0 ∧ dci.digBFInterfaces = 0 ∧ dci'.digBFInterfaces ≠ 0
  | _ => False

/-- The blocks of the PDU are packed where they are copied from. -/
def InPlace : DlPdu → Prop
  | .pdcch dcis => DcisInPlace dcis
  | .pdsch .. => False
  | _ => True

end DlPdu

variable {m m' : Mem} {a offset i n rounds dlDCIs : ℕ} {dci : DlDci} {dcis : List DlDci}
  {blocks : List Block}

@[simp] theorem dcisLen_nil : dcisLen [] = 0 := rfl

@[simp] theorem dcisLen_cons : dcisLen (dci :: dcis) = dci.len + dcisLen dcis := by
  simp [dcisLen]

theorem dcisAt_congr (h : ∀ i, a ≤ i → i < a + dcisLen dcis → m i = m' i) (hm : DcisAt m a dcis) :
    DcisAt m' a dcis := by
  induction dcis generalizing a with
  | nil => trivial
  | cons dci dcis ih =>
    obtain ⟨hnum, hdig, hdcis⟩ := hm
    have hlen : 44 ≤ dci.len := by
      unfold DlDci.len
      omega
    rw [dcisLen_cons] at h
    refine ⟨?_, ?_, ih (fun i _ _ => h i (by omega) (by omega)) hdcis⟩
    · rw [← hnum, rd16_congr fun i _ _ => (h i (by omega) (by omega)).symm]
    · rw [← hdig, rd8_congr fun i _ _ => (h i (by omega) (by omega)).symm]

theorem DlPdu.at_congr {s : DlPdu}
    (h : ∀ i, a ≤ i → i < a + s.len → i ≠ a + 2 → i ≠ a + 3 → m i = m' i) (hm : s.At m a) :
    s.At m' a := by
  have hrd : ∀ k, k + 2 ≤ s.len → (k = 0 ∨ 4 ≤ k) → rd16 m' (a + k) = rd16 m (a + k) :=
    fun k hk hk' => rd16_congr fun i _ _ => (h i (by omega) (by omega) (by omega) (by omega)).symm
  have hrd8 : ∀ k, k + 1 ≤ s.len → 4 ≤ k → rd8 m' (a + k) = rd8 m (a + k) := fun k hk hk' =>
    rd8_congr fun i _ _ => (h i (by omega) (by omega) (by omega) (by omega)).symm
  obtain ⟨hlen, hm⟩ := hm
  refine ⟨hlen, ?_⟩
  cases s with
  | pdcch dcis =>
    obtain ⟨htype, hnum, hdcis⟩ := hm
    rw [len] at h hrd
    refine ⟨(hrd 0 (by omega) (.inl rfl)).trans htype,
      (hrd 6 (by omega) (.inr (by omega))).trans hnum, dcisAt_congr ?_ hdcis⟩
    intro i _ _
    exact h i (by omega) (by omega) (by omega) (by omega)
  | pdsch pduBitmap numCoresetRMP numCsiRsForRM numPRGs digBFInterfaces =>
    obtain ⟨htype, hbitmap, hcoreset, hcsi, hnum, hdig⟩ := hm
    have hpdsch : 128 ≤ pdschLen pduBitmap numCoresetRMP numCsiRsForRM := by
      unfold pdschLen
      omega
    rw [len] at hrd hrd8
    refine ⟨(hrd 0 (by omega) (.inl rfl)).trans htype,
      (hrd 4 (by omega) (.inr (by omega))).trans hbitmap, (hrd8 122 (by omega) (by omega)).trans
      hcoreset, (hrd8 123 (by omega) (by omega)).trans hcsi, ?_, ?_⟩
    · rw [← hnum, Nat.add_assoc a]
      exact hrd _ (by omega) (.inr (by omega))
    · rw [← hdig, Nat.add_assoc a, Nat.add_assoc a]
      exact hrd8 _ (by omega) (by omega)
  | csiRs numPRGs digBFInterfaces =>
    obtain ⟨htype, hnum, hdig⟩ := hm
    rw [len] at hrd hrd8
    exact ⟨(hrd 0 (by omega) (.inl rfl)).trans htype,
      (hrd 32 (by omega) (.inr (by omega))).trans hnum, (hrd8 36 (by omega) (by omega)).trans hdig⟩
  | ssb numPRGs digBFInterfaces =>
    obtain ⟨htype, hnum, hdig⟩ := hm
    rw [len] at hrd hrd8
    exact ⟨(hrd 0 (by omega) (.inl rfl)).trans htype,
      (hrd 12 (by omega) (.inr (by omega))).trans hnum, (hrd8 16 (by omega) (by omega)).trans hdig⟩

/-- Packed DL PDUs. -/
def dlFormat : Format DlPdu where
  len := DlPdu.len
  At := fun m a s => s.At m a
  four_le := by
    intro s
    cases s <;> simp only [DlPdu.len] <;> omega
  congr := DlPdu.at_congr

end TestMac

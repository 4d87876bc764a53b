import TestMac.Rx.Walk

/-!
# Where the decoders read

No decoder compares an address with the end of the payload: the counts and sizes
in the messages alone decide what is read. `bodyFits` says that what a message
announces lies before the end of the payload. When this holds of every message
the walk reaches, every byte read lies inside the payload.
-/

namespace TestMac

open Bytes Decoder

/-- The bytes read lie between the start `b` and the end `e` of the payload. -/
def Inside (b e addr len : ℕ) : Prop := b ≤ addr ∧ addr + len ≤ e

/-- The PDUs of an RX data indication, with the TLVs they announce, end before
`e`. No PDU announces more TLVs than a 16-bit counter can count. -/
def rxDataFits (m : Mem) (e : ℕ) : ℕ → ℕ → Prop
  | 0, _ => True
  | numPDUs + 1, a => rd32 m (a + 8) < 65536 ∧
      a + offsetofRxDataTLVs + sizeofL1DataTLV * rd32 m (a + 8) ≤ e ∧
      rxDataFits m e numPDUs (a + offsetofRxDataTLVs + sizeofL1DataTLV * rd32 m (a + 8))

instance rxDataFits.decidable (m : Mem) (e : ℕ) : ∀ n a, Decidable (rxDataFits m e n a)
  | 0, _ => isTrue trivial
  | n + 1, a =>
    have := decidable m e n (a + offsetofRxDataTLVs + sizeofL1DataTLV * rd32 m (a + 8))
    inferInstanceAs (Decidable (_ ∧ _ ∧ _))

/-- The PDUs of a RACH indication, with the preambles they announce, end before `e`. -/
def rachFits (m : Mem) (e : ℕ) : ℕ → ℕ → Prop
  | 0, _ => True
  | numPDUs + 1, a => a + offsetofPreamble + sizeofL1PreambleInfo * rd8 m (a + 8) ≤ e ∧
      rachFits m e numPDUs (a + offsetofPreamble + sizeofL1PreambleInfo * rd8 m (a + 8))

instance rachFits.decidable (m : Mem) (e : ℕ) : ∀ n a, Decidable (rachFits m e n a)
  | 0, _ => isTrue trivial
  | n + 1, a =>
    have := decidable m e n (a + offsetofPreamble + sizeofL1PreambleInfo * rd8 m (a + 8))
    inferInstanceAs (Decidable (_ ∧ _))

/-- The size of an optional section, zero when its bit of `pduBitmap` is clear. -/
def sectionSize (pduBitmap bit size : ℕ) : ℕ := if pduBitmap &&& bit ≠ 0 then size else 0

/-- The bytes of a UCI PDU at `a`: its header, the fixed part of its type and the
sections announced by `pduBitmap`, without the parts of variable size. -/
def uciPduSize (m : Mem) (a : ℕ) : ℕ :=
  if rd16 m a = 0 then
    offsetofUciPdu + offsetofSections + sectionSize (rd8 m (a + 16)) 2 sizeofL1HarqPduForFmt234 +
      sectionSize (rd8 m (a + 16)) 4 sizeofL1CSIPart1Pdu +
      sectionSize (rd8 m (a + 16)) 8 sizeofL1CSIPart2Pdu
  else if rd16 m a = 1 then
    offsetofUciPdu + offsetofSections + sectionSize (rd8 m (a + 16)) 1 sizeofL1SrPduFMT01 +
      sectionSize (rd8 m (a + 16)) 2 sizeofL1HarqPduForFm01
  else if rd16 m a = 2 then
    offsetofUciPdu + offsetofSections + sectionSize (rd8 m (a + 17)) 1 sizeofL1SrPduFMT234 +
      sectionSize (rd8 m (a + 17)) 2 sizeofL1HarqPduForFmt234 +
      sectionSize (rd8 m (a + 17)) 4 sizeofL1CSIPart1Pdu +
      sectionSize (rd8 m (a + 17)) 8 sizeofL1CSIPart2Pdu +
      sectionSize (rd8 m (a + 17)) 16 offsetofUciPayload
  else offsetofUciPdu

/-- The PDUs of a UCI indication, each `PDUSize` bytes behind the one before, end before `e`. -/
def uciFits (m : Mem) (e : ℕ) : ℕ → ℕ → Prop
  | 0, _ => True
  | numUcis + 1, a => a + uciPduSize m a ≤ e ∧ uciFits m e numUcis (a + rd16 m (a + 2))

instance uciFits.decidable (m : Mem) (e : ℕ) : ∀ n a, Decidable (uciFits m e n a)
  | 0, _ => isTrue trivial
  | n + 1, a =>
    have := decidable m e n (a + rd16 m (a + 2))
    inferInstanceAs (Decidable (_ ∧ _))

/-- What the body of a message at `a` announces lies before the end `e` of the payload. -/
def bodyFits (m : Mem) (e msgId a : ℕ) : Prop :=
  if msgId = fapiRxDataIndication then
    a + offsetofPdus ≤ e ∧ rxDataFits m e (rd16 m (a + 4)) (a + offsetofPdus)
  else if msgId = fapiSlotIndication then a + 4 ≤ e
  else if msgId = fapiConfigResponse then a + 1 ≤ e
  else if msgId = fapiStopIndication then True
  else if msgId = fapiErrorIndication then a + 10 ≤ e
  else if msgId = fapiCrcIndication then
    a + offsetofPdus + sizeofL1CrcInfo * rd16 m (a + 4) ≤ e
  else if msgId = fapiUciIndication then
    a + offsetofPdus ≤ e ∧ uciFits m e (rd16 m (a + 4)) (a + offsetofPdus)
  else if msgId = fapiSrsIndication then a + offsetofPdus ≤ e
  else if msgId = fapiPrachIndication then
    a + offsetofPdus ≤ e ∧ rachFits m e (rd8 m (a + 4)) (a + offsetofPdus)
  else True

instance (m : Mem) (e msgId a : ℕ) : Decidable (bodyFits m e msgId a) := by
  unfold bodyFits
  infer_instance

/-- The length of the message at `p`, as `fapiMsgDec` returns it. -/
def msgLen (m : Mem) (p : ℕ) : ℕ := (rd32 m (p + 4) + 8) % 4294967296

variable {m : Mem} {b e fuel pMsg : ℕ}

theorem safe_rxDataTLVs {numTLV offset : ℕ} (hb : b ≤ pMsg) (he : e < b + 2 ^ 32)
    (hn : numTLV < 65536) (hfits : pMsg + offset + sizeofL1DataTLV * numTLV ≤ e) :
    Safe (Inside b e) m (rxDataTLVs fuel pMsg numTLV offset)
      (· = offset + sizeofL1DataTLV * numTLV) := by
  simp only [sizeofL1DataTLV] at *
  refine .loop16 (fun i off => off = offset + 12 * i) hn ?_ (Nat.zero_le _) rfl
  rintro i _ hi rfl
  refine (Safe.read ⟨by omega, by omega⟩).bind fun tag _ => ?_
  have hnext : (offset + 12 * i + sizeofL1DataTLV) % 4294967296 = offset + 12 * (i + 1) := by
    simp only [sizeofL1DataTLV]
    omega
  by_cases htag : tag = 2
  · rw [if_pos htag]
    exact (Safe.read ⟨by omega, by omega⟩).bind fun _ _ =>
      (Safe.read ⟨by omega, by omega⟩).bind fun _ _ => (Safe.call _).bind fun _ _ => .pure hnext
  · rw [if_neg htag]
    exact .pure hnext

theorem safe_rxDataIndicationProcDecHdlr (hb : b ≤ pMsg) (he : e < b + 2 ^ 32)
    (hpdus : pMsg + offsetofPdus ≤ e)
    (hfits : rxDataFits m e (rd16 m (pMsg + 4)) (pMsg + offsetofPdus)) :
    Safe (Inside b e) m (rxDataIndicationProcDecHdlr fuel pMsg) (fun _ => True) := by
  simp only [offsetofPdus] at hpdus
  refine (Safe.read ⟨by omega, by omega⟩).bind fun numPDUs hnum => ?_
  replace hnum : numPDUs = rd16 m (pMsg + 4) := hnum
  have hlt := rd16_lt m (pMsg + 4)
  rw [← hnum] at hfits hlt
  refine (Safe.loop16 (fun i off => rxDataFits m e (numPDUs - i) (pMsg + off)) hlt ?_
    (Nat.zero_le _) hfits).bind fun _ _ => .pure trivial
  intro i off hi hpdu
  rw [show numPDUs - i = numPDUs - (i + 1) + 1 by omega, rxDataFits] at hpdu
  obtain ⟨hcount, hend, hrest⟩ := hpdu
  simp only [offsetofRxDataTLVs, sizeofL1DataTLV] at hend hrest
  refine (Safe.read ⟨by omega, by omega⟩).bind fun numTLV hnumTLV => ?_
  replace hnumTLV : numTLV = rd32 m (pMsg + off + 8) := hnumTLV
  rw [← hnumTLV] at hcount hend hrest
  have hstart : (off + offsetofRxDataTLVs) % 4294967296 = off + 12 := by
    simp only [offsetofRxDataTLVs]
    omega
  rw [hstart]
  refine (safe_rxDataTLVs hb he hcount ?_).mono ?_
  · simp only [sizeofL1DataTLV]
    omega
  · rintro _ rfl
    simpa only [sizeofL1DataTLV, Nat.add_assoc] using hrest

theorem safe_crcIndicationProcDecHdlr (hb : b ≤ pMsg)
    (hfits : pMsg + offsetofPdus + sizeofL1CrcInfo * rd16 m (pMsg + 4) ≤ e) :
    Safe (Inside b e) m (crcIndicationProcDecHdlr fuel pMsg) (fun _ => True) := by
  simp only [offsetofPdus, sizeofL1CrcInfo] at hfits
  refine (Safe.read ⟨by omega, by omega⟩).bind fun numCRCs hnum => ?_
  replace hnum : numCRCs = rd16 m (pMsg + 4) := hnum
  have hlt := rd16_lt m (pMsg + 4)
  rw [← hnum] at hfits hlt
  refine (Safe.loop16 (fun i off => off = 8 + 148 * i) hlt ?_ (Nat.zero_le _) rfl).bind
    fun _ _ => .pure trivial
  rintro i _ hi rfl
  refine Safe.bind (Q := fun _ => True) ?_ fun _ _ => .pure (by simp only [sizeofL1CrcInfo]; omega)
  refine (Safe.call _).bind fun _ _ => (Safe.read ⟨by omega, by omega⟩).bind fun tbCrcStatus _ => ?_
  split_ifs
  · exact (Safe.read ⟨by omega, by omega⟩).bind fun _ _ =>
      (Safe.read ⟨by omega, by omega⟩).bind fun _ _ =>
      (Safe.read ⟨by omega, by omega⟩).bind fun _ _ => .call _
  · exact (Safe.read ⟨by omega, by omega⟩).bind fun _ _ => .call _
  · exact .pure trivial

theorem safe_srsIndicationProcDecHdlr (hb : b ≤ pMsg) (hpdus : pMsg + offsetofPdus ≤ e) :
    Safe (Inside b e) m (srsIndicationProcDecHdlr fuel pMsg) (fun _ => True) := by
  simp only [offsetofPdus] at hpdus
  refine (Safe.read ⟨by omega, by omega⟩).bind fun numPDUs hnum => ?_
  have hlt : numPDUs < 65536 := by
    have := rd8_lt m (pMsg + 6)
    simp only [rd8] at this
    omega
  exact (Safe.loop16 (fun _ _ => True) hlt (fun _ _ _ _ => .pure trivial) (Nat.zero_le _)
    trivial).bind fun _ _ => .pure trivial

theorem safe_rachIndicationProcDecHdlr (hb : b ≤ pMsg) (hpdus : pMsg + offsetofPdus ≤ e)
    (hfits : rachFits m e (rd8 m (pMsg + 4)) (pMsg + offsetofPdus)) :
    Safe (Inside b e) m (rachIndicationProcDecHdlr fuel pMsg) (fun _ => True) := by
  simp only [offsetofPdus] at hpdus
  refine (Safe.read ⟨by omega, by omega⟩).bind fun numPDUs hnum => ?_
  replace hnum : numPDUs = rd8 m (pMsg + 4) := hnum
  have hlt := rd8_lt m (pMsg + 4)
  rw [← hnum] at hfits hlt
  refine (Safe.loop16 (fun i off => rachFits m e (numPDUs - i) (pMsg + off)) (by omega) ?_
    (Nat.zero_le _) hfits).bind fun _ _ => .pure trivial
  intro i off hi hpdu
  rw [show numPDUs - i = numPDUs - (i + 1) + 1 by omega, rachFits] at hpdu
  obtain ⟨hend, hrest⟩ := hpdu
  simp only [offsetofPreamble, sizeofL1PreambleInfo] at hend hrest
  refine Safe.bind (Q := fun _ => True) ?_ fun _ _ => ?_
  · exact (Safe.read ⟨by omega, by omega⟩).bind fun _ _ => .call _
  refine (Safe.read ⟨by omega, by omega⟩).bind fun numPreambles hpre => ?_
  replace hpre : numPreambles = rd8 m (pMsg + off + 8) := hpre
  have hltPre := rd8_lt m (pMsg + off + 8)
  rw [← hpre] at hend hrest hltPre
  refine (Safe.loop16 (fun i o => o = off + 12 + 8 * i) (by omega) ?_ (Nat.zero_le _) rfl).mono ?_
  · rintro j _ hj rfl
    refine Safe.bind (Q := fun _ => True) ?_ fun _ _ => .pure (by
      simp only [sizeofL1PreambleInfo]
      omega)
    exact (Safe.read ⟨by omega, by omega⟩).bind fun _ _ =>
      (Safe.read ⟨by omega, by omega⟩).bind fun _ _ => .call _
  · rintro _ rfl
    simpa only [Nat.add_assoc] using hrest

/-- An optional section is skipped by its size when its handler reads inside it. -/
theorem safe_uciSection {pduBitmap bit size offset : ℕ} {hdlr : ℕ → RxDec ℕ}
    (hdlr_safe : pduBitmap &&& bit ≠ 0 → Safe (Inside b e) m (hdlr offset) (· = offset + size)) :
    Safe (Inside b e) m (uciSection pduBitmap bit hdlr offset)
      (· = offset + sectionSize pduBitmap bit size) := by
  unfold uciSection sectionSize
  by_cases hbit : pduBitmap &&& bit ≠ 0
  · rw [if_pos hbit, if_pos hbit]
    exact hdlr_safe hbit
  · rw [if_neg hbit, if_neg hbit]
    exact .pure rfl

theorem safe_skipSection (size offset : ℕ) :
    Safe (Inside b e) m (skipSection size offset) (· = offset + size) := .pure rfl

theorem safe_csiPart1InPusch {cRnti handle offset : ℕ} (hb : b ≤ pMsg)
    (he : pMsg + offset + sizeofL1CSIPart1Pdu ≤ e) :
    Safe (Inside b e) m (do
      macCSIPart1InfoUciInPuschPduFmt234PduHdlr cRnti handle (pMsg + offset)
      pure (offset + sizeofL1CSIPart1Pdu)) (· = offset + sizeofL1CSIPart1Pdu) := by
  simp only [sizeofL1CSIPart1Pdu] at he
  refine Safe.bind (Q := fun _ => True) ?_ fun _ _ => .pure rfl
  refine (Safe.call _).bind fun _ _ => (Safe.assert _).bind fun _ _ =>
    (Safe.read ⟨by omega, by omega⟩).bind fun csiPart1Crc _ => ?_
  split_ifs
  · exact .call _
  · exact .call _
  · exact .pure trivial

theorem safe_csiPart1InPucch {cRnti handle offset : ℕ} (hb : b ≤ pMsg)
    (he : pMsg + offset + sizeofL1CSIPart1Pdu ≤ e) :
    Safe (Inside b e) m (do
      macCSIPart1InfoUciInPucchPduFmt234PduHdlr cRnti handle (pMsg + offset)
      pure (offset + sizeofL1CSIPart1Pdu)) (· = offset + sizeofL1CSIPart1Pdu) := by
  simp only [sizeofL1CSIPart1Pdu] at he
  refine Safe.bind (Q := fun _ => True) ?_ fun _ _ => .pure rfl
  refine (Safe.call _).bind fun _ _ => (Safe.assert _).bind fun _ _ =>
    (Safe.read ⟨by omega, by omega⟩).bind fun csiPart1Crc _ => ?_
  split_ifs
  · exact (Safe.call _).bind fun _ _ => .call _
  · exact .call _
  · exact .pure trivial

theorem safe_uciInfoSection {cRnti handle offset : ℕ} (hb : b ≤ pMsg)
    (he : pMsg + offset + offsetofUciPayload ≤ e) :
    Safe (Inside b e) m (do
      macUciInfoInPucchPduFmt234PduHdlr cRnti handle (pMsg + offset)
      let uciBitLen ← read 2 (pMsg + offset)
      pure (offset + offsetofUciPayload + uciBitLen / 8)) (fun _ => True) := by
  simp only [offsetofUciPayload] at he
  refine Safe.bind (Q := fun _ => True) ?_ fun _ _ =>
    (Safe.read ⟨by omega, by omega⟩).bind fun _ _ => .pure trivial
  refine (Safe.call _).bind fun _ _ => (Safe.assert _).bind fun _ _ =>
    (Safe.read ⟨by omega, by omega⟩).bind fun crcStatus _ => ?_
  split_ifs
  · exact .call _
  · exact .call _
  · exact .call _
  · exact .call _
  · exact .pure trivial

theorem sectionSize_of_ne {pduBitmap bit size : ℕ} (h : pduBitmap &&& bit ≠ 0) :
    sectionSize pduBitmap bit size = size := if_pos h

theorem safe_uciInPuschPdu {s : UciLoop} {off : ℕ} (hb : b ≤ pMsg) (htype : rd16 m (pMsg + off) = 0)
    (hfits : pMsg + off + uciPduSize m (pMsg + off) ≤ e) :
    Safe (Inside b e) m (uciInPuschPdu pMsg s (off + offsetofUciPdu)) (fun _ => True) := by
  rw [uciPduSize, if_pos htype] at hfits
  have hhdr : offsetofUciPdu = 4 := rfl
  have hfixed : offsetofSections = 16 := rfl
  refine (Safe.read ⟨by omega, by omega⟩).bind fun pduBitmap hmap => ?_
  replace hmap : pduBitmap = rd8 m (pMsg + off + 16) := by
    rw [hmap, rd8, show pMsg + (off + offsetofUciPdu) + 12 = pMsg + off + 16 by omega]
  rw [← hmap] at hfits
  refine (safe_uciSection fun _ => safe_skipSection _ _).bind fun off₁ h₁ => ?_
  refine (safe_uciSection fun hbit => safe_csiPart1InPusch hb ?_).bind fun off₂ h₂ => ?_
  · rw [sectionSize_of_ne hbit] at hfits
    omega
  exact (safe_uciSection fun _ => safe_skipSection _ _).mono fun _ _ => trivial

theorem safe_uciInPucchPduFmt01 {off : ℕ} (hb : b ≤ pMsg) (htype : rd16 m (pMsg + off) = 1)
    (hfits : pMsg + off + uciPduSize m (pMsg + off) ≤ e) :
    Safe (Inside b e) m (uciInPucchPduFmt01 pMsg (off + offsetofUciPdu)) (fun _ => True) := by
  rw [uciPduSize, if_neg (by omega), if_pos htype] at hfits
  have hhdr : offsetofUciPdu = 4 := rfl
  have hfixed : offsetofSections = 16 := rfl
  refine (Safe.read ⟨by omega, by omega⟩).bind fun pduBitmap _ => ?_
  refine (safe_uciSection fun _ => safe_skipSection _ _).bind fun _ _ => ?_
  exact (safe_uciSection fun _ => safe_skipSection _ _).mono fun _ _ => trivial

theorem safe_uciInPucchPduFmt234 {RNTI Handle off : ℕ} (hb : b ≤ pMsg)
    (htype : rd16 m (pMsg + off) = 2) (hfits : pMsg + off + uciPduSize m (pMsg + off) ≤ e) :
    Safe (Inside b e) m (uciInPucchPduFmt234 pMsg RNTI Handle (off + offsetofUciPdu))
      (fun _ => True) := by
  rw [uciPduSize, if_neg (by omega), if_neg (by omega), if_pos htype] at hfits
  have hhdr : offsetofUciPdu = 4 := rfl
  have hfixed : offsetofSections = 16 := rfl
  refine (Safe.read ⟨by omega, by omega⟩).bind fun pduBitmap hmap => ?_
  replace hmap : pduBitmap = rd8 m (pMsg + off + 17) := by
    rw [hmap, rd8, show pMsg + (off + offsetofUciPdu) + 13 = pMsg + off + 17 by omega]
  rw [← hmap] at hfits
  refine (safe_uciSection fun _ => safe_skipSection _ _).bind fun off₁ h₁ => ?_
  refine (safe_uciSection fun _ => safe_skipSection _ _).bind fun off₂ h₂ => ?_
  refine (safe_uciSection fun hbit => safe_csiPart1InPucch hb ?_).bind fun off₃ h₃ => ?_
  · rw [sectionSize_of_ne hbit] at hfits
    omega
  refine (safe_uciSection fun _ => safe_skipSection _ _).bind fun off₄ h₄ => ?_
  unfold uciSection
  split_ifs with hbit
  · refine safe_uciInfoSection hb ?_
    rw [sectionSize_of_ne hbit] at hfits
    omega
  · exact .pure trivial

/-- The end of a round compares the sections with `PDUSize` and skips the PDU. -/
theorem safe_uciPduEnd {off RNTI Handle : ℕ} (hb : b ≤ pMsg) (he : pMsg + off + 4 ≤ e)
    (offset : ℕ) :
    Safe (Inside b e) m (do
      let pduSize ← read 2 (pMsg + off + 2)
      assert (offset - off ≤ pduSize)
      pure { initOffset := off + pduSize, RNTI := RNTI, Handle := Handle } : RxDec UciLoop)
      (fun s' => s'.initOffset = off + rd16 m (pMsg + off + 2)) :=
  (Safe.read ⟨by omega, by omega⟩).bind fun pduSize hsize =>
    (Safe.assert _).bind fun _ _ => .pure (by rw [hsize]; rfl)

/-- One round of the loop over the PDUs of a UCI indication. -/
theorem safe_uciInfo {s : UciLoop} (hb : b ≤ pMsg)
    (hfits : pMsg + s.initOffset + uciPduSize m (pMsg + s.initOffset) ≤ e) :
    Safe (Inside b e) m (uciInfo pMsg s)
      (fun s' => s'.initOffset = s.initOffset + rd16 m (pMsg + s.initOffset + 2)) := by
  have hhdr : 4 ≤ uciPduSize m (pMsg + s.initOffset) := by
    simp only [uciPduSize, offsetofUciPdu]
    split_ifs <;> omega
  refine (Safe.call _).bind fun _ _ => (Safe.read ⟨by omega, by omega⟩).bind fun pduType htype => ?_
  replace htype : rd16 m (pMsg + s.initOffset) = pduType := htype.symm
  split_ifs with h₀ h₁ h₂
  · exact (safe_uciInPuschPdu hb (htype.trans h₀) hfits).bind fun offset _ =>
      safe_uciPduEnd hb (by omega) offset
  · exact (safe_uciInPucchPduFmt01 hb (htype.trans h₁) hfits).bind fun offset _ =>
      safe_uciPduEnd hb (by omega) offset
  · have hfixed : 20 ≤ uciPduSize m (pMsg + s.initOffset) := by
      rw [uciPduSize, if_neg (by omega), if_neg (by omega), if_pos (htype.trans h₂)]
      simp only [offsetofUciPdu, offsetofSections]
      omega
    refine (Safe.read ⟨by omega, by simp only [offsetofUciPdu]; omega⟩).bind fun handle _ =>
      (Safe.read ⟨by omega, by simp only [offsetofUciPdu]; omega⟩).bind fun rnti _ => ?_
    exact (safe_uciInPucchPduFmt234 hb (htype.trans h₂) hfits).bind fun offset _ =>
      safe_uciPduEnd hb (by omega) offset
  · exact safe_uciPduEnd hb (by omega) _

theorem safe_uciIndicationProcDecHdlr (hb : b ≤ pMsg) (hpdus : pMsg + offsetofPdus ≤ e)
    (hfits : uciFits m e (rd16 m (pMsg + 4)) (pMsg + offsetofPdus)) :
    Safe (Inside b e) m (uciIndicationProcDecHdlr fuel pMsg) (fun _ => True) := by
  simp only [offsetofPdus] at hpdus
  refine (Safe.read ⟨by omega, by omega⟩).bind fun numUcis hnum => ?_
  replace hnum : numUcis = rd16 m (pMsg + 4) := hnum
  have hlt := rd16_lt m (pMsg + 4)
  rw [← hnum] at hfits hlt
  refine (Safe.loop16 (fun i s => uciFits m e (numUcis - i) (pMsg + s.initOffset)) hlt ?_
    (Nat.zero_le _) hfits).bind fun _ _ => .pure trivial
  intro i s hi hpdu
  rw [show numUcis - i = numUcis - (i + 1) + 1 by omega, uciFits] at hpdu
  refine (safe_uciInfo hb hpdu.1).mono fun s' hs' => ?_
  rw [hs', ← Nat.add_assoc]
  exact hpdu.2

/-- The decoder of a message whose body fits reads inside the payload. -/
theorem safe_fapiMsgBody {msgId : ℕ} {body : RxDec Unit} (hb : b ≤ pMsg) (he : e < b + 2 ^ 32)
    (hfits : bodyFits m e msgId pMsg) (hbody : fapiMsgBody fuel msgId pMsg = some body) :
    Safe (Inside b e) m body (fun _ => True) := by
  unfold bodyFits at hfits
  unfold fapiMsgBody at hbody
  -- both go through the identifiers in the same order
  by_cases hrxData : msgId = fapiRxDataIndication
  · rw [if_pos hrxData] at hfits hbody
    obtain rfl := Option.some.inj hbody
    exact safe_rxDataIndicationProcDecHdlr hb he hfits.1 hfits.2
  rw [if_neg hrxData] at hfits hbody
  by_cases hslot : msgId = fapiSlotIndication
  · rw [if_pos hslot] at hfits hbody
    obtain rfl := Option.some.inj hbody
    refine Safe.bind (Q := fun _ => True) ?_ fun _ _ => .call _
    exact (Safe.read ⟨by omega, by omega⟩).bind fun _ _ =>
      (Safe.read ⟨by omega, by omega⟩).bind fun _ _ => .call _
  rw [if_neg hslot] at hfits hbody
  by_cases hconfig : msgId = fapiConfigResponse
  · rw [if_pos hconfig] at hfits hbody
    obtain rfl := Option.some.inj hbody
    exact (Safe.read ⟨by omega, by omega⟩).bind fun _ _ => .call _
  rw [if_neg hconfig] at hfits hbody
  by_cases hstop : msgId = fapiStopIndication
  · rw [if_pos hstop] at hbody
    obtain rfl := Option.some.inj hbody
    exact .call _
  rw [if_neg hstop] at hfits hbody
  by_cases herror : msgId = fapiErrorIndication
  · rw [if_pos herror] at hfits hbody
    obtain rfl := Option.some.inj hbody
    exact (Safe.read ⟨by omega, by omega⟩).bind fun _ _ =>
      (Safe.read ⟨by omega, by omega⟩).bind fun _ _ => .call _
  rw [if_neg herror] at hfits hbody
  by_cases hcrc : msgId = fapiCrcIndication
  · rw [if_pos hcrc] at hfits hbody
    obtain rfl := Option.some.inj hbody
    exact safe_crcIndicationProcDecHdlr hb hfits
  rw [if_neg hcrc] at hfits hbody
  by_cases huci : msgId = fapiUciIndication
  · rw [if_pos huci] at hfits hbody
    obtain rfl := Option.some.inj hbody
    exact safe_uciIndicationProcDecHdlr hb hfits.1 hfits.2
  rw [if_neg huci] at hfits hbody
  by_cases hsrs : msgId = fapiSrsIndication
  · rw [if_pos hsrs] at hfits hbody
    obtain rfl := Option.some.inj hbody
    exact safe_srsIndicationProcDecHdlr hb hfits
  rw [if_neg hsrs] at hfits hbody
  by_cases hprach : msgId = fapiPrachIndication
  · rw [if_pos hprach] at hfits hbody
    obtain rfl := Option.some.inj hbody
    exact safe_rachIndicationProcDecHdlr hb hfits.1 hfits.2
  rw [if_neg hprach] at hbody
  exact absurd hbody (by simp)

/-- What `fapiMsgDec` can return: an error, or the length of a message it handles. -/
theorem safe_fapiMsgDec {P : ℕ → ℕ → Prop} {p : ℕ} (hid : P p 4) (hsize : P (p + 4) 4)
    (hbody : ∀ body, fapiMsgBody fuel (rd32 m p) (p + sizeofL1GeneralMsgHdr) = some body →
      Safe P m body (fun _ => True)) :
    Safe P m (fapiMsgDec fuel p)
      (fun len => len = illegalMsgLen ∨ handled (rd32 m p) ∧ len = msgLen m p) := by
  refine (Safe.read hid).bind fun msgId heq => ?_
  rw [show msgId = rd32 m p from heq]
  match hdec : fapiMsgBody fuel (rd32 m p) (p + sizeofL1GeneralMsgHdr) with
  | none => exact .pure (.inl rfl)
  | some body =>
    have hhandled : handled (rd32 m p) := by
      by_contra hnot
      simp [fapiMsgBody_eq_none.mpr hnot] at hdec
    refine (hbody body hdec).bind fun _ _ => (Safe.read hsize).bind fun msgSize hmsg => ?_
    refine .pure (.inr ⟨hhandled, ?_⟩)
    rw [hmsg]
    rfl

end TestMac

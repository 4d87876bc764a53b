import TestMac.Rx.UciFormat

/-!
# Decoding encoded UCI indications

`uciIndicationProcDecHdlr` finds every PDU and every section of an encoded
indication, except for the UCI info behind CSI part 2: the TLVs of CSI part 2
are not skipped.
-/

namespace TestMac

open Bytes Decoder

variable {m : Mem} {pMsg : ℕ}

section Sections

variable {α : Type} {pduBitmap bit offset : ℕ} {hdlr : ℕ → RxDec ℕ}

/-- An optional section is decoded when its bit is set, that is, when it is present. -/
theorem returns_uciSection {o : Option α} (es : Option α → List UciStep) (len : Option α → ℕ)
    (hbit : pduBitmap &&& bit ≠ 0 ↔ o.isSome = true) (hes : es none = []) (hlen : len none = 0)
    (hsome : ∀ x, o = some x →
      Returns uciStep m (hdlr offset) (es (some x)) (offset + len (some x))) :
    Returns uciStep m (uciSection pduBitmap bit hdlr offset) (es o) (offset + len o) := by
  unfold uciSection
  cases o with
  | none =>
    rw [if_neg (by simpa using hbit), hes, hlen]
    exact .pure _
  | some x =>
    rw [if_pos (hbit.mpr rfl)]
    exact hsome x rfl

/-- A block that is skipped. -/
theorem returns_skipBlock {n : ℕ} {o : Option (Block n)}
    (hbit : pduBitmap &&& bit ≠ 0 ↔ o.isSome = true) :
    Returns uciStep m (uciSection pduBitmap bit (skipSection n) offset) []
      (offset + (optBytes List.Vector.toList o).length) := by
  refine returns_uciSection (fun _ => [])
    (fun o => (optBytes List.Vector.toList o).length) hbit rfl rfl fun x _ => ?_
  simp only [optBytes, List.Vector.toList_length]
  exact .pure _

/-- A block that is handed to a handler. -/
theorem returns_handledBlock {n : ℕ} {o : Option (Block n)} {h : ℕ → RxDec Unit}
    {step : ℕ → UciStep} (hbit : pduBitmap &&& bit ≠ 0 ↔ o.isSome = true)
    (hret : Returns uciStep m (h (pMsg + offset)) [step (pMsg + offset)] ()) :
    Returns uciStep m (uciSection pduBitmap bit (fun offset => do
        h (pMsg + offset)
        pure (offset + n)) offset)
      (optStep step (pMsg + offset) o) (offset + (optBytes List.Vector.toList o).length) := by
  refine returns_uciSection (optStep step (pMsg + offset))
    (fun o => (optBytes List.Vector.toList o).length) hbit rfl rfl fun x _ => ?_
  simp only [optBytes, List.Vector.toList_length]
  exact hret.shows (.pure _)

/-- CSI part 2 is skipped without its TLVs. -/
theorem returns_skipCsiPart2 {o : Option CsiPart2}
    (hbit : pduBitmap &&& bit ≠ 0 ↔ o.isSome = true) :
    Returns uciStep m (uciSection pduBitmap bit (skipSection sizeofL1CSIPart2Pdu) offset) []
      (offset + if o.isSome then 4 else 0) :=
  returns_uciSection (fun _ => []) (fun o => if o.isSome then 4 else 0) hbit rfl rfl
    fun _ _ => .pure _

theorem returns_macCSIPart1InfoUciInPusch {cRnti handle addr : ℕ} (hhandle : handle < 65536) :
    Returns uciStep m (macCSIPart1InfoUciInPuschPduFmt234PduHdlr cRnti handle addr)
      [.csiPart1InPusch addr] () := by
  refine (Returns.call _).shows ((Returns.assert hhandle).silent ((Returns.read 1 _).silent ?_))
  split_ifs
  · exact .call _
  · exact .call _
  · exact .pure _

theorem returns_macCSIPart1InfoUciInPucch {cRnti handle addr : ℕ} (hhandle : handle < 65536) :
    Returns uciStep m (macCSIPart1InfoUciInPucchPduFmt234PduHdlr cRnti handle addr)
      [.csiPart1InPucch addr] () := by
  refine (Returns.call _).shows ((Returns.assert hhandle).silent ((Returns.read 1 _).silent ?_))
  split_ifs
  · exact (Returns.call _).silent (.call _)
  · exact .call _
  · exact .pure _

theorem returns_macUciInfoInPucch {cRnti handle addr : ℕ} (hhandle : handle < 65536) :
    Returns uciStep m (macUciInfoInPucchPduFmt234PduHdlr cRnti handle addr) [.uciInfo addr] () := by
  refine (Returns.call _).shows ((Returns.assert hhandle).silent ((Returns.read 1 _).silent ?_))
  split_ifs
  · exact .call _
  · exact .call _
  · exact .call _
  · exact .call _
  · exact .pure _

end Sections

section Pdus

variable {s : UciLoop} {off : ℕ}

/-- The first 20 bytes of an encoded PDU: its type, its size and the fixed part. -/
theorem holds_pdu {a : ℕ} {pdu : UciPdu} (h : Holds m a pdu.bytes) :
    rd16 m a = pdu.PDUType ∧ rd16 m (a + 2) = pdu.PDUSize ∧ Holds m (a + 4) pdu.fixedPart ∧
      Holds m (a + 20) pdu.sections := by
  unfold UciPdu.bytes at h
  simp only [holds_append, leBytes_length, List.length_append, UciPdu.fixedPart_length] at h
  obtain ⟨⟨⟨htype, hsize⟩, hfixed⟩, hsections⟩ := h
  refine ⟨?_, ?_, hfixed, hsections⟩
  · rw [rd16, htype.leValue_eq]
    cases pdu <;> rfl
  · rw [rd16, hsize.leValue_eq]
    exact Nat.mod_eq_of_lt pdu.PDUSize_lt

/-- The encoded length of CSI part 2 counts its TLVs. -/
theorem optBytes_csiPart2_length (o : Option CsiPart2) :
    (if o.isSome then 4 else 0) ≤ (optBytes CsiPart2.bytes o).length := by
  cases o with
  | none => exact le_rfl
  | some c =>
    simp only [optBytes, c.bytes_length, Option.isSome_some, if_true]
    omega

/-- The sections of a PUSCH PDU are found where they are encoded. -/
theorem returns_uciInPuschPdu {f : UciFields} {harq : Option (Block 20)}
    {csiPart1 : Option (Block 36)} {csiPart2 : Option CsiPart2}
    (h : Holds m (pMsg + off) (UciPdu.inPusch f harq csiPart1 csiPart2).bytes)
    (hhandle : s.Handle < 65536) :
    ∃ offset, offset ≤ off + 20 + (UciPdu.inPusch f harq csiPart1 csiPart2).sections.length ∧
      Returns uciStep m (uciInPuschPdu pMsg s (off + offsetofUciPdu))
        (optStep .csiPart1InPusch
          (pMsg + (off + 20 + (optBytes List.Vector.toList harq).length)) csiPart1) offset := by
  obtain ⟨-, hharq, hcsi1, hcsi2, -, hlt⟩ :=
    uciBitmap_and false harq.isSome csiPart1.isSome csiPart2.isSome false
  have hfixed := (holds_pdu h).2.2.1
  simp only [UciPdu.fixedPart, holds_append, UciFields.bytes_length] at hfixed
  have hmap : leValue (slice m (pMsg + (off + offsetofUciPdu) + 12) 1) =
      uciBitmap false harq.isSome csiPart1.isSome csiPart2.isSome false := by
    rw [← Nat.add_assoc, show offsetofUciPdu = 4 from rfl, hfixed.1.2.leValue_eq]
    exact Nat.mod_eq_of_lt hlt
  refine ⟨off + 20 + (optBytes List.Vector.toList harq).length +
    (optBytes List.Vector.toList csiPart1).length + (if csiPart2.isSome then 4 else 0), ?_, ?_⟩
  · have := optBytes_csiPart2_length csiPart2
    simp only [UciPdu.sections, List.length_append]
    omega
  · refine (Returns.read 1 _).silent ?_
    rw [hmap, ← List.append_nil (optStep _ _ _)]
    exact (returns_skipBlock hharq).silent ((returns_handledBlock hcsi1
      (returns_macCSIPart1InfoUciInPusch hhandle)).bind (returns_skipCsiPart2 hcsi2))

/-- The sections of a PUCCH PDU of format 0 or 1 are skipped. -/
theorem returns_uciInPucchPduFmt01 {f : UciFields} {fmt : ℕ} {sr harq : Option (Block 4)}
    (h : Holds m (pMsg + off) (UciPdu.inPucchFmt01 f fmt sr harq).bytes) :
    ∃ offset, offset ≤ off + 20 + (UciPdu.inPucchFmt01 f fmt sr harq).sections.length ∧
      Returns uciStep m (uciInPucchPduFmt01 pMsg (off + offsetofUciPdu)) [] offset := by
  obtain ⟨hsr, hharq, -, -, -, hlt⟩ := uciBitmap_and sr.isSome harq.isSome false false false
  have hfixed := (holds_pdu h).2.2.1
  simp only [UciPdu.fixedPart, holds_append, UciFields.bytes_length] at hfixed
  have hmap : leValue (slice m (pMsg + (off + offsetofUciPdu) + 12) 1) =
      uciBitmap sr.isSome harq.isSome false false false := by
    rw [← Nat.add_assoc, show offsetofUciPdu = 4 from rfl, hfixed.1.1.2.leValue_eq]
    exact Nat.mod_eq_of_lt hlt
  refine ⟨off + 20 + (optBytes List.Vector.toList sr).length +
    (optBytes List.Vector.toList harq).length, ?_, ?_⟩
  · simp only [UciPdu.sections, List.length_append]
    omega
  · refine (Returns.read 1 _).silent ?_
    rw [hmap]
    exact (returns_skipBlock hsr).silent (returns_skipBlock hharq)

/-- The sections of a PUCCH PDU of format 2, 3 or 4. The UCI info is looked for
behind the four bytes of CSI part 2 that are not TLVs. -/
theorem returns_uciInPucchPduFmt234 {f : UciFields} {fmt RNTI Handle : ℕ} {sr : Option (Block 4)}
    {harq : Option (Block 20)} {csiPart1 : Option (Block 36)} {csiPart2 : Option CsiPart2}
    {uciInfo : Option UciInfoPdu}
    (h : Holds m (pMsg + off)
      (UciPdu.inPucchFmt234 f fmt sr harq csiPart1 csiPart2 uciInfo).bytes)
    (hhandle : Handle < 65536) :
    let at₁ := off + 20 + (optBytes List.Vector.toList sr).length +
      (optBytes List.Vector.toList harq).length
    let at₂ := at₁ + (optBytes List.Vector.toList csiPart1).length +
      (if csiPart2.isSome then 4 else 0)
    Returns uciStep m (uciInPucchPduFmt234 pMsg RNTI Handle (off + offsetofUciPdu))
      (optStep .csiPart1InPucch (pMsg + at₁) csiPart1 ++ optStep .uciInfo (pMsg + at₂) uciInfo)
      (at₂ + if uciInfo.isSome then 4 + rd16 m (pMsg + at₂) / 8 else 0) := by
  intro at₁ at₂
  obtain ⟨hsr, hharq, hcsi1, hcsi2, huci, hlt⟩ := uciBitmap_and sr.isSome harq.isSome
    csiPart1.isSome csiPart2.isSome uciInfo.isSome
  have hfixed := (holds_pdu h).2.2.1
  simp only [UciPdu.fixedPart, holds_append, UciFields.bytes_length, List.length_append,
    leBytes_length] at hfixed
  have hmap : leValue (slice m (pMsg + (off + offsetofUciPdu) + 13) 1) =
      uciBitmap sr.isSome harq.isSome csiPart1.isSome csiPart2.isSome uciInfo.isSome := by
    rw [← Nat.add_assoc, show offsetofUciPdu = 4 from rfl, hfixed.1.2.leValue_eq]
    exact Nat.mod_eq_of_lt hlt
  refine (Returns.read 1 _).silent ?_
  rw [hmap]
  refine (returns_skipBlock hsr).silent ((returns_skipBlock hharq).silent ((returns_handledBlock
    hcsi1 (returns_macCSIPart1InfoUciInPucch hhandle)).bind
      ((returns_skipCsiPart2 hcsi2).silent ?_)))
  refine returns_uciSection (optStep .uciInfo (pMsg + at₂))
    (fun o => if o.isSome then 4 + rd16 m (pMsg + at₂) / 8 else 0) huci rfl rfl fun x _ => ?_
  rw [Option.isSome_some, if_pos rfl, ← Nat.add_assoc _ 4]
  refine (returns_macUciInfoInPucch hhandle).shows ?_
  refine (Returns.read 2 _).silent ?_
  exact .pure _

/-- The end of a round: `PDUSize` is read, compared and added. -/
def uciPduEnd (pMsg off RNTI Handle offset : ℕ) : RxDec UciLoop := do
  let pduSize ← read 2 (pMsg + off + 2)
  assert (offset - off ≤ pduSize)
  pure { initOffset := off + pduSize, RNTI := RNTI, Handle := Handle }

theorem returns_uciPduEnd {pdu : UciPdu} {RNTI Handle offset : ℕ}
    (h : Holds m (pMsg + off) pdu.bytes) (hoffset : offset ≤ off + 20 + pdu.sections.length) :
    Returns uciStep m (uciPduEnd pMsg off RNTI Handle offset) []
      { initOffset := off + pdu.PDUSize, RNTI := RNTI, Handle := Handle } := by
  have hsize : leValue (slice m (pMsg + off + 2) 2) = pdu.PDUSize := (holds_pdu h).2.1
  have hle : 20 + pdu.sections.length ≤ pdu.PDUSize := by
    unfold UciPdu.PDUSize offsetofUciPdu offsetofSections
    omega
  refine (Returns.read 2 _).silent ?_
  rw [hsize]
  exact (Returns.assert (by omega)).silent (.pure _)

/-- The end of a round shows nothing, also when it fails. -/
theorem uciPduEnd_silent {RNTI Handle offset : ℕ} {es : List UciStep} {s' : UciLoop}
    (h : Returns uciStep m (uciPduEnd pMsg off RNTI Handle offset) es s') : es = [] := by
  rw [← h.2]
  simp only [uciPduEnd, calls_bind, calls_read, result_read, calls_assert, result_assert]
  split_ifs <;> rfl

/-- The identity that a PDU of format 2, 3 or 4 brings. -/
theorem holds_inPucchFmt234 {a fmt : ℕ} {f : UciFields} {sr : Option (Block 4)}
    {harq : Option (Block 20)} {csiPart1 : Option (Block 36)} {csiPart2 : Option CsiPart2}
    {uciInfo : Option UciInfoPdu}
    (h : Holds m a (UciPdu.inPucchFmt234 f fmt sr harq csiPart1 csiPart2 uciInfo).bytes) :
    rd32 m (a + 4) = f.Handle := by
  have hfixed := (holds_pdu h).2.2.1
  simp only [UciPdu.fixedPart, UciFields.bytes, holds_append] at hfixed
  have hlt := f.handle_lt
  rw [rd32, hfixed.1.1.1.1.1.leValue_eq]
  omega

/-- The round for a PDU of format 2, 3 or 4, up to the comparison with `PDUSize`. -/
theorem uciInfo_inPucchFmt234_iff {fmt : ℕ} {f : UciFields} {sr : Option (Block 4)}
    {harq : Option (Block 20)} {csiPart1 : Option (Block 36)} {csiPart2 : Option CsiPart2}
    {uci : Option UciInfoPdu} {es : List UciStep} {s' : UciLoop}
    (h : Holds m (pMsg + s.initOffset)
      (UciPdu.inPucchFmt234 f fmt sr harq csiPart1 csiPart2 uci).bytes) :
    let at₁ := s.initOffset + 20 + (optBytes List.Vector.toList sr).length +
      (optBytes List.Vector.toList harq).length
    let at₂ := at₁ + (optBytes List.Vector.toList csiPart1).length +
      (if csiPart2.isSome then 4 else 0)
    Returns uciStep m (uciInfo pMsg s) es s' ↔
      ∃ es₁, es = [.pdu (pMsg + s.initOffset)] ++ es₁ ∧
        ∃ es₂, es₁ = (optStep .csiPart1InPucch (pMsg + at₁) csiPart1 ++
            optStep .uciInfo (pMsg + at₂) uci) ++ es₂ ∧
          Returns uciStep m (uciPduEnd pMsg s.initOffset
            (rd16 m (pMsg + (s.initOffset + offsetofUciPdu) + 4)) f.Handle
            (at₂ + if uci.isSome then 4 + rd16 m (pMsg + at₂) / 8 else 0)) es₂ s' := by
  intro at₁ at₂
  have htype : leValue (slice m (pMsg + s.initOffset) 2) = 2 := (holds_pdu h).1
  have hHandle : leValue (slice m (pMsg + (s.initOffset + offsetofUciPdu)) 4) = f.Handle := by
    rw [← holds_inPucchFmt234 h, ← Nat.add_assoc]
    rfl
  refine (Returns.call _).bind_iff.trans (exists_congr fun es₁ => and_congr_right fun _ => ?_)
  rw [(Returns.read 2 _).silent_iff, if_neg (by omega), if_neg (by omega), if_pos htype,
    (Returns.read 4 _).silent_iff, (Returns.read 2 _).silent_iff, hHandle]
  exact (returns_uciInPucchPduFmt234 h f.handle_lt).bind_iff.trans
    (exists_congr fun _ => and_congr_right fun _ => (Returns.pure _).silent_iff)

/-- The UCI info of a PDU is found when no TLVs stand in front of it, and then the
sections end within the PDU. -/
theorem uciInfo_found {a fmt : ℕ} {f : UciFields} {sr : Option (Block 4)} {harq : Option (Block 20)}
    {csiPart1 : Option (Block 36)} {csiPart2 : Option CsiPart2} {uci : Option UciInfoPdu}
    (h : Holds m a (UciPdu.inPucchFmt234 f fmt sr harq csiPart1 csiPart2 uci).bytes)
    (hgood : ¬ (UciPdu.inPucchFmt234 f fmt sr harq csiPart1 csiPart2 uci).tlvsBeforeUciInfo) :
    let len := (optBytes List.Vector.toList sr).length + (optBytes List.Vector.toList harq).length +
      (optBytes List.Vector.toList csiPart1).length
    uci.isSome = true → (optBytes CsiPart2.bytes csiPart2).length =
        (if csiPart2.isSome then 4 else 0) ∧
      4 + rd16 m (a + 20 + len + (if csiPart2.isSome then 4 else 0)) / 8 ≤
        (optBytes UciInfoPdu.bytes uci).length := by
  intro len hsome
  obtain ⟨u, rfl⟩ := Option.isSome_iff_exists.mp hsome
  have hlen : (optBytes CsiPart2.bytes csiPart2).length = if csiPart2.isSome then 4 else 0 := by
    cases csiPart2 with
    | none => rfl
    | some c =>
      have htlvs : c.TLVs = [] := not_not.mp hgood
      simp [optBytes, c.bytes_length, htlvs]
  have hsections := (holds_pdu h).2.2.2
  simp only [UciPdu.sections, optBytes, UciInfoPdu.bytes, holds_append] at hsections
  have hbits := hsections.2.2.2.2.1.1.1.leValue_eq
  refine ⟨hlen, ?_⟩
  have hat : a + 20 + len + (if csiPart2.isSome then 4 else 0) =
      a + 20 + (optBytes List.Vector.toList sr).length + (optBytes List.Vector.toList harq).length +
        (optBytes List.Vector.toList csiPart1).length +
          (optBytes CsiPart2.bytes csiPart2).length := by
    omega
  have hlt := u.bitLen_lt
  rw [hat, rd16]
  simp only [optBytes, hbits, u.bytes_length]
  omega

/-- The round for a PDU without TLVs in front of its UCI info. -/
theorem returns_uciInfo {pdu : UciPdu} (h : Holds m (pMsg + s.initOffset) pdu.bytes)
    (hhandle : s.Handle < 65536) (hgood : ¬ pdu.tlvsBeforeUciInfo) :
    ∃ s', Returns uciStep m (uciInfo pMsg s) (pdu.steps (pMsg + s.initOffset)) s' ∧
      s'.initOffset = s.initOffset + pdu.PDUSize ∧ s'.Handle < 65536 := by
  have htype : leValue (slice m (pMsg + s.initOffset) 2) = pdu.PDUType := (holds_pdu h).1
  cases pdu with
  | inPusch f harq csiPart1 csiPart2 =>
    obtain ⟨offset, hle, hret⟩ := returns_uciInPuschPdu h hhandle
    refine ⟨⟨_, s.RNTI, s.Handle⟩, ?_, rfl, hhandle⟩
    refine (Returns.call _).shows ((Returns.read 2 _).silent ?_)
    rw [if_pos (show _ = 0 from htype), ← List.append_nil (optStep _ _ _)]
    have hat : pMsg + (s.initOffset + 20 + (optBytes List.Vector.toList harq).length) =
        pMsg + s.initOffset + offsetofUciPdu + offsetofSections +
          (optBytes List.Vector.toList harq).length := by
      simp only [offsetofUciPdu, offsetofSections]
      omega
    rw [hat] at hret
    exact hret.bind ((Returns.pure _).silent (returns_uciPduEnd h hle))
  | inPucchFmt01 f fmt sr harq =>
    obtain ⟨offset, hle, hret⟩ := returns_uciInPucchPduFmt01 h
    refine ⟨⟨_, s.RNTI, s.Handle⟩, ?_, rfl, hhandle⟩
    refine (Returns.call _).shows ((Returns.read 2 _).silent ?_)
    rw [if_neg (by simp [htype, UciPdu.PDUType]), if_pos (show _ = 1 from htype)]
    exact hret.silent ((Returns.pure _).silent (returns_uciPduEnd h hle))
  | inPucchFmt234 f fmt sr harq csiPart1 csiPart2 uci =>
    have hfound := uciInfo_found h hgood
    have hcsi2 := optBytes_csiPart2_length csiPart2
    refine ⟨⟨_, rd16 m _, f.Handle⟩, (uciInfo_inPucchFmt234_iff h).mpr
      ⟨_, ?_, _, (List.append_nil _).symm, returns_uciPduEnd h ?_⟩, rfl, f.handle_lt⟩
    · cases uci with
      | none => simp [UciPdu.steps, optStep, offsetofUciPdu, offsetofSections, Nat.add_assoc]
      | some u =>
        simp [UciPdu.steps, (hfound rfl).1, offsetofUciPdu, offsetofSections, Nat.add_assoc]
    · simp only [UciPdu.sections, List.length_append]
      cases uci with
      | none =>
        simp only [Option.isSome_none, Bool.false_eq_true, if_false]
        omega
      | some u =>
        have hlen := (hfound rfl).2
        rw [Option.isSome_some, if_pos rfl]
        simp only [Nat.add_assoc] at hlen ⊢
        omega

theorem UciPdu.tlvsBeforeUciInfo.exists {pdu : UciPdu} (h : pdu.tlvsBeforeUciInfo) :
    ∃ f fmt sr harq csiPart1 csiPart2 u,
      pdu = .inPucchFmt234 f fmt sr harq csiPart1 (some csiPart2) (some u) ∧
        csiPart2.TLVs ≠ [] := by
  cases pdu with
  | inPusch => exact h.elim
  | inPucchFmt01 => exact h.elim
  | inPucchFmt234 f fmt sr harq csiPart1 csiPart2 u =>
    cases csiPart2 with
    | none => exact h.elim
    | some c =>
      cases u with
      | none => exact h.elim
      | some u => exact ⟨f, fmt, sr, harq, csiPart1, c, u, rfl, h⟩

/-- The round for a PDU with TLVs in front of its UCI info: if it returns, the UCI
info was looked for in the wrong place. -/
theorem uciInfo_tlvs {pdu : UciPdu} (h : Holds m (pMsg + s.initOffset) pdu.bytes)
    (hbad : pdu.tlvsBeforeUciInfo) {es : List UciStep} {s' : UciLoop}
    (hret : Returns uciStep m (uciInfo pMsg s) es s') :
    es.length = (pdu.steps (pMsg + s.initOffset)).length ∧
      es ≠ pdu.steps (pMsg + s.initOffset) := by
  obtain ⟨f, fmt, sr, harq, csiPart1, csiPart2, u, rfl, htlvs⟩ := hbad.exists
  obtain ⟨_, rfl, es₂, rfl, hend⟩ := (uciInfo_inPucchFmt234_iff h).mp hret
  obtain rfl := uciPduEnd_silent hend
  have hpos : csiPart2.TLVs.length ≠ 0 := fun hnil => htlvs (List.eq_nil_of_length_eq_zero hnil)
  have hat : pMsg + (s.initOffset + 20 + (optBytes List.Vector.toList sr).length +
      (optBytes List.Vector.toList harq).length) = pMsg + s.initOffset + offsetofUciPdu +
      offsetofSections + (optBytes List.Vector.toList sr).length +
      (optBytes List.Vector.toList harq).length := by
    simp only [offsetofUciPdu, offsetofSections]
    omega
  constructor
  · simp [UciPdu.steps, hat, optStep]
  · simp only [UciPdu.steps, optStep, optBytes, csiPart2.bytes_length]
    simp
    omega

end Pdus

/-- The PDUs of an indication are decoded at their encoded addresses, with all
their sections, exactly when no PDU has TLVs in front of its UCI info. -/
theorem returns_loop_iff {n i : ℕ} (fuel : ℕ) {pdus : List UciPdu} {s : UciLoop}
    (h : UciPdusAt m (pMsg + s.initOffset) pdus) (hhandle : s.Handle < 65536) (hn : n < 65536)
    (hi : i + pdus.length = n) (hfuel : pdus.length < fuel) :
    (∃ s', Returns uciStep m (loop16 n (fun _ => uciInfo pMsg) fuel i s)
      (uciSteps (pMsg + s.initOffset) pdus) s') ↔ ∀ pdu ∈ pdus, ¬ pdu.tlvsBeforeUciInfo := by
  induction pdus generalizing fuel i s with
  | nil =>
    obtain ⟨fuel, rfl⟩ := Nat.exists_eq_add_of_lt hfuel
    exact iff_of_true ⟨s, .loop16_done (by simpa using hi.ge)⟩ (by simp)
  | cons pdu pdus ih =>
    obtain ⟨fuel, rfl⟩ : ∃ fuel', fuel = fuel' + 1 := ⟨fuel - 1, by omega⟩
    simp only [List.length_cons] at hi hfuel
    rw [loop16_step (by omega) hn, List.forall_mem_cons, uciSteps]
    by_cases hbad : pdu.tlvsBeforeUciInfo
    · refine iff_of_false ?_ fun hall => hall.1 hbad
      rintro ⟨s', hret⟩
      obtain ⟨es₁, s₁, es₂, hes, hround, -⟩ := hret.bind_inv
      obtain ⟨hlen, hne⟩ := uciInfo_tlvs h.1 hbad hround
      exact hne (List.append_inj hes hlen.symm).1.symm
    · obtain ⟨s₁, hround, hoffset, hhandle₁⟩ := returns_uciInfo h.1 hhandle hbad
      have hrest : UciPdusAt m (pMsg + s₁.initOffset) pdus := by
        rw [hoffset, ← Nat.add_assoc]
        exact h.2
      have hiff := ih (i := i + 1) fuel hrest hhandle₁ (by omega) (by omega)
      rw [hoffset, ← Nat.add_assoc] at hiff
      rw [← hiff]
      simp [hround.bind_iff, hbad]

/-- Everything `uciIndicationProcDecHdlr` does with an encoded UCI indication is
right, no assertion fails and it returns, exactly when no PDU carries TLVs of CSI
part 2 in front of a UCI info section. -/
theorem uciIndicationProcDecHdlr_decodes_iff (fuel : ℕ) (pdus : List UciPdu)
    (h : UciIndicationAt m pMsg pdus) (hfuel : pdus.length < fuel) :
    Returns uciStep m (uciIndicationProcDecHdlr fuel pMsg)
      (uciSteps (pMsg + offsetofPdus) pdus) () ↔ ∀ pdu ∈ pdus, ¬ pdu.tlvsBeforeUciInfo := by
  obtain ⟨hnum, hpdus⟩ := h
  have hlt := rd16_lt m (pMsg + 4)
  rw [← returns_loop_iff (n := rd16 m (pMsg + 4)) (i := 0) (s := ⟨offsetofPdus, 0, 0⟩) fuel
    hpdus (by decide) hlt (by omega) hfuel, uciIndicationProcDecHdlr, (Returns.read 2 _).silent_iff]
  constructor
  · intro hret
    obtain ⟨es₁, s', es₂, hes, hloop, hpure⟩ := hret.bind_inv
    obtain rfl : [] = es₂ := hpure.2
    rw [hes, List.append_nil]
    exact ⟨s', hloop⟩
  · rintro ⟨s', hloop⟩
    rw [← List.append_nil (uciSteps _ _)]
    exact hloop.bind (.pure _)

/-- A PDU of each type: on the PUSCH with a TLV of CSI part 2 at the end, on the PUCCH with a
scheduling request, and on the PUCCH with every section, the UCI info of nine bits. -/
def threeUcis : List UciPdu :=
  let fields : UciFields := ⟨5, 7, .replicate 6 1, by decide⟩
  [.inPusch fields (some (.replicate 20 0)) (some (.replicate 36 0))
      (some ⟨8, 0, [.replicate 8 9], by decide⟩),
    .inPucchFmt01 fields 1 (some (.replicate 4 0)) none,
    .inPucchFmt234 fields 2 (some (.replicate 4 0)) (some (.replicate 20 0))
      (some (.replicate 36 0)) (some ⟨0, 0, [], by decide⟩)
      (some ⟨9, 0, .replicate 2 5, by decide⟩)]

theorem uciIndicationProcDecHdlr_decodes_three :
    Returns uciStep (store (fun _ => 0) 1004 ([3, 0, 0, 0] ++ threeUcis.flatMap UciPdu.bytes))
      (uciIndicationProcDecHdlr 4 1000) [.pdu 1008, .csiPart1InPusch 1048, .pdu 1096, .pdu 1120,
        .csiPart1InPucch 1164, .uciInfo 1204] () := by
  refine (uciIndicationProcDecHdlr_decodes_iff 4 threeUcis ⟨by decide, ?_⟩ (by decide)).mpr ?_
  · simp only [threeUcis, UciPdusAt, and_true, Holds]
    decide +kernel
  · simp [threeUcis, UciPdu.tlvsBeforeUciInfo]

/-- With one TLV of CSI part 2 in front of it, the UCI info at 1040 is looked for
in the TLV at 1032. -/
theorem uciInfo_behind_tlv_misread :
    let pdu := UciPdu.inPucchFmt234 ⟨5, 7, .replicate 6 1, by decide⟩ 2 none none none
      (some ⟨0, 0, [.replicate 8 0], by decide⟩) (some ⟨0, 0, .nil, by decide⟩)
    let m := store (fun _ => 0) 1004 ([1, 0, 0, 0] ++ pdu.bytes)
    UciIndicationAt m 1000 [pdu] ∧ uciSteps 1008 [pdu] = [.pdu 1008, .uciInfo 1040] ∧
      Returns uciStep m (uciIndicationProcDecHdlr 2 1000) [.pdu 1008, .uciInfo 1032] () := by
  intro pdu m
  exact ⟨⟨by decide, by unfold Holds; decide, trivial⟩, by decide, by decide, by decide⟩

end TestMac

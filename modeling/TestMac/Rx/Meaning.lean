import TestMac.Lib.Performs
import TestMac.Rx.Isolation
import TestMac.Rx.RoundTrip
import TestMac.Rx.Uci

/-!
# What the indications of the PHY mean

An indication is a value, and it means an action on the globals of the MAC, stated by the
fields of the value. How an indication is laid out in a message is apart from what it means:
`Decodes` says that the decoder of a message performs the action of the indication in it.
-/

namespace TestMac

open Bytes Decoder Act

/-- `L1ConfigResponse_t`. Only the first field is looked at. -/
structure ConfigResponse where
  ErrorCode : UInt8
  counts : Block 7

def ConfigResponse.bytes (rsp : ConfigResponse) : List UInt8 :=
  [rsp.ErrorCode] ++ rsp.counts.toList

/-- `L1ErrorIndication_t`. The TLVs are not looked at. -/
structure ErrorIndication where
  SFN : UInt16
  Slot : UInt16
  ExpectedSFN : UInt16
  ExpectedSlot : UInt16
  MessageId : UInt8
  ErrorCode : UInt8
  NumTLVs : UInt8
  rev : UInt8
  TLV : List UInt8

def ErrorIndication.bytes (ind : ErrorIndication) : List UInt8 :=
  leBytes 2 ind.SFN.toNat ++ (leBytes 2 ind.Slot.toNat ++ (leBytes 2 ind.ExpectedSFN.toNat ++
    (leBytes 2 ind.ExpectedSlot.toNat ++ ([ind.MessageId] ++ ([ind.ErrorCode] ++
      ([ind.NumTLVs] ++ ([ind.rev] ++ ind.TLV)))))))

/-- `L1SrsIndication_t`. Its PDUs are counted and not looked at. -/
structure SrsIndication where
  SFN : UInt16
  Slot : UInt16
  controlLength : UInt16
  numPDUs : UInt8
  rev0 : UInt8
  pdus : List (Block 24)
  count : pdus.length = numPDUs.toNat

def SrsIndication.bytes (ind : SrsIndication) : List UInt8 :=
  leBytes 2 ind.SFN.toNat ++ (leBytes 2 ind.Slot.toNat ++ (leBytes 2 ind.controlLength.toNat ++
    ([ind.numPDUs] ++ ([ind.rev0] ++ ind.pdus.flatMap List.Vector.toList))))

/-- An indication of the PHY. -/
inductive Indication
  | rxData (ind : RxDataIndication)
  | slot (SFN Slot : UInt16)
  | configResponse (rsp : ConfigResponse)
  | stop (ErrorCode : UInt32)
  | error (ind : ErrorIndication)
  | crc (ind : CrcIndication)
  /-- The PDUs of `L1UciIndication_t`. -/
  | uci (pdus : List UciPdu)
  | srs (ind : SrsIndication)
  | rach (ind : RachIndication)

/-- The identifier in the header of the message. -/
def Indication.msgId : Indication → ℕ
  | rxData _ => fapiRxDataIndication
  | slot _ _ => fapiSlotIndication
  | configResponse _ => fapiConfigResponse
  | stop _ => fapiStopIndication
  | error _ => fapiErrorIndication
  | crc _ => fapiCrcIndication
  | uci _ => fapiUciIndication
  | srs _ => fapiSrsIndication
  | rach _ => fapiPrachIndication

/-- The length of the body of the message. -/
def Indication.msgSize : Indication → ℕ
  | rxData ind => ind.bytes.length
  | slot _ _ => 4
  | configResponse _ => 8
  | stop _ => 4
  | error ind => ind.bytes.length
  | crc ind => ind.bytes.length
  | uci pdus => offsetofPdus + (pdus.map UciPdu.PDUSize).sum
  | srs ind => ind.bytes.length
  | rach ind => ind.bytes.length

/-- The body of the message stands at an address. -/
def Indication.BodyAt (m : Mem) (pMsg : ℕ) : Indication → Prop
  | rxData ind => Holds m pMsg ind.bytes
  | slot SFN Slot => Holds m pMsg (leBytes 2 SFN.toNat ++ leBytes 2 Slot.toNat)
  | configResponse rsp => Holds m pMsg rsp.bytes
  | stop ErrorCode => Holds m pMsg (leBytes 4 ErrorCode.toNat)
  | error ind => Holds m pMsg ind.bytes
  | crc ind => Holds m pMsg ind.bytes
  | uci pdus => UciIndicationAt m pMsg pdus
  | srs ind => Holds m pMsg ind.bytes
  | rach ind => Holds m pMsg ind.bytes

/-- What the decoders can follow: the counters of their loops do not wrap, and no TLVs
stand in front of a UCI info section. -/
def Indication.Decodable : Indication → Prop
  | rxData ind => ∀ pdu ∈ ind.pdus, pdu.TLVs.length < 65536
  | uci pdus => ∀ pdu ∈ pdus, ¬ pdu.tlvsBeforeUciInfo
  | _ => True

section Meaning

variable (env : Env) (dev cell : ℕ)

/-- A change of the PUSCH counters. -/
def inPuschStats (f : MacStatsPusch → MacStatsPusch) : Act Receiver Unit :=
  inCellCtx dev cell fun ctx => { ctx with puschStatsInfo := f ctx.puschStatsInfo }

/-- A change of the RACH counters. -/
def inRachStats (f : MacStatsRach → MacStatsRach) : Act Receiver Unit :=
  inCellCtx dev cell fun ctx => { ctx with rachStatsInfo := f ctx.rachStatsInfo }

/-- A verdict on CSI part 1 of a UE is counted. -/
def countUe (cRnti : ℕ) (pass : Bool) : Act Receiver Unit :=
  update fun r => { r with
    sMacUeCtxt := Function.update r.sMacUeCtxt (ueIndex cRnti)
      ((r.sMacUeCtxt (ueIndex cRnti)).csiPart1Crc pass) }

/-- A transport block was received or not. -/
def CrcInfo.perform (crc : CrcInfo) : Act Receiver Unit :=
  if crc.TbCrcStatus.toNat = 0 then
    inPuschStats dev cell (·.crcPass crc.TA.toNat crc.RSSI.toNat crc.SINR.toNat)
  else if crc.TbCrcStatus.toNat = 1 then inPuschStats dev cell (·.crcFail crc.TA.toNat)
  else pure ()

/-- Something was received on the PRACH, with some preambles. -/
def RachPdu.perform (pdu : RachPdu) : Act Receiver Unit := do
  inRachStats dev cell (·.rssi pdu.info.avgRssi.toNat)
  forEach (fun p => inRachStats dev cell (·.preamble p.preambleIndex.toNat p.TA.toNat)) pdu.preamble

/-- CSI part 1 of a UE, with what is done besides when it was received. -/
def performCsiPart1 (RNTI : ℕ) (passed : Act Receiver Unit) (csiPart1 : Block 36) :
    Act Receiver Unit := do
  accessUe RNTI
  if (csiPart1.get 2).toNat = 0 then do
    countUe RNTI true
    passed
  else if (csiPart1.get 2).toNat = 1 then countUe RNTI false
  else pure ()

/-- A UCI info section. -/
def UciInfoPdu.perform (u : UciInfoPdu) : Act Receiver Unit :=
  if u.CrcStatus % 256 = 0 then
    inPucchStats dev cell fun s =>
      { s with numPucchCrcPass := (s.numPucchCrcPass + 1) % 4294967296 }
  else if u.CrcStatus % 256 = 1 then
    inPucchStats dev cell fun s =>
      { s with numPucchCrcFail := (s.numPucchCrcFail + 1) % 4294967296 }
  else if u.CrcStatus % 256 = 2 then
    inPucchStats dev cell fun s =>
      { s with numPucchUciDetected := (s.numPucchUciDetected + 1) % 4294967296 }
  else if u.CrcStatus % 256 = 3 then
    inPucchStats dev cell fun s =>
      { s with numPucchUciNotDetected := (s.numPucchUciNotDetected + 1) % 4294967296 }
  else pure ()

/-- An optional section. -/
def optPerform {α : Type} (action : α → Act Receiver Unit) : Option α → Act Receiver Unit
  | none => pure ()
  | some x => action x

/-- The identity that the PDUs behind this one go by. Only a PDU of PUCCH format 2, 3 or 4
brings a new one. -/
def UciPdu.nextRNTI (RNTI : ℕ) : UciPdu → ℕ
  | inPucchFmt234 f .. => f.RNTI % 65536
  | _ => RNTI

/-- The sections of a PDU that are looked at. -/
def UciPdu.perform (RNTI : ℕ) : UciPdu → Act Receiver Unit
  | inPusch _ _ csiPart1 _ => optPerform (performCsiPart1 RNTI (pure ())) csiPart1
  | inPucchFmt01 .. => pure ()
  | inPucchFmt234 f _ _ _ csiPart1 _ uciInfo => do
    optPerform (performCsiPart1 (f.RNTI % 65536) (inPucchStats dev cell fun s =>
      { s with numPucchCrcPass := (s.numPucchCrcPass + 1) % 4294967296 })) csiPart1
    optPerform (UciInfoPdu.perform dev cell) uciInfo

/-- The PDUs of a UCI indication, the first one by the given identity. -/
def performUciPdus : ℕ → List UciPdu → Act Receiver Unit
  | _, [] => pure ()
  | RNTI, pdu :: pdus => do
    pdu.perform dev cell RNTI
    performUciPdus (pdu.nextRNTI RNTI) pdus

/-- What an indication means. -/
def Indication.perform : Indication → Act Receiver Unit
  | rxData _ => pure ()
  | slot SFN Slot => do
    inCell dev cell (macTxStartIndHandle env ⟨SFN.toNat, Slot.toNat⟩)
    countSlot dev cell
    inCell dev cell (setPhyState .phyActive)
  | configResponse rsp => inCell dev cell (macRevCfgResonse env rsp.ErrorCode.toNat)
  | stop _ => inCell dev cell (macRevStopIndication env)
  | error ind =>
    inCell dev cell (macRevErrorIndication ind.MessageId.toNat ind.ErrorCode.toNat)
  | crc ind => forEach (CrcInfo.perform dev cell) ind.CRCs
  | uci pdus => performUciPdus dev cell 0 pdus
  | srs _ => pure ()
  | rach ind => forEach (RachPdu.perform dev cell) ind.pdus

end Meaning

variable {env : Env} {dev cell fuel pMsg : ℕ} {m : Mem}

/-- The decoder of the message performs the action. -/
abbrev Decodes (env : Env) (dev cell : ℕ) (m : Mem) (x : RxDec Unit) (act : Act Receiver Unit) :
    Prop :=
  Performs (rxCall env dev cell) m x () act

section Fields

variable {a : ℕ}

/-- The fields of an entry of a CRC indication that are read. -/
theorem CrcInfo.read_eq {crc : CrcInfo} (h : Holds m a crc.bytes) :
    rd8 m (a + 7) = crc.TbCrcStatus.toNat ∧ rd32 m (a + 8) = crc.TA.toNat ∧
      rd16 m (a + 12) = crc.RSSI.toNat ∧ rd8 m (a + 15) = crc.SINR.toNat := by
  simp only [CrcInfo.bytes, holds_append, leBytes_length, List.length_singleton, Nat.add_assoc,
    Nat.reduceAdd] at h
  obtain ⟨-, -, -, hstatus, hTA, hRSSI, -, hSINR, -⟩ := h
  exact ⟨hstatus.rd8_eq, hTA.rd32_eq, hRSSI.rd16_eq, hSINR.rd8_eq⟩

theorem PreambleInfo.read_eq {p : PreambleInfo} (h : Holds m a p.bytes) :
    rd16 m (a + 4) = p.TA.toNat ∧ rd8 m (a + 7) = p.preambleIndex.toNat := by
  simp only [PreambleInfo.bytes, holds_append, leBytes_length, List.length_singleton,
    Nat.add_assoc, Nat.reduceAdd] at h
  obtain ⟨-, hTA, -, hIndex⟩ := h
  exact ⟨hTA.rd16_eq, hIndex.rd8_eq⟩

theorem RachPduInfo.read_eq {p : RachPduInfo} (h : Holds m a p.bytes) :
    rd16 m (a + 2) = p.avgRssi.toNat ∧ rd8 m (a + 8) = p.numPreambles.toNat := by
  simp only [RachPduInfo.bytes, holds_append, leBytes_length, List.length_singleton,
    Nat.add_assoc, Nat.reduceAdd] at h
  obtain ⟨-, hRssi, -, -, -, -, hnum, -⟩ := h
  exact ⟨hRssi.rd16_eq, hnum.rd8_eq⟩

/-- A byte of a block. -/
theorem holds_block {n : ℕ} {b : Block n} (h : Holds m a b.toList) (i : Fin n) :
    rd8 m (a + i) = (b.get i).toNat := by
  obtain ⟨l, rfl⟩ := b
  have hget : (slice m a l.length)[(i : ℕ)]? = l[(i : ℕ)]? := congrArg (·[(i : ℕ)]?) h
  have hbyte : m (a + i) = l.get i := by simpa [slice] using hget
  exact (holds_singleton.mpr hbyte).rd8_eq

end Fields

section Received

theorem performs_macCrcInHdlr {crcInfo : ℕ} {crc : CrcInfo} (h : Holds m crcInfo crc.bytes) :
    Decodes env dev cell m (macCrcInHdlr crcInfo) (crc.perform dev cell) := by
  obtain ⟨hstatus, hTA, hRSSI, hSINR⟩ := CrcInfo.read_eq h
  have hcall : Decodes env dev cell m (Decoder.call (.macCrcInHdlr crcInfo)) (pure ()) :=
    .call_unseen rfl
  refine hcall.silent ((Performs.read 1 _).silent ?_)
  rw [← rd8, hstatus, CrcInfo.perform]
  refine .ite (fun _ => ?_) fun _ => .ite (fun _ => ?_) fun _ => .pure ()
  · refine (Performs.read 4 _).silent ((Performs.read 2 _).silent ((Performs.read 1 _).silent ?_))
    rw [← rd32, ← rd16, ← rd8, hTA, hRSSI, hSINR]
    exact .call _
  · refine (Performs.read 4 _).silent ?_
    rw [← rd32, hTA]
    exact .call _

/-- A CRC indication means what its entries mean. -/
theorem performs_crcIndication (hfuel : 65536 ≤ fuel) {ind : CrcIndication}
    (h : Holds m pMsg ind.bytes) :
    Decodes env dev cell m (crcIndicationProcDecHdlr fuel pMsg)
      (forEach (CrcInfo.perform dev cell) ind.CRCs) := by
  simp only [CrcIndication.bytes, holds_append, leBytes_length, Nat.add_assoc, Nat.reduceAdd] at h
  obtain ⟨-, -, hnum, -, hCRCs⟩ := h
  have hcount : leValue (slice m (pMsg + 4) 2) = ind.CRCs.length := by
    rw [ind.count]
    exact hnum.rd16_eq
  have hlt : ind.CRCs.length < 65536 := by
    rw [ind.count]
    exact ind.numCRCs.toNat_lt
  refine (Performs.read 2 _).silent ?_
  rw [hcount]
  refine (Performs.loop16_placed (CrcInfo.perform dev cell) hlt
    (show ind.CRCs.length < fuel by omega) ?_ hCRCs le_rfl).done (.pure ())
  intro i off crc _ hcrc _
  rw [crc.bytes_length]
  exact (performs_macCrcInHdlr hcrc).done (.pure _)

/-- A PDU of a RACH indication. -/
theorem performs_rachPdu (hfuel : 65536 ≤ fuel) {off : ℕ} {pdu : RachPdu}
    (h : Holds m (pMsg + off) pdu.bytes) :
    Performs (rxCall env dev cell) m (do
      macRachPduInHdlr (pMsg + off)
      let numPreambles ← Decoder.read 1 (pMsg + off + 8)
      loop16 numPreambles (fun _ offset => do
        macPreambleInHdlr (pMsg + offset)
        pure (offset + sizeofL1PreambleInfo)) fuel 0 (off + offsetofPreamble))
      (off + pdu.bytes.length) (pdu.perform dev cell) := by
  obtain ⟨hinfo, hpreamble⟩ := holds_append.mp h
  obtain ⟨hRssi, hnum⟩ := RachPduInfo.read_eq hinfo
  rw [RachPduInfo.bytes_length, Nat.add_assoc] at hpreamble
  rw [← pdu.count] at hnum
  have hlt : pdu.preamble.length < 256 := by
    rw [pdu.count]
    exact pdu.info.numPreambles.toNat_lt
  have hpdu : Decodes env dev cell m (macRachPduInHdlr (pMsg + off))
      (inRachStats dev cell (·.rssi pdu.info.avgRssi.toNat)) := by
    refine (Performs.read 2 _).silent ?_
    rw [← rd16, hRssi]
    exact .call _
  refine hpdu.bind ((Performs.read 1 _).silent ?_)
  rw [← rd8, hnum, show off + pdu.bytes.length =
    off + offsetofPreamble + (pdu.preamble.flatMap PreambleInfo.bytes).length by
      simp [RachPdu.bytes, Nat.add_assoc]]
  refine Performs.loop16_placed _ (by omega) (show pdu.preamble.length < fuel by omega) ?_
    hpreamble le_rfl
  intro i off' p _ hp _
  obtain ⟨hTA, hIndex⟩ := PreambleInfo.read_eq hp
  rw [p.bytes_length]
  refine Performs.done (a := ()) ?_ (.pure _)
  refine (Performs.read 2 _).silent ((Performs.read 1 _).silent ?_)
  rw [← rd16, ← rd8, hTA, hIndex]
  exact .call _

/-- A RACH indication means what its PDUs mean. -/
theorem performs_rachIndication (hfuel : 65536 ≤ fuel) {ind : RachIndication}
    (h : Holds m pMsg ind.bytes) :
    Decodes env dev cell m (rachIndicationProcDecHdlr fuel pMsg)
      (forEach (RachPdu.perform dev cell) ind.pdus) := by
  simp only [RachIndication.bytes, holds_append, leBytes_length, List.length_singleton,
    Nat.add_assoc, Nat.reduceAdd] at h
  obtain ⟨-, -, hnum, -, -, hpdus⟩ := h
  have hcount : leValue (slice m (pMsg + 4) 1) = ind.pdus.length := by
    rw [ind.count]
    exact hnum.rd8_eq
  have hlt : ind.pdus.length < 256 := by
    rw [ind.count]
    exact ind.numPDUs.toNat_lt
  refine (Performs.read 1 _).silent ?_
  rw [hcount]
  refine (Performs.loop16_placed (RachPdu.perform dev cell) (by omega)
    (show ind.pdus.length < fuel by omega) ?_ hpdus le_rfl).done (.pure ())
  intro i off pdu _ hpdu _
  exact performs_rachPdu hfuel hpdu

/-- An SRS indication means nothing. -/
theorem performs_srsIndication (hfuel : 65536 ≤ fuel) {ind : SrsIndication}
    (h : Holds m pMsg ind.bytes) :
    Decodes env dev cell m (srsIndicationProcDecHdlr fuel pMsg) (pure ()) := by
  simp only [SrsIndication.bytes, holds_append, leBytes_length, List.length_singleton,
    Nat.add_assoc, Nat.reduceAdd] at h
  obtain ⟨-, -, -, hnum, -⟩ := h
  have hlt : rd8 m (pMsg + 6) < 256 := rd8_lt m _
  refine (Performs.read 1 _).silent ?_
  rw [← rd8]
  have hround : ∀ i offset : ℕ, ∃ offset', Performs (rxCall env dev cell) m
      (pure (offset + offsetofReportTLV)) offset' (pure ()) :=
    fun _ offset => ⟨offset + offsetofReportTLV, .pure _⟩
  obtain ⟨_, hloop⟩ := Performs.loop16_silent (show rd8 m (pMsg + 6) < 65536 by omega)
    (show rd8 m (pMsg + 6) < fuel by omega) hround offsetofPdus
  exact hloop.silent (.pure ())

/-- The data of the TLVs is handed to the driver, and nothing is done with it. -/
theorem performs_rxDataIndication (hfuel : 65536 ≤ fuel) {ind : RxDataIndication}
    (hnumTLV : ∀ pdu ∈ ind.pdus, pdu.TLVs.length < 65536) (hsize : ind.bytes.length < 4294967296)
    (h : Holds m pMsg ind.bytes) :
    Decodes env dev cell m (rxDataIndicationProcDecHdlr fuel pMsg) (pure ()) := by
  obtain ⟨hout, hcalls⟩ := returns_rxDataIndication hfuel hnumTLV hsize h
  rw [List.filterMap_some] at hcalls
  refine ⟨hout, ?_⟩
  rw [hcalls, ← forEach_pure]
  refine forEach_congr ?_
  intro c hc
  obtain ⟨pdu, -, hpdu⟩ := List.mem_flatMap.mp hc
  obtain ⟨t, -, rfl⟩ := List.mem_map.mp hpdu
  rfl

end Received

section Uci

variable {α : Type} {pduBitmap bit offset off a : ℕ} {hdlr : ℕ → RxDec ℕ} {s : UciLoop}

theorem performs_csiPart1InPusch {RNTI handle addr : ℕ} {csiPart1 : Block 36}
    (hhandle : handle < 65536) (h : Holds m addr csiPart1.toList) :
    Decodes env dev cell m (macCSIPart1InfoUciInPuschPduFmt234PduHdlr RNTI handle addr)
      (performCsiPart1 RNTI (pure ()) csiPart1) := by
  have hcrc : rd8 m (addr + 2) = (csiPart1.get 2).toNat := holds_block h 2
  have hcall : Decodes env dev cell m (Decoder.call
      (.macCSIPart1InfoUciInPuschPduFmt234PduHdlr RNTI handle addr)) (accessUe RNTI) := .call _
  refine hcall.bind ((Performs.assert hhandle).silent ((Performs.read 1 _).silent ?_))
  rw [← rd8, hcrc, bind_unit]
  exact .ite (fun _ => .call _) fun _ => .ite (fun _ => .call _) fun _ => .pure ()

theorem performs_csiPart1InPucch {RNTI handle addr : ℕ} {csiPart1 : Block 36}
    (hhandle : handle < 65536) (h : Holds m addr csiPart1.toList) :
    Decodes env dev cell m (macCSIPart1InfoUciInPucchPduFmt234PduHdlr RNTI handle addr)
      (performCsiPart1 RNTI (inPucchStats dev cell fun s =>
        { s with numPucchCrcPass := (s.numPucchCrcPass + 1) % 4294967296 }) csiPart1) := by
  have hcrc : rd8 m (addr + 2) = (csiPart1.get 2).toNat := holds_block h 2
  have hcall : Decodes env dev cell m (Decoder.call
      (.macCSIPart1InfoUciInPucchPduFmt234PduHdlr RNTI handle addr)) (accessUe RNTI) := .call _
  refine hcall.bind ((Performs.assert hhandle).silent ((Performs.read 1 _).silent ?_))
  rw [← rd8, hcrc]
  refine .ite (fun _ => ?_) fun _ => .ite (fun _ => .call _) fun _ => .pure ()
  have hue : Decodes env dev cell m (Decoder.call (.ueCsiPart1Crc RNTI true))
      (countUe RNTI true) := .call _
  exact hue.bind (.call _)

theorem performs_uciInfoInPucch {RNTI handle addr : ℕ} {u : UciInfoPdu}
    (hhandle : handle < 65536) (h : Holds m addr u.bytes) :
    Decodes env dev cell m (macUciInfoInPucchPduFmt234PduHdlr RNTI handle addr)
      (u.perform dev cell) := by
  simp only [UciInfoPdu.bytes, holds_append, leBytes_length] at h
  have hstatus : rd8 m (addr + 2) = u.CrcStatus % 256 := h.1.1.2.leValue_eq
  have hcall : Decodes env dev cell m (Decoder.call
      (.macUciInfoInPucchPduFmt234PduHdlr RNTI handle addr)) (pure ()) := .call_unseen rfl
  refine hcall.silent ((Performs.assert hhandle).silent ((Performs.read 1 _).silent ?_))
  rw [← rd8, hstatus]
  exact .ite (fun _ => .call _) fun _ => .ite (fun _ => .call _) fun _ =>
    .ite (fun _ => .call _) fun _ => .ite (fun _ => .call _) fun _ => .pure ()

/-- An optional section that is handed to a handler. -/
theorem performs_section {o : Option α} {action : α → Act Receiver Unit} (len : Option α → ℕ)
    (hbit : pduBitmap &&& bit ≠ 0 ↔ o.isSome = true) (hlen : len none = 0)
    (hsome : ∀ x, o = some x →
      Performs (rxCall env dev cell) m (hdlr offset) (offset + len (some x)) (action x)) :
    Performs (rxCall env dev cell) m (uciSection pduBitmap bit hdlr offset) (offset + len o)
      (optPerform action o) := by
  unfold uciSection
  cases o with
  | none =>
    rw [if_neg (by simpa using hbit), hlen]
    exact .pure _
  | some x =>
    rw [if_pos (hbit.mpr rfl)]
    exact hsome x rfl

/-- An optional section that is skipped. -/
theorem performs_skipSection {o : Option α} {n : ℕ}
    (hbit : pduBitmap &&& bit ≠ 0 ↔ o.isSome = true) :
    Performs (rxCall env dev cell) m (uciSection pduBitmap bit (skipSection n) offset)
      (offset + if o.isSome then n else 0) (pure ()) := by
  have hskip : Performs (rxCall env dev cell) m (uciSection pduBitmap bit (skipSection n) offset)
      (offset + if o.isSome then n else 0) (optPerform (fun _ => pure ()) o) :=
    performs_section (fun o => if o.isSome then n else 0) hbit rfl fun _ _ => .pure _
  cases o with
  | none => exact hskip
  | some x => exact hskip

/-- A section that is present stands where its bytes are encoded. -/
theorem holds_some {bytes : α → List UInt8} {o : Option α} {x : α}
    (h : Holds m a (optBytes bytes o)) (hx : o = some x) : Holds m a (bytes x) := by
  subst hx
  exact h

theorem length_optBlock {n : ℕ} (o : Option (Block n)) :
    (optBytes List.Vector.toList o).length = if o.isSome then n else 0 := by
  cases o with
  | none => rfl
  | some b => simp [optBytes]

variable (env dev cell) in
/-- The sections of a PUSCH PDU. -/
theorem performs_uciInPuschPdu {f : UciFields} {harq : Option (Block 20)}
    {csiPart1 : Option (Block 36)} {csiPart2 : Option CsiPart2}
    (h : Holds m (pMsg + off) (UciPdu.inPusch f harq csiPart1 csiPart2).bytes)
    (hhandle : s.Handle < 65536) :
    ∃ offset, offset ≤ off + 20 + (UciPdu.inPusch f harq csiPart1 csiPart2).sections.length ∧
      Performs (rxCall env dev cell) m (uciInPuschPdu pMsg s (off + offsetofUciPdu)) offset
        ((UciPdu.inPusch f harq csiPart1 csiPart2).perform dev cell s.RNTI) := by
  obtain ⟨-, hharq, hcsi1, hcsi2, -, hlt⟩ :=
    uciBitmap_and false harq.isSome csiPart1.isSome csiPart2.isSome false
  obtain ⟨-, -, hfixed, hsections⟩ := holds_pdu h
  simp only [UciPdu.fixedPart, holds_append, UciFields.bytes_length] at hfixed
  simp only [UciPdu.sections, holds_append, length_optBlock] at hsections
  have hmap : rd8 m (pMsg + (off + offsetofUciPdu) + 12) =
      uciBitmap false harq.isSome csiPart1.isSome csiPart2.isSome false := by
    rw [← Nat.add_assoc, show offsetofUciPdu = 4 from rfl, rd8, hfixed.1.2.leValue_eq]
    exact Nat.mod_eq_of_lt hlt
  refine ⟨off + 20 + (if harq.isSome then 20 else 0) + (if csiPart1.isSome then 36 else 0) +
    (if csiPart2.isSome then 4 else 0), ?_, ?_⟩
  · have := optBytes_csiPart2_length csiPart2
    simp only [UciPdu.sections, List.length_append, length_optBlock]
    omega
  · refine (Performs.read 1 _).silent ?_
    rw [← rd8, hmap]
    refine (performs_skipSection hharq).silent (Performs.done ?_ (performs_skipSection hcsi2))
    refine performs_section (fun o => if o.isSome then 36 else 0) hcsi1 rfl ?_
    intro csi hcsi
    refine (performs_csiPart1InPusch hhandle ?_).done (.pure _)
    refine holds_some ?_ hcsi
    convert hsections.2.1 using 1
    simp only [offsetofUciPdu, offsetofSections, sizeofL1HarqPduForFmt234]
    omega

variable (env dev cell) in
/-- The sections of a PUCCH PDU of format 0 or 1 are skipped. -/
theorem performs_uciInPucchPduFmt01 {f : UciFields} {fmt : ℕ} {sr harq : Option (Block 4)}
    (h : Holds m (pMsg + off) (UciPdu.inPucchFmt01 f fmt sr harq).bytes) :
    ∃ offset, offset ≤ off + 20 + (UciPdu.inPucchFmt01 f fmt sr harq).sections.length ∧
      Performs (rxCall env dev cell) m (uciInPucchPduFmt01 pMsg (off + offsetofUciPdu)) offset
        (pure ()) := by
  obtain ⟨hsr, hharq, -, -, -, hlt⟩ := uciBitmap_and sr.isSome harq.isSome false false false
  obtain ⟨-, -, hfixed, -⟩ := holds_pdu h
  simp only [UciPdu.fixedPart, holds_append, UciFields.bytes_length] at hfixed
  have hmap : rd8 m (pMsg + (off + offsetofUciPdu) + 12) =
      uciBitmap sr.isSome harq.isSome false false false := by
    rw [← Nat.add_assoc, show offsetofUciPdu = 4 from rfl, rd8, hfixed.1.1.2.leValue_eq]
    exact Nat.mod_eq_of_lt hlt
  refine ⟨off + 20 + (if sr.isSome then 4 else 0) + (if harq.isSome then 4 else 0), ?_, ?_⟩
  · simp only [UciPdu.sections, List.length_append, length_optBlock]
    omega
  · refine (Performs.read 1 _).silent ?_
    rw [← rd8, hmap]
    exact (performs_skipSection hsr).silent (performs_skipSection hharq)

variable (env dev cell) in
/-- The sections of a PUCCH PDU of format 2, 3 or 4 without TLVs in front of its UCI info. -/
theorem performs_uciInPucchPduFmt234 {f : UciFields} {fmt : ℕ} {sr : Option (Block 4)}
    {harq : Option (Block 20)} {csiPart1 : Option (Block 36)} {csiPart2 : Option CsiPart2}
    {uci : Option UciInfoPdu}
    (h : Holds m (pMsg + off) (UciPdu.inPucchFmt234 f fmt sr harq csiPart1 csiPart2 uci).bytes)
    (hgood : ¬ (UciPdu.inPucchFmt234 f fmt sr harq csiPart1 csiPart2 uci).tlvsBeforeUciInfo)
    (RNTI : ℕ) :
    ∃ offset, offset ≤ off + 20 +
        (UciPdu.inPucchFmt234 f fmt sr harq csiPart1 csiPart2 uci).sections.length ∧
      Performs (rxCall env dev cell) m
        (uciInPucchPduFmt234 pMsg (f.RNTI % 65536) f.Handle (off + offsetofUciPdu)) offset
        ((UciPdu.inPucchFmt234 f fmt sr harq csiPart1 csiPart2 uci).perform dev cell RNTI) := by
  obtain ⟨hsr, hharq, hcsi1, hcsi2, huci, hlt⟩ := uciBitmap_and sr.isSome harq.isSome
    csiPart1.isSome csiPart2.isSome uci.isSome
  have hfound := uciInfo_found h hgood
  obtain ⟨-, -, hfixed, hsections⟩ := holds_pdu h
  simp only [UciPdu.fixedPart, holds_append, UciFields.bytes_length, List.length_append,
    leBytes_length] at hfixed
  simp only [UciPdu.sections, holds_append, length_optBlock] at hsections
  obtain ⟨-, -, hcsi1At, -, huciAt⟩ := hsections
  simp only [length_optBlock] at hfound
  have hmap : rd8 m (pMsg + (off + offsetofUciPdu) + 13) =
      uciBitmap sr.isSome harq.isSome csiPart1.isSome csiPart2.isSome uci.isSome := by
    rw [← Nat.add_assoc, show offsetofUciPdu = 4 from rfl, rd8, hfixed.1.2.leValue_eq]
    exact Nat.mod_eq_of_lt hlt
  let at₁ := off + 20 + (if sr.isSome then 4 else 0) + (if harq.isSome then 20 else 0)
  let at₂ := at₁ + (if csiPart1.isSome then 36 else 0) + (if csiPart2.isSome then 4 else 0)
  refine ⟨at₂ + if uci.isSome then 4 + rd16 m (pMsg + at₂) / 8 else 0, ?_, ?_⟩
  · have := optBytes_csiPart2_length csiPart2
    simp only [UciPdu.sections, List.length_append, length_optBlock]
    cases uci with
    | none =>
      simp only [Option.isSome_none, Bool.false_eq_true, if_false]
      omega
    | some u =>
      have hlen := (hfound rfl).2
      rw [Option.isSome_some, if_pos rfl]
      simp only [at₁, at₂, Nat.add_assoc] at hlen ⊢
      omega
  · refine (Performs.read 1 _).silent ?_
    rw [← rd8, hmap]
    refine (performs_skipSection hsr).silent ((performs_skipSection hharq).silent
      (Performs.bind (a := at₁ + if csiPart1.isSome then 36 else 0) ?_
        ((performs_skipSection hcsi2).silent ?_)))
    · refine performs_section (fun o => if o.isSome then 36 else 0) hcsi1 rfl ?_
      intro csi hcsi
      refine (performs_csiPart1InPucch f.handle_lt ?_).done (.pure _)
      refine holds_some ?_ hcsi
      convert hcsi1At using 1
      simp only [offsetofUciPdu, offsetofSections, sizeofL1SrPduFMT234, sizeofL1HarqPduForFmt234]
      omega
    · refine performs_section (fun o => if o.isSome then 4 + rd16 m (pMsg + at₂) / 8 else 0)
        huci rfl ?_
      intro u hu
      have hcsi2Len := (hfound (by simp [hu])).1
      refine (performs_uciInfoInPucch f.handle_lt ?_).done ?_
      · refine holds_some ?_ hu
        rw [hcsi2Len] at huciAt
        convert huciAt using 1
        simp only [sizeofL1CSIPart2Pdu]
        omega
      · refine (Performs.read 2 _).silent ?_
        rw [Option.isSome_some, if_pos rfl, ← Nat.add_assoc _ 4]
        exact .pure _

/-- The end of a round. -/
theorem performs_uciPduEnd {pdu : UciPdu} {RNTI Handle : ℕ}
    (h : Holds m (pMsg + off) pdu.bytes) (hoffset : offset ≤ off + 20 + pdu.sections.length) :
    Performs (rxCall env dev cell) m (uciPduEnd pMsg off RNTI Handle offset)
      { initOffset := off + pdu.PDUSize, RNTI := RNTI, Handle := Handle } (pure ()) := by
  refine ⟨(returns_uciPduEnd h hoffset).1, ?_⟩
  have hnone : (uciPduEnd pMsg off RNTI Handle offset).calls m = [] := by
    simp only [uciPduEnd, calls_bind, calls_read, result_read, calls_assert, result_assert]
    split_ifs <;> rfl
  rw [hnone]
  rfl

variable (env dev cell) in
/-- The round for a PDU performs what the PDU means, and leaves what it brings. -/
theorem performs_uciInfo {pdu : UciPdu} (h : Holds m (pMsg + s.initOffset) pdu.bytes)
    (hhandle : s.Handle < 65536) (hgood : ¬ pdu.tlvsBeforeUciInfo) :
    ∃ s', Performs (rxCall env dev cell) m (uciInfo pMsg s) s' (pdu.perform dev cell s.RNTI) ∧
      s'.initOffset = s.initOffset + pdu.PDUSize ∧ s'.Handle < 65536 ∧
        s'.RNTI = pdu.nextRNTI s.RNTI := by
  have htype : leValue (slice m (pMsg + s.initOffset) 2) = pdu.PDUType := (holds_pdu h).1
  have hcall : Decodes env dev cell m (Decoder.call (.uciPdu (pMsg + s.initOffset))) (pure ()) :=
    .call_unseen rfl
  cases pdu with
  | inPusch f harq csiPart1 csiPart2 =>
    obtain ⟨offset, hle, hperf⟩ :=
      performs_uciInPuschPdu env dev cell h hhandle
    refine ⟨⟨_, s.RNTI, s.Handle⟩, ?_, rfl, hhandle, rfl⟩
    refine hcall.silent ((Performs.read 2 _).silent ?_)
    rw [if_pos (show _ = 0 from htype)]
    exact hperf.done ((Performs.pure _).silent (performs_uciPduEnd h hle))
  | inPucchFmt01 f fmt sr harq =>
    obtain ⟨offset, hle, hperf⟩ :=
      performs_uciInPucchPduFmt01 env dev cell h
    refine ⟨⟨_, s.RNTI, s.Handle⟩, ?_, rfl, hhandle, rfl⟩
    refine hcall.silent ((Performs.read 2 _).silent ?_)
    rw [if_neg (by simp [htype, UciPdu.PDUType]), if_pos (show _ = 1 from htype)]
    exact hperf.done ((Performs.pure _).silent (performs_uciPduEnd h hle))
  | inPucchFmt234 f fmt sr harq csiPart1 csiPart2 uci =>
    obtain ⟨offset, hle, hperf⟩ :=
      performs_uciInPucchPduFmt234 env dev cell h hgood s.RNTI
    have hHandle : leValue (slice m (pMsg + (s.initOffset + offsetofUciPdu)) 4) = f.Handle := by
      rw [← holds_inPucchFmt234 h, ← Nat.add_assoc]
      rfl
    have hRNTI : leValue (slice m (pMsg + (s.initOffset + offsetofUciPdu) + 4) 2) =
        f.RNTI % 65536 := by
      obtain ⟨-, -, hfixed, -⟩ := holds_pdu h
      simp only [UciPdu.fixedPart, UciFields.bytes, holds_append, leBytes_length] at hfixed
      rw [← Nat.add_assoc pMsg]
      exact hfixed.1.1.1.1.2.leValue_eq
    refine ⟨⟨_, f.RNTI % 65536, f.Handle⟩, ?_, rfl, f.handle_lt, rfl⟩
    refine hcall.silent ((Performs.read 2 _).silent ?_)
    rw [if_neg (by simp [htype, UciPdu.PDUType]), if_neg (by simp [htype, UciPdu.PDUType]),
      if_pos (show _ = 2 from htype)]
    refine (Performs.read 4 _).silent ((Performs.read 2 _).silent ?_)
    rw [hHandle, hRNTI]
    exact hperf.done ((Performs.pure _).silent (performs_uciPduEnd h hle))

variable (env dev cell) in
theorem performs_uciPdus {pdus : List UciPdu} {i : ℕ}
    (h : UciPdusAt m (pMsg + s.initOffset) pdus) (hhandle : s.Handle < 65536)
    (hgood : ∀ pdu ∈ pdus, ¬ pdu.tlvsBeforeUciInfo) :
    ∃ s', Performs (rxCall env dev cell) m (rounds (fun _ => uciInfo pMsg) pdus.length i s) s'
      (performUciPdus dev cell s.RNTI pdus) := by
  induction pdus generalizing i s with
  | nil => exact ⟨s, .pure s⟩
  | cons pdu pdus ih =>
    obtain ⟨hpdu, hpdus⟩ := h
    obtain ⟨s₁, hfirst, hoffset, hhandle₁, hRNTI⟩ := performs_uciInfo env dev cell hpdu
      hhandle (hgood pdu List.mem_cons_self)
    rw [Nat.add_assoc, ← hoffset] at hpdus
    obtain ⟨s', hrest⟩ := ih (i := i + 1) hpdus hhandle₁
      fun pdu' hpdu' => hgood pdu' (List.mem_cons_of_mem pdu hpdu')
    rw [hRNTI] at hrest
    exact ⟨s', hfirst.bind hrest⟩

/-- A UCI indication means what its PDUs mean, the first ones by the identity 0. -/
theorem performs_uciIndication (hfuel : 65536 ≤ fuel) {pdus : List UciPdu}
    (h : UciIndicationAt m pMsg pdus) (hgood : ∀ pdu ∈ pdus, ¬ pdu.tlvsBeforeUciInfo) :
    Decodes env dev cell m (uciIndicationProcDecHdlr fuel pMsg)
      (performUciPdus dev cell 0 pdus) := by
  obtain ⟨hnum, hpdus⟩ := h
  have hlt : pdus.length < 65536 := by
    rw [← hnum]
    exact rd16_lt m _
  obtain ⟨s', hrounds⟩ := performs_uciPdus env dev cell (i := 0) (s := ⟨offsetofPdus, 0, 0⟩) hpdus
    (by decide) hgood
  refine (Performs.read 2 _).silent ?_
  rw [← rd16, hnum, loop16_eq_rounds hlt (by omega)]
  exact hrounds.done (.pure ())

end Uci

end TestMac

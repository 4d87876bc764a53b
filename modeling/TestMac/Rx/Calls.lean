import TestMac.Rx.Decode

/-!
# Which calls a message leads to

A message is decoded by one handler of `mac_rx.c`, and the calls of the handlers are
kept apart by the identifier in the general header.
-/

namespace TestMac

open Bytes Decoder

/-- A message from the PHY for a cell: where its general header is, and the memory. -/
structure PhyMsg where
  memory : Mem
  l1MessageInput : ℕ

def PhyMsg.msgId (msg : PhyMsg) : ℕ := rd32 msg.memory msg.l1MessageInput

/-- The message is a slot indication. -/
def PhyMsg.isSlot (msg : PhyMsg) : Bool := msg.msgId == fapiSlotIndication

/-- So many of the messages are slot indications. -/
def slotsOf (msgs : List PhyMsg) : ℕ := msgs.countP PhyMsg.isSlot

/-- The identifier of the messages whose decoder makes the call. -/
def RxCall.msgId : RxCall → ℕ
  | .macTxStartIndHandle _ => fapiSlotIndication
  | .setPhyActive => fapiSlotIndication
  | .macRevCfgResonse _ => fapiConfigResponse
  | .macRevStopIndication => fapiStopIndication
  | .macRevErrorIndication _ _ => fapiErrorIndication
  | .pcxxDataRecv _ _ => fapiRxDataIndication
  | .macCrcInHdlr _ => fapiCrcIndication
  | .puschCrcPass _ _ _ => fapiCrcIndication
  | .puschCrcFail _ => fapiCrcIndication
  | .macRachPduInHdlr _ _ => fapiPrachIndication
  | .macPreambleInHdlr _ _ _ => fapiPrachIndication
  | .uciPdu _ => fapiUciIndication
  | .macCSIPart1InfoUciInPuschPduFmt234PduHdlr _ _ _ => fapiUciIndication
  | .macCSIPart1InfoUciInPucchPduFmt234PduHdlr _ _ _ => fapiUciIndication
  | .macUciInfoInPucchPduFmt234PduHdlr _ _ _ => fapiUciIndication
  | .ueCsiPart1Crc _ _ => fapiUciIndication
  | .numPucchCrcPass => fapiUciIndication
  | .numPucchCrcFail => fapiUciIndication
  | .numPucchUciDetected => fapiUciIndication
  | .numPucchUciNotDetected => fapiUciIndication

/-- The call is made for messages with this identifier. -/
structure RxCall.Of (msgId : ℕ) (c : RxCall) : Prop where
  msgId_eq : c.msgId = msgId

variable {m : Mem} {fuel pMsg : ℕ} {msg : PhyMsg}

theorem only_slotIndication :
    Only (RxCall.Of fapiSlotIndication) m (slotIndicationProcDecHdlr pMsg) :=
  (Only.read _ _).bind fun _ => (Only.read _ _).bind fun _ => .call ⟨rfl⟩

theorem only_configResponse :
    Only (RxCall.Of fapiConfigResponse) m (configResponseProcDecHdlr pMsg) :=
  (Only.read _ _).bind fun _ => .call ⟨rfl⟩

theorem only_errorIndication :
    Only (RxCall.Of fapiErrorIndication) m (errorIndicationProcDecHdlr pMsg) :=
  (Only.read _ _).bind fun _ => (Only.read _ _).bind fun _ => .call ⟨rfl⟩

theorem only_rxDataIndication :
    Only (RxCall.Of fapiRxDataIndication) m (rxDataIndicationProcDecHdlr fuel pMsg) := by
  refine (Only.read _ _).bind fun _ => Only.bind (Only.loop16 fun _ offset => ?_) fun _ => .pure ()
  refine (Only.read _ _).bind fun _ => Only.loop16 fun _ offset => ?_
  refine (Only.read _ _).bind fun _ => ?_
  dsimp only
  refine Only.ite ?_ (.pure _)
  exact (Only.read _ _).bind fun _ => (Only.read _ _).bind fun _ => (Only.call ⟨rfl⟩).bind
    fun _ => .pure _

theorem only_macCrcInHdlr (crcInfo : ℕ) :
    Only (RxCall.Of fapiCrcIndication) m (macCrcInHdlr crcInfo) := by
  refine (Only.call ⟨rfl⟩).bind fun _ => (Only.read _ _).bind fun _ => ?_
  refine Only.ite ?_ (Only.ite ?_ ?_)
  · exact (Only.read _ _).bind fun _ => (Only.read _ _).bind fun _ => (Only.read _ _).bind fun _ =>
      .call ⟨rfl⟩
  · exact (Only.read _ _).bind fun _ => .call ⟨rfl⟩
  · exact .pure ()

theorem only_crcIndication :
    Only (RxCall.Of fapiCrcIndication) m (crcIndicationProcDecHdlr fuel pMsg) := by
  refine (Only.read _ _).bind fun _ => Only.bind (Only.loop16 fun _ offset => ?_) fun _ => .pure ()
  exact (only_macCrcInHdlr _).bind fun _ => .pure _

theorem only_srsIndication :
    Only (RxCall.Of fapiSrsIndication) m (srsIndicationProcDecHdlr fuel pMsg) :=
  (Only.read _ _).bind fun _ => Only.bind (Only.loop16 fun _ _ => .pure _) fun _ => .pure ()

/-- A PRACH indication calls the two handlers with fields of what they are handed. -/
theorem only_rachIndication {P : RxCall → Prop}
    (hpdu : ∀ rachPduInfo, P (.macRachPduInHdlr rachPduInfo (rd16 m (rachPduInfo + 2))))
    (hpreamble : ∀ preambleInfo preambleIndex,
      P (.macPreambleInHdlr preambleInfo preambleIndex (rd16 m (preambleInfo + 4)))) :
    Only P m (rachIndicationProcDecHdlr fuel pMsg) := by
  refine (Only.read _ _).bind fun _ => Only.bind (Only.loop16 fun _ offset => ?_) fun _ => .pure ()
  refine Only.bind (Only.read_then (.call (hpdu _))) fun _ => ?_
  refine (Only.read _ _).bind fun _ => Only.loop16 fun _ offset => ?_
  refine Only.bind ?_ fun _ => .pure _
  exact Only.read_then ((Only.read _ _).bind fun _ => .call (hpreamble _ _))

section UciIndication

variable {Φ : ∀ {α : Type}, RxDec α → Prop} (hΦ : Closed Φ)
  (hpusch : ∀ cRnti handle cSIPart1Pdu,
    Φ (macCSIPart1InfoUciInPuschPduFmt234PduHdlr cRnti handle cSIPart1Pdu))
  (hpucch : ∀ cRnti handle cSIPart1Pdu,
    Φ (macCSIPart1InfoUciInPucchPduFmt234PduHdlr cRnti handle cSIPart1Pdu))
  (huciInfo : ∀ cRnti handle uciInfoPdu,
    Φ (macUciInfoInPucchPduFmt234PduHdlr cRnti handle uciInfoPdu))
include hΦ

theorem closed_csiPart1InPusch {cRnti handle cSIPart1Pdu : ℕ}
    (hpdu : Φ (call (.macCSIPart1InfoUciInPuschPduFmt234PduHdlr cRnti handle cSIPart1Pdu)))
    (hcrc : ∀ pass, Φ (call (.ueCsiPart1Crc cRnti pass))) :
    Φ (macCSIPart1InfoUciInPuschPduFmt234PduHdlr cRnti handle cSIPart1Pdu) := by
  refine hΦ.bind hpdu fun _ => hΦ.bind (hΦ.assert _) fun _ => hΦ.bind (hΦ.read _ _) fun _ => ?_
  exact hΦ.ite (hcrc true) (hΦ.ite (hcrc false) (hΦ.pure ()))

theorem closed_csiPart1InPucch {cRnti handle cSIPart1Pdu : ℕ}
    (hpdu : Φ (call (.macCSIPart1InfoUciInPucchPduFmt234PduHdlr cRnti handle cSIPart1Pdu)))
    (hcrc : ∀ pass, Φ (call (.ueCsiPart1Crc cRnti pass))) (hpass : Φ (call .numPucchCrcPass)) :
    Φ (macCSIPart1InfoUciInPucchPduFmt234PduHdlr cRnti handle cSIPart1Pdu) := by
  refine hΦ.bind hpdu fun _ => hΦ.bind (hΦ.assert _) fun _ => hΦ.bind (hΦ.read _ _) fun _ => ?_
  exact hΦ.ite (hΦ.bind (hcrc true) fun _ => hpass) (hΦ.ite (hcrc false) (hΦ.pure ()))

theorem closed_uciInfoInPucch {cRnti handle uciInfoPdu : ℕ}
    (hpdu : Φ (call (.macUciInfoInPucchPduFmt234PduHdlr cRnti handle uciInfoPdu)))
    (hpass : Φ (call .numPucchCrcPass)) (hfail : Φ (call .numPucchCrcFail))
    (hdetected : Φ (call .numPucchUciDetected))
    (hnotDetected : Φ (call .numPucchUciNotDetected)) :
    Φ (macUciInfoInPucchPduFmt234PduHdlr cRnti handle uciInfoPdu) := by
  refine hΦ.bind hpdu fun _ => hΦ.bind (hΦ.assert _) fun _ => hΦ.bind (hΦ.read _ _) fun _ => ?_
  exact hΦ.ite hpass (hΦ.ite hfail (hΦ.ite hdetected (hΦ.ite hnotDetected (hΦ.pure ()))))

/-- An optional section of a UCI PDU. -/
theorem closed_uciSection {pduBitmap bit offset : ℕ} {hdlr : ℕ → RxDec ℕ}
    (h : ∀ offset, Φ (hdlr offset)) : Φ (uciSection pduBitmap bit hdlr offset) :=
  hΦ.ite (h offset) (hΦ.pure offset)

theorem closed_skipSection {pduBitmap bit offset size : ℕ} :
    Φ (uciSection pduBitmap bit (skipSection size) offset) :=
  closed_uciSection hΦ fun _ => hΦ.pure _

include hpusch in
theorem closed_uciInPuschPdu (s : UciLoop) (offset : ℕ) : Φ (uciInPuschPdu pMsg s offset) := by
  refine hΦ.bind (hΦ.read _ _) fun _ => hΦ.bind (closed_skipSection hΦ) fun _ =>
    hΦ.bind (closed_uciSection hΦ fun _ => ?_) fun _ => closed_skipSection hΦ
  exact hΦ.bind (hpusch _ _ _) fun _ => hΦ.pure _

theorem closed_uciInPucchPduFmt01 (offset : ℕ) : Φ (uciInPucchPduFmt01 pMsg offset) :=
  hΦ.bind (hΦ.read _ _) fun _ => hΦ.bind (closed_skipSection hΦ) fun _ => closed_skipSection hΦ

include hpucch huciInfo in
theorem closed_uciInPucchPduFmt234 (RNTI Handle offset : ℕ) :
    Φ (uciInPucchPduFmt234 pMsg RNTI Handle offset) := by
  refine hΦ.bind (hΦ.read _ _) fun _ => hΦ.bind (closed_skipSection hΦ) fun _ =>
    hΦ.bind (closed_skipSection hΦ) fun _ => hΦ.bind (closed_uciSection hΦ fun _ => ?_) fun _ =>
    hΦ.bind (closed_skipSection hΦ) fun _ => closed_uciSection hΦ fun _ => ?_
  · exact hΦ.bind (hpucch _ _ _) fun _ => hΦ.pure _
  · exact hΦ.bind (huciInfo _ _ _) fun _ => hΦ.bind (hΦ.read _ _) fun _ => hΦ.pure _

include hpusch hpucch huciInfo in
/-- What holds of the call for a PDU and of the handlers of the sections holds of a round. -/
theorem closed_uciInfo (hpdu : ∀ uciPdu, Φ (call (.uciPdu uciPdu))) (s : UciLoop) :
    Φ (uciInfo pMsg s) := by
  have hend : ∀ (s : UciLoop) (offset : ℕ), Φ (do
      let pduSize ← Decoder.read 2 (pMsg + s.initOffset + 2)
      Decoder.assert (offset - s.initOffset ≤ pduSize)
      pure { s with initOffset := s.initOffset + pduSize }) :=
    fun _ _ => hΦ.bind (hΦ.read _ _) fun _ => hΦ.bind (hΦ.assert _) fun _ => hΦ.pure _
  refine hΦ.bind (hpdu _) fun _ => hΦ.bind (hΦ.read _ _) fun _ => ?_
  dsimp only
  refine hΦ.ite ?_ (hΦ.ite ?_ (hΦ.ite ?_ ?_))
  · exact hΦ.bind (closed_uciInPuschPdu hΦ hpusch s _) fun offset => hend s offset
  · exact hΦ.bind (closed_uciInPucchPduFmt01 hΦ _) fun offset => hend s offset
  · exact hΦ.bind (hΦ.read _ _) fun handle => hΦ.bind (hΦ.read _ _) fun rnti =>
      hΦ.bind (closed_uciInPucchPduFmt234 hΦ hpucch huciInfo rnti handle _) fun offset =>
        hend { s with RNTI := rnti, Handle := handle } offset
  · exact hend s _

include hpusch hpucch huciInfo in
/-- And of the decoder of UCI indications, if it may run out of rounds. -/
theorem closed_uciIndication (hpdu : ∀ uciPdu, Φ (call (.uciPdu uciPdu)))
    (hrunning : Φ ((fun _ => ([], .running)) : RxDec UciLoop)) :
    Φ (uciIndicationProcDecHdlr fuel pMsg) :=
  hΦ.bind (hΦ.read _ _) fun _ =>
    hΦ.bind (hΦ.loop16 hrunning fun _ s => closed_uciInfo hΦ hpusch hpucch huciInfo hpdu s)
      fun _ => hΦ.pure ()

end UciIndication

theorem only_uciIndication :
    Only (RxCall.Of fapiUciIndication) m (uciIndicationProcDecHdlr fuel pMsg) :=
  closed_uciIndication Only.closed
    (fun _ _ _ => closed_csiPart1InPusch Only.closed (Only.call ⟨rfl⟩) fun _ => Only.call ⟨rfl⟩)
    (fun _ _ _ => closed_csiPart1InPucch Only.closed (Only.call ⟨rfl⟩) (fun _ => Only.call ⟨rfl⟩)
      (Only.call ⟨rfl⟩))
    (fun _ _ _ => closed_uciInfoInPucch Only.closed (Only.call ⟨rfl⟩) (Only.call ⟨rfl⟩)
      (Only.call ⟨rfl⟩) (Only.call ⟨rfl⟩) (Only.call ⟨rfl⟩))
    (fun _ => Only.call ⟨rfl⟩) Only.running

theorem of_ite_some {α : Type} {p : Prop} [Decidable p] {a b : α} {o : Option α}
    (h : (if p then some a else o) = some b) : p ∧ a = b ∨ o = some b := by
  by_cases hp : p
  · rw [if_pos hp] at h
    exact .inl ⟨hp, Option.some.inj h⟩
  · rw [if_neg hp] at h
    exact .inr h

/-- Every call of `fapiMsgDec` is one of the handler that the identifier chooses. -/
theorem only_fapiMsgDec {l1MessageInput : ℕ} :
    Only (RxCall.Of (rd32 m l1MessageInput)) m (fapiMsgDec fuel l1MessageInput) := by
  have hbody : ∀ msgId p body, fapiMsgBody fuel msgId p = some body →
      Only (RxCall.Of msgId) m body := by
    intro msgId p body h
    rw [fapiMsgBody] at h
    rcases of_ite_some h with ⟨rfl, rfl⟩ | h
    · exact only_rxDataIndication
    rcases of_ite_some h with ⟨rfl, rfl⟩ | h
    · exact only_slotIndication.bind fun _ => .call ⟨rfl⟩
    rcases of_ite_some h with ⟨rfl, rfl⟩ | h
    · exact only_configResponse
    rcases of_ite_some h with ⟨rfl, rfl⟩ | h
    · exact .call ⟨rfl⟩
    rcases of_ite_some h with ⟨rfl, rfl⟩ | h
    · exact only_errorIndication
    rcases of_ite_some h with ⟨rfl, rfl⟩ | h
    · exact only_crcIndication
    rcases of_ite_some h with ⟨rfl, rfl⟩ | h
    · exact only_uciIndication
    rcases of_ite_some h with ⟨rfl, rfl⟩ | h
    · exact only_srsIndication
    rcases of_ite_some h with ⟨rfl, rfl⟩ | h
    · exact only_rachIndication (fun _ => ⟨rfl⟩) fun _ _ => ⟨rfl⟩
    · cases h
  apply Only.read_then
  rw [← rd32]
  cases h : fapiMsgBody fuel (rd32 m l1MessageInput) (l1MessageInput + sizeofL1GeneralMsgHdr) with
  | none => exact .pure _
  | some body => exact (hbody _ _ body h).bind fun _ => (Only.read _ _).bind fun _ => .pure _

/-- The slot indication in a message. -/
def PhyMsg.slotInd (msg : PhyMsg) : SlotIndication :=
  ⟨rd16 msg.memory (msg.l1MessageInput + 8), rd16 msg.memory (msg.l1MessageInput + 8 + 2)⟩

/-- The calls of a message are those of its handler. -/
theorem calls_fapiMsgDec_body {l1MessageInput : ℕ} {body : RxDec Unit}
    (h : fapiMsgBody fuel (rd32 m l1MessageInput) (l1MessageInput + sizeofL1GeneralMsgHdr) =
      some body) :
    (fapiMsgDec fuel l1MessageInput).calls m = body.calls m := by
  rw [fapiMsgDec, calls_bind, calls_read, result_read, ← rd32, List.nil_append]
  dsimp only
  rw [h]
  exact calls_bind_silent fun _ => rfl

/-- It comes to its end when its handler does. -/
theorem returned_fapiMsgDec_body {l1MessageInput : ℕ} {body : RxDec Unit}
    (h : fapiMsgBody fuel (rd32 m l1MessageInput) (l1MessageInput + sizeofL1GeneralMsgHdr) =
      some body)
    (hret : (fapiMsgDec fuel l1MessageInput m).2.returned = true) :
    (body m).2.returned = true := by
  rw [fapiMsgDec, result_bind, result_read, ← rd32] at hret
  dsimp only at hret
  rw [h] at hret
  exact (returned_bind hret).1

theorem calls_fapiMsgDec_slot (hslot : msg.isSlot = true) :
    (fapiMsgDec fuel msg.l1MessageInput).calls msg.memory =
      [.macTxStartIndHandle msg.slotInd, .setPhyActive] := by
  have hid : rd32 msg.memory msg.l1MessageInput = fapiSlotIndication := beq_iff_eq.mp hslot
  have hbody : ∀ p, fapiMsgBody fuel fapiSlotIndication p = some (do
      slotIndicationProcDecHdlr p
      call .setPhyActive) := fun _ => rfl
  exact calls_fapiMsgDec_body (hid ▸ hbody _)

end TestMac

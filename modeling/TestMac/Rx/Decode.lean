import TestMac.Fapi.Layout
import TestMac.Lib.Decoder

/-!
# Decoding messages from the PHY: `mac_rx.c` and `macRevL1Ctrl`

Every decoder follows the source function of its name. Pointers are addresses,
and what a handler does is left as a call with the values it read: the handlers
of `mac.c` and the counters of a cell and of a UE are updated from these calls.
Fields are read where the source reads them. The text written to the log, the
trace of the received group and the two totals that are only printed are left out.
-/

namespace TestMac

open Bytes Decoder

/-- What the decoders call and which counters they step. -/
inductive RxCall
  | macTxStartIndHandle (slotInd : SlotIndication)
  /-- `setPhyState(dev_index, cellId, PHY_ACTIVE)` of `fapiMsgDec`. -/
  | setPhyActive
  | macRevCfgResonse (errorCode : ℕ)
  | macRevStopIndication
  | macRevErrorIndication (messageId errorCode : ℕ)
  | pcxxDataRecv (value length : ℕ)
  | macCrcInHdlr (crcInfo : ℕ)
  | puschCrcPass (ta rssi sinr : ℕ)
  | puschCrcFail (ta : ℕ)
  | macRachPduInHdlr (rachPduInfo avgRssi : ℕ)
  | macPreambleInHdlr (preambleInfo preambleIndex ta : ℕ)
  /-- The loop of `uciIndicationProcDecHdlr` turns to the PDU at an address. -/
  | uciPdu (uciPdu : ℕ)
  | macCSIPart1InfoUciInPuschPduFmt234PduHdlr (cRnti handle cSIPart1Pdu : ℕ)
  | macCSIPart1InfoUciInPucchPduFmt234PduHdlr (cRnti handle cSIPart1Pdu : ℕ)
  | macUciInfoInPucchPduFmt234PduHdlr (cRnti handle uciInfoPdu : ℕ)
  /-- `numCsiPart1CrcPass` or `numCsiPart1CrcFail` of a UE. -/
  | ueCsiPart1Crc (cRnti : ℕ) (pass : Bool)
  | numPucchCrcPass
  | numPucchCrcFail
  | numPucchUciDetected
  | numPucchUciNotDetected
  deriving DecidableEq

/-- What `macRevL1Ctrl` does. -/
inductive WalkCall
  /-- `l1MsgInput` is set. -/
  | cursor (l1MsgInput : ℕ)
  /-- `fapiMsgDec` is called with a pointer to a general message header. -/
  | fapiMsgDec (l1MessageInput : ℕ)
  /-- `fapiMsgDec` makes a call. -/
  | rx (c : RxCall)
  deriving DecidableEq

/-- A decoder of messages from the PHY. -/
abbrev RxDec (α : Type) := Decoder RxCall α

/-- `macCSIPart1InfoUciInPuschPduFmt234PduHdlr`. -/
def macCSIPart1InfoUciInPuschPduFmt234PduHdlr (cRnti handle cSIPart1Pdu : ℕ) : RxDec Unit := do
  call (.macCSIPart1InfoUciInPuschPduFmt234PduHdlr cRnti handle cSIPart1Pdu)
  assert (handle < 65536)
  let csiPart1Crc ← read 1 (cSIPart1Pdu + 2)
  if csiPart1Crc = 0 then call (.ueCsiPart1Crc cRnti true)
  else if csiPart1Crc = 1 then call (.ueCsiPart1Crc cRnti false)
  else pure ()

/-- `macCSIPart1InfoUciInPucchPduFmt234PduHdlr`. A pass is also counted for the
cell, a failure is not. -/
def macCSIPart1InfoUciInPucchPduFmt234PduHdlr (cRnti handle cSIPart1Pdu : ℕ) : RxDec Unit := do
  call (.macCSIPart1InfoUciInPucchPduFmt234PduHdlr cRnti handle cSIPart1Pdu)
  assert (handle < 65536)
  let csiPart1Crc ← read 1 (cSIPart1Pdu + 2)
  if csiPart1Crc = 0 then do
    call (.ueCsiPart1Crc cRnti true)
    call .numPucchCrcPass
  else if csiPart1Crc = 1 then call (.ueCsiPart1Crc cRnti false)
  else pure ()

/-- `macUciInfoInPucchPduFmt234PduHdlr`. -/
def macUciInfoInPucchPduFmt234PduHdlr (cRnti handle uciInfoPdu : ℕ) : RxDec Unit := do
  call (.macUciInfoInPucchPduFmt234PduHdlr cRnti handle uciInfoPdu)
  assert (handle < 65536)
  let crcStatus ← read 1 (uciInfoPdu + 2)
  if crcStatus = 0 then call .numPucchCrcPass
  else if crcStatus = 1 then call .numPucchCrcFail
  else if crcStatus = 2 then call .numPucchUciDetected
  else if crcStatus = 3 then call .numPucchUciNotDetected
  else pure ()

/-- The loop over the TLVs of one PDU in `rxDataIndicationProcDecHdlr`. The
16-bit counter runs against a 32-bit count. -/
def rxDataTLVs (fuel pMsg numTLV offset : ℕ) : RxDec ℕ :=
  loop16 numTLV (fun _ offset => do
    let tag ← read 2 (pMsg + offset)
    if tag = 2 then do
      let value ← read 4 (pMsg + offset + 8)
      let length ← read 4 (pMsg + offset + 4)
      call (.pcxxDataRecv value length)
    else pure ()
    pure ((offset + sizeofL1DataTLV) % 4294967296)) fuel 0 offset

/-- `rxDataIndicationProcDecHdlr`. -/
def rxDataIndicationProcDecHdlr (fuel pMsg : ℕ) : RxDec Unit := do
  let numPDUs ← read 2 (pMsg + 4)
  let _ ← loop16 numPDUs (fun _ offset => do
    let numTLV ← read 4 (pMsg + offset + 8)
    rxDataTLVs fuel pMsg numTLV ((offset + offsetofRxDataTLVs) % 4294967296)) fuel 0 offsetofPdus

/-- `slotIndicationProcDecHdlr`. -/
def slotIndicationProcDecHdlr (pMsg : ℕ) : RxDec Unit := do
  let sfn ← read 2 pMsg
  let slot ← read 2 (pMsg + 2)
  call (.macTxStartIndHandle ⟨sfn, slot⟩)

/-- `configResponseProcDecHdlr`. -/
def configResponseProcDecHdlr (pMsg : ℕ) : RxDec Unit := do
  let errorCode ← read 1 pMsg
  call (.macRevCfgResonse errorCode)

/-- `errorIndicationProcDecHdlr`. -/
def errorIndicationProcDecHdlr (pMsg : ℕ) : RxDec Unit := do
  let messageId ← read 1 (pMsg + 8)
  let errorCode ← read 1 (pMsg + 9)
  call (.macRevErrorIndication messageId errorCode)

/-- `macCrcInHdlr`. -/
def macCrcInHdlr (crcInfo : ℕ) : RxDec Unit := do
  call (.macCrcInHdlr crcInfo)
  let tbCrcStatus ← read 1 (crcInfo + 7)
  if tbCrcStatus = 0 then do
    let ta ← read 4 (crcInfo + 8)
    let rssi ← read 2 (crcInfo + 12)
    let sinr ← read 1 (crcInfo + 15)
    call (.puschCrcPass ta rssi sinr)
  else if tbCrcStatus = 1 then do
    let ta ← read 4 (crcInfo + 8)
    call (.puschCrcFail ta)
  else pure ()

/-- `crcIndicationProcDecHdlr`. -/
def crcIndicationProcDecHdlr (fuel pMsg : ℕ) : RxDec Unit := do
  let numCRCs ← read 2 (pMsg + 4)
  let _ ← loop16 numCRCs (fun _ offset => do
    macCrcInHdlr (pMsg + offset)
    pure (offset + sizeofL1CrcInfo)) fuel 0 offsetofPdus

/-- `srsIndicationProcDecHdlr`. -/
def srsIndicationProcDecHdlr (fuel pMsg : ℕ) : RxDec Unit := do
  let numPDUs ← read 1 (pMsg + 6)
  let _ ← loop16 numPDUs (fun _ offset => pure (offset + offsetofReportTLV)) fuel 0 offsetofPdus

/-- `macRachPduInHdlr`. -/
def macRachPduInHdlr (rachPduInfo : ℕ) : RxDec Unit := do
  let avgRssi ← read 2 (rachPduInfo + 2)
  call (.macRachPduInHdlr rachPduInfo avgRssi)

/-- `macPreambleInHdlr`. -/
def macPreambleInHdlr (preambleInfo : ℕ) : RxDec Unit := do
  let ta ← read 2 (preambleInfo + 4)
  let preambleIndex ← read 1 (preambleInfo + 7)
  call (.macPreambleInHdlr preambleInfo preambleIndex ta)

/-- `rachIndicationProcDecHdlr`. -/
def rachIndicationProcDecHdlr (fuel pMsg : ℕ) : RxDec Unit := do
  let numPDUs ← read 1 (pMsg + 4)
  let _ ← loop16 numPDUs (fun _ offset => do
    macRachPduInHdlr (pMsg + offset)
    let numPreambles ← read 1 (pMsg + offset + 8)
    loop16 numPreambles (fun _ offset => do
      macPreambleInHdlr (pMsg + offset)
      pure (offset + sizeofL1PreambleInfo)) fuel 0 (offset + offsetofPreamble)) fuel 0 offsetofPdus

/-- What `uciIndicationProcDecHdlr` carries from one PDU to the next. -/
structure UciLoop where
  initOffset : ℕ
  RNTI : ℕ
  Handle : ℕ

/-- The optional section behind a bit of `pduBitmap`: when it is present the
decoder handles it and skips it. -/
def uciSection (pduBitmap bit : ℕ) (hdlr : ℕ → RxDec ℕ) (offset : ℕ) : RxDec ℕ :=
  if pduBitmap &&& bit ≠ 0 then hdlr offset else pure offset

/-- Skipping a section of fixed size. -/
def skipSection (size : ℕ) (offset : ℕ) : RxDec ℕ := pure (offset + size)

/-- Case 0 of `uciIndicationProcDecHdlr`, with the identity found in an earlier PDU. -/
def uciInPuschPdu (pMsg : ℕ) (s : UciLoop) (offset : ℕ) : RxDec ℕ := do
  let pduBitmap ← read 1 (pMsg + offset + 12)
  let offset ← uciSection pduBitmap 2 (skipSection sizeofL1HarqPduForFmt234)
    (offset + offsetofSections)
  let offset ← uciSection pduBitmap 4 (fun offset => do
    macCSIPart1InfoUciInPuschPduFmt234PduHdlr s.RNTI s.Handle (pMsg + offset)
    pure (offset + sizeofL1CSIPart1Pdu)) offset
  uciSection pduBitmap 8 (skipSection sizeofL1CSIPart2Pdu) offset

/-- Case 1 of `uciIndicationProcDecHdlr`. -/
def uciInPucchPduFmt01 (pMsg offset : ℕ) : RxDec ℕ := do
  let pduBitmap ← read 1 (pMsg + offset + 12)
  let offset ← uciSection pduBitmap 1 (skipSection sizeofL1SrPduFMT01) (offset + offsetofSections)
  uciSection pduBitmap 2 (skipSection sizeofL1HarqPduForFm01) offset

/-- Case 2 of `uciIndicationProcDecHdlr`. The TLVs of CSI part 2 are not skipped,
and the payload of the UCI info is skipped by whole bytes. -/
def uciInPucchPduFmt234 (pMsg RNTI Handle offset : ℕ) : RxDec ℕ := do
  let pduBitmap ← read 1 (pMsg + offset + 13)
  let offset ← uciSection pduBitmap 1 (skipSection sizeofL1SrPduFMT234) (offset + offsetofSections)
  let offset ← uciSection pduBitmap 2 (skipSection sizeofL1HarqPduForFmt234) offset
  let offset ← uciSection pduBitmap 4 (fun offset => do
    macCSIPart1InfoUciInPucchPduFmt234PduHdlr RNTI Handle (pMsg + offset)
    pure (offset + sizeofL1CSIPart1Pdu)) offset
  let offset ← uciSection pduBitmap 8 (skipSection sizeofL1CSIPart2Pdu) offset
  uciSection pduBitmap 16 (fun offset => do
    macUciInfoInPucchPduFmt234PduHdlr RNTI Handle (pMsg + offset)
    let uciBitLen ← read 2 (pMsg + offset)
    pure (offset + offsetofUciPayload + uciBitLen / 8)) offset

/-- One round of the loop of `uciIndicationProcDecHdlr`. -/
def uciInfo (pMsg : ℕ) (s : UciLoop) : RxDec UciLoop := do
  let uciPdu := pMsg + s.initOffset
  call (.uciPdu uciPdu)
  let pduType ← read 2 uciPdu
  let start := s.initOffset + offsetofUciPdu
  let (s, offset) ←
    if pduType = 0 then do
      let offset ← uciInPuschPdu pMsg s start
      pure (s, offset)
    else if pduType = 1 then do
      let offset ← uciInPucchPduFmt01 pMsg start
      pure (s, offset)
    else if pduType = 2 then do
      let handle ← read 4 (pMsg + start)
      let rnti ← read 2 (pMsg + start + 4)
      let offset ← uciInPucchPduFmt234 pMsg rnti handle start
      pure ({ s with RNTI := rnti, Handle := handle }, offset)
    else pure (s, start)
  let pduSize ← read 2 (uciPdu + 2)
  assert (offset - s.initOffset ≤ pduSize)
  pure { s with initOffset := s.initOffset + pduSize }

/-- `uciIndicationProcDecHdlr`. -/
def uciIndicationProcDecHdlr (fuel pMsg : ℕ) : RxDec Unit := do
  let numUcis ← read 2 (pMsg + 4)
  let _ ← loop16 numUcis (fun _ => uciInfo pMsg) fuel 0
    { initOffset := offsetofPdus, RNTI := 0, Handle := 0 }

/-- `-1` as a `uint32_t`, by which `fapiMsgDec` rejects a message. -/
def illegalMsgLen : ℕ := 4294967295

/-- The decoder that `fapiMsgDec` chooses for a message identifier, given the
body of the message. -/
def fapiMsgBody (fuel msgId pMsg : ℕ) : Option (RxDec Unit) :=
  if msgId = fapiRxDataIndication then some (rxDataIndicationProcDecHdlr fuel pMsg)
  else if msgId = fapiSlotIndication then some (do
    slotIndicationProcDecHdlr pMsg
    call .setPhyActive)
  else if msgId = fapiConfigResponse then some (configResponseProcDecHdlr pMsg)
  else if msgId = fapiStopIndication then some (call .macRevStopIndication)
  else if msgId = fapiErrorIndication then some (errorIndicationProcDecHdlr pMsg)
  else if msgId = fapiCrcIndication then some (crcIndicationProcDecHdlr fuel pMsg)
  else if msgId = fapiUciIndication then some (uciIndicationProcDecHdlr fuel pMsg)
  else if msgId = fapiSrsIndication then some (srsIndicationProcDecHdlr fuel pMsg)
  else if msgId = fapiPrachIndication then some (rachIndicationProcDecHdlr fuel pMsg)
  else none

/-- `fapiMsgDec`. -/
def fapiMsgDec (fuel l1MessageInput : ℕ) : RxDec ℕ := do
  let msgId ← read 4 l1MessageInput
  match fapiMsgBody fuel msgId (l1MessageInput + sizeofL1GeneralMsgHdr) with
  | none => pure illegalMsgLen
  | some body => do
    body
    let msgSize ← read 4 (l1MessageInput + 4)
    pure ((msgSize + 8) % 4294967296)

/-- The number of bytes by which `macRevL1Ctrl` moves on after a message. -/
def l1MsgStep (singleMsgLen : ℕ) : ℕ := 4 * ((singleMsgLen + 3) % 4294967296 / 4)

/-- The loop of `macRevL1Ctrl`: the length of the messages decoded, or `none`
after an illegal message. -/
def macRevL1CtrlLoop (fuel : ℕ) : ℕ → ℕ → ℕ → Decoder WalkCall (Option ℕ)
  | 0, _, _offset => pure (some _offset)
  | recvCnt + 1, l1MsgInput, _offset => do
    let _ ← read 4 (l1MsgInput + 4)
    call (.fapiMsgDec l1MsgInput)
    let singleMsgLen ← (fapiMsgDec fuel l1MsgInput).lift .rx
    if singleMsgLen = illegalMsgLen then pure none
    else do
      call (.cursor (l1MsgInput + l1MsgStep singleMsgLen))
      macRevL1CtrlLoop fuel recvCnt (l1MsgInput + l1MsgStep singleMsgLen)
        ((_offset + singleMsgLen) % 4294967296)

/-- `macRevL1Ctrl`. -/
def macRevL1Ctrl (fuel buf payloadSize : ℕ) : Decoder WalkCall ℕ := do
  assert (buf ≠ 0)
  assert (0 < payloadSize)
  call (.cursor (buf + sizeofFapiMsgHdr))
  let recvCnt ← read 1 buf
  let _ ← read 1 (buf + 1)
  if recvCnt = 0 then pure sizeofFapiMsgHdr
  else if 255 ≤ recvCnt then pure sizeofFapiMsgHdr
  else do
    match ← macRevL1CtrlLoop fuel recvCnt (buf + sizeofFapiMsgHdr) sizeofFapiMsgHdr with
    | none => pure payloadSize
    | some _offset => pure (if payloadSize ≠ _offset then payloadSize else _offset)

end TestMac

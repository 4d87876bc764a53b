import TestMac.Lib.Bytes

/-!
# The FAPI messages of `l1_api.h`

Message identifiers, and the offsets and sizes of the structures that the MAC
reads and writes. The structures are laid out by natural alignment; all of them
are addressed by the offset of a field from the start of its structure.
-/

namespace TestMac

open Bytes

/-- `FAPI_PARAM_REQUEST` and the other message identifiers. -/
def fapiParamRequest : ℕ := 0x00
def fapiConfigRequest : ℕ := 0x02
def fapiConfigResponse : ℕ := 0x03
def fapiStartRequest : ℕ := 0x04
def fapiStopRequest : ℕ := 0x05
def fapiStopIndication : ℕ := 0x06
def fapiErrorIndication : ℕ := 0x07
def fapiDlTtiRequest : ℕ := 0x80
def fapiUlTtiRequest : ℕ := 0x81
def fapiSlotIndication : ℕ := 0x82
def fapiTxDataRequest : ℕ := 0x84
def fapiRxDataIndication : ℕ := 0x85
def fapiCrcIndication : ℕ := 0x86
def fapiUciIndication : ℕ := 0x87
def fapiSrsIndication : ℕ := 0x88
def fapiPrachIndication : ℕ := 0x89

/-- `L1SlotIndication_t`: a system frame number and a slot of it. -/
structure SlotIndication where
  SFN : ℕ
  Slot : ℕ
  deriving DecidableEq, Repr

/-- `sizeof(FAPI_MSG_HDR)`: the header of a group of messages. -/
def sizeofFapiMsgHdr : ℕ := 4

/-- `sizeof(L1GeneralMsgHdr_t)`: the identifier and the body size of one message. -/
def sizeofL1GeneralMsgHdr : ℕ := 8

/-- The offset of the first PDU, CRC or UCI in the indications that carry some. -/
def offsetofPdus : ℕ := 8

/-- `offsetof(L1RxDataPduInfo_t, TLVs)`. -/
def offsetofRxDataTLVs : ℕ := 12

/-- `sizeof(L1DataTLV_t)`. -/
def sizeofL1DataTLV : ℕ := 12

/-- `sizeof(L1CrcInfo_t)`. -/
def sizeofL1CrcInfo : ℕ := 148

/-- `offsetof(L1SrsPduInfo_t, reportTLV)`. -/
def offsetofReportTLV : ℕ := 12

/-- `offsetof(L1RachPduInfo_t, preamble)`. -/
def offsetofPreamble : ℕ := 12

/-- `sizeof(L1PreambleInfo_t)`. -/
def sizeofL1PreambleInfo : ℕ := 8

/-- `offsetof(L1UciInfo_t, Pdu)`. -/
def offsetofUciPdu : ℕ := 4

/-- The offset of the first optional section in `L1UciInPuschPdu_t`,
`L1UciInPucchPduFmt01_t` and `L1UciInPucchPduFmt234_t`. -/
def offsetofSections : ℕ := 16

/-- `sizeof(L1HarqPduForFmt234_t)`. -/
def sizeofL1HarqPduForFmt234 : ℕ := 20

/-- `sizeof(L1CSIPart1Pdu_t)`. -/
def sizeofL1CSIPart1Pdu : ℕ := 36

/-- `sizeof(L1CSIPart2Pdu_t)`, which does not count its TLVs. -/
def sizeofL1CSIPart2Pdu : ℕ := 4

/-- `sizeof(L1CsiPart2TLV_t)`. -/
def sizeofL1CsiPart2TLV : ℕ := 8

/-- `sizeof(L1SrPduFMT01_t)`. -/
def sizeofL1SrPduFMT01 : ℕ := 4

/-- `sizeof(L1HarqPduForFm01_t)`. -/
def sizeofL1HarqPduForFm01 : ℕ := 4

/-- `sizeof(L1SrPduFMT234_t)`. -/
def sizeofL1SrPduFMT234 : ℕ := 4

/-- `offsetof(L1UciInfoPdu_t, uciPayload)`. -/
def offsetofUciPayload : ℕ := 4

end TestMac

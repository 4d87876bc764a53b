import Mathlib.Data.Vector.Defs
import TestMac.Fapi.Layout
import TestMac.Lib.Records

/-!
# The encodings of CRC, RACH and RX_DATA indications in `l1_api.h`

Every structure is written field by field, in the order of its declaration, and read back
from an address. A count field is kept equal to the number of the records behind it.
-/

namespace TestMac

open Bytes

/-- A message at an address: its general header, whose `msgSize` is the number of bytes
behind it, and its body. -/
def MessageAt (m : Mem) (l1MessageInput msgId : ℕ) (body : List UInt8) : Prop :=
  rd32 m l1MessageInput = msgId ∧ rd32 m (l1MessageInput + 4) = body.length ∧
    Holds m (l1MessageInput + sizeofL1GeneralMsgHdr) body

/-- `L1CrcInfo_t`. -/
structure CrcInfo where
  Handle : UInt32
  RNTI : UInt16
  HarqID : UInt8
  TbCrcStatus : UInt8
  TA : UInt32
  RSSI : UInt16
  RSRP : UInt8
  SINR : UInt8
  numCb : UInt16
  rev : UInt16
  CbCrcStatus : List.Vector UInt8 128
  deriving DecidableEq

def CrcInfo.bytes (c : CrcInfo) : List UInt8 :=
  leBytes 4 c.Handle.toNat ++ (leBytes 2 c.RNTI.toNat ++ ([c.HarqID] ++ ([c.TbCrcStatus] ++
    (leBytes 4 c.TA.toNat ++ (leBytes 2 c.RSSI.toNat ++ ([c.RSRP] ++ ([c.SINR] ++
      (leBytes 2 c.numCb.toNat ++ (leBytes 2 c.rev.toNat ++ c.CbCrcStatus.toList)))))))))

/-- The structure at an address. -/
def CrcInfo.at (m : Mem) (a : ℕ) : CrcInfo where
  Handle := .ofNat (rd32 m a)
  RNTI := .ofNat (rd16 m (a + 4))
  HarqID := m (a + 6)
  TbCrcStatus := m (a + 7)
  TA := .ofNat (rd32 m (a + 8))
  RSSI := .ofNat (rd16 m (a + 12))
  RSRP := m (a + 14)
  SINR := m (a + 15)
  numCb := .ofNat (rd16 m (a + 16))
  rev := .ofNat (rd16 m (a + 18))
  CbCrcStatus := ⟨slice m (a + 20) 128, slice_length m (a + 20) 128⟩

/-- `L1CrcIndication_t`. -/
structure CrcIndication where
  SFN : UInt16
  Slot : UInt16
  numCRCs : UInt16
  rev : UInt16
  CRCs : List CrcInfo
  count : CRCs.length = numCRCs.toNat

def CrcIndication.bytes (ind : CrcIndication) : List UInt8 :=
  leBytes 2 ind.SFN.toNat ++ (leBytes 2 ind.Slot.toNat ++ (leBytes 2 ind.numCRCs.toNat ++
    (leBytes 2 ind.rev.toNat ++ ind.CRCs.flatMap CrcInfo.bytes)))

/-- `L1PreambleInfo_t`. -/
structure PreambleInfo where
  PreamblePwr : UInt32
  TA : UInt16
  preambleSinr : UInt8
  preambleIndex : UInt8
  deriving DecidableEq

def PreambleInfo.bytes (p : PreambleInfo) : List UInt8 :=
  leBytes 4 p.PreamblePwr.toNat ++ (leBytes 2 p.TA.toNat ++ ([p.preambleSinr] ++
    [p.preambleIndex]))

/-- The structure at an address. -/
def PreambleInfo.at (m : Mem) (a : ℕ) : PreambleInfo where
  PreamblePwr := .ofNat (rd32 m a)
  TA := .ofNat (rd16 m (a + 4))
  preambleSinr := m (a + 6)
  preambleIndex := m (a + 7)

/-- `L1RachPduInfo_t` without its preambles. -/
structure RachPduInfo where
  handle : UInt16
  avgRssi : UInt16
  avgSinr : UInt8
  SymbolIndex : UInt8
  SlotIndex : UInt8
  raIndex : UInt8
  numPreambles : UInt8
  rev0 : UInt8
  rev1 : UInt16
  deriving DecidableEq

def RachPduInfo.bytes (p : RachPduInfo) : List UInt8 :=
  leBytes 2 p.handle.toNat ++ (leBytes 2 p.avgRssi.toNat ++ ([p.avgSinr] ++ ([p.SymbolIndex] ++
    ([p.SlotIndex] ++ ([p.raIndex] ++ ([p.numPreambles] ++
    ([p.rev0] ++ leBytes 2 p.rev1.toNat)))))))

/-- The structure at an address. -/
def RachPduInfo.at (m : Mem) (a : ℕ) : RachPduInfo where
  handle := .ofNat (rd16 m a)
  avgRssi := .ofNat (rd16 m (a + 2))
  avgSinr := m (a + 4)
  SymbolIndex := m (a + 5)
  SlotIndex := m (a + 6)
  raIndex := m (a + 7)
  numPreambles := m (a + 8)
  rev0 := m (a + 9)
  rev1 := .ofNat (rd16 m (a + 10))

/-- `L1RachPduInfo_t`. -/
structure RachPdu where
  info : RachPduInfo
  preamble : List PreambleInfo
  count : preamble.length = info.numPreambles.toNat

def RachPdu.bytes (pdu : RachPdu) : List UInt8 :=
  pdu.info.bytes ++ pdu.preamble.flatMap PreambleInfo.bytes

/-- `L1RachIndication_t`. -/
structure RachIndication where
  SFN : UInt16
  Slot : UInt16
  numPDUs : UInt8
  rev0 : UInt8
  rev1 : UInt16
  pdus : List RachPdu
  count : pdus.length = numPDUs.toNat

def RachIndication.bytes (ind : RachIndication) : List UInt8 :=
  leBytes 2 ind.SFN.toNat ++ (leBytes 2 ind.Slot.toNat ++ ([ind.numPDUs] ++ ([ind.rev0] ++
    (leBytes 2 ind.rev1.toNat ++ ind.pdus.flatMap RachPdu.bytes))))

/-- `L1DataTLV_t`. -/
structure DataTLV where
  Tag : UInt16
  rev : UInt16
  Length : UInt32
  Value : UInt32
  deriving DecidableEq

def DataTLV.bytes (t : DataTLV) : List UInt8 :=
  leBytes 2 t.Tag.toNat ++ (leBytes 2 t.rev.toNat ++ (leBytes 4 t.Length.toNat ++
    leBytes 4 t.Value.toNat))

/-- `L1RxDataPduInfo_t`. -/
structure RxDataPdu where
  Handle : UInt32
  RNTI : UInt16
  HarqID : UInt8
  rev : UInt8
  numTLV : UInt32
  TLVs : List DataTLV
  count : TLVs.length = numTLV.toNat

def RxDataPdu.bytes (pdu : RxDataPdu) : List UInt8 :=
  leBytes 4 pdu.Handle.toNat ++ (leBytes 2 pdu.RNTI.toNat ++ ([pdu.HarqID] ++ ([pdu.rev] ++
    (leBytes 4 pdu.numTLV.toNat ++ pdu.TLVs.flatMap DataTLV.bytes))))

/-- `L1RxdataIndication_t`. -/
structure RxDataIndication where
  SFN : UInt16
  Slot : UInt16
  numPDUs : UInt16
  rev : UInt16
  pdus : List RxDataPdu
  count : pdus.length = numPDUs.toNat

def RxDataIndication.bytes (ind : RxDataIndication) : List UInt8 :=
  leBytes 2 ind.SFN.toNat ++ (leBytes 2 ind.Slot.toNat ++ (leBytes 2 ind.numPDUs.toNat ++
    (leBytes 2 ind.rev.toNat ++ ind.pdus.flatMap RxDataPdu.bytes)))

section Lengths

@[simp]
theorem CrcInfo.bytes_length (c : CrcInfo) : c.bytes.length = sizeofL1CrcInfo := by
  simp [CrcInfo.bytes, sizeofL1CrcInfo]

@[simp]
theorem PreambleInfo.bytes_length (p : PreambleInfo) :
    p.bytes.length = sizeofL1PreambleInfo := by
  simp [PreambleInfo.bytes, sizeofL1PreambleInfo]

@[simp]
theorem RachPduInfo.bytes_length (p : RachPduInfo) : p.bytes.length = offsetofPreamble := by
  simp [RachPduInfo.bytes, offsetofPreamble]

@[simp]
theorem DataTLV.bytes_length (t : DataTLV) : t.bytes.length = sizeofL1DataTLV := by
  simp [DataTLV.bytes, sizeofL1DataTLV]

theorem RxDataPdu.bytes_length (pdu : RxDataPdu) :
    pdu.bytes.length = offsetofRxDataTLVs + (pdu.TLVs.flatMap DataTLV.bytes).length := by
  simp [RxDataPdu.bytes, offsetofRxDataTLVs]
  omega

end Lengths

section ReadBack

variable {m : Mem} {a : ℕ}

/-- An encoded structure is read back from its address. -/
theorem CrcInfo.at_eq {c : CrcInfo} (h : Holds m a c.bytes) : CrcInfo.at m a = c := by
  simp only [CrcInfo.bytes, holds_append, leBytes_length, List.length_singleton, holds_singleton,
    Nat.add_assoc, Nat.reduceAdd] at h
  obtain ⟨hHandle, hRNTI, hHarqID, hstatus, hTA, hRSSI, hRSRP, hSINR, hnumCb, hrev, hcb⟩ := h
  unfold Holds at hcb
  rw [List.Vector.toList_length] at hcb
  have hblocks : (⟨slice m (a + 20) 128, slice_length m (a + 20) 128⟩ : List.Vector UInt8 128) =
      c.CbCrcStatus := Subtype.ext hcb
  simp only [CrcInfo.at, hHandle.rd32_eq, hRNTI.rd16_eq, hHarqID, hstatus, hTA.rd32_eq,
    hRSSI.rd16_eq, hRSRP, hSINR, hnumCb.rd16_eq, hrev.rd16_eq, hblocks, UInt32.ofNat_toNat,
    UInt16.ofNat_toNat]

theorem PreambleInfo.at_eq {p : PreambleInfo} (h : Holds m a p.bytes) :
    PreambleInfo.at m a = p := by
  simp only [PreambleInfo.bytes, holds_append, leBytes_length, List.length_singleton,
    holds_singleton, Nat.add_assoc, Nat.reduceAdd] at h
  obtain ⟨hPwr, hTA, hSinr, hIndex⟩ := h
  simp only [PreambleInfo.at, hPwr.rd32_eq, hTA.rd16_eq, hSinr, hIndex, UInt32.ofNat_toNat,
    UInt16.ofNat_toNat]

theorem RachPduInfo.at_eq {p : RachPduInfo} (h : Holds m a p.bytes) : RachPduInfo.at m a = p := by
  simp only [RachPduInfo.bytes, holds_append, leBytes_length, List.length_singleton,
    holds_singleton, Nat.add_assoc, Nat.reduceAdd] at h
  obtain ⟨hhandle, hRssi, hSinr, hSymbol, hSlot, hra, hnum, hrev0, hrev1⟩ := h
  simp only [RachPduInfo.at, hhandle.rd16_eq, hRssi.rd16_eq, hSinr, hSymbol, hSlot, hra, hnum,
    hrev0, hrev1.rd16_eq, UInt16.ofNat_toNat]

/-- The fields of a TLV that the decoder reads. -/
theorem DataTLV.read_eq {t : DataTLV} (h : Holds m a t.bytes) :
    rd16 m a = t.Tag.toNat ∧ rd32 m (a + 4) = t.Length.toNat ∧ rd32 m (a + 8) = t.Value.toNat := by
  simp only [DataTLV.bytes, holds_append, leBytes_length, Nat.add_assoc, Nat.reduceAdd] at h
  obtain ⟨hTag, -, hLength, hValue⟩ := h
  exact ⟨hTag.rd16_eq, hLength.rd32_eq, hValue.rd32_eq⟩

end ReadBack

end TestMac

import TestMac.Rx.Indications
import TestMac.Rx.Rounds

/-!
# Decoding encoded CRC, RACH and RX_DATA indications

The decoders hand every record of an encoded indication to its handler, in order and at the
address where the record stands.
-/

namespace TestMac

open Bytes Decoder

/-- What `macCrcInHdlr` is given: a pointer, and the structure behind it. -/
def crcGiven (m : Mem) : RxCall → Option (ℕ × CrcInfo)
  | .macCrcInHdlr crcInfo => some (crcInfo, CrcInfo.at m crcInfo)
  | _ => none

/-- What the two handlers of RACH indications are given. -/
inductive RachGiven
  | pdu (rachPduInfo : ℕ) (info : RachPduInfo)
  | preamble (preambleInfo : ℕ) (info : PreambleInfo)
  deriving DecidableEq

def rachGiven (m : Mem) : RxCall → Option RachGiven
  | .macRachPduInHdlr rachPduInfo _ => some (.pdu rachPduInfo (RachPduInfo.at m rachPduInfo))
  | .macPreambleInHdlr preambleInfo _ _ =>
    some (.preamble preambleInfo (PreambleInfo.at m preambleInfo))
  | _ => none

/-- What is to be handed over for a PDU at an address: the PDU, then its preambles. -/
def RachPdu.given (a : ℕ) (pdu : RachPdu) : List RachGiven :=
  .pdu a pdu.info ::
    (placed PreambleInfo.bytes (a + offsetofPreamble) pdu.preamble).map fun p => .preamble p.1 p.2

/-- What is to be received for a PDU: the data of the TLVs with tag 2. -/
def RxDataPdu.received (pdu : RxDataPdu) : List RxCall :=
  (pdu.TLVs.filter fun t => t.Tag = 2).map fun t =>
    .pcxxDataRecv t.Value.toNat t.Length.toNat

variable {m : Mem} {fuel pMsg : ℕ}

section Crc

theorem returns_macCrcInHdlr (crcInfo : ℕ) :
    Returns (crcGiven m) m (macCrcInHdlr crcInfo) [(crcInfo, CrcInfo.at m crcInfo)] () := by
  refine (Returns.call _).shows ((Returns.read 1 _).silent ?_)
  split_ifs
  · exact (Returns.read 4 _).silent ((Returns.read 2 _).silent ((Returns.read 1 _).silent
      (.call _)))
  · exact (Returns.read 4 _).silent (.call _)
  · exact .pure _

/-- Every entry of a CRC indication is handed over. -/
theorem returns_crcIndication (hfuel : 65536 ≤ fuel) {ind : CrcIndication}
    (h : Holds m pMsg ind.bytes) :
    Returns (crcGiven m) m (crcIndicationProcDecHdlr fuel pMsg)
      (placed CrcInfo.bytes (pMsg + offsetofPdus) ind.CRCs) () := by
  simp only [CrcIndication.bytes, holds_append, leBytes_length, Nat.add_assoc, Nat.reduceAdd] at h
  obtain ⟨-, -, hnum, -, hCRCs⟩ := h
  have hcount : leValue (slice m (pMsg + 4) 2) = ind.CRCs.length := by
    rw [ind.count]
    exact hnum.rd16_eq
  have hlt : ind.CRCs.length < 65536 := by
    rw [ind.count]
    exact ind.numCRCs.toNat_lt
  have hround : ∀ (i off : ℕ), ∀ crc ∈ ind.CRCs, Holds m (pMsg + off) crc.bytes →
      off + crc.bytes.length ≤ offsetofPdus + (ind.CRCs.flatMap CrcInfo.bytes).length →
      Returns (crcGiven m) m (do
        macCrcInHdlr (pMsg + off)
        pure (off + sizeofL1CrcInfo)) [(pMsg + off, crc)] (off + crc.bytes.length) := by
    intro i off crc _ hcrc _
    rw [crc.bytes_length, ← CrcInfo.at_eq hcrc]
    exact (returns_macCrcInHdlr _).shows (.pure _)
  refine (Returns.read 2 _).silent ?_
  rw [hcount]
  have hloop := Returns.loop16_placed (fun a crc => [(a, crc)]) hlt
    (show ind.CRCs.length < fuel by omega) hround hCRCs le_rfl
  rw [List.flatMap_singleton'] at hloop
  exact hloop.done

end Crc

section Rach

theorem returns_macRachPduInHdlr (rachPduInfo : ℕ) :
    Returns (rachGiven m) m (macRachPduInHdlr rachPduInfo)
      [.pdu rachPduInfo (RachPduInfo.at m rachPduInfo)] () :=
  (Returns.read 2 _).silent (.call _)

theorem returns_macPreambleInHdlr (preambleInfo : ℕ) :
    Returns (rachGiven m) m (macPreambleInHdlr preambleInfo)
      [.preamble preambleInfo (PreambleInfo.at m preambleInfo)] () :=
  (Returns.read 2 _).silent ((Returns.read 1 _).silent (.call _))

/-- A PDU of a RACH indication and its preambles are handed over. -/
theorem returns_rachPdu (hfuel : 65536 ≤ fuel) {off : ℕ} {pdu : RachPdu}
    (h : Holds m (pMsg + off) pdu.bytes) :
    Returns (rachGiven m) m (do
      macRachPduInHdlr (pMsg + off)
      let numPreambles ← Decoder.read 1 (pMsg + off + 8)
      loop16 numPreambles (fun _ offset => do
        macPreambleInHdlr (pMsg + offset)
        pure (offset + sizeofL1PreambleInfo)) fuel 0 (off + offsetofPreamble))
      (pdu.given (pMsg + off)) (off + pdu.bytes.length) := by
  obtain ⟨hinfo, hpreamble⟩ := holds_append.mp h
  rw [RachPduInfo.bytes_length, Nat.add_assoc] at hpreamble
  have hcount : leValue (slice m (pMsg + off + 8) 1) = pdu.preamble.length := by
    rw [pdu.count, ← RachPduInfo.at_eq hinfo]
    rfl
  have hlt : pdu.preamble.length < 256 := by
    rw [pdu.count]
    exact pdu.info.numPreambles.toNat_lt
  have hround : ∀ (i off' : ℕ), ∀ preamble ∈ pdu.preamble, Holds m (pMsg + off') preamble.bytes →
      off' + preamble.bytes.length ≤
        off + offsetofPreamble + (pdu.preamble.flatMap PreambleInfo.bytes).length →
      Returns (rachGiven m) m (do
        macPreambleInHdlr (pMsg + off')
        pure (off' + sizeofL1PreambleInfo)) [.preamble (pMsg + off') preamble]
        (off' + preamble.bytes.length) := by
    intro i off' preamble _ hpreamble _
    rw [preamble.bytes_length, ← PreambleInfo.at_eq hpreamble]
    exact (returns_macPreambleInHdlr _).shows (.pure _)
  have hloop := Returns.loop16_placed (fun a preamble => [RachGiven.preamble a preamble])
    (by omega) (show pdu.preamble.length < fuel by omega) hround hpreamble le_rfl
  rw [RachPdu.given, ← RachPduInfo.at_eq hinfo]
  refine (returns_macRachPduInHdlr _).shows ((Returns.read 1 _).silent ?_)
  rw [hcount]
  simpa [RachPdu.bytes, List.map_eq_flatMap, Nat.add_assoc] using hloop

/-- Every PDU of a RACH indication and every preamble of a PDU are handed over. -/
theorem returns_rachIndication (hfuel : 65536 ≤ fuel) {ind : RachIndication}
    (h : Holds m pMsg ind.bytes) :
    Returns (rachGiven m) m (rachIndicationProcDecHdlr fuel pMsg)
      ((placed RachPdu.bytes (pMsg + offsetofPdus) ind.pdus).flatMap fun p => p.2.given p.1)
      () := by
  simp only [RachIndication.bytes, holds_append, leBytes_length, List.length_singleton,
    Nat.add_assoc, Nat.reduceAdd] at h
  obtain ⟨-, -, hnum, -, -, hpdus⟩ := h
  have hcount : leValue (slice m (pMsg + 4) 1) = ind.pdus.length := by
    rw [ind.count]
    exact hnum.rd8_eq
  have hlt : ind.pdus.length < 256 := by
    rw [ind.count]
    exact ind.numPDUs.toNat_lt
  have hround : ∀ (i off : ℕ), ∀ pdu ∈ ind.pdus, Holds m (pMsg + off) pdu.bytes →
      off + pdu.bytes.length ≤ offsetofPdus + (ind.pdus.flatMap RachPdu.bytes).length →
      Returns (rachGiven m) m (do
        macRachPduInHdlr (pMsg + off)
        let numPreambles ← Decoder.read 1 (pMsg + off + 8)
        loop16 numPreambles (fun _ offset => do
          macPreambleInHdlr (pMsg + offset)
          pure (offset + sizeofL1PreambleInfo)) fuel 0 (off + offsetofPreamble))
        (pdu.given (pMsg + off)) (off + pdu.bytes.length) := by
    intro i off pdu _ hpdu _
    exact returns_rachPdu hfuel hpdu
  refine (Returns.read 1 _).silent ?_
  rw [hcount]
  exact (Returns.loop16_placed (fun a pdu => pdu.given a) (by omega)
    (show ind.pdus.length < fuel by omega) hround hpdus le_rfl).done

end Rach

section RxData

/-- What is to be received for a TLV. -/
def DataTLV.received (t : DataTLV) : List RxCall :=
  if t.Tag = 2 then [.pcxxDataRecv t.Value.toNat t.Length.toNat] else []

theorem flatMap_received (TLVs : List DataTLV) :
    TLVs.flatMap DataTLV.received = (TLVs.filter fun t => t.Tag = 2).map fun t =>
      .pcxxDataRecv t.Value.toNat t.Length.toNat := by
  induction TLVs with
  | nil => rfl
  | cons t TLVs ih =>
    rw [List.flatMap_cons, ih, DataTLV.received, List.filter_cons]
    by_cases htag : t.Tag = 2
    · simp [htag]
    · simp [htag]

/-- The data of a TLV is received when its tag is 2. -/
theorem returns_rxDataTLV_of_holds {i off : ℕ} {t : DataTLV} (h : Holds m (pMsg + off) t.bytes)
    (hlt : off + t.bytes.length < 4294967296) :
    Returns some m (rxDataTLV pMsg i off) t.received (off + t.bytes.length) := by
  obtain ⟨htag, hlength, hvalue⟩ := t.read_eq h
  have hround : Returns some m (rxDataTLV pMsg i off) _ _ := returns_rxDataTLV i off
  rw [t.bytes_length] at hlt ⊢
  rw [htag, hlength, hvalue, Nat.mod_eq_of_lt hlt] at hround
  have htag2 : t.Tag.toNat = 2 ↔ t.Tag = 2 := by
    rw [← UInt16.toNat_inj]
    rfl
  rw [if_congr htag2 rfl rfl] at hround
  exact hround

/-- The data of a PDU is received. -/
theorem returns_rxDataPdu (hfuel : 65536 ≤ fuel) {off : ℕ} {pdu : RxDataPdu}
    (hnumTLV : pdu.TLVs.length < 65536) (h : Holds m (pMsg + off) pdu.bytes)
    (hlt : off + pdu.bytes.length < 4294967296) :
    Returns some m (do
      let numTLV ← Decoder.read 4 (pMsg + off + 8)
      rxDataTLVs fuel pMsg numTLV ((off + offsetofRxDataTLVs) % 4294967296))
      pdu.received (off + pdu.bytes.length) := by
  rw [pdu.bytes_length] at hlt ⊢
  simp only [RxDataPdu.bytes, holds_append, leBytes_length, List.length_singleton, Nat.add_assoc,
    Nat.reduceAdd] at h
  obtain ⟨-, -, -, -, hnum, hTLVs⟩ := h
  have hcount : leValue (slice m (pMsg + off + 8) 4) = pdu.TLVs.length := by
    rw [pdu.count, Nat.add_assoc]
    exact hnum.rd32_eq
  refine (Returns.read 4 _).silent ?_
  rw [hcount, Nat.mod_eq_of_lt (by omega), RxDataPdu.received, ← flatMap_received,
    ← placed_flatMap_snd DataTLV.bytes DataTLV.received (pMsg + (off + offsetofRxDataTLVs)),
    ← Nat.add_assoc off]
  refine Returns.loop16_placed (fun _ t => t.received) hnumTLV
    (show pdu.TLVs.length < fuel by omega) ?_ hTLVs le_rfl
  intro i off' t _ ht hle
  have hoff : offsetofRxDataTLVs = 12 := rfl
  exact returns_rxDataTLV_of_holds (i := i) ht (by omega)

theorem returns_rxDataIndication (hfuel : 65536 ≤ fuel) {ind : RxDataIndication}
    (hnumTLV : ∀ pdu ∈ ind.pdus, pdu.TLVs.length < 65536) (hsize : ind.bytes.length < 4294967296)
    (h : Holds m pMsg ind.bytes) :
    Returns some m (rxDataIndicationProcDecHdlr fuel pMsg)
      (ind.pdus.flatMap RxDataPdu.received) () := by
  simp only [RxDataIndication.bytes, List.length_append, leBytes_length] at hsize
  simp only [RxDataIndication.bytes, holds_append, leBytes_length, Nat.add_assoc,
    Nat.reduceAdd] at h
  obtain ⟨-, -, hnum, -, hpdus⟩ := h
  have hcount : leValue (slice m (pMsg + 4) 2) = ind.pdus.length := by
    rw [ind.count]
    exact hnum.rd16_eq
  have hlt : ind.pdus.length < 65536 := by
    rw [ind.count]
    exact ind.numPDUs.toNat_lt
  have hround : ∀ (i off : ℕ), ∀ pdu ∈ ind.pdus, Holds m (pMsg + off) pdu.bytes →
      off + pdu.bytes.length ≤ offsetofPdus + (ind.pdus.flatMap RxDataPdu.bytes).length →
      Returns some m (do
        let numTLV ← Decoder.read 4 (pMsg + off + 8)
        rxDataTLVs fuel pMsg numTLV ((off + offsetofRxDataTLVs) % 4294967296))
        pdu.received (off + pdu.bytes.length) := by
    intro i off pdu hmem hpdu hle
    simp only [offsetofPdus] at hle
    exact returns_rxDataPdu hfuel (hnumTLV pdu hmem) hpdu (by omega)
  refine (Returns.read 2 _).silent ?_
  rw [hcount, ← placed_flatMap_snd RxDataPdu.bytes RxDataPdu.received (pMsg + offsetofPdus)]
  exact (Returns.loop16_placed (fun _ pdu => pdu.received) hlt
    (show ind.pdus.length < fuel by omega) hround hpdus le_rfl).done

end RxData

/-- An encoded indication is decoded to what was encoded: each CRC entry, each PRACH PDU and
each of its preambles is given to its handler where it stands, and the data of exactly the
TLVs with tag 2 is received. -/
theorem indications_round_trip (m : Mem) (a : ℕ) (hfuel : 65536 ≤ fuel) :
    (∀ ind : CrcIndication, MessageAt m a fapiCrcIndication ind.bytes →
      Returns (crcGiven m) m (crcIndicationProcDecHdlr fuel (a + sizeofL1GeneralMsgHdr))
        (placed CrcInfo.bytes (a + sizeofL1GeneralMsgHdr + offsetofPdus) ind.CRCs) ()) ∧
    (∀ ind : RachIndication, MessageAt m a fapiPrachIndication ind.bytes →
      Returns (rachGiven m) m (rachIndicationProcDecHdlr fuel (a + sizeofL1GeneralMsgHdr))
        ((placed RachPdu.bytes (a + sizeofL1GeneralMsgHdr + offsetofPdus) ind.pdus).flatMap
          fun p => p.2.given p.1) ()) ∧
    (∀ ind : RxDataIndication, (∀ pdu ∈ ind.pdus, pdu.TLVs.length < 65536) →
      MessageAt m a fapiRxDataIndication ind.bytes →
      Returns some m (rxDataIndicationProcDecHdlr fuel (a + sizeofL1GeneralMsgHdr))
        (ind.pdus.flatMap RxDataPdu.received) ()) := by
  refine ⟨?_, ?_, ?_⟩
  · rintro ind ⟨-, -, hbody⟩
    exact returns_crcIndication hfuel hbody
  · rintro ind ⟨-, -, hbody⟩
    exact returns_rachIndication hfuel hbody
  · rintro ind hnumTLV ⟨-, hsize, hbody⟩
    have hlt : ind.bytes.length < 4294967296 := by
      rw [← hsize]
      exact rd32_lt m (a + 4)
    exact returns_rxDataIndication hfuel hnumTLV hlt hbody

/-- Two PDUs, the first one with TLVs of two tags. -/
def twoDataPdus : RxDataIndication :=
  ⟨0, 0, 2, 0, [⟨0, 1, 0, 0, 2, [⟨2, 0, 8, 64⟩, ⟨1, 0, 4, 32⟩], rfl⟩,
    ⟨0, 2, 0, 0, 1, [⟨2, 0, 12, 96⟩], rfl⟩], rfl⟩

/-- The message that carries them. -/
def twoDataPdusMessage : Mem :=
  store (fun _ => 0) 100 (leBytes 4 fapiRxDataIndication ++ leBytes 4 twoDataPdus.bytes.length ++
    twoDataPdus.bytes)

/-- Their TLVs with tag 2 are received, one of each PDU. -/
theorem indications_round_trip_two_pdus :
    Returns some twoDataPdusMessage (rxDataIndicationProcDecHdlr 65536 108)
      [.pcxxDataRecv 64 8, .pcxxDataRecv 96 12] () :=
  (indications_round_trip twoDataPdusMessage 100 le_rfl).2.2 twoDataPdus (by decide)
    ⟨by decide +kernel, by decide +kernel, by unfold Holds; decide +kernel⟩

end TestMac

import TestMac.Lib.Rounds
import TestMac.Rx.Calls

/-!
# How many rounds the decoders make

The counters of all loops have 16 bits, and all bounds but one have at most as many: only
the number of TLVs of a received PDU has 32 bits. Each decoder is compared with itself, its
loops written out as many rounds as the numbers in the message say.
-/

namespace TestMac

open Bytes Decoder

/-- A way to go through a loop of a decoder, by its bound and its body. -/
abbrev Looping := ∀ {σ : Type}, ℕ → (ℕ → σ → RxDec σ) → σ → RxDec σ

/-- The loop as the code has it. -/
def counted (fuel : ℕ) : Looping := fun n body s => loop16 n body fuel 0 s

/-- Exactly as many rounds as the bound says. -/
def inRounds : Looping := fun n body s => rounds body n 0 s

/-- One round over the TLVs of a received PDU. -/
def rxDataTLV (pMsg : ℕ) (_ offset : ℕ) : RxDec ℕ := do
  let tag ← read 2 (pMsg + offset)
  if tag = 2 then do
    let value ← read 4 (pMsg + offset + 8)
    let length ← read 4 (pMsg + offset + 4)
    call (.pcxxDataRecv value length)
  else pure ()
  pure ((offset + sizeofL1DataTLV) % 4294967296)

/-- `rxDataIndicationProcDecHdlr` by the way its loops are gone through. -/
def rxDataIndicationBy (loop : Looping) (pMsg : ℕ) : RxDec Unit := do
  let numPDUs ← read 2 (pMsg + 4)
  let _ ← loop numPDUs (fun _ offset => do
    let numTLV ← read 4 (pMsg + offset + 8)
    loop numTLV (rxDataTLV pMsg) ((offset + offsetofRxDataTLVs) % 4294967296)) offsetofPdus

/-- `crcIndicationProcDecHdlr` by the way its loop is gone through. -/
def crcIndicationBy (loop : Looping) (pMsg : ℕ) : RxDec Unit := do
  let numCRCs ← read 2 (pMsg + 4)
  let _ ← loop numCRCs (fun _ offset => do
    macCrcInHdlr (pMsg + offset)
    pure (offset + sizeofL1CrcInfo)) offsetofPdus

/-- `srsIndicationProcDecHdlr` by the way its loop is gone through. -/
def srsIndicationBy (loop : Looping) (pMsg : ℕ) : RxDec Unit := do
  let numPDUs ← read 1 (pMsg + 6)
  let _ ← loop numPDUs (fun _ offset => pure (offset + offsetofReportTLV)) offsetofPdus

/-- `rachIndicationProcDecHdlr` by the way its loops are gone through. -/
def rachIndicationBy (loop : Looping) (pMsg : ℕ) : RxDec Unit := do
  let numPDUs ← read 1 (pMsg + 4)
  let _ ← loop numPDUs (fun _ offset => do
    macRachPduInHdlr (pMsg + offset)
    let numPreambles ← read 1 (pMsg + offset + 8)
    loop numPreambles (fun _ offset => do
      macPreambleInHdlr (pMsg + offset)
      pure (offset + sizeofL1PreambleInfo)) (offset + offsetofPreamble)) offsetofPdus

/-- `uciIndicationProcDecHdlr` by the way its loop is gone through. -/
def uciIndicationBy (loop : Looping) (pMsg : ℕ) : RxDec Unit := do
  let numUcis ← read 2 (pMsg + 4)
  let _ ← loop numUcis (fun _ => uciInfo pMsg)
    { initOffset := offsetofPdus, RNTI := 0, Handle := 0 }

variable {m : Mem} {fuel pMsg : ℕ}

theorem rxDataIndication_eq_by :
    rxDataIndicationProcDecHdlr fuel pMsg = rxDataIndicationBy (counted fuel) pMsg := rfl

theorem crcIndication_eq_by :
    crcIndicationProcDecHdlr fuel pMsg = crcIndicationBy (counted fuel) pMsg := rfl

theorem srsIndication_eq_by :
    srsIndicationProcDecHdlr fuel pMsg = srsIndicationBy (counted fuel) pMsg := rfl

theorem rachIndication_eq_by :
    rachIndicationProcDecHdlr fuel pMsg = rachIndicationBy (counted fuel) pMsg := rfl

theorem uciIndication_eq_by :
    uciIndicationProcDecHdlr fuel pMsg = uciIndicationBy (counted fuel) pMsg := rfl

/-- The numbers of TLVs of the next PDUs of an RX_DATA indication, the first of them at an
offset, fit the counter. -/
def NumTLVsFit (m : Mem) (pMsg : ℕ) : ℕ → ℕ → Prop
  | 0, _ => True
  | numPDUs + 1, offset => rd32 m (pMsg + offset + 8) < 65536 ∧
      NumTLVsFit m pMsg numPDUs
        ((offset + offsetofRxDataTLVs + sizeofL1DataTLV * rd32 m (pMsg + offset + 8)) % 4294967296)

theorem counted_eq_inRounds {σ : Type} {n : ℕ} (hfuel : 65536 ≤ fuel) (hn : n < 65536)
    (body : ℕ → σ → RxDec σ) (s : σ) : counted fuel n body s = inRounds n body s :=
  loop16_eq_rounds hn (by omega) s

/-- What one round over the TLVs calls. -/
theorem returns_rxDataTLV (i offset : ℕ) :
    Returns some m (rxDataTLV pMsg i offset)
      (if rd16 m (pMsg + offset) = 2 then
        [.pcxxDataRecv (rd32 m (pMsg + offset + 8)) (rd32 m (pMsg + offset + 4))] else [])
      ((offset + sizeofL1DataTLV) % 4294967296) := by
  refine (Returns.read 2 _).silent ?_
  dsimp only
  rw [show leValue (slice m (pMsg + offset) 2) = rd16 m (pMsg + offset) from rfl]
  by_cases htag : rd16 m (pMsg + offset) = 2
  · rw [if_pos htag, if_pos htag]
    exact (Returns.read 4 _).silent ((Returns.read 4 _).silent ((Returns.call _).shows (.pure _)))
  · rw [if_neg htag, if_neg htag]
    exact .pure _

/-- The offset behind some TLVs. -/
theorem result_rounds_rxDataTLV (k i offset : ℕ) :
    (rounds (rxDataTLV pMsg) k i (offset % 4294967296) m).2 =
      .ok ((offset + sizeofL1DataTLV * k) % 4294967296) := by
  induction k generalizing i offset with
  | zero =>
    rw [Nat.mul_zero, Nat.add_zero]
    generalize offset % 4294967296 = offset'
    rfl
  | succ k ih =>
    rw [rounds, result_bind, (returns_rxDataTLV i _).1]
    dsimp only
    rw [Nat.mod_add_mod, ih, Nat.add_assoc, Nat.mul_succ, Nat.add_comm (sizeofL1DataTLV * k)]

/-- The loops over an RX_DATA indication whose numbers of TLVs fit the counter. -/
theorem rxDataIndication_inRounds (hfuel : 65536 ≤ fuel)
    (hfit : NumTLVsFit m pMsg (rd16 m (pMsg + 4)) offsetofPdus) :
    rxDataIndicationProcDecHdlr fuel pMsg m = rxDataIndicationBy inRounds pMsg m := by
  rw [rxDataIndication_eq_by, rxDataIndicationBy, rxDataIndicationBy]
  apply read_bind_congr
  apply bind_congr_left
  have hnum : leValue (slice m (pMsg + 4) 2) < 65536 := rd16_lt m (pMsg + 4)
  rw [counted_eq_inRounds hfuel hnum]
  refine rounds_congr (NumTLVsFit m pMsg) ?_ hfit
  rintro k i offset ⟨hfits, hrest⟩
  constructor
  · have hnumTLV : leValue (slice m (pMsg + offset + 8) 4) < 65536 := hfits
    apply read_bind_congr
    rw [counted_eq_inRounds hfuel hnumTLV]
  · intro offset' hoffset'
    rw [result_bind, result_read] at hoffset'
    dsimp only at hoffset'
    rw [inRounds, result_rounds_rxDataTLV] at hoffset'
    obtain rfl := Outcome.ok.inj hoffset'
    exact hrest

/-- The loop over the entries of a CRC indication. -/
theorem crcIndication_inRounds (hfuel : 65536 ≤ fuel) :
    crcIndicationProcDecHdlr fuel pMsg m = crcIndicationBy inRounds pMsg m := by
  rw [crcIndication_eq_by, crcIndicationBy, crcIndicationBy]
  apply read_bind_congr
  have hnum : leValue (slice m (pMsg + 4) 2) < 65536 := rd16_lt m (pMsg + 4)
  rw [counted_eq_inRounds hfuel hnum]

/-- The loop over the reports of an SRS indication. -/
theorem srsIndication_inRounds (hfuel : 65536 ≤ fuel) :
    srsIndicationProcDecHdlr fuel pMsg m = srsIndicationBy inRounds pMsg m := by
  rw [srsIndication_eq_by, srsIndicationBy, srsIndicationBy]
  apply read_bind_congr
  have hnum : leValue (slice m (pMsg + 6) 1) < 256 := rd8_lt m (pMsg + 6)
  rw [counted_eq_inRounds hfuel (by omega)]

/-- The two loops over a RACH indication. -/
theorem rachIndication_inRounds (hfuel : 65536 ≤ fuel) :
    rachIndicationProcDecHdlr fuel pMsg m = rachIndicationBy inRounds pMsg m := by
  rw [rachIndication_eq_by, rachIndicationBy, rachIndicationBy]
  apply read_bind_congr
  apply bind_congr_left
  have hnum : leValue (slice m (pMsg + 4) 1) < 256 := rd8_lt m (pMsg + 4)
  rw [counted_eq_inRounds hfuel (by omega)]
  refine rounds_congr (fun _ _ => True) ?_ trivial
  intro k i offset _
  constructor
  · apply bind_congr_right
    intro _
    apply read_bind_congr
    have hpreambles : leValue (slice m (pMsg + offset + 8) 1) < 256 := rd8_lt m (pMsg + offset + 8)
    rw [counted_eq_inRounds hfuel (by omega)]
  · intro _ _
    trivial

/-- The loop over the PDUs of a UCI indication. -/
theorem uciIndication_inRounds (hfuel : 65536 ≤ fuel) :
    uciIndicationProcDecHdlr fuel pMsg m = uciIndicationBy inRounds pMsg m := by
  rw [uciIndication_eq_by, uciIndicationBy, uciIndicationBy]
  apply read_bind_congr
  have hnum : leValue (slice m (pMsg + 4) 2) < 65536 := rd16_lt m (pMsg + 4)
  rw [counted_eq_inRounds hfuel hnum]

section Completes

theorem completes_rxDataIndicationBy : Completes m (rxDataIndicationBy inRounds pMsg) := by
  refine (Completes.read _ _).bind fun _ => Completes.bind ?_ fun _ => .pure ()
  refine Completes.rounds (fun _ _ => ?_) _ _ _
  refine (Completes.read _ _).bind fun _ => Completes.rounds (fun i offset => ?_) _ _ _
  exact ⟨_, (returns_rxDataTLV i offset).1⟩

theorem completes_macCrcInHdlr (crcInfo : ℕ) : Completes m (macCrcInHdlr crcInfo) := by
  refine (Completes.call _).bind fun _ => (Completes.read _ _).bind fun _ =>
    Completes.ite ?_ (Completes.ite ?_ ?_)
  · exact (Completes.read _ _).bind fun _ => (Completes.read _ _).bind fun _ =>
      (Completes.read _ _).bind fun _ => .call _
  · exact (Completes.read _ _).bind fun _ => .call _
  · exact .pure ()

theorem completes_crcIndicationBy : Completes m (crcIndicationBy inRounds pMsg) := by
  refine (Completes.read _ _).bind fun _ => Completes.bind ?_ fun _ => .pure ()
  refine Completes.rounds (fun _ _ => ?_) _ _ _
  exact (completes_macCrcInHdlr _).bind fun _ => .pure _

theorem completes_srsIndicationBy : Completes m (srsIndicationBy inRounds pMsg) := by
  refine (Completes.read _ _).bind fun _ => Completes.bind ?_ fun _ => .pure ()
  exact Completes.rounds (fun _ _ => .pure _) _ _ _

theorem completes_rachIndicationBy : Completes m (rachIndicationBy inRounds pMsg) := by
  refine (Completes.read _ _).bind fun _ => Completes.bind ?_ fun _ => .pure ()
  refine Completes.rounds (fun _ _ => ?_) _ _ _
  refine Completes.bind ((Completes.read _ _).bind fun _ => .call _) fun _ => ?_
  refine (Completes.read _ _).bind fun _ => Completes.rounds (fun _ _ => ?_) _ _ _
  refine Completes.bind ?_ fun _ => .pure _
  exact (Completes.read _ _).bind fun _ => (Completes.read _ _).bind fun _ => .call _

end Completes

section Ends

theorem ends_uciInfo (s : UciLoop) : Ends m (uciInfo pMsg s) := by
  have hcall : ∀ c : RxCall, Ends m (Decoder.call c) := fun c => (Completes.call c).ends
  apply closed_uciInfo Ends.closed
  · intro _ _ _
    exact closed_csiPart1InPusch Ends.closed (hcall _) fun _ => hcall _
  · intro _ _ _
    exact closed_csiPart1InPucch Ends.closed (hcall _) (fun _ => hcall _) (hcall _)
  · intro _ _ _
    exact closed_uciInfoInPucch Ends.closed (hcall _) (hcall _) (hcall _) (hcall _) (hcall _)
  · exact fun _ => hcall _

theorem ends_uciIndicationBy : Ends m (uciIndicationBy inRounds pMsg) :=
  (Completes.read _ _).ends.bind fun _ =>
    Ends.bind (Ends.rounds (fun _ s => ends_uciInfo s) _ _ _) fun _ => (Completes.pure ()).ends

end Ends

/-- The decoders of CRC, SRS and RACH indications, and those of RX_DATA indications whose
numbers of TLVs fit the counter, make the rounds that the message says and return. That of
UCI indications makes them unless it stops at one of its assertions. -/
theorem indications_inRounds (m : Mem) (pMsg : ℕ) {fuel : ℕ} (hfuel : 65536 ≤ fuel) :
    (NumTLVsFit m pMsg (rd16 m (pMsg + 4)) offsetofPdus →
      rxDataIndicationProcDecHdlr fuel pMsg m = rxDataIndicationBy inRounds pMsg m ∧
        Completes m (rxDataIndicationProcDecHdlr fuel pMsg)) ∧
    (crcIndicationProcDecHdlr fuel pMsg m = crcIndicationBy inRounds pMsg m ∧
      Completes m (crcIndicationProcDecHdlr fuel pMsg)) ∧
    (srsIndicationProcDecHdlr fuel pMsg m = srsIndicationBy inRounds pMsg m ∧
      Completes m (srsIndicationProcDecHdlr fuel pMsg)) ∧
    (rachIndicationProcDecHdlr fuel pMsg m = rachIndicationBy inRounds pMsg m ∧
      Completes m (rachIndicationProcDecHdlr fuel pMsg)) ∧
    (uciIndicationProcDecHdlr fuel pMsg m = uciIndicationBy inRounds pMsg m ∧
      Ends m (uciIndicationProcDecHdlr fuel pMsg)) := by
  refine ⟨?_, ?_, ?_, ?_, ?_⟩
  · intro hfit
    have hrounds := rxDataIndication_inRounds hfuel hfit
    exact ⟨hrounds, completes_rxDataIndicationBy.congr hrounds⟩
  · have hrounds : crcIndicationProcDecHdlr fuel pMsg m = crcIndicationBy inRounds pMsg m :=
      crcIndication_inRounds hfuel
    exact ⟨hrounds, completes_crcIndicationBy.congr hrounds⟩
  · have hrounds : srsIndicationProcDecHdlr fuel pMsg m = srsIndicationBy inRounds pMsg m :=
      srsIndication_inRounds hfuel
    exact ⟨hrounds, completes_srsIndicationBy.congr hrounds⟩
  · have hrounds : rachIndicationProcDecHdlr fuel pMsg m = rachIndicationBy inRounds pMsg m :=
      rachIndication_inRounds hfuel
    exact ⟨hrounds, completes_rachIndicationBy.congr hrounds⟩
  · have hrounds : uciIndicationProcDecHdlr fuel pMsg m = uciIndicationBy inRounds pMsg m :=
      uciIndication_inRounds hfuel
    exact ⟨hrounds, ends_uciIndicationBy.congr hrounds⟩

/-- An RX_DATA indication of one PDU with a number of TLVs. -/
def onePduWith (numTLV : List UInt8) : Mem :=
  store (fun _ => 0) 0 ([0, 0, 0, 0, 1, 0, 0, 0, 0, 0, 0, 0, 0, 0, 0, 0] ++ numTLV)

/-- The decoder returns from an indication with a PDU of two TLVs. -/
theorem indications_inRounds_two_tlvs :
    rxDataIndicationProcDecHdlr 65536 0 (onePduWith [2, 0, 0, 0]) =
      rxDataIndicationBy inRounds 0 (onePduWith [2, 0, 0, 0]) ∧
    Completes (onePduWith [2, 0, 0, 0]) (rxDataIndicationProcDecHdlr 65536 0) :=
  (indications_inRounds (onePduWith [2, 0, 0, 0]) 0 le_rfl).1 ⟨by decide, trivial⟩

/-- From a PDU of 65536 TLVs the decoder of RX_DATA indications never returns, and that of UCI
indications stops at the assertion on its size. -/
theorem indications_of_65536_tlvs :
    (∀ fuel, (rxDataIndicationProcDecHdlr fuel 0 (onePduWith [0, 0, 1, 0])).2 = .running) ∧
    (uciIndicationProcDecHdlr 65536 0 (onePduWith [0, 0, 1, 0])).2 = .assertFailed := by
  constructor
  · intro fuel
    have hTLVs : ∀ offset,
      (rxDataTLVs fuel 0 65536 offset (onePduWith [0, 0, 1, 0])).2 = .running :=
      fun offset => loop16_running le_rfl (fun i offset => ⟨_, (returns_rxDataTLV i offset).1⟩) fuel
        (by decide) offset
    rw [rxDataIndicationProcDecHdlr, result_bind, result_read]
    have hnum : leValue (slice (onePduWith [0, 0, 1, 0]) (0 + 4) 2) = 1 := by decide
    have hnumTLV : leValue (slice (onePduWith [0, 0, 1, 0]) (0 + offsetofPdus + 8) 4) = 65536 := by
      decide
    dsimp only
    rw [hnum, result_bind]
    cases fuel with
    | zero => rfl
    | succ fuel =>
      rw [loop16_step (by decide) (by decide), result_bind, result_bind, result_read]
      dsimp only
      rw [hnumTLV, hTLVs]
  · decide +kernel

end TestMac

import TestMac.Mac.Sends

/-!
# A TX_DATA request as a function of its row

`TxdataParams` walks the PDUs of one row of the table and the TLVs of every PDU. The
walk depends on the bytes of this row and on the answers of the driver, and changes
nothing but the row. Here it is a function of them, with the same loops.
-/

namespace TestMac

open Bytes Act

/-- What `macDlSchBuildPayload` reads besides its arguments: the driver, the mode of the
payload and the slot being prepared. -/
structure PayloadSource where
  env : Env
  pdschMode : TestMacPdschMode
  gL2TxGSfn : SlotIndication

/-- The payload that is sent from an offset. -/
def PayloadSource.payload (src : PayloadSource) (size offset : ℕ) : List UInt8 :=
  match src.pdschMode with
  | .autoMode => (List.range size).map fun i => bsMacPayloadsPdsch.getD (i % 100) 0
  | .loadMode =>
    slice (src.env.predefineDataBuf (sfnWindow src.gL2TxGSfn.SFN) src.gL2TxGSfn.Slot) offset size

/-- What is left of a row, and what has been done, after a part of a walk. -/
structure TxWalk where
  row : Mem
  calls : ℕ
  events : List CellEvent
  copied : List UInt8

/-- One TLV: data is sent for it when its tag is 2. -/
def fillTLV (src : PayloadSource) (row : Mem) (tlv calls : ℕ) : TxWalk :=
  if rd16 row tlv = 2 then
    match src.env.pcxxDataAlloc calls with
    | none => ⟨wr32 row (tlv + 8) (rd32 row (tlv + 8)), calls + 1, [], []⟩
    | some dest =>
      ⟨wr32 row (tlv + 8) dest, calls + 1,
        [.dataSent dest (src.payload (rd32 row (tlv + 4)) (rd32 row (tlv + 8)))], []⟩
  else ⟨row, calls, [], []⟩

/-- The loop over the TLVs of a PDU. -/
def walkTLVs (src : PayloadSource) : ℕ → ℕ → Mem → ℕ → TxWalk
  | 0, _, row, calls => ⟨row, calls, [], []⟩
  | numTLV + 1, tlv, row, calls =>
    let filled := fillTLV src row tlv calls
    let rest := walkTLVs src numTLV (tlv + sizeofL1DataTLV) filled.row filled.calls
    ⟨rest.row, rest.calls, filled.events ++ rest.events,
      slice filled.row tlv sizeofL1DataTLV ++ rest.copied⟩

/-- The loop over the PDUs, with the offset behind them. -/
def walkPdus (src : PayloadSource) (base : ℕ) : ℕ → ℕ → Mem → ℕ → ℕ × TxWalk
  | 0, offset, row, calls => (offset, ⟨row, calls, [], []⟩)
  | numPDUs + 1, offset, row, calls =>
    let pdu := base + offset
    let numTLV := rd32 row (pdu + 8)
    let tlvs := walkTLVs src numTLV (pdu + 12) row calls
    let next := (offset + 12 + sizeofL1DataTLV * numTLV) % 4294967296
    let rest := walkPdus src base numPDUs next (wr32 tlvs.row pdu (sub32 next offset)) tlvs.calls
    (rest.1, ⟨rest.2.row, rest.2.calls, tlvs.events ++ rest.2.events,
      slice tlvs.row pdu 12 ++ tlvs.copied ++ rest.2.copied⟩)

/-- The source of payloads in a cell. -/
def Cell.payloads (env : Env) (c : Cell) : PayloadSource :=
  ⟨env, c.ctx.pdschMode, c.clock.gL2TxGSfn⟩

/-- The subscripts applied for one payload. -/
def Cell.payloadUses (c : Cell) : List TableUse :=
  match c.ctx.pdschMode with
  | .autoMode => []
  | .loadMode => [.data (sfnWindow c.clock.gL2TxGSfn.SFN) c.clock.gL2TxGSfn.Slot]

/-- The cell after a walk of one of its rows. -/
def Cell.walked (p : ℕ) (walk : TxWalk) (c : Cell) : Cell :=
  { c with
    calls := walk.calls
    log := c.log ++ walk.events
    uses := c.uses ++ walk.events.flatMap fun _ => c.payloadUses
    tables := { c.tables with gL1TXDATAREQ := c.tables.gL1TXDATAREQ.set p walk.row } }

variable {env : Env} {c : Cell} {p : ℕ}

@[simp] theorem walked_row {walk : TxWalk} :
    (c.walked p walk).tables.gL1TXDATAREQ.rows p = walk.row :=
  SlotTable.set_rows_same _

@[simp] theorem walked_calls {walk : TxWalk} : (c.walked p walk).calls = walk.calls := rfl

@[simp]
theorem walked_payloads {walk : TxWalk} : (c.walked p walk).payloads env = c.payloads env := rfl

/-- Walking on. -/
theorem walked_walked {walk walk' : TxWalk} :
    (c.walked p walk).walked p walk' =
      c.walked p ⟨walk'.row, walk'.calls, walk.events ++ walk'.events,
        walk.copied ++ walk'.copied⟩ := by
  have huses : (c.walked p walk).payloadUses = c.payloadUses := rfl
  rw [Cell.walked, huses]
  simp [Cell.walked]

theorem walked_start : c.walked p ⟨c.tables.gL1TXDATAREQ.rows p, c.calls, [], []⟩ = c := by
  simp [Cell.walked]

/-- A change of the row after a walk. -/
theorem finishes_rewrite (f : Mem → Mem) {walk : TxWalk} {Q : Unit → Cell → Prop} :
    Finishes (setTables fun t => { t with
      gL1TXDATAREQ := t.gL1TXDATAREQ.set p (f (t.gL1TXDATAREQ.rows p)) }) (c.walked p walk) Q ↔
      Q () (c.walked p { walk with row := f walk.row }) := by
  simp [setTables, Cell.walked]

@[simp]
theorem finishes_pcxx {α : Type} {answer : ℕ → α} {Q : α → Cell → Prop} :
    Finishes (pcxx answer) c Q ↔ Q (answer c.calls) c.called := by
  simp only [pcxx, finishes_bind, finishes_read, finishes_update, finishes_pure]
  rfl

@[simp]
theorem finishes_useTable {u : TableUse} {Q : Unit → Cell → Prop} :
    Finishes (useTable u) c Q ↔ Q () (c.used [u]) :=
  finishes_update

@[simp]
theorem finishes_rowAt {sfn slot : ℕ} {Q : ℕ → Cell → Prop} :
    Finishes (rowAt sfn slot) c Q ↔ Q (rowIndex sfn slot) (c.used [.row sfn slot]) := by
  simp only [rowAt, finishes_bind, finishes_useTable, finishes_pure]

theorem finishes_payloadBytes {size offset : ℕ} {Q : List UInt8 → Cell → Prop} :
    Finishes (payloadBytes env size offset) c Q ↔
      Q ((c.payloads env).payload size offset) (c.used c.payloadUses) := by
  simp only [payloadBytes, finishes_bind, finishes_read, id, PayloadSource.payload, Cell.payloads,
    Cell.payloadUses]
  cases c.ctx.pdschMode with
  | autoMode => simp [Cell.used]
  | loadMode => simp

theorem finishes_macDlSchBuildPayload {size offset : ℕ} {Q : ℕ → Cell → Prop} :
    Finishes (macDlSchBuildPayload env size offset) c Q ↔
      match env.pcxxDataAlloc c.calls with
      | none => Q offset c.called
      | some dest => Q dest { c.called.used c.payloadUses with
          log := c.log ++ [.dataSent dest ((c.payloads env).payload size offset)] } := by
  simp only [macDlSchBuildPayload, finishes_bind, finishes_pcxx]
  cases env.pcxxDataAlloc c.calls with
  | none => simp
  | some dest =>
    simp only [finishes_bind, finishes_payloadBytes, logEvent, finishes_update, finishes_pure]
    rfl

/-- One TLV is filled as the walk says. -/
theorem finishes_fillTLV {tlv : ℕ} {Q : Unit → Cell → Prop} :
    Finishes (when (rd16 (c.tables.gL1TXDATAREQ.rows p) tlv = 2) do
      let value ← macDlSchBuildPayload env (rd32 (c.tables.gL1TXDATAREQ.rows p) (tlv + 4))
        (rd32 (c.tables.gL1TXDATAREQ.rows p) (tlv + 8))
      setTables fun t => { t with
        gL1TXDATAREQ :=
          t.gL1TXDATAREQ.set p (wr32 (t.gL1TXDATAREQ.rows p) (tlv + 8) value) }) c Q ↔
      Q () (c.walked p (fillTLV (c.payloads env) (c.tables.gL1TXDATAREQ.rows p) tlv c.calls)) := by
  rw [finishes_when]
  by_cases htag : rd16 (c.tables.gL1TXDATAREQ.rows p) tlv = 2
  · simp only [htag, not_true_eq_false, false_implies, and_true, true_implies, finishes_bind,
      finishes_macDlSchBuildPayload, setTables, finishes_update, fillTLV, if_true]
    have henv : (c.payloads env).env = env := rfl
    rw [henv]
    cases env.pcxxDataAlloc c.calls with
    | none => simp [Cell.walked, Cell.called]
    | some dest => simp [Cell.walked, Cell.called, Cell.used]
  · simp [htag, fillTLV, walked_start]

/-- The loop over the TLVs does what the walk says. -/
theorem finishes_txdataTLVs {numTLV tlv : ℕ} {Q : List UInt8 → Cell → Prop} :
    Finishes (txdataTLVs env p numTLV tlv) c Q ↔
      let walk := walkTLVs (c.payloads env) numTLV tlv (c.tables.gL1TXDATAREQ.rows p) c.calls
      Q walk.copied (c.walked p walk) := by
  induction numTLV generalizing tlv c Q with
  | zero => simp [txdataTLVs, walkTLVs, walked_start]
  | succ numTLV ih =>
    rw [txdataTLVs, finishes_bind, finishes_read, finishes_bind, finishes_fillTLV, finishes_bind,
      finishes_read, finishes_bind, ih, finishes_pure]
    simp only [walkTLVs, walked_payloads, walked_calls, walked_row, walked_walked]
    rfl

/-- The loop over the PDUs does what the walk says. -/
theorem finishes_txdataPdus {base numPDUs offset : ℕ} {Q : ℕ × List UInt8 → Cell → Prop} :
    Finishes (txdataPdus env p base numPDUs offset) c Q ↔
      let walk := walkPdus (c.payloads env) base numPDUs offset (c.tables.gL1TXDATAREQ.rows p)
        c.calls
      Q (walk.1, walk.2.copied) (c.walked p walk.2) := by
  induction numPDUs generalizing offset c Q with
  | zero => simp [txdataPdus, walkPdus, walked_start]
  | succ numPDUs ih =>
    rw [txdataPdus, finishes_bind, finishes_read, finishes_bind, finishes_txdataTLVs, finishes_bind,
      finishes_read, finishes_bind, finishes_rewrite fun row => wr32 row (base + offset) _,
      finishes_bind, ih, finishes_pure]
    simp only [walkPdus, walked_payloads, walked_calls, walked_row, walked_walked]
    rfl

/-- `TxdataParams` walks the stamped row. -/
theorem finishes_txdataParams {base : ℕ} {Q : ℕ × List UInt8 → Cell → Prop} :
    Finishes (txdataParams env p base) c Q ↔
      let row := stamp (c.tables.gL1TXDATAREQ.rows p) base c.clock.gMacTxRfn c.clock.gMacTxSlot
      let walk := walkPdus (c.payloads env) base (rd16 row (base + 4)) offsetofPdus row c.calls
      Q (walk.1, slice row base offsetofPdus ++ walk.2.copied) (c.walked p walk.2) := by
  simp only [txdataParams, setTables, finishes_bind, finishes_read, finishes_update,
    finishes_txdataPdus, finishes_pure, SlotTable.set_rows_same]
  have hsrc : ∀ row, Cell.payloads env { c with
      tables := { c.tables with gL1TXDATAREQ := c.tables.gL1TXDATAREQ.set p row } } =
    c.payloads env := fun _ => rfl
  have huses : ∀ row, Cell.payloadUses { c with
      tables := { c.tables with gL1TXDATAREQ := c.tables.gL1TXDATAREQ.set p row } } =
    c.payloadUses := fun _ => rfl
  simp only [hsrc, huses, Cell.walked, SlotTable.set_twice]

/-- The offset behind the PDUs that a row announces, without the wrap of 32 bits. -/
def pduEnd (row : Mem) (base : ℕ) : ℕ → ℕ → ℕ
  | 0, offset => offset
  | numPDUs + 1, offset =>
    pduEnd row base numPDUs (offset + 12 + sizeofL1DataTLV * rd32 row (base + offset + 8))

variable {src : PayloadSource} {row row' : Mem} {base numPDUs numTLV offset tlv calls : ℕ}

theorem le_pduEnd : offset ≤ pduEnd row base numPDUs offset := by
  induction numPDUs generalizing offset with
  | zero => exact le_rfl
  | succ numPDUs ih =>
    have hrest : offset + 12 + sizeofL1DataTLV * rd32 row (base + offset + 8) ≤
      pduEnd row base (numPDUs + 1) offset := ih
    omega

/-- The PDUs announced depend on the row from the first of them on. -/
theorem pduEnd_congr (h : ∀ a, base + offset ≤ a → row a = row' a) :
    pduEnd row base numPDUs offset = pduEnd row' base numPDUs offset := by
  induction numPDUs generalizing offset with
  | zero => rfl
  | succ numPDUs ih =>
    have hnum : rd32 row (base + offset + 8) = rd32 row' (base + offset + 8) := by
      exact rd32_congr fun a ha _ => h a (by omega)
    rw [pduEnd, pduEnd, hnum]
    exact ih fun a ha => h a (by omega)

/-- Filling a TLV changes at most its value. -/
theorem fillTLV_row {a : ℕ} (h : a < tlv + 8 ∨ tlv + 12 ≤ a) :
    (fillTLV src row tlv calls).row a = row a := by
  have hkeep : ∀ v, wr32 row (tlv + 8) v a = row a := by
    intro v
    exact store_of_not_mem (by rw [leBytes_length]; omega)
  unfold fillTLV
  split_ifs
  · cases src.env.pcxxDataAlloc calls with
    | none => exact hkeep _
    | some dest => exact hkeep dest
  · rfl

/-- The loop over the TLVs changes nothing around them. -/
theorem walkTLVs_row {a : ℕ} (h : a < tlv ∨ tlv + sizeofL1DataTLV * numTLV ≤ a) :
    (walkTLVs src numTLV tlv row calls).row a = row a := by
  have hsize : sizeofL1DataTLV = 12 := rfl
  induction numTLV generalizing tlv row calls with
  | zero => rfl
  | succ numTLV ih =>
    rw [Nat.mul_succ] at h
    rw [walkTLVs]
    simp only
    rw [ih (by omega), fillTLV_row (by omega)]

theorem walkTLVs_copied_length :
    (walkTLVs src numTLV tlv row calls).copied.length = sizeofL1DataTLV * numTLV := by
  induction numTLV generalizing tlv row calls with
  | zero => rfl
  | succ numTLV ih =>
    rw [walkTLVs, List.length_append, slice_length, ih, Nat.mul_succ, Nat.add_comm]

/-- A walk that does not wrap ends behind the PDUs announced. It changes nothing before
them, and announces the same PDUs afterwards. -/
theorem walkPdus_spec (h : pduEnd row base numPDUs offset < 4294967296) :
    (walkPdus src base numPDUs offset row calls).1 = pduEnd row base numPDUs offset ∧
    (∀ a, a < base + offset → (walkPdus src base numPDUs offset row calls).2.row a = row a) ∧
    pduEnd (walkPdus src base numPDUs offset row calls).2.row base numPDUs offset =
      pduEnd row base numPDUs offset ∧
    (walkPdus src base numPDUs offset row calls).2.copied.length =
      pduEnd row base numPDUs offset - offset := by
  have hsize : sizeofL1DataTLV = 12 := rfl
  induction numPDUs generalizing offset row calls with
  | zero => exact ⟨rfl, fun _ _ => rfl, rfl, (Nat.sub_self _).symm⟩
  | succ numPDUs ih =>
    set pdu := base + offset with hpdu
    set k := rd32 row (pdu + 8) with hk
    have hpduEnd : pduEnd row base (numPDUs + 1) offset =
      pduEnd row base numPDUs (offset + 12 + sizeofL1DataTLV * k) := rfl
    have hle : offset + 12 + sizeofL1DataTLV * k ≤ pduEnd row base (numPDUs + 1) offset := le_pduEnd
    have hnext : (offset + 12 + sizeofL1DataTLV * k) % 4294967296 =
      offset + 12 + sizeofL1DataTLV * k := Nat.mod_eq_of_lt (by omega)
    set next := offset + 12 + sizeofL1DataTLV * k with hnextdef
    set tlvs := walkTLVs src k (pdu + 12) row calls with htlvs
    set row' := wr32 tlvs.row pdu (sub32 next offset) with hrow'
    -- the PDU changes its length and its TLVs, but not their number
    have hkeep : ∀ a, a < pdu ∨ pdu + 4 ≤ a ∧ a < pdu + 12 ∨ base + next ≤ a → row' a = row a := by
      intro a ha
      rw [hrow', wr32, store_of_not_mem (by rw [leBytes_length]; omega), htlvs,
        walkTLVs_row (by omega)]
    have hend : pduEnd row' base numPDUs next = pduEnd row base numPDUs next :=
      pduEnd_congr fun a ha => hkeep a (by omega)
    set rest := walkPdus src base numPDUs next row' tlvs.calls with hrest
    have hspec : rest.1 = pduEnd row' base numPDUs next ∧ _ := ih (by omega)
    rw [← hrest] at hspec
    obtain ⟨hoff, hbefore, hannounced, hcopied⟩ := hspec
    have hwalk : walkPdus src base (numPDUs + 1) offset row calls =
        (rest.1, ⟨rest.2.row, rest.2.calls, tlvs.events ++ rest.2.events,
          slice tlvs.row pdu 12 ++ tlvs.copied ++ rest.2.copied⟩) := by
      rw [walkPdus]
      simp only [← hpdu, ← hk, ← hnextdef, hnext, ← htlvs, ← hrow', ← hrest]
    rw [hwalk, hpduEnd]
    have hnum : rd32 rest.2.row (pdu + 8) = k := by
      rw [hk]
      refine rd32_congr fun a ha ha' => ?_
      rw [hbefore a (by omega), hkeep a (by omega)]
    refine ⟨?_, ?_, ?_, ?_⟩
    · rw [← hend]
      exact hoff
    · intro a ha
      rw [← hkeep a (by omega)]
      exact hbefore a (by omega)
    · rw [pduEnd, ← hpdu, hnum, ← hend]
      exact hannounced
    · simp only [List.length_append, slice_length, htlvs, walkTLVs_copied_length, hcopied]
      omega

/-- The requests in a log. -/
def requests (log : List CellEvent) : List (ℕ × List UInt8) :=
  log.filterMap fun event =>
    match event with
    | .sent msgId bytes => some (msgId, bytes)
    | _ => none

theorem requests_append (log log' : List CellEvent) :
    requests (log ++ log') = requests log ++ requests log' := List.filterMap_append

theorem mem_requests {log : List CellEvent} {msgId : ℕ} {bytes : List UInt8} :
    (msgId, bytes) ∈ requests log ↔ .sent msgId bytes ∈ log := by
  rw [requests, List.mem_filterMap]
  constructor
  · rintro ⟨e, he, hsome⟩
    cases e with
    | sent msgId' bytes' =>
      obtain ⟨rfl, rfl⟩ := Prod.mk.inj (Option.some.inj hsome)
      exact he
    | _ => exact absurd hsome (Option.some_ne_none _).symm
  · intro he
    exact ⟨_, he, rfl⟩

/-- A walk sends data, but no requests. -/
theorem requests_walkTLVs : requests (walkTLVs src numTLV tlv row calls).events = [] := by
  induction numTLV generalizing tlv row calls with
  | zero => rfl
  | succ numTLV ih =>
    have hfilled : requests (fillTLV src row tlv calls).events = [] := by
      unfold fillTLV
      split_ifs
      · cases src.env.pcxxDataAlloc calls with
        | none => rfl
        | some dest => rfl
      · rfl
    rw [walkTLVs, requests_append, hfilled, ih, List.nil_append]

theorem requests_walkPdus :
    requests (walkPdus src base numPDUs offset row calls).2.events = [] := by
  induction numPDUs generalizing offset row calls with
  | zero => rfl
  | succ numPDUs ih => rw [walkPdus, requests_append, requests_walkTLVs, ih, List.nil_append]

end TestMac

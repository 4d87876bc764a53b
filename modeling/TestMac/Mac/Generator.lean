import TestMac.Mac.Slots
import TestMac.Mac.TxRow

/-!
# Slots served one after the other

In generator mode a slot indication sends three requests, taken from the rows of the
slot two ahead. With a transport that accepts what it is given, the slots of
consecutive indications are served one after the other, each from its own rows.
-/

namespace TestMac

open Bytes Act

variable {env : Env} {c : Cell} {room : ℕ}

/-- The transport accepts every message that is shorter than a room. -/
structure Accepts (env : Env) (room : ℕ) : Prop where
  start : ∀ n, env.pcxxSendStart n = true
  alloc : ∀ n, ∃ r, env.pcxxCtrlAlloc n = some r ∧ room ≤ r
  send : ∀ n, env.pcxxCtrlSend n = true

section Sends

variable {Q : Unit → Cell → Prop}

theorem finishes_allocL1CtrlMsgMem {size : ℕ} :
    Finishes (allocL1CtrlMsgMem env size) c Q ↔
      (env.pcxxCtrlAlloc c.calls).isSome = true ∧ size ≤ (env.pcxxCtrlAlloc c.calls).getD 0 ∧
        Q () (c.allocated ((env.pcxxCtrlAlloc c.calls).getD 0)) := by
  simp only [allocL1CtrlMsgMem, finishes_bind, finishes_pcxx, finishes_assert, finishes_update]
  rfl

theorem finishes_setL1CtrlMsgGrpHeader :
    Finishes (setL1CtrlMsgGrpHeader env) c Q ↔
      (env.pcxxCtrlAlloc c.calls).isSome = true ∧ 32 < (env.pcxxCtrlAlloc c.calls).getD 0 ∧
        Q () (c.headed ((env.pcxxCtrlAlloc c.calls).getD 0)) := by
  simp only [setL1CtrlMsgGrpHeader, finishes_bind, finishes_pcxx, finishes_assert, finishes_update,
    finishes_pure]
  rfl

theorem finishes_appendL1MsgToList {msgId len sfn slot msgType : ℕ} {bytes : List UInt8} :
    Finishes (appendL1MsgToList env msgId bytes len sfn slot msgType) c Q ↔
      sfn < 1024 ∧ slot < 160 ∧ msgType < 254 ∧ c.lenWith len < c.phyCtrlMsgCtxt.maxRemLen ∧
        Q () (c.appended (env.pcxxCtrlSend c.calls) msgId bytes len) := by
  simp only [appendL1MsgToList, finishes_bind, finishes_pcxx, finishes_assert, finishes_update,
    finishes_read, finishes_when, logEvent]
  cases h : env.pcxxCtrlSend c.calls with
  | true => simp [Cell.appended, Cell.called, Cell.lenWith]
  | false => simp [Cell.appended, Cell.called, Cell.lenWith]

theorem finishes_l1MsgProc {body : CellM Unit} (h : env.pcxxSendStart c.calls = true) :
    Finishes (l1MsgProc env body) c Q ↔
      Finishes (setL1CtrlMsgGrpHeader env) c.called fun _ c₁ =>
        Finishes body c₁ fun _ c₂ => Q () c₂.called := by
  simp [l1MsgProc, h]

end Sends

/-- A cell has sent one request: memory is taken, and the message is accepted. -/
theorem Accepts.finishes_request (haccepts : Accepts env room) {sfn slot msgType msgId msgSize : ℕ}
    {body : List UInt8} (hsfn : sfn < 1024) (hslot : slot < 160) (htype : msgType < 254)
    (hfits : (msgSize + sizeofL1GeneralMsgHdr) % 4294967296 < room)
    (hlen : c.phyCtrlMsgCtxt.curMsgLen = 0) (hroom : room ≤ c.phyCtrlMsgCtxt.maxRemLen) :
    Finishes (appendL1Msg env msgId msgSize body sfn slot msgType) c fun _ c' =>
      c'.ctx = c.ctx ∧ c'.clock = c.clock ∧ c'.tables = c.tables ∧ c'.calls = c.calls + 1 ∧
      c'.log = c.log ++ [.sent msgId ((l1Message msgId msgSize body).take
        ((msgSize + sizeofL1GeneralMsgHdr) % 4294967296))] := by
  have hwith : c.lenWith ((msgSize + sizeofL1GeneralMsgHdr) % 4294967296) =
      (msgSize + sizeofL1GeneralMsgHdr) % 4294967296 := by
    rw [Cell.lenWith, hlen, Nat.zero_add, Nat.mod_mod]
  rw [appendL1Msg, finishes_appendL1MsgToList, hwith]
  refine ⟨hsfn, hslot, htype, by omega, rfl, rfl, rfl, rfl, ?_⟩
  simp [Cell.appended, haccepts.send, hwith]

theorem sfnWindow_eq (sfn : ℕ) : sfnWindow sfn = sfn % 4 := Nat.and_two_pow_sub_one_eq_mod sfn 2

theorem sfnWindow_lt (sfn : ℕ) : sfnWindow sfn < 4 := by
  rw [sfnWindow_eq]
  exact Nat.mod_lt _ (by decide)

/-- The message of a row of the DL_TTI or UL_TTI table: the bytes of the row, with the
system frame number and the slot in front of its body. -/
def rowMessage (msgId : ℕ) (row : Mem) (size sfn slot : ℕ) : List UInt8 :=
  (l1Message msgId (sub32 size 8) (slice (stamp row 8 sfn slot) 8 size)).take size

theorem sub32_eight {size : ℕ} (h : size < 4294967296) :
    (sub32 size 8 + sizeofL1GeneralMsgHdr) % 4294967296 = size := by
  have hsize : sizeofL1GeneralMsgHdr = 8 := rfl
  unfold sub32
  omega

/-- What is sent of a file of at least eight bytes. -/
theorem take_l1Message {msgId size : ℕ} (m : Mem) (a : ℕ) (hmin : 8 ≤ size)
    (h : size < 4294967296) :
    (l1Message msgId (sub32 size 8) (slice m a size)).take size =
      l1Message msgId (size - 8) (slice m a (size - 8)) := by
  have hsub : sub32 size 8 = size - 8 := by
    unfold sub32
    omega
  have hheader : (leBytes 4 msgId ++ leBytes 4 (size - 8)).length = 8 := by simp
  have htake : (slice m a size).take (size - 8) = slice m a (size - 8) := by
    have hcut := slice_drop_take m a size 0 (size - 8) (by omega)
    rwa [List.drop_zero] at hcut
  rw [l1Message, l1Message, hsub, List.take_append, hheader,
    List.take_of_length_le (by rw [hheader]; exact hmin), htake]

/-- The sender of a row in generator mode. -/
theorem Accepts.finishes_sendTtiReq (haccepts : Accepts env room) (r : TtiReq) {sfn slot : ℕ}
    (hsfn : sfn < 1024) (hslot : slot < 160) (hgen : c.ctx.runMode = .fapiGenerator)
    (hroom : room ≤ 4294967296) (hmin : 8 ≤ room)
    (hfits : r.sizes c.tables (sfn % 4) slot < room) :
    Finishes (r.send env sfn slot) c fun _ c' =>
      c'.ctx = c.ctx ∧ c'.clock = c.clock ∧ c'.calls = c.calls + 2 ∧
      c'.tables = r.withRows c.tables ((r.rows c.tables).set (rowIndex (sfn % 4) slot)
        (stamp (r.rows c.tables (sfn % 4) slot) 8 sfn slot)) ∧
      c'.log = c.log ++ [.sent r.msgId (rowMessage r.msgId (r.rows c.tables (sfn % 4) slot)
        (r.sizes c.tables (sfn % 4) slot) sfn slot)] := by
  obtain ⟨size, halloc, hsize⟩ := haccepts.alloc c.calls
  have hlen := sub32_eight (hfits.trans_le hroom)
  have htype : r.msgType < 254 := by
    cases r <;> decide
  simp only [TtiReq.send, finishes_bind, finishes_allocL1CtrlMsgMem, halloc, finishes_rowAt,
    finishes_read, finishes_ite, setTables, finishes_update, sfnWindow_eq]
  refine ⟨rfl, by simp [sizeofL1GeneralMsgHdr]; omega, ?_, fun hno => absurd hgen hno⟩
  intro _
  refine Finishes.mono (haccepts.finishes_request hsfn hslot htype
    (by simpa [hlen] using hfits) rfl ?_) ?_
  · exact hsize
  · intro _ c' hc'
    obtain ⟨hctx, hclock, htables, hcalls, hlog⟩ := hc'
    refine ⟨hctx, hclock, hcalls, htables, ?_⟩
    rw [hlog]
    simp [rowMessage, hlen]

/-- `sendDlTTIReq` in generator mode. -/
theorem Accepts.finishes_sendDlTTIReq (haccepts : Accepts env room) {sfn slot : ℕ}
    (hsfn : sfn < 1024)
    (hslot : slot < 160) (hgen : c.ctx.runMode = .fapiGenerator) (hroom : room ≤ 4294967296)
    (hmin : 8 ≤ room)
    (hfits : c.tables.gL1DlttiReqSize (sfn % 4) slot < room) :
    Finishes (sendDlTTIReq env sfn slot) c fun _ c' =>
      c'.ctx = c.ctx ∧ c'.clock = c.clock ∧ c'.calls = c.calls + 2 ∧
      c'.tables = { c.tables with
        gL1DLTTIReq := c.tables.gL1DLTTIReq.set (rowIndex (sfn % 4) slot)
          (stamp (c.tables.gL1DLTTIReq (sfn % 4) slot) 8 sfn slot) } ∧
      c'.log = c.log ++ [.sent fapiDlTtiRequest (rowMessage fapiDlTtiRequest
        (c.tables.gL1DLTTIReq (sfn % 4) slot)
          (c.tables.gL1DlttiReqSize (sfn % 4) slot) sfn slot)] :=
  haccepts.finishes_sendTtiReq .dl hsfn hslot hgen hroom hmin hfits

/-- `sendUlTTIReq` in generator mode. -/
theorem Accepts.finishes_sendUlTTIReq (haccepts : Accepts env room) {sfn slot : ℕ}
    (hsfn : sfn < 1024)
    (hslot : slot < 160) (hgen : c.ctx.runMode = .fapiGenerator) (hroom : room ≤ 4294967296)
    (hmin : 8 ≤ room)
    (hfits : c.tables.gL1UlttiReqSize (sfn % 4) slot < room) :
    Finishes (sendUlTTIReq env sfn slot) c fun _ c' =>
      c'.ctx = c.ctx ∧ c'.clock = c.clock ∧ c'.calls = c.calls + 2 ∧
      c'.tables = { c.tables with
        gL1ULTTI := c.tables.gL1ULTTI.set (rowIndex (sfn % 4) slot)
          (stamp (c.tables.gL1ULTTI (sfn % 4) slot) 8 sfn slot) } ∧
      c'.log = c.log ++ [.sent fapiUlTtiRequest (rowMessage fapiUlTtiRequest
        (c.tables.gL1ULTTI (sfn % 4) slot)
          (c.tables.gL1UlttiReqSize (sfn % 4) slot) sfn slot)] :=
  haccepts.finishes_sendTtiReq .ul hsfn hslot hgen hroom hmin hfits

/-- The walk of a row of the TX_DATA table, with the frame number and the slot in front. -/
def txWalk (src : PayloadSource) (row : Mem) (sfn slot calls : ℕ) : ℕ × TxWalk :=
  walkPdus src 8 (rd16 row 12) offsetofPdus (stamp row 8 sfn slot) calls

/-- The message of a row of the TX_DATA table. -/
def txMessage (src : PayloadSource) (row : Mem) (sfn slot calls : ℕ) : List UInt8 :=
  l1Message fapiTxDataRequest (txWalk src row sfn slot calls).1
    (slice (stamp row 8 sfn slot) 8 offsetofPdus ++ (txWalk src row sfn slot calls).2.copied)

/-- The length of the TX_DATA message of a row. -/
def txLength (row : Mem) : ℕ := pduEnd row 8 (rd16 row 12) offsetofPdus + sizeofL1GeneralMsgHdr

/-- The stamp touches the first four bytes of the body only. -/
theorem rd16_stamp {row : Mem} {sfn slot : ℕ} : rd16 (stamp row 8 sfn slot) (8 + 4) = rd16 row 12 :=
  rd16_congr fun _ ha _ => stamp_of_not_mem (.inr ha)

theorem pduEnd_stamp {row : Mem} {sfn slot numPDUs : ℕ} :
    pduEnd (stamp row 8 sfn slot) 8 numPDUs offsetofPdus = pduEnd row 8 numPDUs offsetofPdus :=
  pduEnd_congr fun a ha => stamp_of_not_mem (.inr (by simp [offsetofPdus] at ha; omega))

/-- A walk of a row gives a message of the announced length, and keeps that length. -/
theorem txWalk_spec {src : PayloadSource} {row : Mem} {sfn slot calls : ℕ}
    (h : txLength row < 4294967296) :
    (txWalk src row sfn slot calls).1 + sizeofL1GeneralMsgHdr = txLength row ∧
    (txMessage src row sfn slot calls).length = txLength row ∧
    txLength (txWalk src row sfn slot calls).2.row = txLength row := by
  have hhdr : sizeofL1GeneralMsgHdr = 8 := rfl
  have hoff : offsetofPdus = 8 := rfl
  unfold txLength at h
  have hwraps : pduEnd (stamp row 8 sfn slot) 8 (rd16 row 12) offsetofPdus < 4294967296 := by
    rw [pduEnd_stamp]
    omega
  obtain ⟨hend, hbefore, hannounced, hcopied⟩ : (txWalk src row sfn slot calls).1 = _ ∧ _ :=
    walkPdus_spec hwraps
  rw [pduEnd_stamp] at hend hannounced hcopied
  have hle : offsetofPdus ≤ pduEnd row 8 (rd16 row 12) offsetofPdus := le_pduEnd
  refine ⟨by rw [hend, txLength], ?_, ?_⟩
  · have hwalk : (txWalk src row sfn slot calls).2.copied.length =
      pduEnd row 8 (rd16 row 12) offsetofPdus - offsetofPdus := hcopied
    simp only [txMessage, txLength, l1Message, List.length_append, leBytes_length,
      slice_length, hwalk]
    omega
  · -- the number of the PDUs stands before the first of them
    have hnum : rd16 (txWalk src row sfn slot calls).2.row 12 = rd16 row 12 := by
      refine rd16_congr fun a ha ha' => ?_
      have hstamp : stamp row 8 sfn slot a = row a := stamp_of_not_mem (.inr ha)
      rw [← hstamp]
      exact hbefore a (by omega)
    rw [txLength, hnum]
    exact congrArg (· + sizeofL1GeneralMsgHdr) hannounced

/-- `sendTxdataReq` in generator mode, for the slot in the registers. -/
theorem Accepts.finishes_sendTxdataReq (haccepts : Accepts env room) {sfn slot : ℕ}
    (hsfn : sfn < 1024) (hslot : slot < 160) (hgen : c.ctx.runMode = .fapiGenerator)
    (hrfn : c.clock.gMacTxRfn = sfn) (hmacslot : c.clock.gMacTxSlot = slot)
    (hroom : room ≤ 4294967296) (hmin : 8 ≤ room)
    (hfits : txLength (c.tables.gL1TXDATAREQ (sfn % 4) slot) < room) :
    Finishes (sendTxdataReq env sfn slot) c fun _ c' =>
      let row := c.tables.gL1TXDATAREQ (sfn % 4) slot
      let walk := txWalk (c.payloads env) row sfn slot (c.calls + 1)
      c'.ctx = c.ctx ∧ c'.clock = c.clock ∧
      c'.tables = { c.tables with
        gL1TXDATAREQ := c.tables.gL1TXDATAREQ.set (rowIndex (sfn % 4) slot) walk.2.row } ∧
      c'.log = c.log ++ walk.2.events ++
        [.sent fapiTxDataRequest (txMessage (c.payloads env) row sfn slot (c.calls + 1))] := by
  obtain ⟨r, halloc, hr⟩ := haccepts.alloc c.calls
  obtain ⟨hend, hlength, -⟩ :
    (txWalk (c.payloads env) (c.tables.gL1TXDATAREQ (sfn % 4) slot) sfn slot
    (c.calls + 1)).1 + _ = _ ∧ _ := txWalk_spec (hfits.trans_le hroom)
  simp only [sendTxdataReq, finishes_bind, finishes_allocL1CtrlMsgMem, halloc, finishes_read,
    finishes_rowAt, finishes_txdataParams, sfnWindow_eq, id]
  refine ⟨rfl, by simp [sizeofL1GeneralMsgHdr]; omega, ?_⟩
  have hsrc : ∀ us, ((c.allocated r).used us).payloads env = c.payloads env := fun _ => rfl
  simp only [Option.getD_some, allocated_ctx, hgen, if_true, hsrc, used_clock, allocated_clock,
    hrfn, hmacslot, used_tables, allocated_tables, SlotTable.rows_rowIndex, rd16_stamp, used_calls,
    allocated_calls]
  have hwalk : walkPdus (c.payloads env) 8 (rd16 (c.tables.gL1TXDATAREQ (sfn % 4) slot) 12)
      offsetofPdus (stamp (c.tables.gL1TXDATAREQ (sfn % 4) slot) 8 sfn slot) (c.calls + 1) =
    txWalk (c.payloads env) (c.tables.gL1TXDATAREQ (sfn % 4) slot) sfn slot (c.calls + 1) := rfl
  rw [hwalk]
  refine (haccepts.finishes_request hsfn hslot (by decide) ?_ rfl ?_).mono ?_
  · rw [hend, Nat.mod_eq_of_lt (hfits.trans_le hroom)]
    exact hfits
  · exact hr
  · intro _ c' hc'
    obtain ⟨hctx, hclock, htables, -, hlog⟩ := hc'
    refine ⟨hctx, hclock, htables, ?_⟩
    rw [hend, Nat.mod_eq_of_lt (hfits.trans_le hroom)] at hlog
    rw [hlog]
    exact congrArg (fun bytes => _ ++ [CellEvent.sent fapiTxDataRequest bytes])
      (List.take_of_length_le hlength.le)

/-- The DL_TTI request of a slot. -/
def dlttiOf (c : Cell) (gsfn : SlotIndication) : List UInt8 :=
  rowMessage fapiDlTtiRequest (c.tables.gL1DLTTIReq (gsfn.SFN % 4) gsfn.Slot)
    (c.tables.gL1DlttiReqSize (gsfn.SFN % 4) gsfn.Slot) gsfn.SFN gsfn.Slot

/-- The UL_TTI request of a slot. -/
def ulttiOf (c : Cell) (gsfn : SlotIndication) : List UInt8 :=
  rowMessage fapiUlTtiRequest (c.tables.gL1ULTTI (gsfn.SFN % 4) gsfn.Slot)
    (c.tables.gL1UlttiReqSize (gsfn.SFN % 4) gsfn.Slot) gsfn.SFN gsfn.Slot

/-- The walk for the TX_DATA request of a slot. The driver has been called eight times
for the slot before. -/
def txWalkOf (env : Env) (c : Cell) (gsfn : SlotIndication) : ℕ × TxWalk :=
  txWalk ⟨env, c.ctx.pdschMode, gsfn⟩ (c.tables.gL1TXDATAREQ (gsfn.SFN % 4) gsfn.Slot) gsfn.SFN
    gsfn.Slot (c.calls + 8)

/-- The TX_DATA request of a slot. -/
def txdataOf (env : Env) (c : Cell) (gsfn : SlotIndication) : List UInt8 :=
  txMessage ⟨env, c.ctx.pdschMode, gsfn⟩ (c.tables.gL1TXDATAREQ (gsfn.SFN % 4) gsfn.Slot) gsfn.SFN
    gsfn.Slot (c.calls + 8)

/-- The log of one slot, from the rows of this slot. -/
def slotSends (env : Env) (c : Cell) (gsfn : SlotIndication) : List CellEvent :=
  [.ttiTx gsfn.SFN gsfn.Slot, .sent fapiDlTtiRequest (dlttiOf c gsfn),
    .sent fapiUlTtiRequest (ulttiOf c gsfn)] ++ (txWalkOf env c gsfn).2.events ++
    [.sent fapiTxDataRequest (txdataOf env c gsfn)]

/-- The tables after a slot: the rows of the slot are stamped, and the offsets of the
data written into the TX_DATA row. -/
def slotTables (env : Env) (c : Cell) (gsfn : SlotIndication) : TcTables :=
  let i := gsfn.SFN % 4
  let j := gsfn.Slot
  { c.tables with
    gL1DLTTIReq :=
      c.tables.gL1DLTTIReq.set (rowIndex i j) (stamp (c.tables.gL1DLTTIReq i j) 8 gsfn.SFN j)
    gL1ULTTI := c.tables.gL1ULTTI.set (rowIndex i j) (stamp (c.tables.gL1ULTTI i j) 8 gsfn.SFN j)
    gL1TXDATAREQ := c.tables.gL1TXDATAREQ.set (rowIndex i j) (txWalkOf env c gsfn).2.row }

/-- All three requests are enabled. -/
structure Env.Enabled (env : Env) : Prop where
  dltti : env.macTxEnable.dlttiTxEnable = 1
  ultti : env.macTxEnable.ulttiTxEnable = 1
  txdata : env.macTxEnable.txdataTxEnble = 1

/-- The messages of a row fit into the room of the driver. -/
def RowFits (room : ℕ) (t : TcTables) (i j : ℕ) : Prop :=
  t.gL1DlttiReqSize i j < room ∧ t.gL1UlttiReqSize i j < room ∧ txLength (t.gL1TXDATAREQ i j) < room

/-- `macSchedule` in generator mode, with the registers set to the slot. -/
theorem Accepts.finishes_macSchedule (haccepts : Accepts env room) (henabled : env.Enabled)
    (hroom : room ≤ 4294967296) (hmin : 32 < room) {gsfn : SlotIndication}
    (hsfn : gsfn.SFN < 1024) (hslot : gsfn.Slot < 160) (hgen : c.ctx.runMode = .fapiGenerator)
    (hsch : c.ctx.schState ≠ .schStop) (hgsfn : c.clock.gL2TxGSfn = gsfn)
    (hrfn : c.clock.gMacTxRfn = gsfn.SFN) (hmacslot : c.clock.gMacTxSlot = gsfn.Slot)
    (hfits : RowFits room c.tables (gsfn.SFN % 4) gsfn.Slot) :
    Finishes (macSchedule env gsfn.SFN gsfn.Slot) c fun _ c' =>
      c'.ctx = c.ctx ∧ c'.clock = c.clock ∧ c'.tables = slotTables env c gsfn ∧
      c'.log = c.log ++ slotSends env c gsfn := by
  obtain ⟨hfitsDl, hfitsUl, hfitsTx⟩ := hfits
  obtain ⟨r, halloc, hr⟩ := haccepts.alloc (c.calls + 1)
  simp only [macSchedule, finishes_bind, finishes_read, finishes_ite, hsch, logEvent,
    finishes_update, not_false_eq_true, true_implies, false_implies, true_and, macTtiTx]
  rw [finishes_l1MsgProc (haccepts.start _)]
  simp only [finishes_setL1CtrlMsgGrpHeader, called_calls, halloc, finishes_bind, finishes_when,
    henabled.dltti, henabled.ultti, henabled.txdata, not_true_eq_false, false_implies, and_true,
    true_implies]
  refine ⟨rfl, by simp; omega, ?_⟩
  set c₀ := Cell.headed ((some r).getD 0)
    { c with log := c.log ++ [CellEvent.ttiTx gsfn.SFN gsfn.Slot] }.called with hc₀
  have hgen₀ : c₀.ctx.runMode = .fapiGenerator := hgen
  refine (haccepts.finishes_sendDlTTIReq hsfn hslot hgen₀ hroom (by omega) hfitsDl).mono ?_
  rintro _ c₁ ⟨hctx₁, hclock₁, hcalls₁, htables₁, hlog₁⟩
  have hgen₁ : c₁.ctx.runMode = .fapiGenerator := by
    rw [hctx₁]
    exact hgen
  refine (haccepts.finishes_sendUlTTIReq hsfn hslot hgen₁ hroom (by omega)
    (by rw [htables₁]; exact hfitsUl)).mono ?_
  rintro _ c₂ ⟨hctx₂, hclock₂, hcalls₂, htables₂, hlog₂⟩
  have hctx : c₂.ctx = c.ctx := hctx₂.trans hctx₁
  have hclock : c₂.clock = c.clock := hclock₂.trans hclock₁
  have hcalls : c₂.calls + 1 = c.calls + 8 := by
    rw [hcalls₂, hcalls₁]
    rfl
  have hsrc : c₂.payloads env = ⟨env, c.ctx.pdschMode, gsfn⟩ := by
    rw [Cell.payloads, hctx, hclock, hgsfn]
  refine (haccepts.finishes_sendTxdataReq hsfn hslot (by rw [hctx]; exact hgen)
    (by rw [hclock]; exact hrfn) (by rw [hclock]; exact hmacslot) hroom (by omega)
    (by rw [htables₂, htables₁]; exact hfitsTx)).mono ?_
  rintro _ c₃ ⟨hctx₃, hclock₃, htables₃, hlog₃⟩
  rw [hsrc, hcalls] at htables₃ hlog₃
  refine ⟨hctx₃.trans hctx, hclock₃.trans hclock, ?_, ?_⟩
  · rw [called_tables, htables₃, htables₂, htables₁]
    rfl
  · rw [called_log, hlog₃, hlog₂, hlog₁, htables₂, htables₁]
    simp [slotSends, dlttiOf, ulttiOf, txWalkOf, txdataOf, hc₀]

end TestMac

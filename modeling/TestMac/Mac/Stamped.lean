import TestMac.Mac.EntryRequests
import TestMac.Mac.LoadSteps
import TestMac.Mac.RowSizes

/-!
# The slot in front of a request

A sender is called with a slot, by a command or by a slot indication that schedules one. The
DL_TTI and UL_TTI requests are stamped with the slot they are called with, the TX_DATA request
with the slot in the registers, which only a slot indication sets. In every run in which the
registers hold the slot of a command, and no entry is too short, every request is the entry of
the slot its sender is called with.
-/

namespace TestMac

open Bytes Act

/-- The slot that the senders are called with. -/
def Cell.calledWith (env : Env) (c : Cell) : CellInput → Option SlotIndication
  | .tcDlCase sfn slot => some ⟨sfn % 65536, slot % 256⟩
  | .tcUlCase sfn slot => some ⟨sfn % 65536, slot % 256⟩
  | .tcTxCase sfn slot => some ⟨sfn % 65536, slot % 256⟩
  | .slotIndication slotInd =>
    if c.Schedules then
      some ⟨(preparedSlot env c slotInd).SFN, (preparedSlot env c slotInd).Slot % 256⟩
    else none
  | _ => none

/-- The three requests for a slot. -/
def slotRequests : List ℕ := [fapiDlTtiRequest, fapiUlTtiRequest, fapiTxDataRequest]

/-- Every request for a slot is the entry of the slot that its sender is called with. -/
def SendsEntries (env : Env) (c : Cell) (i : CellInput) (c' : Cell) : Prop :=
  ∃ es, c'.log = c.log ++ es ∧ ∀ msgId bytes, .sent msgId bytes ∈ es → msgId ∈ slotRequests →
    ∃ gsfn, c.calledWith env i = some gsfn ∧
      (gsfn.Slot < 20 → EntryRequest env c.tables gsfn msgId bytes)

/-- The entry of a slot holds the frame number and the slot. -/
def HoldsDlSlot (t : TcTables) (gsfn : SlotIndication) : Prop :=
  12 ≤ t.gL1DlttiReqSize (gsfn.SFN % 4) gsfn.Slot

/-- The entry of a slot holds the frame number and the slot. -/
def HoldsUlSlot (t : TcTables) (gsfn : SlotIndication) : Prop :=
  12 ≤ t.gL1UlttiReqSize (gsfn.SFN % 4) gsfn.Slot

/-- The TX_DATA request of a slot has a length. -/
def HasTxLength (t : TcTables) (gsfn : SlotIndication) : Prop :=
  txLength (t.gL1TXDATAREQ (gsfn.SFN % 4) gsfn.Slot) < 4294967296

/-- The entries of a slot are fit to be sent by the senders that are called with it. For a
TX_DATA command the registers have to hold the slot. -/
def EntriesFit (env : Env) (c : Cell) (gsfn : SlotIndication) : CellInput → Prop
  | .tcDlCase _ _ => HoldsDlSlot c.tables gsfn
  | .tcUlCase _ _ => HoldsUlSlot c.tables gsfn
  | .tcTxCase _ _ => HasTxLength c.tables gsfn ∧
      c.clock.gMacTxRfn = gsfn.SFN ∧ c.clock.gMacTxSlot = gsfn.Slot
  | .slotIndication _ => (env.macTxEnable.dlttiTxEnable = 1 → HoldsDlSlot c.tables gsfn) ∧
      (env.macTxEnable.ulttiTxEnable = 1 → HoldsUlSlot c.tables gsfn) ∧
      (env.macTxEnable.txdataTxEnble = 1 → HasTxLength c.tables gsfn)
  | _ => True

/-- The recorded sizes are 32-bit numbers. -/
def TcTables.Sized (t : TcTables) : Prop :=
  ∀ i j, t.gL1DlttiReqSize i j < 4294967296 ∧ t.gL1UlttiReqSize i j < 4294967296

variable {env : Env} {t : TcTables} {gsfn : SlotIndication} {c c' : Cell} {sfn slot : ℕ}

section Sized

variable {w : World} {m m' : Mac} {is : List Input} {dev cell : ℕ}

/-- A size of 32 bits stays one, whatever is loaded. -/
theorem run_rowSize_lt (hrun : Steps (Handles w) m is m') (r : TtiReq) {i j : ℕ}
    (h : r.sizes (m.cells dev cell).tables i j < 4294967296) :
    r.sizes (m'.cells dev cell).tables i j < 4294967296 := by
  rw [sizes_cell] at h ⊢
  -- a file of as many bytes stands for the first size
  have hfile : (m.cells.sizes r).rows (firstRow dev cell + rowIndex i j) = recordedSize
      (some (List.replicate ((m.cells.sizes r).rows (firstRow dev cell + rowIndex i j)) 0)) := by
    rw [recordedSize, List.length_replicate]
    exact (Nat.mod_eq_of_lt h).symm
  rw [(run_sameLoads hrun).sizes r]
  have hsize : ((loadCells w.env (is.filterMap (Input.load w)) m.cells).sizes r).rows
      (firstRow dev cell + rowIndex i j) = recordedSize _ := loadCells_sizes _ hfile
  exact hsize.trans_lt (recordedSize_lt _)

/-- In every state of a run the recorded sizes are 32-bit numbers, when they are at first. -/
theorem run_sized (hrun : Steps (Handles w) m is m') (h : (m.cells dev cell).tables.Sized) :
    (m'.cells dev cell).tables.Sized := fun i j =>
  ⟨run_rowSize_lt hrun .dl (h i j).1, run_rowSize_lt hrun .ul (h i j).2⟩

end Sized

section Senders

/-- A message appended to what has been sent. -/
theorem SendsEntry.appended {accepted : Bool} {msgId len : ℕ} {bytes : List UInt8}
    (h : SendsEntry env t gsfn c c')
    (hentry : EntryRequest env t gsfn msgId (bytes.take (c'.lenWith len))) :
    SendsEntry env t gsfn c (c'.appended accepted msgId bytes len) := by
  apply h.trans
  cases accepted with
  | false => exact SendsEntry.of_log_eq rfl
  | true =>
    refine ⟨[.sent msgId (bytes.take (c'.lenWith len))], rfl, ?_⟩
    intro msgId' bytes' hmem
    obtain ⟨rfl, rfl⟩ := CellEvent.sent.inj (List.mem_singleton.mp hmem)
    exact hentry

/-- The data that goes with a request is no request. -/
theorem SendsEntry.walked {src : PayloadSource} {base numPDUs offset calls p : ℕ} {row : Mem} :
    SendsEntry env t gsfn c
      (c.walked p (walkPdus src base numPDUs offset row calls).2) := by
  refine ⟨_, rfl, ?_⟩
  intro msgId bytes hmem
  rw [← mem_requests, requests_walkPdus] at hmem
  exact absurd hmem List.not_mem_nil

/-- A message appended to memory that has been taken for it is sent up to its length. -/
theorem lenWith_taken {c₁ : Cell} {size : ℕ} (hlen : c₁.phyCtrlMsgCtxt.curMsgLen = 0)
    (h : size < 4294967296) :
    c₁.lenWith ((sub32 size 8 + sizeofL1GeneralMsgHdr) % 4294967296) = size := by
  rw [sub32_eight h, Cell.lenWith, hlen, Nat.zero_add, Nat.mod_eq_of_lt h]

/-- The request of a row is the entry of the slot in front of it. -/
theorem TtiReq.entryRequest (r : TtiReq) {bytes : List UInt8}
    (h : bytes = rowRequest r.msgId (r.rows t (gsfn.SFN % 4) gsfn.Slot)
      (r.sizes t (gsfn.SFN % 4) gsfn.Slot) gsfn) : EntryRequest env t gsfn r.msgId bytes := by
  cases r with
  | dl => exact ⟨fun _ => h, fun hid => absurd hid (by decide), fun hid => absurd hid (by decide)⟩
  | ul => exact ⟨fun hid => absurd hid (by decide), fun _ => h, fun hid => absurd hid (by decide)⟩

/-- The sender of a row sends the entry of the slot it is called with. -/
theorem TtiReq.sendsEntry_send (r : TtiReq) (hgen : c.ctx.runMode = .fapiGenerator)
    (hrow : r.rows c.tables = r.rows t) (hrowSize : r.sizes c.tables = r.sizes t)
    (hsize : r.sizes t (gsfn.SFN % 4) gsfn.Slot < 4294967296)
    (hholds : 12 ≤ r.sizes t (gsfn.SFN % 4) gsfn.Slot) :
    Ensures (r.send env gsfn.SFN gsfn.Slot) c fun _ c' => SendsEntry env t gsfn c c' ∧
      c'.ctx = c.ctx ∧ c'.clock = c.clock ∧ ∃ rows, c'.tables = r.withRows c.tables rows := by
  simp only [TtiReq.send, ensures_bind, ensures_allocL1CtrlMsgMem, ensures_rowAt, ensures_read,
    ensures_ite, setTables, ensures_update, ensures_appendL1Msg, sfnWindow_eq]
  intro _ _
  constructor
  · intro _ _ _ _ _
    refine ⟨(SendsEntry.of_log_eq rfl).appended ?_, rfl, rfl, _, rfl⟩
    simp only [id, used_tables, allocated_tables, hrow, hrowSize, SlotTable.rows_rowIndex]
    rw [lenWith_taken rfl hsize]
    exact r.entryRequest (take_rowMessage hholds hsize)
  · intro hmode
    exact absurd hgen hmode

/-- `sendDlTTIReq` sends the entry of the slot it is called with. -/
theorem sendsEntry_sendDlTTIReq (hgen : c.ctx.runMode = .fapiGenerator)
    (hrow : c.tables.gL1DLTTIReq = t.gL1DLTTIReq)
    (hrowSize : c.tables.gL1DlttiReqSize = t.gL1DlttiReqSize) (hsized : t.Sized)
    (hholds : HoldsDlSlot t gsfn) :
    Ensures (sendDlTTIReq env gsfn.SFN gsfn.Slot) c fun _ c' => SendsEntry env t gsfn c c' ∧
      c'.ctx = c.ctx ∧ c'.clock = c.clock ∧
      ∃ table, c'.tables = { c.tables with gL1DLTTIReq := table } :=
  TtiReq.dl.sendsEntry_send hgen hrow hrowSize (hsized _ _).1 hholds

/-- `sendUlTTIReq` sends the entry of the slot it is called with. -/
theorem sendsEntry_sendUlTTIReq (hgen : c.ctx.runMode = .fapiGenerator)
    (hrow : c.tables.gL1ULTTI = t.gL1ULTTI)
    (hrowSize : c.tables.gL1UlttiReqSize = t.gL1UlttiReqSize) (hsized : t.Sized)
    (hholds : HoldsUlSlot t gsfn) :
    Ensures (sendUlTTIReq env gsfn.SFN gsfn.Slot) c fun _ c' => SendsEntry env t gsfn c c' ∧
      c'.ctx = c.ctx ∧ c'.clock = c.clock ∧
      ∃ table, c'.tables = { c.tables with gL1ULTTI := table } :=
  TtiReq.ul.sendsEntry_send hgen hrow hrowSize (hsized _ _).2 hholds

/-- `sendTxdataReq` sends the entry of the slot it is called with, when that is the slot in the
registers. -/
theorem sendsEntry_sendTxdataReq (t : TcTables) (gsfn : SlotIndication)
    (hgen : c.ctx.runMode = .fapiGenerator)
    (hrow : c.tables.gL1TXDATAREQ = t.gL1TXDATAREQ) (hlength : HasTxLength t gsfn)
    (hrfn : c.clock.gMacTxRfn = gsfn.SFN) (hslot : c.clock.gMacTxSlot = gsfn.Slot) :
    Ensures (sendTxdataReq env gsfn.SFN gsfn.Slot) c fun _ c' => SendsEntry env t gsfn c c' := by
  simp only [sendTxdataReq, ensures_bind, ensures_allocL1CtrlMsgMem, ensures_rowAt, ensures_read]
  intro _ _
  refine Finishes.ensures (finishes_txdataParams.mpr ?_)
  simp only [id, allocated_ctx, hgen, if_true, used_tables, allocated_tables, used_clock,
    allocated_clock, used_calls, allocated_calls, hrfn, hslot, rd16_stamp, sfnWindow_eq, hrow,
    SlotTable.rows_rowIndex]
  set room := (env.pcxxCtrlAlloc c.calls).getD 0 with hroom
  set c₁ : Cell := (c.allocated room).used [.row (gsfn.SFN % 4) gsfn.Slot] with hc₁
  set src := c₁.payloads env with hsrc
  set row := t.gL1TXDATAREQ (gsfn.SFN % 4) gsfn.Slot with hrow'
  obtain ⟨hend, hlen, -⟩ : (txWalk src row gsfn.SFN gsfn.Slot (c.calls + 1)).1 + _ = _ ∧ _ :=
    txWalk_spec hlength
  rw [ensures_appendL1Msg]
  intro _ _ _ _
  have hwalked : SendsEntry env t gsfn c (c₁.walked (rowIndex (gsfn.SFN % 4) gsfn.Slot)
      (txWalk src row gsfn.SFN gsfn.Slot (c.calls + 1)).2) :=
    SendsEntry.trans (SendsEntry.of_log_eq rfl) SendsEntry.walked
  refine hwalked.appended ?_
  have hwhole : ∀ c₂ : Cell, c₂.phyCtrlMsgCtxt.curMsgLen = 0 →
      (txMessage src row gsfn.SFN gsfn.Slot (c.calls + 1)).take (c₂.lenWith
        (((txWalk src row gsfn.SFN gsfn.Slot (c.calls + 1)).1 + sizeofL1GeneralMsgHdr) %
          4294967296)) = txMessage src row gsfn.SFN gsfn.Slot (c.calls + 1) := by
    intro c₂ hstart
    rw [Cell.lenWith, hstart, Nat.zero_add, Nat.mod_mod, hend, Nat.mod_eq_of_lt hlength]
    exact List.take_of_length_le hlen.le
  constructor
  · intro h
    exact absurd h (by decide)
  · intro h
    exact absurd h (by decide)
  · intro _
    have hrequest : TxRequestOf src.env row gsfn
        (txMessage src row gsfn.SFN gsfn.Slot (c.calls + 1)) := txRequestOf_walk hlength
    have hcut := hwhole (c₁.walked (rowIndex (gsfn.SFN % 4) gsfn.Slot)
      (txWalk src row gsfn.SFN gsfn.Slot (c.calls + 1)).2) rfl
    rw [← hcut] at hrequest
    exact hrequest

/-- A group of messages that are all entries of the slot. -/
theorem sendsEntry_group (t : TcTables) (gsfn : SlotIndication) {body : CellM Unit}
    (h : ∀ c₁ : Cell, c₁.ctx = c.ctx → c₁.clock = c.clock → c₁.tables = c.tables →
      Ensures body c₁ fun _ c' => SendsEntry env t gsfn c₁ c') :
    Ensures (l1MsgProc env body) c fun _ c' => SendsEntry env t gsfn c c' := by
  rw [ensures_l1MsgProc]
  constructor
  · intro _
    rw [ensures_setL1CtrlMsgGrpHeader]
    intro _ _
    exact h _ rfl rfl rfl
  · intro _
    exact SendsEntry.of_log_eq rfl

end Senders

section Handlers

/-- `macTtiTx` sends entries of the slot it is called with, when that is the slot in the
registers. -/
theorem sendsEntry_macTtiTx (hgen : c.ctx.runMode = .fapiGenerator) (hsized : c.tables.Sized)
    (hdl : env.macTxEnable.dlttiTxEnable = 1 → HoldsDlSlot c.tables gsfn)
    (hul : env.macTxEnable.ulttiTxEnable = 1 → HoldsUlSlot c.tables gsfn)
    (htx : env.macTxEnable.txdataTxEnble = 1 → HasTxLength c.tables gsfn)
    (hrfn : c.clock.gMacTxRfn = gsfn.SFN) (hslot : c.clock.gMacTxSlot = gsfn.Slot) :
    Ensures (macTtiTx env gsfn.SFN gsfn.Slot) c fun _ c' =>
      SendsEntry env c.tables gsfn c c' := by
  apply sendsEntry_group c.tables gsfn
  intro c₁ hctx₁ hclock₁ htables₁
  rw [ensures_bind]
  have hfirst : Ensures (when (env.macTxEnable.dlttiTxEnable = 1)
      (sendDlTTIReq env gsfn.SFN gsfn.Slot)) c₁ fun _ c₂ => SendsEntry env c.tables gsfn c₁ c₂ ∧
        c₂.ctx = c.ctx ∧ c₂.clock = c.clock ∧
        ∃ table, c₂.tables = { c.tables with gL1DLTTIReq := table } := by
    rw [ensures_when, ← hctx₁, ← hclock₁, ← htables₁]
    rw [← htables₁] at hsized hdl
    constructor
    · intro henable
      exact sendsEntry_sendDlTTIReq (hctx₁ ▸ hgen) rfl rfl hsized (hdl henable)
    · intro _
      exact ⟨SendsEntry.of_log_eq rfl, rfl, rfl, _, rfl⟩
  refine hfirst.mono ?_
  rintro _ c₂ ⟨hsent₂, hctx₂, hclock₂, dltti, htables₂⟩
  rw [ensures_bind]
  have hsecond : Ensures (when (env.macTxEnable.ulttiTxEnable = 1)
      (sendUlTTIReq env gsfn.SFN gsfn.Slot)) c₂ fun _ c₃ => SendsEntry env c.tables gsfn c₂ c₃ ∧
        c₃.ctx = c.ctx ∧ c₃.clock = c.clock ∧ c₃.tables.gL1TXDATAREQ = c.tables.gL1TXDATAREQ := by
    rw [ensures_when]
    constructor
    · intro henable
      refine (sendsEntry_sendUlTTIReq (hctx₂ ▸ hgen) (by rw [htables₂]) (by rw [htables₂]) hsized
        (hul henable)).mono ?_
      rintro _ c₃ ⟨hsent₃, hctx₃, hclock₃, ultti, htables₃⟩
      exact ⟨hsent₃, hctx₃.trans hctx₂, hclock₃.trans hclock₂, by rw [htables₃, htables₂]⟩
    · intro _
      exact ⟨SendsEntry.of_log_eq rfl, hctx₂, hclock₂, by rw [htables₂]⟩
  refine hsecond.mono ?_
  rintro _ c₃ ⟨hsent₃, hctx₃, hclock₃, htables₃⟩
  rw [ensures_when]
  constructor
  · intro henable
    refine (sendsEntry_sendTxdataReq c.tables gsfn (hctx₃ ▸ hgen) htables₃ (htx henable)
      (hclock₃ ▸ hrfn) (hclock₃ ▸ hslot)).mono ?_
    intro _ c₄ hsent₄
    exact (hsent₂.trans hsent₃).trans hsent₄
  · intro _
    exact hsent₂.trans hsent₃

/-- `macSchedule` sends entries of the slot in the registers. -/
theorem sendsEntry_macSchedule (hgen : c.ctx.runMode = .fapiGenerator) (hsized : c.tables.Sized)
    (hdl : env.macTxEnable.dlttiTxEnable = 1 → HoldsDlSlot c.tables gsfn)
    (hul : env.macTxEnable.ulttiTxEnable = 1 → HoldsUlSlot c.tables gsfn)
    (htx : env.macTxEnable.txdataTxEnble = 1 → HasTxLength c.tables gsfn)
    (hrfn : c.clock.gMacTxRfn = gsfn.SFN) (hslot : c.clock.gMacTxSlot = gsfn.Slot) :
    Ensures (macSchedule env gsfn.SFN gsfn.Slot) c fun _ c' =>
      SendsEntry env c.tables gsfn c c' := by
  rw [macSchedule, ensures_bind, ensures_read, ensures_ite]
  constructor
  · intro _
    exact ensures_pure.mpr (SendsEntry.of_log_eq rfl)
  · intro _
    rw [ensures_bind, logEvent, ensures_update]
    set c₁ : Cell := { c with log := c.log ++ [.ttiTx gsfn.SFN gsfn.Slot] } with hc₁
    have hfirst : SendsEntry env c.tables gsfn c c₁ := by
      refine ⟨[.ttiTx gsfn.SFN gsfn.Slot], rfl, ?_⟩
      intro msgId bytes hmem
      exact absurd (List.mem_singleton.mp hmem) CellEvent.noConfusion
    have hgen₁ : c₁.ctx.runMode = .fapiGenerator := hgen
    refine (sendsEntry_macTtiTx hgen₁ hsized hdl hul htx hrfn hslot).mono ?_
    intro _ c' hsent
    exact hfirst.trans hsent

/-- The end of `macTxStartIndHandle` sends entries of the slot that is prepared. -/
theorem sendsEntry_prepareSlot (hgen : c.ctx.runMode = .fapiGenerator) (hsized : c.tables.Sized)
    {slotInd : SlotIndication}
    (hgsfn : gsfn = ⟨(preparedSlot env c slotInd).SFN, (preparedSlot env c slotInd).Slot % 256⟩)
    (hfit : EntriesFit env c gsfn (.slotIndication slotInd)) :
    Ensures (prepareSlot env slotInd) c fun _ c' => SendsEntry env c.tables gsfn c c' := by
  obtain ⟨hdl, hul, htx⟩ := hfit
  apply ensures_prepareSlot_of
  set c₁ : Cell := { c with
    clock := c.clock.prepared (gsfnMask env c.tables.gcurrentScs) slotInd } with hc₁
  have hgen₁ : c₁.ctx.runMode = .fapiGenerator := hgen
  have hrfn : c₁.clock.gMacTxRfn = gsfn.SFN := by rw [hgsfn]; rfl
  have hslot : c₁.clock.gMacTxSlot = gsfn.Slot := by rw [hgsfn]; rfl
  have hsends : Ensures (macSchedule env gsfn.SFN gsfn.Slot) c₁ fun _ c' =>
      SendsEntry env c.tables gsfn c₁ c' :=
    sendsEntry_macSchedule hgen₁ hsized hdl hul htx hrfn hslot
  rw [hgsfn] at hsends ⊢
  exact hsends

/-- A slot indication that schedules a slot sends entries of this slot. -/
theorem sendsEntry_slotIndication (hgen : c.ctx.runMode = .fapiGenerator) (hsized : c.tables.Sized)
    {slotInd : SlotIndication} (hsch : c.Schedules)
    (hgsfn : gsfn = ⟨(preparedSlot env c slotInd).SFN, (preparedSlot env c slotInd).Slot % 256⟩)
    (hfit : EntriesFit env c gsfn (.slotIndication slotInd)) :
    Ensures (slotIndication env slotInd) c fun _ c' => SendsEntry env c.tables gsfn c c' := by
  apply ensures_slotIndication_of
  case hactivated => exact fun c' hsent => hsent.trans (SendsEntry.of_log_eq rfl)
  case hwaits => exact fun c₁ h hactive => absurd (h.control ▸ hsch.1) hactive
  case hstops => exact fun c₁ h _ hover => absurd (h.control ▸ hover) hsch.2.1
  case hprepares =>
    intro c₁ h _ _
    have htables : c₁.tables = c.tables := h.tables_eq
    obtain ⟨state, schState, clock, hc₁⟩ := h.cell
    have hlog : c₁.log = c.log := by rw [hc₁]
    have hgen₁ : c₁.ctx.runMode = .fapiGenerator := by rwa [hc₁]
    have hfit₁ : EntriesFit env c₁ gsfn (.slotIndication slotInd) := by
      unfold EntriesFit at hfit ⊢
      rwa [htables]
    rw [← h.preparedSlot_eq env slotInd] at hgsfn
    refine (sendsEntry_prepareSlot hgen₁ (htables ▸ hsized) hgsfn hfit₁).mono ?_
    intro _ c' hsent
    rw [htables] at hsent
    exact SendsEntry.trans (SendsEntry.of_log_eq hlog) hsent

end Handlers

section Inputs

/-- The event says nothing of a request for a slot. -/
def ControlEvent.NoSlotRequest : ControlEvent → Prop
  | .requests msgIds => ∀ msgId ∈ msgIds, msgId ∉ slotRequests
  | .scheduled => True
  | .event e => ∀ msgId bytes, e ≠ .sent msgId bytes

/-- The other requests are none for a slot. -/
@[simp] theorem paramRequest_not_mem : fapiParamRequest ∉ slotRequests := by decide

@[simp] theorem configRequest_not_mem : fapiConfigRequest ∉ slotRequests := by decide

@[simp] theorem startRequest_not_mem : fapiStartRequest ∉ slotRequests := by decide

@[simp] theorem stopRequest_not_mem : fapiStopRequest ∉ slotRequests := by decide

theorem noSlotRequest_cfgTrace (s : Control) (errorCode : ℕ) :
    ∀ e ∈ s.cfgTrace errorCode, e.NoSlotRequest := by
  unfold Control.cfgTrace
  split_ifs <;> simp [ControlEvent.NoSlotRequest]

theorem noSlotRequest_configTrace (s : Control) : ∀ e ∈ s.configTrace, e.NoSlotRequest := by
  intro e he
  rcases List.mem_cons.mp he with rfl | he
  · simp [ControlEvent.NoSlotRequest]
  · split_ifs at he
    · exact noSlotRequest_cfgTrace s 0 e he
    · exact absurd he List.not_mem_nil

theorem noSlotRequest_switchTrace (s : Control) {first : List ControlEvent}
    (hfirst : ∀ e ∈ first, e.NoSlotRequest) : ∀ e ∈ s.switchTrace first, e.NoSlotRequest := by
  unfold Control.switchTrace
  split_ifs
  · simp [ControlEvent.NoSlotRequest]
  · simp [ControlEvent.NoSlotRequest]
  · intro e he
    rcases List.mem_append.mp he with he | he
    · exact hfirst e he
    · exact noSlotRequest_configTrace s e he

/-- What can be seen of an input that no sender is called for. -/
theorem noSlotRequest_trace {i : CellInput} (h : c.calledWith env i = none) :
    ∀ e ∈ c.control.trace i, e.NoSlotRequest := by
  cases i with
  | tcConfigCase => simp [Control.trace, ControlEvent.NoSlotRequest]
  | tcDlCase sfn slot => exact absurd h (Option.some_ne_none _)
  | tcUlCase sfn slot => exact absurd h (Option.some_ne_none _)
  | tcTxCase sfn slot => exact absurd h (Option.some_ne_none _)
  | txCase files => exact noSlotRequest_switchTrace _ (by simp)
  | tcStop => simp [Control.trace, ControlEvent.NoSlotRequest]
  | startTest => exact noSlotRequest_switchTrace _ (by simp [ControlEvent.NoSlotRequest])
  | cfgResponse errorCode => exact noSlotRequest_cfgTrace _ errorCode
  | errorIndication messageId errorCode => simp [Control.trace, ControlEvent.NoSlotRequest]
  | stopIndication =>
    intro e he
    rcases List.mem_cons.mp he with rfl | he
    · simp [ControlEvent.NoSlotRequest]
    · split_ifs at he
      · exact absurd he List.not_mem_nil
      · exact noSlotRequest_configTrace _ e he
  | slotIndication slotInd =>
    have hsch : ¬ c.Schedules := by
      intro hsch
      rw [Cell.calledWith, if_pos hsch] at h
      exact absurd h (Option.some_ne_none _)
    rw [Control.trace, Control.slotTrace]
    split_ifs with hactive hover hstop
    · simp
    · simp [ControlEvent.NoSlotRequest]
    · simp
    · exact absurd ⟨not_not.mp hactive, hover, hstop⟩ hsch

/-- Events that fit such a trace. -/
theorem Traces.noSlotRequest {tr : List ControlEvent} {es : List CellEvent} (h : Traces tr es)
    (htr : ∀ e ∈ tr, e.NoSlotRequest) {msgId : ℕ} {bytes : List UInt8}
    (hmem : .sent msgId bytes ∈ es) : msgId ∉ slotRequests := by
  induction h with
  | nil => exact absurd hmem List.not_mem_nil
  | requests hes _ ih =>
    rcases List.mem_append.mp hmem with hmem | hmem
    · exact htr _ List.mem_cons_self msgId (hes _ hmem)
    · exact ih (fun e he => htr e (List.mem_cons_of_mem _ he)) hmem
  | scheduled _ ih =>
    rcases List.mem_cons.mp hmem with hmem | hmem
    · exact absurd hmem CellEvent.noConfusion
    · exact ih (fun e he => htr e (List.mem_cons_of_mem _ he)) hmem
  | event _ ih =>
    rcases List.mem_cons.mp hmem with rfl | hmem
    · exact absurd rfl (htr _ List.mem_cons_self msgId bytes)
    · exact ih (fun e he => htr e (List.mem_cons_of_mem _ he)) hmem

theorem SendsEntry.sendsEntries {i : CellInput} (h : SendsEntry env c.tables gsfn c c')
    (hcalled : c.calledWith env i = some gsfn) : SendsEntries env c i c' := by
  obtain ⟨es, hlog, hes⟩ := h
  exact ⟨es, hlog, fun msgId bytes hmem _ => ⟨gsfn, hcalled, fun _ => hes msgId bytes hmem⟩⟩

/-- The senders that an input calls send entries of the slot they are called with, when the
entries are fit for it. -/
theorem sendsEntry_cellAction (hgen : c.ctx.runMode = .fapiGenerator) (hsized : c.tables.Sized)
    {i : CellInput} (hcalled : c.calledWith env i = some gsfn) (hfit : EntriesFit env c gsfn i) :
    Ensures (cellAction env i) c fun _ c' => SendsEntry env c.tables gsfn c c' := by
  cases i with
  | tcDlCase sfn slot =>
    obtain rfl := Option.some.inj hcalled
    rw [cellAction, tcDlCase, ensures_bind, setClock, ensures_update]
    refine (sendsEntry_group c.tables ⟨sfn % 65536, slot % 256⟩ ?_).mono ?_
    · intro c₁ hctx _ htables
      refine (sendsEntry_sendDlTTIReq (hctx ▸ hgen) (by rw [htables]) (by rw [htables])
        hsized hfit).mono ?_
      intro _ c' hsent
      exact hsent.1
    · intro _ c' hsent
      exact hsent
  | tcUlCase sfn slot =>
    obtain rfl := Option.some.inj hcalled
    rw [cellAction, tcUlCase, ensures_bind, setClock, ensures_update]
    refine (sendsEntry_group c.tables ⟨sfn % 65536, slot % 256⟩ ?_).mono ?_
    · intro c₁ hctx _ htables
      refine (sendsEntry_sendUlTTIReq (hctx ▸ hgen) (by rw [htables]) (by rw [htables])
        hsized hfit).mono ?_
      intro _ c' hsent
      exact hsent.1
    · intro _ c' hsent
      exact hsent
  | tcTxCase sfn slot =>
    obtain rfl := Option.some.inj hcalled
    obtain ⟨hlength, hrfn, hslot⟩ := hfit
    rw [cellAction, tcTxCase, ensures_bind, setClock, ensures_update]
    refine (sendsEntry_group c.tables ⟨sfn % 65536, slot % 256⟩ ?_).mono ?_
    · intro c₁ hctx hclock htables
      have hrfn₁ : c₁.clock.gMacTxRfn = sfn % 65536 := by
        rw [hclock]
        exact hrfn
      have hslot₁ : c₁.clock.gMacTxSlot = slot % 256 := by
        rw [hclock]
        exact hslot
      exact sendsEntry_sendTxdataReq c.tables ⟨sfn % 65536, slot % 256⟩
        (hctx ▸ hgen) (by rw [htables]) hlength hrfn₁ hslot₁
    · intro _ c' hsent
      exact hsent
  | slotIndication slotInd =>
    obtain ⟨hsch, hgsfn⟩ := Option.ite_none_right_eq_some.mp hcalled
    exact sendsEntry_slotIndication hgen hsized hsch (Option.some.inj hgsfn).symm hfit
  | _ => exact absurd hcalled (Option.some_ne_none _).symm

/-- The entries are fit for the slot that an input calls the senders with. -/
def CellFit (env : Env) (c : Cell) (i : CellInput) : Prop :=
  ∀ gsfn, c.calledWith env i = some gsfn → gsfn.Slot < 20 → EntriesFit env c gsfn i

/-- In generator mode every request for a slot is an entry, when the entries are fit for it. -/
theorem sendsEntries_cellAction (hgen : c.ctx.runMode = .fapiGenerator) (hsized : c.tables.Sized)
    {i : CellInput} (hfit : CellFit env c i) :
    Ensures (cellAction env i) c fun _ c' => SendsEntries env c i c' := by
  cases hcalled : c.calledWith env i with
  | none =>
    refine (moves_cellAction i c).mono ?_
    rintro _ c' ⟨-, es, hlog, htraces⟩
    refine ⟨es, hlog, fun msgId bytes hmem hreq => ?_⟩
    exact absurd hreq (htraces.noSlotRequest (noSlotRequest_trace hcalled) hmem)
  | some gsfn =>
    by_cases hslot : gsfn.Slot < 20
    · refine (sendsEntry_cellAction hgen hsized hcalled (hfit gsfn hcalled hslot)).mono ?_
      intro _ c' hsent
      exact hsent.sendsEntries hcalled
    · refine (moves_cellAction i c).mono ?_
      rintro _ c' ⟨-, es, hlog, -⟩
      exact ⟨es, hlog, fun _ _ _ _ => ⟨gsfn, hcalled, fun h => absurd h hslot⟩⟩

end Inputs

section Runs

variable {w : World} {dev cell : ℕ} {m m' : Mac} {is : List Input}

/-- The entries of a cell are fit for what reaches it in generator mode. -/
def StepFit (w : World) (dev cell : ℕ) (m : Mac) (i : Input) : Prop :=
  (m.cells dev cell).ctx.runMode = .fapiGenerator →
    ∀ ci, i.atCell w m.cellNum dev cell = some ci →
      CellFit (w.env dev cell) (m.cells dev cell) ci

/-- In generator mode every request for a slot that a cell sends is the entry of the slot its
sender is called with. -/
def StepSendsEntries (w : World) (dev cell : ℕ) (m : Mac) (i : Input) : Prop :=
  (m.cells dev cell).ctx.runMode = .fapiGenerator → ∀ m', Handles w m i m' →
    (i.atCell w m.cellNum dev cell = none ∧
      (m'.cells dev cell).log = (m.cells dev cell).log) ∨
    ∃ ci, i.atCell w m.cellNum dev cell = some ci ∧
      SendsEntries (w.env dev cell) (m.cells dev cell) ci (m'.cells dev cell)

/-- In every run whose commands for TX_DATA requests ask for the slot in the registers, and
whose entries hold a slot, every request for a slot is the entry of the slot that its sender
is called with, with this slot in front. -/
theorem run_sends_entries (w : World) (dev cell : ℕ) (m : Mac) (is : List Input)
    (hsized : (m.cells dev cell).tables.Sized)
    (hmeets : Steps.Meets (Handles w) (StepFit w dev cell) m is) :
    Steps.Meets (Handles w) (StepSendsEntries w dev cell) m is := by
  intro js i ks m₁ hsplit hpath hgen m₂ hstep
  have hfit := hmeets js i ks m₁ hsplit hpath hgen
  have hsized₁ : (m₁.cells dev cell).tables.Sized := run_sized hpath hsized
  have hcell := hstep.atCell dev cell
  cases hat : i.atCell w m₁.cellNum dev cell with
  | none =>
    rw [hat] at hcell
    exact .inl ⟨rfl, own_log hcell⟩
  | some ci =>
    rw [hat] at hcell
    exact .inr ⟨ci, rfl, sendsEntries_cellAction hgen hsized₁ (hfit ci hat) () _ hcell⟩

end Runs

section Example

/-- The command to send the TX_DATA request of a slot of frame 0. -/
def transmitSlot (slot : ℕ) : Input := .appMsg ⟨appTcTxCase, 0, slot, 0, 0⟩

theorem atCell_transmitSlot {w : World} {n slot : ℕ} :
    (transmitSlot slot).atCell w n 0 0 = some (.tcTxCase 0 slot) := rfl

section Decidable

instance (t : TcTables) (gsfn : SlotIndication) : Decidable (HoldsDlSlot t gsfn) :=
  inferInstanceAs (Decidable (_ ≤ _))

instance (t : TcTables) (gsfn : SlotIndication) : Decidable (HoldsUlSlot t gsfn) :=
  inferInstanceAs (Decidable (_ ≤ _))

instance (t : TcTables) (gsfn : SlotIndication) : Decidable (HasTxLength t gsfn) :=
  inferInstanceAs (Decidable (_ < _))

instance (env : Env) (c : Cell) (gsfn : SlotIndication) :
    ∀ i : CellInput, Decidable (EntriesFit env c gsfn i)
  | .tcDlCase _ _ => inferInstanceAs (Decidable (HoldsDlSlot _ _))
  | .tcUlCase _ _ => inferInstanceAs (Decidable (HoldsUlSlot _ _))
  | .tcTxCase _ _ => inferInstanceAs (Decidable (HasTxLength _ _ ∧ _))
  | .slotIndication _ => inferInstanceAs (Decidable ((_ → _) ∧ (_ → _) ∧ (_ → _)))
  | .tcConfigCase | .txCase _ | .tcStop | .startTest | .cfgResponse _ | .errorIndication _ _
  | .stopIndication => .isTrue trivial

instance (env : Env) (c : Cell) (i : CellInput) : Decidable (CellFit env c i) :=
  inferInstanceAs (Decidable
    (∀ gsfn ∈ c.calledWith env i, gsfn.Slot < 20 → EntriesFit env c gsfn i))

instance (w : World) (dev cell : ℕ) (m : Mac) (i : Input) : Decidable (StepFit w dev cell m i) :=
  inferInstanceAs (Decidable (_ → ∀ ci ∈ i.atCell w m.cellNum dev cell,
    CellFit (w.env dev cell) (m.cells dev cell) ci))

end Decidable

/-- A test case of a 30 kHz cell with files for slot 5 of frame 2. -/
def slotFiveFiles : TcFiles := fun file =>
  if file = .config then some (List.replicate 42 0 ++ [1, 0])
  else if file = .dltti 2 5 then some (List.replicate 16 1)
  else if file = .ultti 2 5 then some (List.replicate 20 2)
  else if file = .txdata 2 5 then some (List.replicate 16 0)
  else none

def slotFiveWorld : World := { readyWorld with files := fun _ _ => slotFiveFiles }

/-- The test case is loaded and the cell started, and a slot indication schedules slot 5, which
the commands behind it ask for again. -/
def slotFiveInputs : List Input :=
  [.appMsg ⟨appTxCase, 1, 0, 0, 0⟩, .cfgResponse 0 0 0, .slotIndication 0 0 ⟨2, 3⟩,
    .appMsg ⟨appTcDlCase, 2, 5, 0, 0⟩, .appMsg ⟨appTcUlCase, 2, 5, 0, 0⟩,
    .appMsg ⟨appTcTxCase, 2, 5, 0, 0⟩]

/-- Behind the configuration and the start, six requests of slot 5 are sent, its entries. -/
theorem run_sends_entries_five :
    ∃ m', Steps (Handles slotFiveWorld) (restingMac .auto 0) slotFiveInputs m' ∧
      (requests (m'.cells 0 0).log).map Prod.fst =
        [fapiConfigRequest, fapiStartRequest] ++ slotRequests ++ slotRequests ∧
      Steps.Meets (Handles slotFiveWorld) (StepSendsEntries slotFiveWorld 0 0)
        (restingMac .auto 0) slotFiveInputs := by
  have hruns : (runInputs slotFiveWorld (StepFit slotFiveWorld 0 0) (restingMac .auto 0)
      slotFiveInputs).map (fun m' => (requests (m'.cells 0 0).log).map Prod.fst) =
        some ([fapiConfigRequest, fapiStartRequest] ++ slotRequests ++ slotRequests) := by
    decide +kernel
  obtain ⟨m', hm', hids⟩ := Option.map_eq_some_iff.mp hruns
  obtain ⟨hrun, hfit⟩ := path_of_runInputs hm'
  have hempty : 0 < 4294967296 := by decide
  exact ⟨m', hrun, hids, run_sends_entries slotFiveWorld 0 0 _ _ (fun _ _ => ⟨hempty, hempty⟩) hfit⟩

/-- For the slot 3 the request goes out with the slot 0 of the registers in front. -/
theorem transmitSlot_not_stamped : (restingMac .auto 0).Initial ∧
    ∃ m', Handles readyWorld (restingMac .auto 0) (transmitSlot 3) m' ∧
      ¬ StepSendsEntries readyWorld 0 0 (restingMac .auto 0) (transmitSlot 3) := by
  have hfirst : (handle readyWorld (transmitSlot 3) (restingMac .auto 0)).map (fun r =>
      (r.2.cells 0 0).log) = some [.sent fapiTxDataRequest
        (l1Message fapiTxDataRequest 8 [0, 0, 0, 0, 0, 0, 0, 0])] := by
    decide +kernel
  obtain ⟨⟨⟨⟩, m'⟩, hm', hlog⟩ := Option.map_eq_some_iff.mp hfirst
  refine ⟨restingMac_initial .auto 0, m', hm', ?_⟩
  intro hsends
  rcases hsends rfl m' hm' with ⟨hnone, -⟩ | ⟨ci, hat, es, hes, hentries⟩
  · rw [atCell_transmitSlot] at hnone
    exact absurd hnone (Option.some_ne_none _)
  · rw [atCell_transmitSlot] at hat
    obtain rfl := Option.some.inj hat
    have hlog' : es = [.sent fapiTxDataRequest
        (l1Message fapiTxDataRequest 8 [0, 0, 0, 0, 0, 0, 0, 0])] := hes.symm.trans hlog
    obtain ⟨gsfn, hcalled, hentry⟩ := hentries fapiTxDataRequest _
      (hlog' ▸ List.mem_singleton_self _) (by decide)
    obtain rfl := Option.some.inj hcalled
    obtain ⟨pdus, -, hbytes⟩ := (hentry (by decide)).txdata rfl
    have hslot := congrArg (fun bytes => bytes[10]?) hbytes
    simp [l1Message, leBytes] at hslot

end Example

end TestMac

import TestMac.Mac.Generator
import TestMac.Mac.Handling

/-!
# Transmissions of the TX_DATA table

What a test case in generator mode sends depends on a part of a cell that most inputs
keep. A command for one slot, and a slot indication that schedules the slot two ahead,
transmit one row of the table. Which row, and with which calls to the driver, is known
before the input is handled.
-/

namespace TestMac

open Bytes Act

/-- `pcxxDataSend` is called. -/
def CellEvent.isData : CellEvent → Bool
  | .dataSent _ _ => true
  | _ => false

/-- The part of a cell that the data of a test case depends on, and the data sent. -/
structure TxState where
  gL1TXDATAREQ : SlotTable Mem
  gcurrentScs : ℕ
  runMode : TestMacRunMode
  pdschMode : TestMacPdschMode
  data : List CellEvent

/-- This part of a cell. -/
def Cell.txState (c : Cell) : TxState where
  gL1TXDATAREQ := c.tables.gL1TXDATAREQ
  gcurrentScs := c.tables.gcurrentScs
  runMode := c.ctx.runMode
  pdschMode := c.ctx.pdschMode
  data := c.log.filter CellEvent.isData

/-- What is known of a transmission before it is made: the registers, and the number of
the first call of `pcxxDataAlloc`. -/
structure Transmission where
  gL2TxGSfn : SlotIndication
  gMacTxRfn : ℕ
  gMacTxSlot : ℕ
  calls : ℕ

namespace Transmission

/-- The frame of the row that is transmitted. -/
def frame (x : Transmission) : ℕ := sfnWindow x.gL2TxGSfn.SFN

/-- The slot of the row that is transmitted. -/
def slot (x : Transmission) : ℕ := x.gL2TxGSfn.Slot % 256

end Transmission

/-- The walk of the row that is transmitted. -/
def TxState.walk (env : Env) (s : TxState) (x : Transmission) : TxWalk :=
  (txWalk ⟨env, s.pdschMode, x.gL2TxGSfn⟩ (s.gL1TXDATAREQ x.frame x.slot) x.gMacTxRfn x.gMacTxSlot
    x.calls).2

/-- The state after a transmission, if there is one. -/
def TxState.after (env : Env) (s : TxState) : Option Transmission → TxState
  | none => s
  | some x =>
    { s with
      gL1TXDATAREQ := s.gL1TXDATAREQ.set (rowIndex x.frame x.slot) (s.walk env x).row
      data := s.data ++ (s.walk env x).events.filter CellEvent.isData }

@[simp] theorem after_none {env : Env} {s : TxState} : s.after env none = s := rfl

@[simp]
theorem after_gL1TXDATAREQ {env : Env} {s : TxState} {x : Transmission} :
    (s.after env (some x)).gL1TXDATAREQ =
      s.gL1TXDATAREQ.set (rowIndex x.frame x.slot) (s.walk env x).row :=
  rfl

@[simp]
theorem after_data {env : Env} {s : TxState} {x : Transmission} :
    (s.after env (some x)).data = s.data ++ (s.walk env x).events.filter CellEvent.isData :=
  rfl

theorem after_modes {env : Env} {s : TxState} {x : Option Transmission} :
    (s.after env x).runMode = s.runMode ∧ (s.after env x).pdschMode = s.pdschMode := by
  cases x with
  | none => exact ⟨rfl, rfl⟩
  | some x => exact ⟨rfl, rfl⟩

/-- The calls for a request in front of the TX_DATA request, if it is enabled. -/
def requestCalls (enable : ℕ) : ℕ := if enable = 1 then 2 else 0

/-- What an input transmits, given a cell in generator mode. Three calls of the driver
start a group of messages, and one more takes memory for the request. -/
def Cell.transmission (env : Env) (c : Cell) : CellInput → Option Transmission
  | .tcTxCase sfn slot =>
    if env.pcxxSendStart c.calls = true then
      some ⟨⟨sfn % 65536, slot % 65536⟩, c.clock.gMacTxRfn, c.clock.gMacTxSlot, c.calls + 4⟩
    else none
  | .slotIndication slotInd =>
    if c.Schedules ∧ env.pcxxSendStart c.calls = true ∧ env.macTxEnable.txdataTxEnble = 1 then
      let tx := preparedSlot env c slotInd
      some ⟨tx, tx.SFN, tx.Slot % 256, c.calls + requestCalls env.macTxEnable.dlttiTxEnable +
        requestCalls env.macTxEnable.ulttiTxEnable + 4⟩
    else none
  | _ => none

variable {env : Env} {c : Cell}

/-- Requests are no data, and sending them leaves the TX_DATA table alone. -/
theorem txState_sending (ids : List ℕ) :
    Sending ids (fun c c' => c'.txState = c.txState) where
  refl _ := rfl
  trans h h' := h'.trans h
  calls _ _ := rfl
  ctxt _ _ := rfl
  sent c msgId bytes _ := by simp [Cell.txState, CellEvent.isData]

theorem txState_sendTtiReq (r : TtiReq) (sfn slot : ℕ) :
    Keeps Cell.txState (r.send env sfn slot) := by
  refine (txState_sending [_]).sendTtiReq (fun _ _ => rfl) (List.mem_singleton_self _) ?_
  intro c rows
  cases r with
  | dl => rfl
  | ul => rfl

/-- So do the handlers. -/
theorem txState_handling : Handling (fun c c' => c'.txState = c.txState) where
  sending := txState_sending
  state _ _ := rfl
  schState _ _ := rfl
  clock _ _ := rfl
  event c e he := by
    have hdata : e.isData = false := by cases e <;> simp_all [CellEvent.isControl, CellEvent.isData]
    simp [Cell.txState, hdata]

/-- A request in front of the TX_DATA request takes two calls of the driver, if it is enabled. -/
theorem ensures_when_request {enable : ℕ} {x : CellM Unit} (hkeeps : Keeps Cell.txState x)
    (hx : Ensures x c fun _ c' => c'.clock = c.clock ∧ c'.calls = c.calls + 2) :
    Ensures (when (enable = 1) x) c fun _ c' => c'.txState = c.txState ∧ c'.clock = c.clock ∧
      c'.calls = c.calls + requestCalls enable := by
  rw [ensures_when]
  constructor
  · intro henable
    rw [requestCalls, if_pos henable]
    exact (hkeeps c).and hx
  · intro henable
    rw [requestCalls, if_neg henable]
    exact ⟨rfl, rfl, rfl⟩

/-- `sendTxdataReq` in generator mode is a transmission. -/
theorem ensures_sendTxdataReq (hgen : c.ctx.runMode = .fapiGenerator) {sfn slot : ℕ}
    {x : Transmission}
    (hx : x = ⟨c.clock.gL2TxGSfn, c.clock.gMacTxRfn, c.clock.gMacTxSlot, c.calls + 1⟩)
    (hframe : sfnWindow sfn = x.frame) (hslot : slot = x.slot) :
    Ensures (sendTxdataReq env sfn slot) c fun _ c' =>
      c'.txState = c.txState.after env (some x) := by
  subst hx
  simp only [sendTxdataReq, ensures_bind, ensures_allocL1CtrlMsgMem, ensures_rowAt, ensures_read,
    id, hframe, hslot]
  intro _ _
  refine Finishes.ensures (finishes_txdataParams.mpr ?_)
  refine Ensures.mono ((txState_sending [_]).appendL1Msg (List.mem_singleton_self _) _) ?_
  intro _ c' hkept
  have hsrc : ∀ room us, ((c.allocated room).used us).payloads env =
      ⟨env, c.ctx.pdschMode, c.clock.gL2TxGSfn⟩ := fun _ _ => rfl
  rw [hkept]
  simp only [allocated_ctx, hgen, if_true, used_tables, allocated_tables, used_clock,
    allocated_clock, used_calls, allocated_calls, hsrc, SlotTable.rows_rowIndex, rd16_stamp]
  simp [Cell.txState, Cell.walked, TxState.after, TxState.walk, txWalk]

/-- A group of messages: three calls of the driver are made before its first message. -/
theorem ensures_group {body : CellM Unit} {s : TxState}
    (h : ∀ c₁ : Cell, c₁.txState = c.txState → c₁.clock = c.clock → c₁.calls = c.calls + 3 →
      Ensures body c₁ fun _ c' => c'.txState = s) :
    Ensures (l1MsgProc env body) c fun _ c' =>
      c'.txState = if env.pcxxSendStart c.calls = true then s else c.txState := by
  rw [ensures_l1MsgProc]
  constructor
  · intro hstart
    rw [if_pos hstart, ensures_setL1CtrlMsgGrpHeader]
    intro _ _
    exact h _ rfl rfl rfl
  · intro hstart
    rw [if_neg hstart]
    rfl

/-- `macTtiTx` in generator mode transmits the row of the slot in the registers, if TX_DATA
requests are enabled. -/
theorem ensures_macTtiTx (hgen : c.ctx.runMode = .fapiGenerator) {sfn slot : ℕ} {x : Transmission}
    (hx : x = ⟨c.clock.gL2TxGSfn, c.clock.gMacTxRfn, c.clock.gMacTxSlot,
      c.calls + requestCalls env.macTxEnable.dlttiTxEnable +
        requestCalls env.macTxEnable.ulttiTxEnable + 4⟩)
    (hframe : sfnWindow sfn = x.frame) (hslot : slot = x.slot) :
    Ensures (macTtiTx env sfn slot) c fun _ c' => c'.txState = c.txState.after env
      (if env.pcxxSendStart c.calls = true ∧ env.macTxEnable.txdataTxEnble = 1 then some x
        else none) := by
  have hbody : ∀ c₁ : Cell, c₁.txState = c.txState → c₁.clock = c.clock → c₁.calls = c.calls + 3 →
      Ensures (do
        when (env.macTxEnable.dlttiTxEnable = 1) (sendDlTTIReq env sfn slot)
        when (env.macTxEnable.ulttiTxEnable = 1) (sendUlTTIReq env sfn slot)
        when (env.macTxEnable.txdataTxEnble = 1) (sendTxdataReq env sfn slot)) c₁ fun _ c' =>
      c'.txState = c.txState.after env
        (if env.macTxEnable.txdataTxEnble = 1 then some x else none) := by
    intro c₁ htx₁ hclock₁ hcalls₁
    rw [ensures_bind]
    refine (ensures_when_request (txState_sendTtiReq .dl _ _)
      (TtiReq.dl.ensures_send_calls _ _)).mono ?_
    rintro _ c₂ ⟨htx₂, hclock₂, hcalls₂⟩
    rw [ensures_bind]
    refine (ensures_when_request (txState_sendTtiReq .ul _ _)
      (TtiReq.ul.ensures_send_calls _ _)).mono ?_
    rintro _ c₃ ⟨htx₃, hclock₃, hcalls₃⟩
    have htx : c₃.txState = c.txState := htx₃.trans (htx₂.trans htx₁)
    have hclock : c₃.clock = c.clock := hclock₃.trans (hclock₂.trans hclock₁)
    have hgen₃ : c₃.ctx.runMode = .fapiGenerator := (congrArg TxState.runMode htx).trans hgen
    rw [ensures_when, ← htx]
    constructor
    · intro henable
      rw [if_pos henable]
      refine ensures_sendTxdataReq hgen₃ ?_ hframe hslot
      rw [hx, hclock, Transmission.mk.injEq]
      exact ⟨rfl, rfl, rfl, by omega⟩
    · intro henable
      rw [if_neg henable]
      rfl
  refine (ensures_group hbody).mono ?_
  intro _ c' hc'
  rw [hc']
  by_cases hstart : env.pcxxSendStart c.calls = true
  · simp [hstart]
  · simp [hstart, TxState.after]

theorem ensures_tcTxCase (hgen : c.ctx.runMode = .fapiGenerator) (sfn slot : ℕ) :
    Ensures (tcTxCase env sfn slot) c fun _ c' =>
      c'.txState = c.txState.after env (c.transmission env (.tcTxCase sfn slot)) := by
  rw [tcTxCase, ensures_bind, setClock, ensures_update]
  refine (ensures_group (s := c.txState.after env (some ⟨⟨sfn % 65536, slot % 65536⟩,
    c.clock.gMacTxRfn, c.clock.gMacTxSlot, c.calls + 4⟩)) ?_).mono ?_
  · intro c₁ htx hclock hcalls
    have hgen₁ : c₁.ctx.runMode = .fapiGenerator := (congrArg TxState.runMode htx).trans hgen
    have hsame : c₁.txState = c.txState := htx
    rw [← hsame]
    refine ensures_sendTxdataReq hgen₁ ?_ rfl ?_
    · rw [hclock, hcalls]
    · exact (Nat.mod_mod_of_dvd slot (by decide : 256 ∣ 65536)).symm
  · intro _ c' hc'
    rw [hc', Cell.transmission]
    split_ifs
    · rfl
    · rfl

/-- `macSchedule` transmits the slot in the registers, unless the scheduler has been stopped. -/
theorem ensures_macSchedule (hgen : c.ctx.runMode = .fapiGenerator) {tx : SlotIndication}
    (hgsfn : c.clock.gL2TxGSfn = tx) (hrfn : c.clock.gMacTxRfn = tx.SFN)
    (hslot : c.clock.gMacTxSlot = tx.Slot % 256) :
    Ensures (macSchedule env tx.SFN (tx.Slot % 256)) c fun _ c' => c'.txState = c.txState.after env
      (if c.ctx.schState ≠ .schStop ∧ env.pcxxSendStart c.calls = true ∧
          env.macTxEnable.txdataTxEnble = 1 then
        some ⟨tx, tx.SFN, tx.Slot % 256, c.calls + requestCalls env.macTxEnable.dlttiTxEnable +
          requestCalls env.macTxEnable.ulttiTxEnable + 4⟩
      else none) := by
  rw [macSchedule, ensures_bind, ensures_read, ensures_ite]
  constructor
  · intro hstop
    rw [if_neg fun h => h.1 hstop]
    exact ensures_pure.mpr rfl
  · intro hstop
    rw [ensures_bind, logEvent, ensures_update]
    set c₁ : Cell := { c with log := c.log ++ [.ttiTx tx.SFN (tx.Slot % 256)] } with hc₁
    have htx : c₁.txState = c.txState := by simp [hc₁, Cell.txState, CellEvent.isData]
    have hx : (⟨tx, tx.SFN, tx.Slot % 256, c.calls + requestCalls env.macTxEnable.dlttiTxEnable +
          requestCalls env.macTxEnable.ulttiTxEnable + 4⟩ : Transmission) =
        ⟨c₁.clock.gL2TxGSfn, c₁.clock.gMacTxRfn, c₁.clock.gMacTxSlot,
          c₁.calls + requestCalls env.macTxEnable.dlttiTxEnable +
            requestCalls env.macTxEnable.ulttiTxEnable + 4⟩ := by
      have hclock : c₁.clock = c.clock := rfl
      rw [hclock, hgsfn, hrfn, hslot]
    have hgen₁ : c₁.ctx.runMode = .fapiGenerator := hgen
    refine (ensures_macTtiTx hgen₁ hx rfl rfl).mono ?_
    intro _ c' hc'
    rw [hc', htx]
    simp only [hstop, ne_eq, not_false_eq_true, true_and]
    rfl

/-- The end of `macTxStartIndHandle` transmits the slot that is prepared, unless the scheduler
has been stopped. -/
theorem ensures_prepareSlot (hgen : c.ctx.runMode = .fapiGenerator) (slotInd : SlotIndication) :
    Ensures (prepareSlot env slotInd) c fun _ c' => c'.txState = c.txState.after env
      (if c.ctx.schState ≠ .schStop ∧ env.pcxxSendStart c.calls = true ∧
          env.macTxEnable.txdataTxEnble = 1 then
        some ⟨preparedSlot env c slotInd, (preparedSlot env c slotInd).SFN,
          (preparedSlot env c slotInd).Slot % 256,
          c.calls + requestCalls env.macTxEnable.dlttiTxEnable +
            requestCalls env.macTxEnable.ulttiTxEnable + 4⟩
      else none) := by
  apply ensures_prepareSlot_of
  set c₁ : Cell := { c with
    clock := c.clock.prepared (gsfnMask env c.tables.gcurrentScs) slotInd } with hc₁
  have hgen₁ : c₁.ctx.runMode = .fapiGenerator := hgen
  have hgsfn : c₁.clock.gL2TxGSfn = preparedSlot env c slotInd := rfl
  exact ensures_macSchedule hgen₁ hgsfn rfl rfl

/-- A slot indication transmits what is known of it before. -/
theorem ensures_slotIndication (hgen : c.ctx.runMode = .fapiGenerator) (slotInd : SlotIndication) :
    Ensures (slotIndication env slotInd) c fun _ c' =>
      c'.txState = c.txState.after env (c.transmission env (.slotIndication slotInd)) := by
  have hstarts : ∀ {c₁ : Cell}, c.Starts c₁ → c₁.txState = c.txState ∧ c₁.calls = c.calls := by
    intro c₁ h
    obtain ⟨_, _, _, hc₁⟩ := h.cell
    rw [hc₁]
    exact ⟨rfl, rfl⟩
  rw [Cell.transmission]
  apply ensures_slotIndication_of
  case hactivated => exact fun c' hc' => hc'
  case hwaits =>
    intro c₁ h hactive
    rw [if_neg fun hsends => hactive (by rw [h.control]; exact hsends.1.1)]
    exact (hstarts h).1
  case hstops =>
    intro c₁ h _ hover
    have hkeeps : Keeps Cell.txState (do
        sendPhyStopReq env
        setSchState .schStop
        setClock nextTti) :=
      txState_handling.bind (txState_handling.sendHeaderOnly _ _) fun _ =>
        txState_handling.bind (txState_handling.setSchState _) fun _ =>
          txState_handling.setClock _
    rw [if_neg fun hsends => hsends.1.2.1 (by rw [← h.control]; exact hover)]
    exact (hkeeps c₁).mono fun _ c' hc' => hc'.trans (hstarts h).1
  case hprepares =>
    intro c₁ h hactive hover
    obtain ⟨htx, hcalls⟩ := hstarts h
    have hgen₁ : c₁.ctx.runMode = .fapiGenerator := (congrArg TxState.runMode htx).trans hgen
    simp only [← htx, h.schedules_iff hactive hover, ← hcalls, ← h.preparedSlot_eq env slotInd]
    exact ensures_prepareSlot hgen₁ slotInd

/-- Every input that loads no test case transmits what is known of it before, and keeps
everything else that transmissions depend on. -/
theorem ensures_cellAction (hgen : c.ctx.runMode = .fapiGenerator) {i : CellInput}
    (hi : ∀ files, i ≠ .txCase files) :
    Ensures (cellAction env i) c fun _ c' =>
      c'.txState = c.txState.after env (c.transmission env i) := by
  cases i with
  | tcConfigCase => exact txState_handling.tcConfigCase c
  | tcDlCase sfn slot =>
    exact txState_handling.bind (txState_handling.setClock _)
      (fun _ => txState_handling.l1MsgProc (txState_sendTtiReq .dl _ _)) c
  | tcUlCase sfn slot =>
    exact txState_handling.bind (txState_handling.setClock _)
      (fun _ => txState_handling.l1MsgProc (txState_sendTtiReq .ul _ _)) c
  | tcTxCase sfn slot => exact ensures_tcTxCase hgen sfn slot
  | txCase files => exact absurd rfl (hi files)
  | tcStop => exact txState_handling.tcStop c
  | startTest => exact txState_handling.startTest c
  | cfgResponse errorCode => exact txState_handling.macRevCfgResonse errorCode c
  | errorIndication messageId errorCode =>
    exact txState_handling.macRevErrorIndication messageId errorCode c
  | stopIndication => exact txState_handling.macRevStopIndication c
  | slotIndication slotInd => exact ensures_slotIndication hgen slotInd

end TestMac

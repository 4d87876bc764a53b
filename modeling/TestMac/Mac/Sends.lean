import TestMac.Mac.Transmit

/-!
# What a group of messages leaves behind

The parts that every sender is made of, with the cell that each of them leaves. What
holds after a sender is computed backwards along it by these lemmas.
-/

namespace TestMac

open Bytes Act

variable {env : Env} {c : Cell}

/-- The cell after a call to the driver. -/
def Cell.called (c : Cell) : Cell := { c with calls := c.calls + 1 }

/-- The cell after memory for a message has been taken. -/
def Cell.allocated (room : ℕ) (c : Cell) : Cell :=
  { c.called with phyCtrlMsgCtxt := { c.phyCtrlMsgCtxt with curMsgLen := 0, maxRemLen := room } }

/-- The cell after the header of a group has been sent. -/
def Cell.headed (room : ℕ) (c : Cell) : Cell :=
  { c with
    calls := c.calls + 2
    phyCtrlMsgCtxt :=
      { msgNum := 0, curMsgLen := sizeofFapiMsgHdr, totalLen := sizeofFapiMsgHdr,
        maxRemLen := room } }

/-- The cell after subscripts have been applied. -/
def Cell.used (us : List TableUse) (c : Cell) : Cell := { c with uses := c.uses ++ us }

/-- The length of the message after some bytes have been appended. -/
def Cell.lenWith (len : ℕ) (c : Cell) : ℕ := (c.phyCtrlMsgCtxt.curMsgLen + len) % 4294967296

/-- The cell after a message has been appended, whether the driver accepts it or not. -/
def Cell.appended (accepted : Bool) (msgId : ℕ) (bytes : List UInt8) (len : ℕ) (c : Cell) : Cell :=
  { c with
    calls := c.calls + 1
    log := if accepted = true then c.log ++ [.sent msgId (bytes.take (c.lenWith len))] else c.log
    phyCtrlMsgCtxt :=
      { c.phyCtrlMsgCtxt with
        curMsgLen := c.lenWith len
        totalLen := (c.phyCtrlMsgCtxt.totalLen + len) % 4294967296
        msgNum := (c.phyCtrlMsgCtxt.msgNum + 1) % 256 } }

section Fields

variable {room msgId len : ℕ} {bytes : List UInt8} {accepted : Bool}

@[simp] theorem called_calls : c.called.calls = c.calls + 1 := rfl
@[simp] theorem called_log : c.called.log = c.log := rfl
@[simp] theorem called_ctx : c.called.ctx = c.ctx := rfl
@[simp] theorem called_clock : c.called.clock = c.clock := rfl
@[simp] theorem called_tables : c.called.tables = c.tables := rfl
@[simp] theorem called_uses : c.called.uses = c.uses := rfl
@[simp] theorem allocated_calls : (c.allocated room).calls = c.calls + 1 := rfl
@[simp] theorem allocated_log : (c.allocated room).log = c.log := rfl
@[simp] theorem allocated_ctx : (c.allocated room).ctx = c.ctx := rfl
@[simp] theorem allocated_clock : (c.allocated room).clock = c.clock := rfl
@[simp] theorem allocated_tables : (c.allocated room).tables = c.tables := rfl
@[simp] theorem allocated_uses : (c.allocated room).uses = c.uses := rfl
@[simp] theorem headed_calls : (c.headed room).calls = c.calls + 2 := rfl
@[simp] theorem headed_log : (c.headed room).log = c.log := rfl
@[simp] theorem headed_ctx : (c.headed room).ctx = c.ctx := rfl
@[simp] theorem headed_clock : (c.headed room).clock = c.clock := rfl
@[simp] theorem headed_tables : (c.headed room).tables = c.tables := rfl
@[simp] theorem headed_uses : (c.headed room).uses = c.uses := rfl

@[simp]
theorem appended_calls : (c.appended accepted msgId bytes len).calls = c.calls + 1 := rfl

@[simp]
theorem appended_ctx : (c.appended accepted msgId bytes len).ctx = c.ctx := rfl

@[simp]
theorem appended_clock : (c.appended accepted msgId bytes len).clock = c.clock := rfl

@[simp]
theorem appended_tables : (c.appended accepted msgId bytes len).tables = c.tables := rfl

@[simp]
theorem appended_uses : (c.appended accepted msgId bytes len).uses = c.uses := rfl

variable {us : List TableUse}

@[simp] theorem used_calls : (c.used us).calls = c.calls := rfl
@[simp] theorem used_log : (c.used us).log = c.log := rfl
@[simp] theorem used_ctx : (c.used us).ctx = c.ctx := rfl
@[simp] theorem used_clock : (c.used us).clock = c.clock := rfl
@[simp] theorem used_tables : (c.used us).tables = c.tables := rfl
@[simp] theorem used_phyCtrlMsgCtxt : (c.used us).phyCtrlMsgCtxt = c.phyCtrlMsgCtxt := rfl
@[simp] theorem used_uses : (c.used us).uses = c.uses ++ us := rfl

end Fields

@[simp]
theorem ensures_pcxx {α : Type} {answer : ℕ → α} {Q : α → Cell → Prop} :
    Ensures (pcxx answer) c Q ↔ Q (answer c.calls) c.called := by
  simp only [pcxx, ensures_bind, ensures_read, ensures_update, ensures_pure]
  rfl

@[simp]
theorem ensures_rowAt {sfn slot : ℕ} {Q : ℕ → Cell → Prop} :
    Ensures (rowAt sfn slot) c Q ↔ Q (rowIndex sfn slot) (c.used [.row sfn slot]) := by
  simp only [rowAt, useTable, ensures_bind, ensures_update, ensures_pure]
  rfl

variable {Q : Unit → Cell → Prop}

@[simp]
theorem ensures_useTable {u : TableUse} : Ensures (useTable u) c Q ↔ Q () (c.used [u]) :=
  ensures_update

theorem ensures_allocL1CtrlMsgMem {size : ℕ} :
    Ensures (allocL1CtrlMsgMem env size) c Q ↔
      ((env.pcxxCtrlAlloc c.calls).isSome = true → size ≤ (env.pcxxCtrlAlloc c.calls).getD 0 →
        Q () (c.allocated ((env.pcxxCtrlAlloc c.calls).getD 0))) := by
  simp only [allocL1CtrlMsgMem, ensures_bind, ensures_pcxx, ensures_assert, ensures_update]
  rfl

theorem ensures_setL1CtrlMsgGrpHeader :
    Ensures (setL1CtrlMsgGrpHeader env) c Q ↔
      ((env.pcxxCtrlAlloc c.calls).isSome = true → 32 < (env.pcxxCtrlAlloc c.calls).getD 0 →
        Q () (c.headed ((env.pcxxCtrlAlloc c.calls).getD 0))) := by
  simp only [setL1CtrlMsgGrpHeader, ensures_bind, ensures_pcxx, ensures_assert, ensures_update,
    ensures_pure]
  rfl

theorem ensures_appendL1MsgToList {msgId len sfn slot msgType : ℕ} {bytes : List UInt8} :
    Ensures (appendL1MsgToList env msgId bytes len sfn slot msgType) c Q ↔
      (sfn < 1024 → slot < 160 → msgType < 254 → c.lenWith len < c.phyCtrlMsgCtxt.maxRemLen →
        Q () (c.appended (env.pcxxCtrlSend c.calls) msgId bytes len)) := by
  simp only [appendL1MsgToList, ensures_bind, ensures_pcxx, ensures_assert, ensures_update,
    ensures_read, ensures_when, logEvent]
  cases h : env.pcxxCtrlSend c.calls with
  | true => simp [Cell.appended, Cell.called, Cell.lenWith]
  | false => simp [Cell.appended, Cell.called, Cell.lenWith]

theorem ensures_appendL1Msg {msgId msgSize sfn slot msgType : ℕ} {body : List UInt8} :
    Ensures (appendL1Msg env msgId msgSize body sfn slot msgType) c Q ↔
      (sfn < 1024 → slot < 160 → msgType < 254 →
        c.lenWith ((msgSize + sizeofL1GeneralMsgHdr) % 4294967296) < c.phyCtrlMsgCtxt.maxRemLen →
        Q () (c.appended (env.pcxxCtrlSend c.calls) msgId (l1Message msgId msgSize body)
          ((msgSize + sizeofL1GeneralMsgHdr) % 4294967296))) :=
  ensures_appendL1MsgToList

/-- A group: nothing happens when the driver refuses the start. -/
theorem ensures_l1MsgProc {body : CellM Unit} :
    Ensures (l1MsgProc env body) c Q ↔
      (env.pcxxSendStart c.calls = true →
        Ensures (setL1CtrlMsgGrpHeader env) c.called fun _ c₁ =>
          Ensures body c₁ fun _ c₂ => Q () c₂.called) ∧
      (¬ env.pcxxSendStart c.calls = true → Q () c.called) := by
  simp only [l1MsgProc, ensures_bind, ensures_pcxx, ensures_when, ensures_pure]

/-- What sending a configuration request adds to the log. -/
theorem ensures_sendPhyConfigReq_log :
    Ensures (sendPhyConfigReq env) c fun _ c' => ∃ bytes, c'.log = c.log ++
      if env.pcxxSendStart c.calls = true ∧ env.pcxxCtrlSend (c.calls + 4) = true then
        [.sent fapiConfigRequest bytes]
      else [] := by
  simp only [sendPhyConfigReq, ensures_l1MsgProc, ensures_setL1CtrlMsgGrpHeader, ensures_bind,
    ensures_allocL1CtrlMsgMem, ensures_read, ensures_ite, ensures_appendL1Msg, called_log,
    Cell.appended, headed_calls, allocated_calls, allocated_log, headed_log, called_calls]
  constructor
  · intro hstart _ _ _ _
    constructor
    all_goals
      intro _ _ _ _ _
      by_cases hsend : env.pcxxCtrlSend (c.calls + 4) = true
      · simp only [hstart, hsend, and_self, if_true]
        exact ⟨_, rfl⟩
      · simp [hstart, hsend]
  · intro hstart
    simp [hstart]

end TestMac

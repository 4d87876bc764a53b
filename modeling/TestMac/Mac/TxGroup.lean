import TestMac.Mac.Sends
import TestMac.Mac.Runs

/-!
# The header of a group of messages

A group is started, messages are appended to it, and it is ended. Its header counts
the messages that are appended and adds up their lengths, both as numbers of limited
width; the driver may refuse any of them.
-/

namespace TestMac

open Act

/-- A message to be appended: `len` is its length, `bytes` are in the memory taken. -/
structure TxMsg where
  msgId : ℕ
  bytes : List UInt8
  len : ℕ
  sfn : ℕ
  slot : ℕ
  msgType : ℕ

/-- What is done between the start and the end of a group. -/
inductive GroupOp
  | alloc (size : ℕ)
  | append (msg : TxMsg)

variable (env : Env)

def groupOp : GroupOp → CellM Unit
  | .alloc size => allocL1CtrlMsgMem env size
  | .append msg => appendL1MsgToList env msg.msgId msg.bytes msg.len msg.sfn msg.slot msg.msgType

/-- `START_L1_MSG_PROC`, any sequence of the two, and `END_L1_MSG_PROC`. -/
def txGroup (ops : List GroupOp) : CellM Unit := l1MsgProc env (forEach (groupOp env) ops)

/-- The lengths of the messages that the driver accepts, from a number of calls on. The driver
is given `curMsgLen`; that is the length of the message when memory was taken for it alone, as
every sender does. -/
def acceptedLens : ℕ → List GroupOp → List ℕ
  | _, [] => []
  | n, .alloc _ :: ops => acceptedLens (n + 1) ops
  | n, .append msg :: ops =>
    if env.pcxxCtrlSend n = true then msg.len :: acceptedLens (n + 1) ops
    else acceptedLens (n + 1) ops

/-- The lengths of the messages that the driver refuses. -/
def refusedLens : ℕ → List GroupOp → List ℕ
  | _, [] => []
  | n, .alloc _ :: ops => refusedLens (n + 1) ops
  | n, .append msg :: ops =>
    if env.pcxxCtrlSend n = true then refusedLens (n + 1) ops
    else msg.len :: refusedLens (n + 1) ops

variable {env} {c : Cell}

/-- The count and the length of the group after some more messages. -/
theorem ensures_groupOps {ops : List GroupOp} {c : Cell} (hnum : c.phyCtrlMsgCtxt.msgNum < 256)
    (hlen : c.phyCtrlMsgCtxt.totalLen < 4294967296) :
    Ensures (forEach (groupOp env) ops) c fun _ c' =>
      c'.phyCtrlMsgCtxt.msgNum = (c.phyCtrlMsgCtxt.msgNum +
        ((acceptedLens env c.calls ops).length + (refusedLens env c.calls ops).length)) % 256 ∧
      c'.phyCtrlMsgCtxt.totalLen = (c.phyCtrlMsgCtxt.totalLen +
        ((acceptedLens env c.calls ops).sum + (refusedLens env c.calls ops).sum)) % 4294967296 := by
  induction ops generalizing c with
  | nil => simp [forEach, acceptedLens, refusedLens, Nat.mod_eq_of_lt, hnum, hlen]
  | cons op ops ih =>
    rw [forEach, ensures_bind]
    cases op with
    | alloc size =>
      rw [groupOp, ensures_allocL1CtrlMsgMem]
      intro _ _
      exact ih hnum hlen
    | append msg =>
      rw [groupOp, ensures_appendL1MsgToList]
      intro _ _ _ _
      refine (ih (Nat.mod_lt _ (by decide)) (Nat.mod_lt _ (by decide))).mono ?_
      intro _ c' hc'
      simp only [Cell.appended, acceptedLens, refusedLens] at hc' ⊢
      obtain ⟨hnum', hlen'⟩ := hc'
      split_ifs with hsend
      · simp only [List.length_cons, List.sum_cons]
        omega
      · simp only [List.length_cons, List.sum_cons]
        omega

/-- The header of the group tells what the driver has accepted: how many messages, and
their lengths with that of the header. -/
def HeaderTells (env : Env) (n : ℕ) (ops : List GroupOp) (c : Cell) : Prop :=
  c.phyCtrlMsgCtxt.msgNum = (acceptedLens env n ops).length ∧
    c.phyCtrlMsgCtxt.totalLen = sizeofFapiMsgHdr + (acceptedLens env n ops).sum

/-- When a group has been ended, its header tells what has been accepted exactly when the
refused messages make up for the width of the two numbers. A group of less than 256
messages and less than 2³² bytes must have none refused. -/
theorem txGroup_headerTells_iff {ops : List GroupOp} {c c' : Cell}
    (hstart : env.pcxxSendStart c.calls = true) (hgroup : txGroup env ops c = some ((), c')) :
    (HeaderTells env (c.calls + 3) ops c' ↔
      (refusedLens env (c.calls + 3) ops).length = 256 *
        (((acceptedLens env (c.calls + 3) ops).length +
          (refusedLens env (c.calls + 3) ops).length) / 256) ∧
      (refusedLens env (c.calls + 3) ops).sum = 4294967296 *
        ((sizeofFapiMsgHdr + ((acceptedLens env (c.calls + 3) ops).sum +
          (refusedLens env (c.calls + 3) ops).sum)) / 4294967296)) ∧
    ((acceptedLens env (c.calls + 3) ops).length +
        (refusedLens env (c.calls + 3) ops).length < 256 →
      sizeofFapiMsgHdr + ((acceptedLens env (c.calls + 3) ops).sum +
        (refusedLens env (c.calls + 3) ops).sum) < 4294967296 →
      (HeaderTells env (c.calls + 3) ops c' ↔ refusedLens env (c.calls + 3) ops = [])) := by
  have hend : c'.phyCtrlMsgCtxt.msgNum = ((acceptedLens env (c.calls + 3) ops).length +
        (refusedLens env (c.calls + 3) ops).length) % 256 ∧
      c'.phyCtrlMsgCtxt.totalLen = (sizeofFapiMsgHdr + ((acceptedLens env (c.calls + 3) ops).sum +
        (refusedLens env (c.calls + 3) ops).sum)) % 4294967296 := by
    have hall : Ensures (txGroup env ops) c fun _ c' => c'.phyCtrlMsgCtxt.msgNum =
          ((acceptedLens env (c.calls + 3) ops).length +
            (refusedLens env (c.calls + 3) ops).length) % 256 ∧
        c'.phyCtrlMsgCtxt.totalLen = (sizeofFapiMsgHdr + ((acceptedLens env (c.calls + 3) ops).sum +
          (refusedLens env (c.calls + 3) ops).sum)) % 4294967296 := by
      rw [txGroup, ensures_l1MsgProc, ensures_setL1CtrlMsgGrpHeader]
      refine ⟨fun _ _ _ => ?_, fun hno => absurd hstart hno⟩
      refine (ensures_groupOps (by simp [Cell.headed])
        (by simp [Cell.headed, sizeofFapiMsgHdr])).mono ?_
      intro _ c₂ hc₂
      simpa [Cell.headed, Cell.called, Nat.add_assoc] using hc₂
    exact hall () c' hgroup
  obtain ⟨hnum, hlen⟩ := hend
  have hiff : HeaderTells env (c.calls + 3) ops c' ↔
      (refusedLens env (c.calls + 3) ops).length = 256 *
        (((acceptedLens env (c.calls + 3) ops).length +
          (refusedLens env (c.calls + 3) ops).length) / 256) ∧
      (refusedLens env (c.calls + 3) ops).sum = 4294967296 *
        ((sizeofFapiMsgHdr + ((acceptedLens env (c.calls + 3) ops).sum +
          (refusedLens env (c.calls + 3) ops).sum)) / 4294967296) := by
    rw [HeaderTells, hnum, hlen]
    omega
  refine ⟨hiff, ?_⟩
  intro hfew hshort
  rw [hiff, Nat.div_eq_of_lt hfew, Nat.div_eq_of_lt hshort]
  constructor
  · intro hnone
    exact List.length_eq_zero_iff.mp hnone.1
  · intro hnone
    simp [hnone]

/-- Two requests of a slot. -/
def pairOps : List GroupOp :=
  [.alloc 8, .append ⟨fapiDlTtiRequest, [], 16, 0, 2, l1DlTtiRequest⟩,
    .alloc 8, .append ⟨fapiUlTtiRequest, [], 24, 0, 2, l1UlTtiRequest⟩]

theorem txGroup_headerTells_pair :
    ∃ c', txGroup (readyWorld.env 0 0) pairOps (restingCell .auto 0) = some ((), c') ∧
      HeaderTells (readyWorld.env 0 0) 3 pairOps c' := by
  have hrun : (txGroup (readyWorld.env 0 0) pairOps (restingCell .auto 0)).isSome = true := by
    decide +kernel
  obtain ⟨⟨⟨⟩, c'⟩, hgroup⟩ := Option.isSome_iff_exists.mp hrun
  exact ⟨c', hgroup, ((txGroup_headerTells_iff rfl hgroup).2 (by decide) (by decide)).mpr rfl⟩

/-- A driver that refuses one message only. -/
def refusingEnv (call : ℕ) : Env :=
  { readyWorld.env 0 0 with pcxxCtrlSend := fun n => decide (n ≠ call) }

/-- The first of the two requests is refused, but the header counts both. -/
theorem txGroup_counts_refused :
    ∃ c', txGroup (refusingEnv 4) pairOps (restingCell .auto 0) = some ((), c') ∧
      c'.phyCtrlMsgCtxt.msgNum = 2 ∧ c'.phyCtrlMsgCtxt.totalLen = 44 ∧
      acceptedLens (refusingEnv 4) 3 pairOps = [24] ∧
      ¬ HeaderTells (refusingEnv 4) 3 pairOps c' := by
  have hrun : (txGroup (refusingEnv 4) pairOps (restingCell .auto 0)).map (fun r =>
      (r.2.phyCtrlMsgCtxt.msgNum, r.2.phyCtrlMsgCtxt.totalLen)) = some (2, 44) := by
    decide +kernel
  obtain ⟨⟨⟨⟩, c'⟩, hgroup, hend⟩ := Option.map_eq_some_iff.mp hrun
  obtain ⟨hnum, hlen⟩ := Prod.mk.inj hend
  refine ⟨c', hgroup, hnum, hlen, rfl, ?_⟩
  rintro ⟨hnum', -⟩
  have hone : c'.phyCtrlMsgCtxt.msgNum = 1 := hnum'
  exact absurd (hone.symm.trans hnum) (by decide)

end TestMac

import TestMac.Mac.Commands

/-!
# Commands posted by the application: `main.c`

The functions of the application that post a command to the ring of a cell. Tests
are started in the automatic mode only, everything else is done in the manual mode;
a function called in the other mode posts nothing. Arguments are cut to the width
of their parameters.
-/

namespace TestMac

open Bytes Act

/-- The fields of `TestmacCfg_s` that decide what is posted. -/
structure AppCfg where
  operMode : TestMacOperMode
  phyStub : Bool

/-- A command and the cell whose ring it is posted to. -/
structure Posting where
  devIndex : ℕ
  cellId : ℕ
  msg : CtrlMsg

/-- A command for a cell, posted to the ring of that cell. -/
def postTo (msgId para0 para1 devIndex cellId : ℕ) : Posting where
  devIndex := devIndex % 256
  cellId := cellId % 256
  msg := ⟨msgId, para0 % 65536, para1 % 65536, devIndex % 256, cellId % 256⟩

/-- The functions that post, by what they refuse and what they write to the command. -/
def postUnless (refused : Prop) [Decidable refused] (msgId para0 para1 devIndex cellId : ℕ) :
    Option Posting :=
  if refused then none else some (postTo msgId para0 para1 devIndex cellId)

namespace Main

variable (cfg : AppCfg)

def simTtiInd : Option Posting :=
  postUnless (cfg.phyStub = false) appSimTti 0 0 0 0

def appTestStart (caseId devIndex cellId : ℕ) : Option Posting :=
  postUnless (cfg.operMode = .manual) appStartTest caseId 0 devIndex cellId

def appTestStop (caseId devIndex cellId : ℕ) : Option Posting :=
  postUnless (cfg.operMode = .auto) appStopTest caseId 0 devIndex cellId

def appTcConfigCase (caseId devIndex cellId : ℕ) : Option Posting :=
  postUnless (cfg.operMode = .auto) TestMac.appTcConfigCase caseId 0 devIndex cellId

def appTcDlCase (sfn slot devIndex cellId : ℕ) : Option Posting :=
  postUnless (cfg.operMode = .auto) TestMac.appTcDlCase sfn slot devIndex cellId

def appTcUlCase (sfn slot devIndex cellId : ℕ) : Option Posting :=
  postUnless (cfg.operMode = .auto) TestMac.appTcUlCase sfn slot devIndex cellId

def appTcTxdataCase (sfn slot devIndex cellId : ℕ) : Option Posting :=
  postUnless (cfg.operMode = .auto) appTcTxCase sfn slot devIndex cellId

def appTcTestCase (id cellNum devIndex cellId : ℕ) : Option Posting :=
  postUnless (cfg.operMode = .auto) appTxCase id cellNum devIndex cellId

def appTcStop (caseId devIndex cellId : ℕ) : Option Posting :=
  postUnless (cfg.operMode = .auto) TestMac.appTcStop caseId 0 devIndex cellId

end Main

/-- A call of one of the functions that post. -/
inductive AppCall
  | simTtiInd
  | appTestStart (caseId devIndex cellId : ℕ)
  | appTestStop (caseId devIndex cellId : ℕ)
  | appTcConfigCase (caseId devIndex cellId : ℕ)
  | appTcDlCase (sfn slot devIndex cellId : ℕ)
  | appTcUlCase (sfn slot devIndex cellId : ℕ)
  | appTcTxdataCase (sfn slot devIndex cellId : ℕ)
  | appTcTestCase (id cellNum devIndex cellId : ℕ)
  | appTcStop (caseId devIndex cellId : ℕ)

/-- What the call posts. -/
def AppCall.posting (cfg : AppCfg) : AppCall → Option Posting
  | .simTtiInd => Main.simTtiInd cfg
  | .appTestStart caseId devIndex cellId => Main.appTestStart cfg caseId devIndex cellId
  | .appTestStop caseId devIndex cellId => Main.appTestStop cfg caseId devIndex cellId
  | .appTcConfigCase caseId devIndex cellId => Main.appTcConfigCase cfg caseId devIndex cellId
  | .appTcDlCase sfn slot devIndex cellId => Main.appTcDlCase cfg sfn slot devIndex cellId
  | .appTcUlCase sfn slot devIndex cellId => Main.appTcUlCase cfg sfn slot devIndex cellId
  | .appTcTxdataCase sfn slot devIndex cellId => Main.appTcTxdataCase cfg sfn slot devIndex cellId
  | .appTcTestCase id cellNum devIndex cellId => Main.appTcTestCase cfg id cellNum devIndex cellId
  | .appTcStop caseId devIndex cellId => Main.appTcStop cfg caseId devIndex cellId

/-- The call posts a command that the handler of commands does not know: a simulated
slot with the stub of the PHY, or the stop of a test in the manual mode. -/
def AppCall.Unhandled (cfg : AppCfg) : AppCall → Prop
  | .simTtiInd => cfg.phyStub = true
  | .appTestStop _ _ _ => cfg.operMode = .manual
  | _ => False

/-- The commands in the switch of `appMgrMsgqHRecv`. -/
def CtrlMsg.Known (msg : CtrlMsg) : Prop :=
  msg.msgId = appTcConfigCase ∨ msg.msgId = appTcDlCase ∨ msg.msgId = appTcUlCase ∨
    msg.msgId = appTcTxCase ∨ msg.msgId = appTxCase ∨ msg.msgId = appTcStop ∨
    msg.msgId = appStartTest

/-- The fields of a command fit the fields of `CtrlMsg_s`. -/
structure CtrlMsg.Fits (msg : CtrlMsg) : Prop where
  msgId : msg.msgId < 65536
  para0 : msg.para0 < 4294967296
  para1 : msg.para1 < 4294967296
  para2 : msg.para2 < 4294967296
  para3 : msg.para3 < 4294967296

theorem postTo_fits {msgId : ℕ} (h : msgId < 65536) (para0 para1 devIndex cellId : ℕ) :
    (postTo msgId para0 para1 devIndex cellId).msg.Fits := by
  constructor <;> simp only [postTo] <;> omega

theorem postUnless_eq_some {refused : Prop} [Decidable refused]
    {msgId para0 para1 devIndex cellId : ℕ} {p : Posting}
    (h : postUnless refused msgId para0 para1 devIndex cellId = some p) :
    ¬ refused ∧ p = postTo msgId para0 para1 devIndex cellId := by
  unfold postUnless at h
  split_ifs at h with hrefused
  exact ⟨hrefused, (Option.some.inj h).symm⟩

/-- Everything posted fits the fields of a command. -/
theorem AppCall.posting_fits {cfg : AppCfg} {call : AppCall} {p : Posting}
    (h : call.posting cfg = some p) : p.msg.Fits := by
  cases call <;> obtain ⟨-, rfl⟩ := postUnless_eq_some h <;> exact postTo_fits (by decide) _ _ _ _

/-- The handler knows every command posted, apart from two. -/
theorem AppCall.posting_known {cfg : AppCfg} {call : AppCall} {p : Posting}
    (h : call.posting cfg = some p) (hcall : ¬ call.Unhandled cfg) : p.msg.Known := by
  cases call with
  | simTtiInd =>
    obtain ⟨hstub, -⟩ := postUnless_eq_some h
    exact absurd (Bool.eq_true_of_not_eq_false hstub) hcall
  | appTestStop caseId devIndex cellId =>
    obtain ⟨hmode, -⟩ := postUnless_eq_some h
    unfold Unhandled at hcall
    cases hcfg : cfg.operMode with
    | auto => exact absurd hcfg hmode
    | manual => exact absurd hcfg hcall
  | appTestStart caseId devIndex cellId =>
    obtain ⟨-, rfl⟩ := postUnless_eq_some h
    simp [CtrlMsg.Known, postTo]
  | appTcConfigCase caseId devIndex cellId =>
    obtain ⟨-, rfl⟩ := postUnless_eq_some h
    simp [CtrlMsg.Known, postTo]
  | appTcDlCase sfn slot devIndex cellId =>
    obtain ⟨-, rfl⟩ := postUnless_eq_some h
    simp [CtrlMsg.Known, postTo]
  | appTcUlCase sfn slot devIndex cellId =>
    obtain ⟨-, rfl⟩ := postUnless_eq_some h
    simp [CtrlMsg.Known, postTo]
  | appTcTxdataCase sfn slot devIndex cellId =>
    obtain ⟨-, rfl⟩ := postUnless_eq_some h
    simp [CtrlMsg.Known, postTo]
  | appTcTestCase id cellNum devIndex cellId =>
    obtain ⟨-, rfl⟩ := postUnless_eq_some h
    simp [CtrlMsg.Known, postTo]
  | appTcStop caseId devIndex cellId =>
    obtain ⟨-, rfl⟩ := postUnless_eq_some h
    simp [CtrlMsg.Known, postTo]

/-- The handler returns zero exactly for the commands it knows. -/
theorem ensures_appMgrMsgqHRecv_returns (w : World) (msg : CtrlMsg) (m : Mac) :
    Ensures (appMgrMsgqHRecv w msg) m fun ret _ => ret = 0 ↔ msg.Known := by
  have hknown : ∀ {m : Mac} (x : Act Mac Unit), msg.Known →
      Ensures (do x; pure (0 : ℤ)) m fun ret _ => ret = 0 ↔ msg.Known := by
    intro m x hmsg
    simp only [ensures_bind, ensures_pure]
    exact fun _ _ _ => ⟨fun _ => hmsg, fun _ => trivial⟩
  unfold appMgrMsgqHRecv
  split_ifs with h₁ h₂ h₃ h₄ h₅ h₆ h₇
  · exact hknown _ (by simp [CtrlMsg.Known, h₁])
  · exact hknown _ (by simp [CtrlMsg.Known, h₂])
  · exact hknown _ (by simp [CtrlMsg.Known, h₃])
  · exact hknown _ (by simp [CtrlMsg.Known, h₄])
  · exact hknown _ (by simp [CtrlMsg.Known, h₅])
  · exact hknown _ (by simp [CtrlMsg.Known, h₆])
  · rw [ensures_bind, ensures_update]
    exact hknown _ (by simp [CtrlMsg.Known, h₇])
  · simp [CtrlMsg.Known, h₁, h₂, h₃, h₄, h₅, h₆, h₇]

/-- The bytes of `CtrlMsg_s`. The field `msgLen` is never set. -/
def CtrlMsg.bytes (msg : CtrlMsg) : List UInt8 :=
  leBytes 2 msg.msgId ++ leBytes 2 0 ++ leBytes 4 msg.para0 ++ leBytes 4 msg.para1 ++
    leBytes 4 msg.para2 ++ leBytes 4 msg.para3

/-- The command that `appMgrMsgqHRecv` reads from the bytes of a message. -/
def CtrlMsg.ofBytes (data : List UInt8) : CtrlMsg where
  msgId := leValue (data.take 2)
  para0 := leValue ((data.drop 4).take 4)
  para1 := leValue ((data.drop 8).take 4)
  para2 := leValue ((data.drop 12).take 4)
  para3 := leValue ((data.drop 16).take 4)

@[simp] theorem CtrlMsg.bytes_length (msg : CtrlMsg) : msg.bytes.length = 20 := by
  simp [bytes]

/-- A command survives the ring, whatever padding follows it. -/
theorem CtrlMsg.ofBytes_bytes {msg : CtrlMsg} (h : msg.Fits) (padding : List UInt8) :
    ofBytes (msg.bytes ++ padding) = msg := by
  have hfield : ∀ (pre l : List UInt8) (k v : ℕ), pre.length = k →
      ((pre ++ (leBytes 4 v ++ l)).drop k).take 4 = leBytes 4 v := by
    intro pre l k v hk
    rw [List.drop_left' hk, List.take_left' (leBytes_length 4 v)]
  have hpara0 := hfield (leBytes 2 msg.msgId ++ leBytes 2 0)
    (leBytes 4 msg.para1 ++ leBytes 4 msg.para2 ++ leBytes 4 msg.para3 ++ padding) 4 msg.para0
    (by simp)
  have hpara1 := hfield (leBytes 2 msg.msgId ++ leBytes 2 0 ++ leBytes 4 msg.para0)
    (leBytes 4 msg.para2 ++ leBytes 4 msg.para3 ++ padding) 8 msg.para1 (by simp)
  have hpara2 := hfield
    (leBytes 2 msg.msgId ++ leBytes 2 0 ++ leBytes 4 msg.para0 ++ leBytes 4 msg.para1)
    (leBytes 4 msg.para3 ++ padding) 12 msg.para2 (by simp)
  have hpara3 := hfield
    (leBytes 2 msg.msgId ++ leBytes 2 0 ++ leBytes 4 msg.para0 ++ leBytes 4 msg.para1 ++
      leBytes 4 msg.para2) padding 16 msg.para3 (by simp)
  simp only [List.append_assoc] at hpara0 hpara1 hpara2 hpara3
  simp only [ofBytes, bytes, List.append_assoc, hpara0, hpara1, hpara2, hpara3,
    List.take_left' (leBytes_length 2 msg.msgId), leValue_leBytes,
    Nat.reducePow]
  obtain ⟨h₁, h₂, h₃, h₄, h₅⟩ := h
  rw [Nat.mod_eq_of_lt h₁, Nat.mod_eq_of_lt h₂, Nat.mod_eq_of_lt h₃, Nat.mod_eq_of_lt h₄,
    Nat.mod_eq_of_lt h₅]

end TestMac

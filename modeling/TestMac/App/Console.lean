import TestMac.App.AppQueue
import TestMac.Lib.CString
import TestMac.Mac.IndexUses
import TestMac.Mac.MsgSizes

/-!
# Commands typed at the console: `cmd_callback` of `main.c`

A line is split into a command and numbers, and the command is posted to the ring of a
cell, where the MAC takes it up. The numbers become indices on both sides. A line is
served with care when every index is within its dimension, and when a number out of
range is refused.
-/

namespace TestMac

open Act CString

/-- The commands of `CmdList`. -/
inductive ConsoleCmd
  | help
  | tcConfigCase
  | tcDlCase
  | tcUlCase
  | tcTxCase
  | tcCase
  | tcStop
  deriving DecidableEq

/-- `CmdList`. -/
def cmdList : List (List UInt8 × ConsoleCmd) :=
  [(literal "help", .help), (literal "tc_config_case", .tcConfigCase),
    (literal "tc_dl_case", .tcDlCase), (literal "tc_ul_case", .tcUlCase),
    (literal "tc_tx_case", .tcTxCase), (literal "tc_case", .tcCase),
    (literal "tc_stop", .tcStop)]

/-- The string that `cmd_callback` reads: the last byte of what it reads is dropped. -/
def consoleLine (typed : List UInt8) : List UInt8 := ofBuffer (typed.take 512).dropLast

/-- The command that a line names. -/
def namedCmd (typed : List UInt8) : Option ConsoleCmd :=
  match strtok (literal " ") (consoleLine typed) with
  | none => none
  | some (cmd, _) => (cmdList.find? fun entry => equalNoCase cmd entry.1).map Prod.snd

/-- `splitStr`: ten arguments at most, of 19 bytes at most. -/
def splitStr (s : List UInt8) : List (List UInt8) :=
  (tokens (literal "{}[]: ,._/=\t\n") 10 s).map (List.take 19)

/-- The number that a command reads from its argument at an index. -/
def cmdArg (typed : List UInt8) (k : ℕ) : ℕ :=
  match strtok (literal " ") (consoleLine typed) with
  | none => 0
  | some (_, rest) => strtoul ((splitStr rest).getD k [])

/-- The bits of an `int` that holds a number. -/
def toInt (n : ℕ) : ℕ := n % 4294967296

/-- The functions `CmdTcConfigCase` to `CmdTcStop`: what they call. -/
def ConsoleCmd.call (arg : ℕ → ℕ) : ConsoleCmd → Option AppCall
  | .help => none
  | .tcConfigCase => some (.appTcConfigCase (toInt (arg 0)) (toInt (arg 1)) (toInt (arg 2)))
  | .tcDlCase =>
    some (.appTcDlCase (toInt (arg 0)) (toInt (arg 1)) (toInt (arg 2)) (toInt (arg 3)))
  | .tcUlCase =>
    some (.appTcUlCase (toInt (arg 0)) (toInt (arg 1)) (toInt (arg 2)) (toInt (arg 3)))
  | .tcTxCase =>
    some (.appTcTxdataCase (toInt (arg 0)) (toInt (arg 1)) (toInt (arg 2)) (toInt (arg 3)))
  | .tcCase =>
    some (.appTcTestCase (toInt (arg 0)) (toInt (arg 1)) (toInt (arg 2)) (toInt (arg 3)))
  | .tcStop => some (.appTcStop (toInt (arg 0)) (toInt (arg 1)) (toInt (arg 2)))

/-- `cmd_callback`: what a line posts. -/
def cmdCallback (cfg : AppCfg) (typed : List UInt8) : Option Posting :=
  (namedCmd typed).bind fun cmd => (cmd.call (cmdArg typed)).bind (AppCall.posting cfg)

/-- A command posted is served within the declared dimensions, on the side that posts it and
on the side that handles it, whatever the driver answers. With drivers that refuse nothing
it is handled to its end: no assertion on its SFN or its slot fails. -/
structure Posting.Within (w : World) (mac : Mac) (p : Posting) : Prop where
  posting (s : AppSys) (pMsg : ℕ) : CellUsesGrow s.cellUses (macAppMgrSend s p pMsg).cellUses
  handling (env : ℕ → ℕ → Env) :
    Ensures (appMgrMsgqHRecv ⟨env, w.files⟩ p.msg) mac fun _ mac' => UsesWithin mac mac'
  asserts (env : ℕ → ℕ → Env) (haccepts : ∀ dev cell, Accepts (env dev cell) 4294967296) :
    Finishes (appMgrMsgqHRecv ⟨env, w.files⟩ p.msg) mac fun _ _ => True

/-- The arguments that become indices are within the dimensions they index, and the SFN
is one of the radio frames. -/
def ConsoleCmd.InRange (arg : ℕ → ℕ) : ConsoleCmd → Prop
  | .help => True
  | .tcConfigCase | .tcStop => arg 1 < 4 ∧ arg 2 < 2
  | .tcDlCase | .tcUlCase | .tcTxCase => arg 0 < 1024 ∧ arg 1 < 20 ∧ arg 2 < 4 ∧ arg 3 < 2
  | .tcCase => arg 2 < 4 ∧ arg 3 < 2

/-- The files that a line asks for and the tables they are loaded into are such. -/
def ConsoleCmd.LoadFits (w : World) (mac : Mac) (arg : ℕ → ℕ) (cmd : ConsoleCmd) : Prop :=
  cmd = .tcCase → TestMac.LoadFits (w.files (arg 0 % 65536) (arg 3))
    (mac.cells (arg 2) (arg 3)).tables

variable {w : World} {cfg : AppCfg} {mac : Mac} {typed : List UInt8} {cmd : ConsoleCmd}

section Posted

variable {msgId para0 para1 devIndex cellId : ℕ}

theorem postTo_devIndex :
    (postTo msgId para0 para1 devIndex cellId).msg.devIndex = devIndex % 256 :=
  Nat.mod_mod devIndex 256

theorem postTo_cellId : (postTo msgId para0 para1 devIndex cellId).msg.cellId = cellId % 256 :=
  Nat.mod_mod cellId 256

/-- A command whose device and cell are within the dimensions is served within them, when
what it means for the cell is. -/
theorem postTo_within (hmac : mac.cellNum ≤ 2) {tables : TcTables}
    (htables : (mac.cells (devIndex % 256) (cellId % 256)).tables = tables)
    (hcell : CellWithin (devIndex % 256, cellId % 256))
    (hfits : ∀ i, (postTo msgId para0 para1 devIndex cellId).msg.addressed w (cellId % 256) =
      some i → i.Fits tables) :
    (postTo msgId para0 para1 devIndex cellId).Within w mac where
  posting _ _ := .single hcell
  handling env := by
    apply usesWithin_recv
    · rwa [postTo_devIndex, postTo_cellId]
    · exact hmac
    · rw [postTo_devIndex, postTo_cellId, htables]
      exact hfits
  asserts env haccepts := by
    refine total_recv haccepts (t := tables) ?_ mac
    rw [postTo_cellId]
    exact hfits

end Posted

theorem toInt_mod_device (n : ℕ) : toInt n % 256 = n % 256 := by
  unfold toInt
  omega

/-- Numbers in range are not changed by the cuts. -/
theorem toInt_mod_index {n : ℕ} (hn : n < 4) : toInt n % 256 = n := by
  rw [toInt_mod_device, Nat.mod_eq_of_lt (by omega)]

theorem cellWithin_toInt {dev cell : ℕ} (hdev : dev < 4) (hcell : cell < 2) :
    CellWithin (toInt dev % 256, toInt cell % 256) := by
  rw [toInt_mod_index hdev, toInt_mod_index (hcell.trans (by decide))]
  exact ⟨hdev, hcell⟩

theorem toInt_mod_sfn (n : ℕ) : toInt n % 65536 = n % 65536 := by
  unfold toInt
  omega

/-- In the automatic mode nothing typed is posted. -/
theorem cmdCallback_auto (hcfg : cfg.operMode = .auto) : cmdCallback cfg typed = none := by
  cases h : namedCmd typed with
  | none => simp [cmdCallback, h]
  | some cmd =>
    cases cmd <;>
      simp [cmdCallback, h, ConsoleCmd.call, AppCall.posting, postUnless, hcfg,
        Main.appTcConfigCase, Main.appTcDlCase, Main.appTcUlCase, Main.appTcTxdataCase,
        Main.appTcTestCase, Main.appTcStop]

theorem cmdCallback_eq (hcmd : namedCmd typed = some cmd) :
    cmdCallback cfg typed = (cmd.call (cmdArg typed)).bind (AppCall.posting cfg) := by
  rw [cmdCallback, hcmd, Option.bind_some]

/-- A function called in the manual mode posts its command. -/
theorem postUnless_manual (hcfg : cfg.operMode = .manual) (msgId para0 para1 devIndex cellId : ℕ) :
    postUnless (cfg.operMode = .auto) msgId para0 para1 devIndex cellId =
      some (postTo msgId para0 para1 devIndex cellId) := by
  simp [postUnless, hcfg]

/-- In the manual mode every command but the help is posted. -/
theorem cmdCallback_ne_none (hcfg : cfg.operMode = .manual) (hcmd : namedCmd typed = some cmd)
    (hhelp : cmd ≠ .help) : cmdCallback cfg typed ≠ none := by
  rw [cmdCallback_eq hcmd]
  cases cmd with
  | help => exact absurd rfl hhelp
  | tcConfigCase => simp [ConsoleCmd.call, AppCall.posting, Main.appTcConfigCase, postUnless, hcfg]
  | tcDlCase => simp [ConsoleCmd.call, AppCall.posting, Main.appTcDlCase, postUnless, hcfg]
  | tcUlCase => simp [ConsoleCmd.call, AppCall.posting, Main.appTcUlCase, postUnless, hcfg]
  | tcTxCase => simp [ConsoleCmd.call, AppCall.posting, Main.appTcTxdataCase, postUnless, hcfg]
  | tcCase => simp [ConsoleCmd.call, AppCall.posting, Main.appTcTestCase, postUnless, hcfg]
  | tcStop => simp [ConsoleCmd.call, AppCall.posting, Main.appTcStop, postUnless, hcfg]

/-- A line is served with care: what it posts is served within the declared dimensions with
no failed assertion, and nothing is posted for a number out of range. -/
def ServedWithCare (cfg : AppCfg) (w : World) (mac : Mac) (typed : List UInt8) : Prop :=
  (∀ p, cmdCallback cfg typed = some p → p.Within w mac) ∧
    ∀ cmd, namedCmd typed = some cmd → ¬ cmd.InRange (cmdArg typed) → cmdCallback cfg typed = none

/-- What is posted for numbers in range is served within the dimensions, when the files of a
test case fit. -/
theorem posting_within (hmac : mac.cellNum ≤ 2) (hcmd : namedCmd typed = some cmd)
    (hrange : cmd.InRange (cmdArg typed)) (hfits : cmd.LoadFits w mac (cmdArg typed))
    {p : Posting} (hpost : cmdCallback cfg typed = some p) : p.Within w mac := by
  have hsingle : ∀ {sfn slot : ℕ}, sfn < 1024 → slot < 20 →
      toInt sfn % 65536 % 65536 < 1024 ∧ toInt slot % 65536 % 65536 < 20 := by
    intro sfn slot hsfn hslot
    unfold toInt
    omega
  rw [cmdCallback_eq hcmd] at hpost
  cases cmd with
  | help => cases hpost
  | tcConfigCase =>
    obtain ⟨-, rfl⟩ := postUnless_eq_some hpost
    refine postTo_within hmac rfl (cellWithin_toInt hrange.1 hrange.2) ?_
    rintro i ⟨⟩
    trivial
  | tcDlCase | tcUlCase | tcTxCase =>
    obtain ⟨-, rfl⟩ := postUnless_eq_some hpost
    obtain ⟨hsfn, hslot, hdev, hcell⟩ := hrange
    refine postTo_within hmac rfl (cellWithin_toInt hdev hcell) ?_
    rintro i ⟨⟩
    exact hsingle hsfn hslot
  | tcCase =>
    obtain ⟨-, rfl⟩ := postUnless_eq_some hpost
    refine postTo_within hmac rfl (cellWithin_toInt hrange.1 hrange.2) ?_
    rintro i ⟨⟩
    simp only [postTo, CellInput.Fits, Nat.mod_mod, toInt_mod_sfn, toInt_mod_index hrange.1,
      toInt_mod_index (hrange.2.trans (by decide))]
    exact hfits rfl
  | tcStop =>
    obtain ⟨-, rfl⟩ := postUnless_eq_some hpost
    refine postTo_within hmac rfl (cellWithin_toInt hrange.1 hrange.2) ?_
    rintro i ⟨⟩

/-- The files of a test case served within the dimensions fit: what the cell records while the
driver accepts everything tells of every file found. -/
theorem loadFits_of_within {p : Posting} (hid : p.msg.msgId = appTxCase)
    (hcell : CellWithin (p.msg.devIndex, p.msg.cellId)) (hwithin : p.Within w mac) :
    TestMac.LoadFits (w.files (p.msg.para0 % 65536) p.msg.cellId)
      (mac.cells p.msg.devIndex p.msg.cellId).tables := by
  obtain ⟨r, mac', hrun, -⟩ := hwithin.asserts (fun _ _ => acceptingEnv)
    fun _ _ => acceptingEnv_accepts
  obtain ⟨us, huses, hus⟩ :=
    (hwithin.handling _ r mac' hrun).rows p.msg.devIndex p.msg.cellId
  have hhandles := (p.msg.reaches_atCell mac r mac' hrun).cells p.msg.devIndex p.msg.cellId
  have hreach : p.msg.atCell ⟨fun _ _ => acceptingEnv, w.files⟩ mac.cellNum p.msg.devIndex
      p.msg.cellId = some (.txCase (w.files (p.msg.para0 % 65536) p.msg.cellId)) := by
    simp [CtrlMsg.atCell, CtrlMsg.addressed, hid, appTxCase, appTcStop, appStartTest,
      appTcConfigCase, appTcDlCase, appTcUlCase, appTcTxCase]
  rw [hreach] at hhandles
  rw [txCase_uses () _ hhandles] at huses
  rw [← List.append_cancel_left huses] at hus
  exact (loadUses_within_iff hcell).mp hus

/-- Whatever has happened before, a line that names a command is served with care exactly
in the automatic mode, or when its numbers are in range and the files of a test case fit. -/
theorem servedWithCare_iff {mac₀ : Mac} {is : List Input} (hinit : mac₀.cellNum = 1)
    (hrun : Steps (Handles w) mac₀ is mac) (hcmd : namedCmd typed = some cmd) :
    ServedWithCare cfg w mac typed ↔ cfg.operMode = .auto ∨
      cmd.InRange (cmdArg typed) ∧ cmd.LoadFits w mac (cmdArg typed) := by
  have hmac := run_cellNum_le hrun (by omega)
  cases hcfg : cfg.operMode with
  | auto =>
    have hnone : cmdCallback cfg typed = none := cmdCallback_auto hcfg
    simp [ServedWithCare, hnone]
  | manual =>
    constructor
    · rintro ⟨hwithin, hrefuses⟩
      have hrange : cmd.InRange (cmdArg typed) := by
        by_contra hout
        have hhelp : cmd ≠ .help := by
          rintro rfl
          exact hout trivial
        exact cmdCallback_ne_none hcfg hcmd hhelp (hrefuses cmd hcmd hout)
      refine .inr ⟨hrange, ?_⟩
      rintro rfl
      have hpost : cmdCallback cfg typed = _ :=
        (cmdCallback_eq hcmd).trans (postUnless_manual hcfg _ _ _ _ _)
      have hcell := cellWithin_toInt hrange.1 hrange.2
      have hfits := loadFits_of_within rfl
        (by rwa [postTo_devIndex, postTo_cellId]) (hwithin _ hpost)
      rw [postTo_devIndex, postTo_cellId] at hfits
      simpa only [postTo, Nat.mod_mod, toInt_mod_sfn, toInt_mod_index hrange.1,
        toInt_mod_index (hrange.2.trans (by decide))] using hfits
    · rintro (hauto | ⟨hrange, hfits⟩)
      · exact absurd hauto (by decide)
      · refine ⟨fun p hpost => posting_within hmac hcmd hrange hfits hpost, ?_⟩
        intro cmd' hcmd' hout
        rw [hcmd] at hcmd'
        cases hcmd'
        exact absurd hrange hout

/-- A line typed with its number of the line end. -/
def typedLine (s : String) : List UInt8 := literal s ++ [10]

/-- A line in range is served with care. -/
theorem servedWithCare_slot_five :
    ServedWithCare ⟨.manual, false⟩ readyWorld (restingMac .manual 0)
      (typedLine "tc_dl_case 3 5 0 1") := by
  have hcmd : namedCmd (typedLine "tc_dl_case 3 5 0 1") = some .tcDlCase := by decide +kernel
  apply (servedWithCare_iff rfl (Steps.nil _) hcmd).mpr
  right
  constructor
  · unfold ConsoleCmd.InRange
    decide +kernel
  · simp [ConsoleCmd.LoadFits]

/-- The slot 25 is beyond the twenty rows of a frame, and is used all the same. -/
theorem slot_twentyFive_not_refused :
    (∃ p mac', cmdCallback ⟨.manual, false⟩ (typedLine "tc_dl_case 0 25 0 0") = some p ∧
      appMgrMsgqHRecv readyWorld p.msg (restingMac .manual 0) = some (0, mac') ∧
      (mac'.cells 0 0).uses = [.row 0 25, .row 0 25]) ∧
    ¬ ServedWithCare ⟨.manual, false⟩ readyWorld (restingMac .manual 0)
        (typedLine "tc_dl_case 0 25 0 0") := by
  have hruns : (cmdCallback ⟨.manual, false⟩ (typedLine "tc_dl_case 0 25 0 0")).bind (fun p =>
      (appMgrMsgqHRecv readyWorld p.msg (restingMac .manual 0)).map fun r =>
        (r.1, (r.2.cells 0 0).uses)) = some (0, [.row 0 25, .row 0 25]) := by
    decide +kernel
  obtain ⟨p, hpost, hrest⟩ := Option.bind_eq_some_iff.mp hruns
  obtain ⟨⟨r, mac'⟩, hrun, hend⟩ := Option.map_eq_some_iff.mp hrest
  obtain ⟨rfl, huses⟩ := Prod.mk.inj hend
  refine ⟨⟨p, mac', hpost, hrun, huses⟩, ?_⟩
  intro hcare
  obtain ⟨us, hgrow, hus⟩ := ((hcare.1 p hpost).handling readyWorld.env 0 mac' hrun).rows 0 0
  have hrow : .row 0 25 ∈ us := by
    have hrecorded : us = [.row 0 25, .row 0 25] := hgrow.symm.trans huses
    simp [hrecorded]
  obtain ⟨-, -, hslot⟩ := hus _ hrow
  exact absurd hslot (by decide)

end TestMac

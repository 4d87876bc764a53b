import TestMac.App.Console
import TestMac.Lib.Numerals

/-!
# What a line at the console means

A line is a command and numbers as a person writes them: the command in letters of any case,
the numbers in base ten, eight or sixteen, apart from each other by any separators. What the
handler of the MAC reads behind the ring is what was typed, as far as the numbers fit.
-/

namespace TestMac

open CString

/-- The separators of `splitStr`. -/
def splitSeps : List UInt8 := literal "\x7b\x7d[]: ,._/=\t\n"

/-- The parts of a line: blanks, a name, a blank, numbers with the gaps before them, and a
last gap. -/
structure ConsoleText where
  blanks : List UInt8
  name : List UInt8
  parts : List (List UInt8 × List UInt8)
  last : List UInt8

/-- The line, without the byte that ends it. -/
def ConsoleText.line (text : ConsoleText) : List UInt8 :=
  text.blanks ++ text.name ++ 32 :: (joined text.parts ++ text.last)

/-- The line names a command and spells its numbers. -/
structure ConsoleText.Means (text : ConsoleText) (cmd : ConsoleCmd) (args : List ℕ) : Prop where
  blanks : ∀ c ∈ text.blanks, c = 32
  name : ∃ entry ∈ cmdList, entry.2 = cmd ∧ equalNoCase text.name entry.1 = true
  separated : Separated splitSeps text.parts
  last : ∀ c ∈ text.last, c ∈ splitSeps
  spelled : List.Forall₂ (fun n s => Spelling n s ∧ n ≤ 0xFFFFFFFFFFFFFFFF) args
    (text.parts.map Prod.snd)
  short : ∀ part ∈ text.parts, part.2.length ≤ 19
  count : args.length ≤ 10
  length : text.line.length < 512

variable {text : ConsoleText} {cmd : ConsoleCmd} {args : List ℕ} {cfg : AppCfg} {final : UInt8}

/-- The names are written in small letters and low lines. -/
theorem cmdList_names : ∀ entry ∈ cmdList,
    entry.1 ≠ [] ∧ 32 ∉ entry.1 ∧ 0 ∉ entry.1 ∧ entry.1.map tolower = entry.1 := by
  decide

/-- No two commands have the same name. -/
theorem cmdList_names_distinct : ∀ entry ∈ cmdList, ∀ entry' ∈ cmdList,
    entry.1 = entry'.1 → entry = entry' := by
  decide

theorem splitSeps_ne_zero : ∀ c ∈ splitSeps, c ≠ 0 := by
  have hall : splitSeps.all (· ≠ 0) = true := by decide
  simpa using hall

section Name

variable {entry : List UInt8 × ConsoleCmd} {name : List UInt8}

theorem map_tolower_of_equalNoCase (hentry : entry ∈ cmdList)
    (h : equalNoCase name entry.1 = true) : name.map tolower = entry.1 := by
  obtain ⟨-, -, -, hlower⟩ := cmdList_names entry hentry
  rw [equalNoCase, beq_iff_eq] at h
  rw [h, hlower]

theorem name_ne_nil (hentry : entry ∈ cmdList) (h : equalNoCase name entry.1 = true) :
    name ≠ [] := by
  rintro rfl
  exact (cmdList_names entry hentry).1 (map_tolower_of_equalNoCase hentry h).symm

/-- A name has neither blanks nor zeros. -/
theorem name_plain (hentry : entry ∈ cmdList) (h : equalNoCase name entry.1 = true) {c : UInt8}
    (hc : c ∈ name) : c ≠ 32 ∧ c ≠ 0 := by
  obtain ⟨-, hblank, hzero, -⟩ := cmdList_names entry hentry
  have hmem : tolower c ∈ entry.1 := by
    rw [← map_tolower_of_equalNoCase hentry h]
    exact List.mem_map_of_mem hc
  constructor
  · rintro rfl
    exact hblank hmem
  · rintro rfl
    exact hzero hmem

/-- A name in letters of any case is found. -/
theorem find_name (hentry : entry ∈ cmdList) (h : equalNoCase name entry.1 = true) :
    cmdList.find? (fun entry => equalNoCase name entry.1) = some entry := by
  cases hfind : cmdList.find? (fun entry => equalNoCase name entry.1) with
  | none => exact absurd h (by simpa using List.find?_eq_none.mp hfind entry hentry)
  | some entry' =>
    have hentry' := List.mem_of_find?_eq_some hfind
    have h' := List.find?_some hfind
    have hsame := (map_tolower_of_equalNoCase hentry' h').symm.trans
      (map_tolower_of_equalNoCase hentry h)
    rw [cmdList_names_distinct entry' hentry' entry hentry hsame]

end Name

/-- The bytes of a number are digits and the mark of the base sixteen. -/
theorem spelling_plain {n : ℕ} {s : List UInt8} (h : Spelling n s) {c : UInt8} (hc : c ∈ s) :
    c ≠ 0 := by
  rintro rfl
  cases h with
  | decimal => rcases mem_spell (by decide) (by decide) hc with h | h <;> exact absurd h (by decide)
  | octal =>
    rcases List.mem_cons.mp hc with h | hc
    · exact absurd h (by decide)
    · rcases mem_spell (by decide) (by decide) hc with h | h <;> exact absurd h (by decide)
  | hex hmark =>
    rcases List.mem_cons.mp hc with h | hc
    · exact absurd h (by decide)
    rcases List.mem_cons.mp hc with rfl | hc
    · exact absurd hmark (by decide)
    · rcases mem_spell (by decide) (by decide) hc with h | h <;> exact absurd h (by decide)

theorem spelling_of_mem {words : List (List UInt8)}
    (h : List.Forall₂ (fun n s => Spelling n s ∧ n ≤ 0xFFFFFFFFFFFFFFFF) args words)
    {s : List UInt8} (hs : s ∈ words) : ∃ n, Spelling n s := by
  induction h with
  | nil => exact absurd hs (by simp)
  | cons hn _ ih =>
    rcases List.mem_cons.mp hs with rfl | hs
    · exact ⟨_, hn.1⟩
    · exact ih hs

namespace ConsoleText.Means

/-- A line has no zero in it. -/
theorem ne_zero (h : text.Means cmd args) {c : UInt8} (hc : c ∈ text.line) : c ≠ 0 := by
  obtain ⟨entry, hentry, -, hname⟩ := h.name
  simp only [line, joined, List.mem_append, List.mem_cons, List.mem_flatMap] at hc
  rcases hc with (hc | hc) | rfl | ⟨part, hpart, hc | hc⟩ | hc
  · rw [h.blanks c hc]
    decide
  · exact (name_plain hentry hname hc).2
  · decide
  · exact splitSeps_ne_zero c (h.separated.gaps part hpart c hc)
  · obtain ⟨n, hspelled⟩ := spelling_of_mem h.spelled (List.mem_map_of_mem hpart)
    exact spelling_plain hspelled hc
  · exact splitSeps_ne_zero c (h.last c hc)

/-- What `cmd_callback` takes for the string. -/
theorem consoleLine_eq (h : text.Means cmd args) :
    consoleLine (text.line ++ [final]) = text.line := by
  have hlen := h.length
  have htake : (text.line ++ [final]).take 512 = text.line ++ [final] :=
    List.take_of_length_le (by rw [List.length_append, List.length_singleton]; omega)
  rw [consoleLine, htake, List.dropLast_concat, ofBuffer, ← List.append_nil text.line,
    List.takeWhile_append_of_pos fun c hc => by simpa using h.ne_zero hc, List.takeWhile_nil]

/-- The first token is the name. -/
theorem strtok_line (h : text.Means cmd args) : strtok (literal " ") text.line =
    some (text.name, joined text.parts ++ text.last) := by
  obtain ⟨entry, hentry, -, hname⟩ := h.name
  have hblank : literal " " = [32] := by decide
  rw [hblank]
  exact strtok_word (fun c hc => List.mem_singleton.mpr (h.blanks c hc))
    (name_ne_nil hentry hname)
    (fun c hc hmem => (name_plain hentry hname hc).1 (List.mem_singleton.mp hmem)) (by simp)

theorem namedCmd_eq (h : text.Means cmd args) : namedCmd (text.line ++ [final]) = some cmd := by
  obtain ⟨entry, hentry, rfl, hname⟩ := h.name
  rw [namedCmd, h.consoleLine_eq, h.strtok_line]
  simp only [find_name hentry hname, Option.map_some]

/-- The arguments are the spelled numbers. -/
theorem splitStr_eq (h : text.Means cmd args) :
    splitStr (joined text.parts ++ text.last) = text.parts.map Prod.snd := by
  have hcount : (text.parts.map Prod.snd).length ≤ 10 := by
    rw [← h.spelled.length_eq]
    exact h.count
  have htokens := tokens_joined h.separated h.last 10
  rw [List.take_of_length_le hcount] at htokens
  have hseps : literal "\x7b\x7d[]: ,._/=\t\n" = splitSeps := rfl
  rw [splitStr, hseps, htokens, List.map_map]
  exact List.map_congr_left fun part hpart => List.take_of_length_le (h.short part hpart)

theorem cmdArg_eq (h : text.Means cmd args) (k : ℕ) :
    cmdArg (text.line ++ [final]) k = args.getD k 0 := by
  rw [cmdArg, h.consoleLine_eq, h.strtok_line]
  simp only [h.splitStr_eq]
  exact strtoul_getD h.spelled k

/-- A line posts what the command does with the numbers typed. -/
theorem cmdCallback_eq (h : text.Means cmd args) : cmdCallback cfg (text.line ++ [final]) =
    (cmd.call fun k => args.getD k 0).bind (AppCall.posting cfg) := by
  have harg : cmdArg (text.line ++ [final]) = fun k => args.getD k 0 := funext h.cmdArg_eq
  rw [cmdCallback, h.namedCmd_eq, Option.bind_some, harg]

end ConsoleText.Means

/-- The command for the handler with the numbers as they were typed. -/
def ConsoleCmd.message (arg : ℕ → ℕ) : ConsoleCmd → Option CtrlMsg
  | .help => none
  | .tcConfigCase => some ⟨appTcConfigCase, arg 0, 0, arg 1, arg 2⟩
  | .tcDlCase => some ⟨appTcDlCase, arg 0, arg 1, arg 2, arg 3⟩
  | .tcUlCase => some ⟨appTcUlCase, arg 0, arg 1, arg 2, arg 3⟩
  | .tcTxCase => some ⟨appTcTxCase, arg 0, arg 1, arg 2, arg 3⟩
  | .tcCase => some ⟨appTxCase, arg 0, arg 1, arg 2, arg 3⟩
  | .tcStop => some ⟨appTcStop, arg 0, 0, arg 1, arg 2⟩

/-- The numbers fit the parameters of the functions called. -/
def CtrlMsg.Typeable (msg : CtrlMsg) : Prop :=
  msg.para0 < 65536 ∧ msg.para1 < 65536 ∧ msg.para2 < 256 ∧ msg.para3 < 256

/-- What the handler reads of a command behind the ring, and for which cell. -/
def Posting.read (padding : List UInt8) (posting : Posting) : ℕ × ℕ × CtrlMsg :=
  (posting.devIndex, posting.cellId, .ofBytes (posting.msg.bytes ++ padding))

/-- Numbers are cut to the width of their parameters, and nothing else happens to them. -/
theorem postTo_read_iff {msgId para0 para1 devIndex cellId : ℕ} (hmsgId : msgId < 65536)
    (padding : List UInt8) :
    (postTo msgId (toInt para0) (toInt para1) (toInt devIndex) (toInt cellId)).read padding =
        (devIndex, cellId, ⟨msgId, para0, para1, devIndex, cellId⟩) ↔
      (CtrlMsg.mk msgId para0 para1 devIndex cellId).Typeable := by
  rw [Posting.read, CtrlMsg.ofBytes_bytes (postTo_fits hmsgId _ _ _ _) padding]
  simp only [postTo, toInt_mod_device, toInt_mod_sfn, Prod.mk.injEq, CtrlMsg.mk.injEq, true_and,
    CtrlMsg.Typeable]
  omega

/-- In the manual mode every command but `help` posts its message, cut to `int`. -/
theorem call_posting (hcfg : cfg.operMode = .manual) {arg : ℕ → ℕ} {msg : CtrlMsg}
    (hmsg : cmd.message arg = some msg) :
    msg.msgId < 65536 ∧ (cmd.call arg).bind (AppCall.posting cfg) = some (postTo msg.msgId
      (toInt msg.para0) (toInt msg.para1) (toInt msg.para2) (toInt msg.para3)) := by
  cases cmd with
  | help => exact absurd hmsg (by simp [ConsoleCmd.message])
  | _ =>
    cases hmsg
    refine ⟨?_, postUnless_manual hcfg _ _ _ _ _⟩
    dsimp only
    decide

/-- Of every line that a person may type for a command in the manual mode, the handler of the
cell named reads the command with the numbers typed exactly when these fit the parameters of
the functions that post. -/
theorem cmdCallback_reads_iff (h : text.Means cmd args) (hcfg : cfg.operMode = .manual)
    {msg : CtrlMsg} (hmsg : cmd.message (fun k => args.getD k 0) = some msg)
    (padding : List UInt8) :
    (cmdCallback cfg (text.line ++ [final])).map (Posting.read padding) =
        some (msg.para2, msg.para3, msg) ↔ msg.Typeable := by
  obtain ⟨hmsgId, hposting⟩ := call_posting hcfg hmsg
  rw [h.cmdCallback_eq, hposting, Option.map_some, Option.some.injEq]
  exact postTo_read_iff hmsgId padding

/-- `  TC_dl_case 0x10, 07 [1]/0`, with the slot in base eight. -/
theorem cmdCallback_reads_iff_tcDlCase :
    (cmdCallback ⟨.manual, false⟩ (literal "  TC_dl_case 0x10, 07 [1]/0\n")).map
        (Posting.read [0, 0]) = some (1, 0, ⟨appTcDlCase, 16, 7, 1, 0⟩) := by
  let text : ConsoleText :=
    ⟨literal "  ", literal "TC_dl_case",
      [([], literal "0x10"), (literal ", ", literal "07"), (literal " [", literal "1"),
        (literal "]/", literal "0")], []⟩
  have hsixteen : Spelling 16 (literal "0x10") := by
    rw [show literal "0x10" = 48 :: 120 :: spell 16 16 by decide]
    exact .hex (by decide)
  have hseven : Spelling 7 (literal "07") := by
    rw [show literal "07" = 48 :: spell 8 7 by decide]
    exact .octal
  have hone : Spelling 1 (literal "1") := by
    rw [show literal "1" = spell 10 1 by decide]
    exact .decimal
  have hzero : Spelling 0 (literal "0") := by
    rw [show literal "0" = spell 10 0 by decide]
    exact .decimal
  have hmeans : text.Means .tcDlCase [16, 7, 1, 0] := by
    refine ⟨fun c hc => ?_, ⟨(literal "tc_dl_case", .tcDlCase), by decide, rfl, by decide⟩,
      by decide, fun c hc => (nomatch hc), ?_, by decide, by decide, by decide⟩
    · rw [show text.blanks = List.replicate 2 32 by decide] at hc
      exact List.eq_of_mem_replicate hc
    exact .cons ⟨hsixteen, by decide⟩ (.cons ⟨hseven, by decide⟩ (.cons ⟨hone, by decide⟩
      (.cons ⟨hzero, by decide⟩ .nil)))
  exact (@cmdCallback_reads_iff text .tcDlCase [16, 7, 1, 0] ⟨.manual, false⟩ 10 hmeans rfl _ rfl
    [0, 0]).mpr ⟨by decide, by decide, by decide, by decide⟩

end TestMac

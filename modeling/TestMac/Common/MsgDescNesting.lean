import TestMac.Lib.Markup
import TestMac.Common.CmmBufText
import TestMac.Common.MsgDescRule
import TestMac.Common.PlatformCfg

/-!
# Printed data is well nested

Whatever the descriptions are like and whatever the memory holds, a print that comes to its
end is a text whose elements are nested, when the names can stand in tags and no string that
is copied from the memory looks like one.
-/

namespace TestMac

open Bytes CString Decoder Markup

/-- The text of a call, or what the C library writes before it fails. -/
abbrev MsgFormat.bytes (f : MsgFormat) : List UInt8 := f.text.bytes

/-- The text of some calls of `snprintfBuf`, with the indents. -/
def printedText (ps : List Piece) : List UInt8 := askedText (ps.map Piece.snprintfCall)

/-- A string that is printed. -/
def Piece.str : Piece → Option (List UInt8)
  | ⟨_, .str _ data⟩ => some data
  | _ => none

/-- A string that is printed does not look like a tag. -/
def Piece.Readable (p : Piece) : Prop := ∀ data ∈ p.str, Plain data

instance (p : Piece) : Decidable p.Readable := inferInstanceAs (Decidable (∀ data ∈ p.str, _))

variable {descs : Descs} {m : Mem} {α β : Type} {fuel spare defAddr data : ℕ} {name : List UInt8}

section Text

theorem printedText_append (ps ps' : List Piece) :
    printedText (ps ++ ps') = printedText ps ++ printedText ps' := by
  rw [printedText, List.map_append]
  exact List.flatMap_append

theorem printedText_singleton (p : Piece) :
    printedText [p] = List.replicate (4 * p.spare) 32 ++ p.format.bytes := by
  rw [printedText, List.map_singleton]
  exact List.flatMap_singleton _ _

theorem bytes_stop (name : List UInt8) : (MsgFormat.stop name).bytes = stopTag name ++ [10] := rfl

theorem plain_indent (n : ℕ) : Plain (List.replicate n 32) := by
  intro c hc
  rw [List.eq_of_mem_replicate hc]
  decide

theorem plain_spell {base : ℕ} (hlow : 1 < base) (hhigh : base ≤ 16) (n : ℕ) :
    Plain (spell base n) := by
  intro c hc
  have hdigit := mem_spell hlow hhigh hc
  constructor <;> rintro rfl <;> simp at hdigit

theorem plain_decimal (n : ℤ) : Plain (decimal n) := by
  have hspell : Plain (spell 10 n.natAbs) := plain_spell (by decide) (by decide) _
  unfold decimal
  split_ifs
  · intro c hc
    rcases List.mem_cons.mp hc with rfl | hc
    · decide
    · exact hspell c hc
  · exact hspell

theorem plain_value {f : MsgFormat} (h : f.IsValue) : Plain f.bytes := by
  have hspell : ∀ n, Plain (spell 10 n) := plain_spell (by decide) (by decide)
  have hhex : ∀ n, Plain (spell 16 n) := plain_spell (by decide) (by decide)
  cases f with
  | int n => exact (plain_append.mpr ⟨by decide, plain_decimal n⟩ : Plain ([32] ++ decimal n))
  | unsigned n => exact (plain_append.mpr ⟨by decide, hspell n⟩ : Plain ([32] ++ spell 10 n))
  | i64 n => exact (by decide : Plain [32])
  | bool b =>
    cases b with
    | false => exact (by decide : Plain (literal "false "))
    | true => exact (by decide : Plain (literal "true "))
  | hex n => exact plain_append.mpr ⟨hhex n, by decide⟩
  | octet n => exact plain_append.mpr ⟨hspell n, by decide⟩
  | nullAddr => exact (by decide : Plain (literal "NULL_ADDR\n"))
  | notSupported option =>
    exact plain_append.mpr ⟨plain_append.mpr ⟨by decide, hspell option⟩, by decide⟩
  | _ => exact h.elim

/-- An opening tag, and a line break behind it. -/
theorem bytes_starts {f : MsgFormat} (h : f.Starts Name name) :
    ∃ attributes rest, Attributes attributes ∧ Plain rest ∧
      f.bytes = startTag name attributes ++ rest := by
  have hattributes : ∀ start value, Plain (32 :: start) → Plain value →
      Attributes (32 :: start ++ value ++ literal "\"") := fun start value hstart hvalue =>
    ⟨plain_append.mpr ⟨plain_append.mpr ⟨hstart, hvalue⟩, by decide⟩, .inr rfl⟩
  cases h with
  | start => exact ⟨[], [], attributes_nil, plain_nil, (List.append_nil _).symm⟩
  | startLine => exact ⟨[], [10], attributes_nil, by decide, rfl⟩
  | startCnt cnt =>
    exact ⟨_, [], hattributes _ _ (by decide) (plain_spell (by decide) (by decide) cnt), plain_nil,
      (List.append_nil _).symm⟩
  | startItems cnt =>
    exact ⟨_, [], hattributes _ _ (by decide) (plain_decimal cnt), plain_nil,
      (List.append_nil _).symm⟩
  | startItemLines cnt =>
    exact ⟨_, [10], hattributes _ _ (by decide) (plain_decimal cnt), by decide, rfl⟩
  | startType htype => exact ⟨_, [10], hattributes _ _ (by decide) htype.1, by decide, rfl⟩

/-- An element on one line. -/
theorem balanced_line {value : List UInt8} {c : UInt8} (hname : Name name) (hvalue : Plain value)
    (hc : Plain [c]) : Balanced (startTag name [] ++ value ++ stopTag name ++ [c]) := by
  have helement := Balanced.element hname attributes_nil hvalue.balanced
  have htext : startTag name [] ++ value ++ stopTag name ++ [c] =
      60 :: (name ++ []) ++ 62 :: (value ++ (60 :: 47 :: name ++ [62])) ++ [c] := by
    simp [startTag, stopTag]
  rw [htext]
  exact helement.append hc.balanced

theorem balanced_isLine {f : MsgFormat} (hname : Name name) (h : f.IsLine Name name) :
    Balanced f.bytes := by
  cases h with
  | str hdata => exact balanced_line hname hdata.1 (by decide)
  | outrange t =>
    exact balanced_line hname
      (plain_append.mpr ⟨plain_append.mpr ⟨by decide, plain_decimal t⟩, by decide⟩) (by decide)

end Text

/-- A printer that comes to its end has printed a balanced text, if its strings are readable. -/
def Nests (m : Mem) (x : Printer α) : Prop :=
  (x m).2.returned = true → (∀ p ∈ x.calls m, p.Readable) → Balanced (printedText (x.calls m))

section Nests

theorem Nests.of_silent {x : Printer α} (h : x.calls m = []) : Nests m x := by
  intro _ _
  rw [h]
  exact Balanced.nil

theorem Nests.of_not_returned {x : Printer α} (h : (x m).2.returned = false) : Nests m x := by
  intro hret
  rw [h] at hret
  exact absurd hret (by decide)

theorem Nests.bind {x : Printer α} {f : α → Printer β} (hx : Nests m x)
    (hf : ∀ a, Nests m (f a)) : Nests m (x >>= f) := by
  intro hret hreadable
  obtain ⟨hret₁, a, ha, hret₂⟩ := returned_bind hret
  rw [calls_bind, ha] at hreadable ⊢
  rw [printedText_append]
  exact (hx hret₁ fun p hp => hreadable p (List.mem_append_left _ hp)).append
    (hf a hret₂ fun p hp => hreadable p (List.mem_append_right _ hp))

/-- A call whose text is balanced whenever it is readable. -/
theorem Nests.put {f : MsgFormat} (h : Piece.Readable ⟨spare, f⟩ → Balanced f.bytes) :
    Nests m (put spare f) := by
  intro _ hreadable
  have hp : Piece.Readable ⟨spare, f⟩ := hreadable _ (List.mem_singleton.mpr rfl)
  change Balanced (printedText [⟨spare, f⟩])
  rw [printedText_singleton]
  exact (plain_indent _).balanced.append (h hp)

/-- What is printed between the tags of an element. -/
theorem Nests.element {f : MsgFormat} {body : Printer Unit} {spare' : ℕ} (hname : Name name)
    (hf : f.Starts Name name) (hbody : Nests m body) :
    Nests m (do
      TestMac.put spare f
      body
      TestMac.put spare' (.stop name)) := by
  obtain ⟨attributes, rest, hattributes, hrest, hbytes⟩ := bytes_starts hf
  intro hret hreadable
  obtain ⟨-, _, -, hret⟩ := returned_bind hret
  obtain ⟨hret, ⟨⟩, hok, -⟩ := returned_bind hret
  have hcalls : (do
      TestMac.put spare f
      body
      TestMac.put spare' (.stop name) : Printer Unit).calls m =
      [⟨spare, f⟩] ++ (body.calls m ++ [⟨spare', .stop name⟩]) := by
    rw [TestMac.put, TestMac.put, calls_bind, calls_call, result_call]
    congr 1
    rw [calls_bind, hok]
    rfl
  rw [hcalls] at hreadable ⊢
  have hinside := hbody hret fun p hp =>
    hreadable p (List.mem_append_right _ (List.mem_append_left _ hp))
  have helement := Balanced.element hname hattributes
    ((hrest.balanced.append hinside).append (plain_indent (4 * spare')).balanced)
  have htext : printedText ([⟨spare, f⟩] ++ (body.calls m ++ [⟨spare', .stop name⟩])) =
      List.replicate (4 * spare) 32 ++ ((60 :: (name ++ attributes) ++ 62 ::
        (((rest ++ printedText (body.calls m)) ++ List.replicate (4 * spare') 32) ++
          (60 :: 47 :: name ++ [62]))) ++ [10]) := by
    rw [printedText_append, printedText_append, printedText_singleton, printedText_singleton,
      hbytes, bytes_stop]
    simp [startTag, stopTag]
  rw [htext]
  exact (plain_indent _).balanced.append (helement.append (Plain.balanced (by decide)))

theorem Nests.readStr (fuel addr : ℕ) : Nests m (readStr fuel addr : Printer (List UInt8)) := by
  induction fuel generalizing addr with
  | zero => exact Nests.of_not_returned rfl
  | succ fuel ih =>
    refine Nests.bind (Nests.of_silent rfl) fun c => ?_
    split_ifs
    · exact Nests.of_silent rfl
    · exact Nests.bind (ih _) fun _ => Nests.of_silent rfl

theorem nests_rule (m : Mem) : PrinterRule Name fun {α : Type} (x : Printer α) => Nests m x where
  closed :=
    { pure := fun a => .of_silent (calls_pure a m)
      read := fun len addr => .of_silent (calls_read len addr m)
      assert := fun p => .of_silent (calls_assert p m)
      bind := Nests.bind }
  outOfFuel := .of_not_returned rfl
  deref_then := by
    intro α β o f hf
    cases o with
    | none => exact .of_not_returned rfl
    | some a => exact hf a rfl
  value := fun _ hf => .put fun _ => (plain_value hf).balanced
  line := fun _ hname hf => .put fun _ => balanced_isLine hname hf
  str := fun fuel _ data hname => Nests.bind (.readStr fuel data) fun s =>
    .put fun hreadable => balanced_line hname (hreadable s rfl) (by decide)
  element := fun _ _ hname hf hbody => Nests.element hname hf hbody

end Nests

/-- What `snprintfData` prints is well nested, for every description of every type and every
memory, if the names can stand in tags and no string printed looks like one. -/
theorem snprintfData_wellNested (hdescs : NamesOk Name descs) (hname : Name name)
    (hret : (snprintfData descs fuel spare name defAddr data m).2.returned = true)
    (hreadable : ∀ p ∈ (snprintfData descs fuel spare name defAddr data).calls m, p.Readable) :
    wellNested (printedText ((snprintfData descs fuel spare name defAddr data).calls m)) = true :=
  ((nests_rule m).snprintfData (by decide) hdescs fuel spare hname defAddr data hret
    hreadable).wellNested

/-- The platform configuration. -/
theorem snprintfData_wellNested_platformCfg :
    wellNested (printedText ((platformCfgPrint 40).calls localPlatformCfg)) = true :=
  snprintfData_wellNested (platformCfgDescs_names (by decide)) (by decide) (by decide +kernel)
    (by decide +kernel)

theorem nests_snprintfMessageSep {desc : List MsgDesc} (hdescs : NamesOk Name descs)
    (hdesc : ∀ msgDef ∈ desc, Name msgDef.name) (octCnt data msgId : ℕ) :
    Nests m (snprintfMessageSep descs fuel desc octCnt data msgId) := by
  unfold snprintfMessageSep
  cases hfind : desc.find? (·.msgId = msgId) with
  | none =>
    have hheader : Plain (MsgFormat.invalidMsg (signed 4 msgId)).bytes :=
      plain_append.mpr ⟨plain_append.mpr ⟨by decide, plain_decimal _⟩, by decide⟩
    exact Nests.bind (.put fun _ => hheader.balanced) fun _ =>
      (nests_rule m).snPrintfArrTh (by decide)
        (fun v => show (MsgFormat.hex v).IsValue from trivial) 1 octCnt octCnt data
  | some msgDef =>
    have hname := hdesc msgDef (List.mem_of_find?_eq_some hfind)
    have hheader : Plain (MsgFormat.msg msgDef.name (signed 4 msgId)).bytes :=
      plain_append.mpr ⟨plain_append.mpr ⟨plain_append.mpr ⟨plain_append.mpr
        ⟨by decide, hname.1⟩, by decide⟩, plain_decimal _⟩, by decide⟩
    exact Nests.bind (.put fun _ => hheader.balanced) fun _ =>
      (nests_rule m).snprintfData (by decide) hdescs fuel 1 (by decide) msgDef.defAddr data

/-- So is what `snprintfMessage` prints, also of a message that is not described. -/
theorem snprintfMessage_wellNested {desc : List MsgDesc} {msg : ℕ} (hdescs : NamesOk Name descs)
    (hdesc : ∀ msgDef ∈ desc, Name msgDef.name)
    (hret : (snprintfMessage descs fuel desc msg m).2.returned = true)
    (hreadable : ∀ p ∈ (snprintfMessage descs fuel desc msg).calls m, p.Readable) :
    wellNested (printedText ((snprintfMessage descs fuel desc msg).calls m)) = true :=
  (Nests.bind (.of_silent rfl) (fun _ => Nests.bind (.of_silent rfl) fun _ =>
    nests_snprintfMessageSep hdescs hdesc _ _ _) hret hreadable).wellNested

end TestMac

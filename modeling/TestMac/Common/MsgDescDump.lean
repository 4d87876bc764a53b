import TestMac.Common.MsgDescNesting
import TestMac.Common.MsgDescEnds

/-!
# The string that a print leaves in a buffer

`genDataPrintfStr` prints some data into a static buffer of 500000 bytes and returns it as a
string, and `cmmApiInit` prints the platform configuration into a buffer of 2000 bytes.
-/

namespace TestMac

open Bytes CString Decoder Markup

/-- The calls of a printer made on an empty buffer of zeros, and the string in it then. -/
def printedString (octCnt : ℕ) (ps : List Piece) : List UInt8 :=
  (Runs.run snprintfStep ⟨octCnt, 0, fun _ => 0⟩ (ps.map Piece.snprintfCall)).1.string

/-- `genDataPrintfStr`: the string it returns. -/
def genDataPrintfStr (descs : Descs) (fuel defAddr data : ℕ) (m : Mem) : List UInt8 :=
  printedString 500000 ((snprintfData descs fuel 0 (literal "Data") defAddr data).calls m)

/-- The format is not `" %l"`. -/
def MsgFormat.converts : MsgFormat → Bool
  | .i64 _ => false
  | _ => true

/-- No zero stands in a string. -/
abbrev NoZero (s : List UInt8) : Prop := 0 ∉ s

/-- A call asks for a string that is not empty. -/
def Piece.Asks (p : Piece) : Prop := NoZero p.format.bytes ∧ p.format.bytes ≠ []

variable {descs : Descs} {m : Mem} {fuel spare defAddr data octCnt : ℕ} {name : List UInt8}
  {f : MsgFormat}

section Asks

theorem text_of_converts (h : f.converts = true) : f.text = .text f.bytes := by
  cases f <;> first | rfl | exact nomatch h

theorem noZero_append {s t : List UInt8} : NoZero (s ++ t) ↔ NoZero s ∧ NoZero t := by
  simp only [NoZero, List.mem_append, not_or]

theorem noZero_cons {c : UInt8} {s : List UInt8} : NoZero (c :: s) ↔ c ≠ 0 ∧ NoZero s := by
  simp only [NoZero, List.mem_cons, not_or, ne_comm]

theorem noZero_spell {base : ℕ} (hlow : 1 < base) (hhigh : base ≤ 16) (n : ℕ) :
    NoZero (spell base n) := by
  intro h
  have hdigit := mem_spell hlow hhigh h
  simp at hdigit

theorem noZero_decimal (n : ℤ) : NoZero (decimal n) := by
  have hspell : NoZero (spell 10 n.natAbs) := noZero_spell (by decide) (by decide) _
  unfold decimal
  split_ifs
  · exact noZero_cons.mpr ⟨by decide, hspell⟩
  · exact hspell

theorem noZero_startTag {attributes : List UInt8} (hname : NoZero name)
    (hattributes : NoZero attributes) : NoZero (startTag name attributes) :=
  noZero_append.mpr ⟨noZero_cons.mpr ⟨by decide, noZero_append.mpr ⟨hname, hattributes⟩⟩,
    by decide⟩

theorem noZero_stopTag (hname : NoZero name) : NoZero (stopTag name) :=
  noZero_append.mpr ⟨noZero_cons.mpr ⟨by decide, noZero_cons.mpr ⟨by decide, hname⟩⟩, by decide⟩

theorem asks_value (spare : ℕ) (h : f.IsValue) : Piece.Asks ⟨spare, f⟩ := by
  have hspell : ∀ n, NoZero (spell 10 n) := noZero_spell (by decide) (by decide)
  have hhex : ∀ n, NoZero (spell 16 n) := noZero_spell (by decide) (by decide)
  cases f with
  | int n => exact ⟨noZero_cons.mpr ⟨by decide, noZero_decimal n⟩, List.cons_ne_nil _ _⟩
  | unsigned n => exact ⟨noZero_cons.mpr ⟨by decide, hspell n⟩, List.cons_ne_nil _ _⟩
  | i64 n => exact ⟨(by decide : NoZero [32]), List.cons_ne_nil _ _⟩
  | bool b =>
    cases b with
    | false => exact ⟨(by decide : NoZero (literal "false ")), List.cons_ne_nil _ _⟩
    | true => exact ⟨(by decide : NoZero (literal "true ")), List.cons_ne_nil _ _⟩
  | hex n => exact ⟨noZero_append.mpr ⟨hhex n, by decide⟩, List.concat_ne_nil _ _⟩
  | octet n => exact ⟨noZero_append.mpr ⟨hspell n, by decide⟩, List.concat_ne_nil _ _⟩
  | nullAddr => exact ⟨(by decide : NoZero (literal "NULL_ADDR\n")), List.cons_ne_nil _ _⟩
  | notSupported option =>
    exact ⟨noZero_append.mpr ⟨noZero_append.mpr ⟨by decide, hspell option⟩, by decide⟩,
      List.cons_ne_nil _ _⟩
  | _ => exact h.elim

theorem asks_starts (spare : ℕ) (hname : NoZero name) (h : f.Starts NoZero name) :
    Piece.Asks ⟨spare, f⟩ := by
  have hattributes : ∀ start value, NoZero start → NoZero value →
      NoZero (start ++ value ++ literal "\"") := fun start value hstart hvalue =>
    noZero_append.mpr ⟨noZero_append.mpr ⟨hstart, hvalue⟩, by decide⟩
  refine ⟨?_, ?_⟩
  · cases h with
    | start => exact noZero_startTag hname (by decide)
    | startLine => exact noZero_append.mpr ⟨noZero_startTag hname (by decide), by decide⟩
    | startCnt cnt =>
      exact noZero_startTag hname
        (hattributes _ _ (by decide) (noZero_spell (by decide) (by decide) cnt))
    | startItems cnt =>
      exact noZero_startTag hname (hattributes _ _ (by decide) (noZero_decimal cnt))
    | startItemLines cnt =>
      exact noZero_append.mpr
        ⟨noZero_startTag hname (hattributes _ _ (by decide) (noZero_decimal cnt)), by decide⟩
    | startType htype =>
      exact noZero_append.mpr
        ⟨noZero_startTag hname (hattributes _ _ (by decide) htype), by decide⟩
  · cases h <;> exact List.cons_ne_nil _ _

theorem asks_str (spare : ℕ) {value rest : List UInt8} (hname : NoZero name)
    (hvalue : NoZero value) (hrest : NoZero rest) (hf : f.bytes =
      startTag name [] ++ value ++ stopTag name ++ rest) : Piece.Asks ⟨spare, f⟩ := by
  constructor
  · rw [hf]
    exact noZero_append.mpr ⟨noZero_append.mpr ⟨noZero_append.mpr
      ⟨noZero_startTag hname (by decide), hvalue⟩, noZero_stopTag hname⟩, hrest⟩
  · rw [hf]
    exact List.cons_ne_nil _ _

theorem asks_isLine (spare : ℕ) (hname : NoZero name) (h : f.IsLine NoZero name) :
    Piece.Asks ⟨spare, f⟩ := by
  cases h with
  | str hdata => exact asks_str spare hname hdata (by decide) rfl
  | outrange t =>
    refine asks_str spare hname ?_ (by decide) rfl
    exact noZero_append.mpr ⟨noZero_append.mpr ⟨by decide, noZero_decimal t⟩, by decide⟩

theorem asks_rule (m : Mem) :
    PrinterRule NoZero fun {α : Type} (x : Printer α) => Only Piece.Asks m x where
  closed := Only.closed
  outOfFuel := Only.running
  deref_then := by
    intro α β o f hf
    cases o with
    | none => exact fun p hp => absurd hp List.not_mem_nil
    | some a => exact hf a rfl
  value := fun spare hf => Only.call (asks_value spare hf)
  line := fun spare hname hf => Only.call (asks_isLine spare hname hf)
  str := fun fuel spare data hname => Only.bind_of (Only.readStr fuel data) fun s hs =>
    Only.call (asks_str spare hname (readStr_noZero hs) (by decide) rfl)
  element := fun spare spare' hname hf hbody =>
    Only.bind (Only.call (asks_starts spare hname hf)) fun _ => Only.bind hbody fun _ =>
      Only.call ⟨noZero_append.mpr ⟨noZero_stopTag hname, by decide⟩, List.cons_ne_nil _ _⟩

end Asks

/-- The string left in a buffer of zeros is all that `snprintfData` prints exactly when that
is 102 bytes shorter than the buffer. No name in the descriptions holds a zero, nothing of
the type `int64_t` is printed, and no indent is longer than `2 ^ 22` bytes. -/
theorem printedString_eq_iff (hdescs : NamesOk NoZero descs) (hname : NoZero name)
    (hlow : 102 ≤ octCnt) (hhigh : octCnt < 1073741824)
    (hcalls : ∀ p ∈ (snprintfData descs fuel spare name defAddr data).calls m,
      p.spare < 1048576 ∧ p.format.converts = true) :
    printedString octCnt ((snprintfData descs fuel spare name defAddr data).calls m) =
        printedText ((snprintfData descs fuel spare name defAddr data).calls m) ↔
      (printedText ((snprintfData descs fuel spare name defAddr data).calls m)).length + 102 ≤
        octCnt := by
  have hasks : ∀ p ∈ (snprintfData descs fuel spare name defAddr data).calls m, p.Asks :=
    (asks_rule m).snprintfData (by decide) hdescs fuel spare hname defAddr data
  generalize (snprintfData descs fuel spare name defAddr data).calls m = ps at hcalls hasks ⊢
  refine string_run_eq_iff hlow hhigh ?_ ?_
  · intro call hcall
    obtain ⟨p, hp, rfl⟩ := List.mem_map.mp hcall
    obtain ⟨hspare, hconverts⟩ := hcalls p hp
    exact ⟨hspare, p.format.bytes, text_of_converts hconverts, (hasks p hp).2⟩
  · intro hzero
    obtain ⟨call, hcall, hmem⟩ := List.mem_flatMap.mp hzero
    obtain ⟨p, hp, rfl⟩ := List.mem_map.mp hcall
    rcases List.mem_append.mp hmem with hmem | hmem
    · exact absurd (List.eq_of_mem_replicate hmem) (by decide)
    · exact (hasks p hp).1 hmem

/-- The platform configuration, 872 bytes, fits into the buffer of `cmmApiInit` but not into
one of 973 bytes. -/
theorem printedString_eq_iff_platformCfg :
    printedString 2000 ((platformCfgPrint 40).calls localPlatformCfg) =
        printedText ((platformCfgPrint 40).calls localPlatformCfg) ∧
      printedString 973 ((platformCfgPrint 40).calls localPlatformCfg) ≠
        printedText ((platformCfgPrint 40).calls localPlatformCfg) := by
  have hlength : (printedText ((platformCfgPrint 40).calls localPlatformCfg)).length = 872 := by
    decide +kernel
  have hcalls : ∀ p ∈ (platformCfgPrint 40).calls localPlatformCfg,
      p.spare < 1048576 ∧ p.format.converts = true := by
    decide +kernel
  constructor
  · apply (printedString_eq_iff (platformCfgDescs_names (by decide)) (by decide) (by decide)
      (by decide) hcalls).mpr
    rw [← platformCfgPrint, hlength]
    decide
  · intro heq
    have hfits := (printedString_eq_iff (platformCfgDescs_names (by decide)) (by decide) (by decide)
      (by decide) hcalls).mp heq
    rw [← platformCfgPrint, hlength] at hfits
    exact absurd hfits (by decide)

end TestMac

import TestMac.Common.CmmBuf

/-!
# Which texts a buffer holds as a whole

Calls of `snprintfBuf` on an empty buffer leave a string in it. It is everything that the
calls have asked for exactly when this is 102 bytes shorter than the buffer: a call that is
refused or cut is never made up for by a later one.
-/

namespace TestMac

open Bytes CString

/-- The indent and the text that a call asks for. -/
def SnprintfCall.asked (call : SnprintfCall) : List UInt8 :=
  List.replicate (4 * call.spare) 32 ++ call.text.bytes

/-- What some calls ask for. -/
def askedText (calls : List SnprintfCall) : List UInt8 := calls.flatMap SnprintfCall.asked

/-- The string in a buffer. -/
def CmmBuf.string (buf : CmmBuf) : List UInt8 := ofBuffer (slice buf.data 0 buf.octCnt)

variable {buf : CmmBuf} {octCnt spare : ℕ} {bytes asked : List UInt8} {call : SnprintfCall}
  {calls : List SnprintfCall}

theorem store_zero (m : Mem) (a : ℕ) (text : List UInt8) :
    store m a (text ++ [0]) (a + text.length) = 0 := by
  simp [store]

section Step

/-- The indent ends with a zero, as `sprintf` leaves it. -/
theorem indent_zero (hzero : buf.data buf.offset = 0)
    (hroom : buf.offset + 4 * spare < 4294967296) :
    (indent spare buf).1.data (indent spare buf).1.offset = 0 := by
  induction spare generalizing buf with
  | zero => exact hzero
  | succ spare ih =>
    have hmod : (buf.offset + 4) % 4294967296 = buf.offset + 4 := Nat.mod_eq_of_lt (by omega)
    refine ih ?_ (by dsimp only; omega)
    dsimp only
    rw [hmod]
    exact store_zero buf.data buf.offset (List.replicate 4 32)

/-- Behind the indent, a text is written as a whole or cut, with a zero at its end. -/
theorem vsnprintfBuf_text (hoct : buf.octCnt = octCnt) (hhigh : octCnt < 1073741824)
    (hzero : buf.data buf.offset = 0) (hroom : buf.offset + 100 < octCnt) (hne : bytes ≠ []) :
    (buf.offset + bytes.length + 102 ≤ octCnt ∧
        (vsnprintfBuf (.text bytes) buf).2.1.offset = buf.offset + bytes.length ∧
        (vsnprintfBuf (.text bytes) buf).2.1.data (buf.offset + bytes.length) = 0) ∨
      (octCnt < buf.offset + bytes.length + 102 ∧
        octCnt ≤ (vsnprintfBuf (.text bytes) buf).2.1.offset + 101 ∧
        ∃ k < buf.offset + bytes.length, k < octCnt ∧
          (vsnprintfBuf (.text bytes) buf).2.1.data k = 0) := by
  subst hoct
  have hlen := List.length_pos_iff.mpr hne
  rw [vsnprintfBuf_eq (by omega) hroom, CmmBuf.printed]
  by_cases hfits : buf.offset + bytes.length + 102 ≤ buf.octCnt
  · left
    rw [vsnprintf_fits (by omega) (by omega)]
    dsimp only
    rw [if_pos (by omega), Int.toNat_natCast, Nat.mod_eq_of_lt (by omega)]
    exact ⟨hfits, rfl, store_zero _ _ _⟩
  · right
    refine ⟨by omega, ?_, ?_⟩
    · have hrev := vsnprintf_rev_lt (buf.octCnt - buf.offset - 101) (.text bytes)
      dsimp only [vsnprintf] at hrev ⊢
      split_ifs at hrev ⊢ <;> omega
    · by_cases hsize : buf.octCnt - buf.offset - 101 = 0
      · refine ⟨buf.offset, by omega, by omega, ?_⟩
        simpa [vsnprintf, hsize, store] using hzero
      · have htake : (bytes.take (buf.octCnt - buf.offset - 101 - 1)).length =
            buf.octCnt - buf.offset - 102 := by
          rw [List.length_take]
          omega
        refine ⟨buf.offset + (buf.octCnt - buf.offset - 102), by omega, by omega, ?_⟩
        simp only [vsnprintf, if_neg hsize]
        rw [← htake]
        exact store_zero _ _ _

/-- A call at the zero of a buffer is refused, written as a whole or cut. -/
theorem snprintfStep_text (h : buf.Bounded octCnt) (hlow : 100 ≤ octCnt)
    (hhigh : octCnt < 1073741824) (hspare : call.spare < 1048576)
    (hzero : buf.data buf.offset = 0) (htext : call.text = .text bytes) (hne : bytes ≠ []) :
    (octCnt ≤ buf.offset + 4 * call.spare + 100 ∧ (snprintfStep buf call).1 = buf) ∨
      (buf.offset + 4 * call.spare + bytes.length + 102 ≤ octCnt ∧
        (snprintfStep buf call).1.offset = buf.offset + 4 * call.spare + bytes.length ∧
        (snprintfStep buf call).1.data (buf.offset + 4 * call.spare + bytes.length) = 0) ∨
      (octCnt < buf.offset + 4 * call.spare + bytes.length + 102 ∧
        octCnt ≤ (snprintfStep buf call).1.offset + 101 ∧
        ∃ k < buf.offset + 4 * call.spare + bytes.length, k < octCnt ∧
          (snprintfStep buf call).1.data k = 0) := by
  obtain ⟨rfl, hoff⟩ := h
  rw [snprintfStep]
  by_cases hguard : buf.Refuses call.spare
  · left
    have hfull := hguard
    rw [CmmBuf.Refuses, usub_eq hlow (by omega)] at hfull
    rw [snprintfBuf_refused hguard]
    exact ⟨by omega, rfl⟩
  · right
    obtain ⟨hoffset, hroom⟩ := granted_room hlow (by omega) hguard (by omega)
    rw [snprintfBuf_granted hguard, htext]
    have hbehind := vsnprintfBuf_text (indent_octCnt call.spare buf) hhigh
      (indent_zero hzero (by omega)) (by omega) hne
    rwa [hoffset] at hbehind

/-- Near its end a buffer is not written to any more. -/
theorem snprintfStep_full (h : buf.Bounded octCnt) (hlow : 100 ≤ octCnt)
    (hhigh : octCnt < 1073741824) (hspare : call.spare < 1048576)
    (hfull : octCnt ≤ buf.offset + 101) (htext : call.text = .text bytes) :
    (snprintfStep buf call).1.data = buf.data ∧
      octCnt ≤ (snprintfStep buf call).1.offset + 101 := by
  obtain ⟨rfl, hoff⟩ := h
  rw [snprintfStep]
  by_cases hguard : buf.Refuses call.spare
  · rw [snprintfBuf_refused hguard]
    exact ⟨rfl, hfull⟩
  · obtain ⟨-, hroom⟩ := granted_room hlow (by omega) hguard (by omega)
    obtain hnone : call.spare = 0 := by omega
    have hsize : buf.octCnt - buf.offset - 101 = 0 := by omega
    have hrev := vsnprintf_rev_lt 0 call.text
    rw [snprintfBuf_granted hguard, hnone, indent]
    dsimp only
    rw [vsnprintfBuf_eq (by omega) (by omega), CmmBuf.printed, hsize, htext]
    rw [htext] at hrev
    constructor
    · funext i
      simp [vsnprintf, store]
    · dsimp only
      split_ifs <;> omega

end Step

/-- Everything asked for is in the buffer, or it is too much and a zero comes before its end. -/
def CmmBuf.Kept (octCnt : ℕ) (asked : List UInt8) (buf : CmmBuf) : Prop :=
  (asked.length + 102 ≤ octCnt ∧ buf.Means asked ∧ buf.data buf.offset = 0) ∨
    (octCnt < asked.length + 102 ∧ ∃ k < asked.length, k < octCnt ∧ buf.data k = 0 ∧
      (buf.offset = k ∨ octCnt ≤ buf.offset + 101))

section Run

theorem asked_length (htext : call.text = .text bytes) :
    call.asked.length = 4 * call.spare + bytes.length := by
  rw [SnprintfCall.asked, htext, List.length_append, List.length_replicate, Conversion.bytes]

/-- What a call writes that fits into a buffer is what it asks for. -/
theorem writtenTexts_step (hlow : 100 ≤ buf.octCnt) (hhigh : buf.octCnt < 1073741824)
    (htext : call.text = .text bytes)
    (hfits : buf.offset + 4 * call.spare + bytes.length + 102 ≤ buf.octCnt) :
    writtenTexts (snprintfStep buf call).2 = call.asked := by
  have hguard : ¬ buf.Refuses call.spare := by
    rw [CmmBuf.Refuses, usub_eq hlow (by omega)]
    omega
  obtain ⟨hoffset, hroom⟩ := granted_room hlow (by omega) hguard (by omega)
  rw [snprintfStep, snprintfBuf_granted hguard, writtenTexts_append, writtenTexts_indent,
    vsnprintfBuf_eq (by rw [indent_octCnt]; omega) (by rw [indent_octCnt]; omega), CmmBuf.printed,
    htext, vsnprintf_fits (by rw [indent_octCnt]; omega) (by omega), SnprintfCall.asked, htext]
  simp [writtenTexts, BufEvent.text, Conversion.bytes]

/-- One call. -/
theorem CmmBuf.Kept.step (hkept : buf.Kept octCnt asked) (h : buf.Bounded octCnt)
    (hlow : 102 ≤ octCnt) (hhigh : octCnt < 1073741824) (hspare : call.spare < 1048576)
    (htext : call.text = .text bytes) (hne : bytes ≠ []) :
    (snprintfStep buf call).1.Kept octCnt (asked ++ call.asked) := by
  have hoct := h.1
  have hlen : (asked ++ call.asked).length = asked.length + 4 * call.spare + bytes.length := by
    rw [List.length_append, asked_length htext]
    omega
  have hpos := List.length_pos_iff.mpr hne
  rcases hkept with ⟨hfits, hmeans, hzero⟩ | ⟨hover, k, hk, hkoct, hzero, hend⟩
  · have hoffset := hmeans.offset_eq
    rcases snprintfStep_text h (by omega) hhigh hspare hzero htext hne with
      ⟨hfull, hsame⟩ | ⟨hroom, hnext, hzero'⟩ | ⟨hover, hfull, k, hk, hkoct, hzero'⟩
    · refine .inr ⟨by omega, asked.length, by omega, by omega, ?_, ?_⟩
      · rw [hsame, ← hoffset]
        exact hzero
      · exact .inl (by rw [hsame, hoffset])
    · refine .inl ⟨by omega, ?_, by rw [hnext]; exact hzero'⟩
      have hwritten := (hmeans.step_iff (by omega) (by omega)).mpr
        (.inr ⟨bytes, htext, hne, by omega, by omega⟩)
      rwa [writtenTexts_step (by omega) (by omega) htext (by omega)] at hwritten
    · exact .inr ⟨by omega, k, by omega, hkoct, hzero', .inr hfull⟩
  · right
    refine ⟨by omega, ?_⟩
    rcases hend with hend | hfull
    · rw [← hend] at hzero hk hkoct
      rcases snprintfStep_text h (by omega) hhigh hspare hzero htext hne with
        ⟨-, hsame⟩ | ⟨hroom, hnext, hzero'⟩ | ⟨-, hfull, k', hk', hkoct', hzero'⟩
      · rw [hsame]
        exact ⟨buf.offset, by omega, hkoct, hzero, .inl rfl⟩
      · exact ⟨_, by omega, by omega, hzero', .inl hnext⟩
      · exact ⟨k', by omega, hkoct', hzero', .inr hfull⟩
    · obtain ⟨hdata, hfull'⟩ := snprintfStep_full h (by omega) hhigh hspare hfull htext
      exact ⟨k, by omega, hkoct, by rw [hdata]; exact hzero, .inr hfull'⟩

/-- All calls. -/
theorem CmmBuf.Kept.run (hkept : buf.Kept octCnt asked) (h : buf.Bounded octCnt)
    (hlow : 102 ≤ octCnt) (hhigh : octCnt < 1073741824)
    (hcalls : ∀ call ∈ calls, call.spare < 1048576 ∧
      ∃ bytes, call.text = .text bytes ∧ bytes ≠ []) :
    (Runs.run snprintfStep buf calls).1.Kept octCnt (asked ++ askedText calls) ∧
      (Runs.run snprintfStep buf calls).1.Bounded octCnt := by
  induction calls generalizing buf asked with
  | nil =>
    rw [askedText, List.flatMap_nil, List.append_nil]
    exact ⟨hkept, h⟩
  | cons call calls ih =>
    obtain ⟨hspare, bytes, htext, hne⟩ := hcalls call List.mem_cons_self
    have hnext := hkept.step h hlow hhigh hspare htext hne
    have hrest := ih hnext (h.step (by omega) hhigh hspare).1
      fun c hc => hcalls c (List.mem_cons_of_mem call hc)
    rwa [List.append_assoc] at hrest

/-- The bytes of a buffer around one of them. -/
theorem CmmBuf.slice_split {k : ℕ} (hk : k < buf.octCnt) :
    ∃ rest, slice buf.data 0 buf.octCnt = slice buf.data 0 k ++ buf.data k :: rest := by
  obtain ⟨n, hn⟩ := Nat.exists_eq_add_of_lt hk
  refine ⟨slice buf.data (k + 1) n, ?_⟩
  rw [hn, Nat.add_assoc, slice_add, Nat.zero_add, Nat.add_comm n 1, slice_add]
  simp [slice]

/-- The string in a buffer that holds a text and a zero behind it. -/
theorem CmmBuf.Means.string (h : buf.Means asked) (hlt : asked.length < buf.octCnt)
    (hzero : buf.data buf.offset = 0) (hfree : 0 ∉ asked) : buf.string = asked := by
  have hoffset := h.offset_eq
  obtain ⟨rest, hsplit⟩ := CmmBuf.slice_split (hoffset ▸ hlt)
  have hall : ∀ c ∈ asked, decide (c ≠ 0) = true := by
    intro c hc
    exact decide_eq_true fun heq => hfree (heq ▸ hc)
  rw [CmmBuf.string, hsplit, h.2, ofBuffer, List.takeWhile_append_of_pos hall, hzero]
  simp

/-- A zero bounds the string in a buffer. -/
theorem CmmBuf.string_length_le {k : ℕ} (hk : k < buf.octCnt) (hzero : buf.data k = 0) :
    buf.string.length ≤ k := by
  obtain ⟨rest, hsplit⟩ := CmmBuf.slice_split hk
  have hlen := (List.takeWhile_sublist (l := slice buf.data 0 k) (· ≠ 0)).length_le
  rw [slice_length] at hlen
  rw [CmmBuf.string, hsplit, hzero, ofBuffer, List.takeWhile_append]
  split_ifs
  · simp
  · exact hlen

/-- The string left in a buffer of zeros. -/
theorem string_run_eq_iff (hlow : 102 ≤ octCnt) (hhigh : octCnt < 1073741824)
    (hcalls : ∀ call ∈ calls, call.spare < 1048576 ∧
      ∃ bytes, call.text = .text bytes ∧ bytes ≠ [])
    (hfree : 0 ∉ askedText calls) :
    (Runs.run snprintfStep ⟨octCnt, 0, fun _ => 0⟩ calls).1.string = askedText calls ↔
      (askedText calls).length + 102 ≤ octCnt := by
  have hstart : CmmBuf.Kept octCnt [] ⟨octCnt, 0, fun _ => 0⟩ :=
    .inl ⟨by simpa using hlow, ⟨by simp, rfl⟩, rfl⟩
  obtain ⟨hkept, hoct, -⟩ := hstart.run ⟨rfl, by dsimp only; omega⟩ hlow hhigh hcalls
  rw [List.nil_append] at hkept
  rcases hkept with ⟨hfits, hmeans, hzero⟩ | ⟨hover, k, hk, hkoct, hzero, -⟩
  · exact iff_of_true (hmeans.string (by omega) hzero hfree) hfits
  · refine iff_of_false ?_ (by omega)
    intro heq
    have hle := CmmBuf.string_length_le (hoct.symm ▸ hkoct) hzero
    rw [heq] at hle
    omega

end Run

end TestMac

import TestMac.Common.SnprintfBuf

/-!
# What the offset of a buffer says: `CmmBuf_s`

Before the offset the data of a buffer is valid: it is made of the indents and the texts that the
calls of `snprintfBuf` have written. The offset moves by what `vsnprintf` returns, which counts
the bytes written for a text that fits only.
-/

namespace TestMac

open Bytes CString

/-- The bytes of a write that are meant to stay, without the zero. -/
def BufEvent.text : BufEvent → List UInt8
  | .write _ text _ => text
  | .vsnprintf _ _ => []

/-- The indents and the texts written, in order. -/
def writtenTexts (es : List BufEvent) : List UInt8 := es.flatMap BufEvent.text

/-- The comment in `CmmBuf_s`: before the offset there are the bytes written. -/
def CmmBuf.Means (buf : CmmBuf) (written : List UInt8) : Prop :=
  buf.offset ≤ buf.octCnt ∧ slice buf.data 0 buf.offset = written

/-- A text that is converted, not empty and shorter than `2 ^ 31`, and ends more than a hundred
and one bytes before the end of the buffer, or a call that is refused. -/
def CmmBuf.Fits (buf : CmmBuf) (call : SnprintfCall) : Prop :=
  buf.Refuses call.spare ∨
    ∃ bytes, call.text = .text bytes ∧ bytes ≠ [] ∧ bytes.length < 2147483648 ∧
      buf.offset + 4 * call.spare + bytes.length + 101 < buf.octCnt

variable {buf : CmmBuf} {spare : ℕ} {text : Conversion} {written : List UInt8}
  {call : SnprintfCall} {calls : List SnprintfCall}

theorem writtenTexts_append (es es' : List BufEvent) :
    writtenTexts (es ++ es') = writtenTexts es ++ writtenTexts es' := List.flatMap_append

theorem CmmBuf.Means.offset_eq (h : buf.Means written) : buf.offset = written.length := by
  rw [← h.2, slice_length]

section Indent

theorem writtenTexts_indent (spare : ℕ) (buf : CmmBuf) :
    writtenTexts (indent spare buf).2 = List.replicate (4 * spare) 32 := by
  induction spare generalizing buf with
  | zero => rfl
  | succ spare ih =>
    rw [indent, writtenTexts, List.flatMap_cons, ← writtenTexts, ih, BufEvent.text,
      List.replicate_append_replicate, Nat.mul_succ, Nat.add_comm]

/-- An indent inside the buffer is written before the offset. -/
theorem CmmBuf.Means.indented (h : buf.Means written) (hoct : buf.octCnt < 4294967296)
    (hroom : buf.offset + 4 * spare ≤ buf.octCnt) :
    (indent spare buf).1.Means (written ++ writtenTexts (indent spare buf).2) := by
  induction spare generalizing buf written with
  | zero => simpa [indent, writtenTexts] using h
  | succ spare ih =>
    obtain ⟨-, hdata⟩ := h
    have hmod : (buf.offset + 4) % 4294967296 = buf.offset + 4 := Nat.mod_eq_of_lt (by omega)
    have hfirst : CmmBuf.Means
        { buf with
          data := store buf.data buf.offset (List.replicate 4 32 ++ [0])
          offset := (buf.offset + 4) % 4294967296 } (written ++ List.replicate 4 32) := by
      refine ⟨by simp only [hmod]; omega, ?_⟩
      have hslice := slice_store_append buf.data 0 buf.offset (List.replicate 4 32) [0]
      simp only [hmod]
      rwa [Nat.zero_add, List.length_replicate, hdata] at hslice
    have hrest := ih hfirst hoct (by simp only [hmod]; omega)
    simpa [indent, writtenTexts, BufEvent.text] using hrest

end Indent

section Step

theorem vsnprintfBuf_offset_lt (text : Conversion) (hoct : buf.octCnt < 4294967296)
    (hoffset : buf.offset < 4294967296) : (vsnprintfBuf text buf).2.1.offset < 4294967296 := by
  rw [vsnprintfBuf]
  by_cases hend : buf.octCnt ≤ buf.offset
  · rwa [if_pos hend]
  · rw [if_neg hend]
    dsimp only
    split_ifs
    · exact Nat.mod_lt _ (by decide)
    · exact hoct

/-- Behind an indent that leaves more than a hundred bytes, the value that `vsnprintf` returns
decides whether the offset still means what it does. -/
theorem CmmBuf.Means.vsnprintfBuf_iff (h : buf.Means written) (hoct : buf.octCnt < 4294967296)
    (hroom : buf.offset + 100 < buf.octCnt) :
    (vsnprintfBuf text buf).2.1.Means (written ++ writtenTexts (vsnprintfBuf text buf).2.2) ↔
      ∃ bytes, text = .text bytes ∧ bytes ≠ [] ∧
        bytes.length < buf.octCnt - buf.offset - 101 ∧ bytes.length < 2147483648 := by
  have hlength := vsnprintf_length_le (buf.octCnt - buf.offset - 101) text
  have hrev := vsnprintf_rev_lt (buf.octCnt - buf.offset - 101) text
  have hwritten := h.offset_eq
  rw [← CmmBuf.printed] at hlength hrev
  rw [← vsnprintf_counts_iff, ← CmmBuf.printed, vsnprintfBuf_eq hoct hroom]
  generalize buf.printed text = p at hlength hrev ⊢
  have htexts : writtenTexts [.vsnprintf buf.offset (buf.octCnt - buf.offset - 101),
      .write buf.offset p.text p.zero] = p.text := by
    simp [writtenTexts, BufEvent.text]
  simp only [htexts]
  constructor
  · intro hmeans
    have hlen := hmeans.offset_eq
    rw [List.length_append, ← hwritten] at hlen
    dsimp only at hlen
    split_ifs at hlen with hpos
    · refine ⟨hpos, ?_⟩
      omega
    · omega
  · rintro ⟨hpos, hcounts⟩
    have hnat : p.rev.toNat = p.text.length := by omega
    have hmod : (buf.offset + p.text.length) % 4294967296 = buf.offset + p.text.length :=
      Nat.mod_eq_of_lt (by omega)
    have hslice := slice_store_append buf.data 0 buf.offset p.text p.zero
    rw [Nat.zero_add, h.2] at hslice
    rw [CmmBuf.Means, if_pos hpos, hnat, hmod]
    exact ⟨by dsimp only; omega, hslice⟩

/-- A call that finds a buffer as it should be leaves it so exactly when it fits. -/
theorem CmmBuf.Means.step_iff (h : buf.Means written) (hlow : 100 ≤ buf.octCnt)
    (hoct : buf.octCnt < 4294967296) :
    (snprintfStep buf call).1.Means (written ++ writtenTexts (snprintfStep buf call).2) ↔
      buf.Fits call := by
  rw [snprintfStep]
  by_cases hguard : buf.Refuses call.spare
  · rw [snprintfBuf_refused hguard]
    simpa [CmmBuf.Fits, hguard, writtenTexts] using h
  rw [snprintfBuf_granted hguard, writtenTexts_append, ← List.append_assoc, CmmBuf.Fits,
    or_iff_right hguard]
  by_cases hindent : buf.offset + 4 * call.spare < 4294967296
  · obtain ⟨hoffset, hroom⟩ := granted_room hlow hoct hguard hindent
    have hinside : buf.offset + 4 * call.spare ≤ buf.octCnt := by omega
    rw [(h.indented hoct hinside).vsnprintfBuf_iff (by rwa [indent_octCnt])
      (by rw [indent_octCnt]; omega), indent_octCnt, hoffset]
    refine exists_congr fun bytes => and_congr_right fun _ => and_congr_right fun _ => ?_
    omega
  · constructor
    · -- the offset has wrapped, and what is written is longer than any offset
      intro hmeans
      have hwritten := h.offset_eq
      have hoffset : (indent call.spare buf).1.offset < 4294967296 := by
        rw [indent_offset (h.1.trans_lt hoct)]
        exact Nat.mod_lt _ (by decide)
      have hlt := vsnprintfBuf_offset_lt call.text (by rwa [indent_octCnt]) hoffset
      rw [hmeans.offset_eq, List.length_append, List.length_append, writtenTexts_indent,
        List.length_replicate] at hlt
      omega
    · rintro ⟨bytes, -, -, -, hfits⟩
      omega

end Step

/-- Along a sequence of calls a buffer keeps its meaning exactly when every call fits in the
buffer that it finds. -/
theorem run_snprintfBuf_means_iff (hlow : 100 ≤ buf.octCnt) (hoct : buf.octCnt < 4294967296)
    (hoffset : buf.offset ≤ buf.octCnt) :
    (∀ calls', calls' <+: calls → (Runs.run snprintfStep buf calls').1.Means
        (slice buf.data 0 buf.offset ++ writtenTexts (Runs.run snprintfStep buf calls').2)) ↔
      Runs.Meets snprintfStep CmmBuf.Fits buf calls := by
  have hstart : buf.Means (slice buf.data 0 buf.offset ++ writtenTexts []) :=
    ⟨hoffset, (List.append_nil _).symm⟩
  refine Runs.forall_prefix_iff (fun b : CmmBuf => 100 ≤ b.octCnt ∧ b.octCnt < 4294967296)
    (fun b es => b.Means (slice buf.data 0 buf.offset ++ writtenTexts es)) ?_ ?_ ⟨hlow, hoct⟩
    hstart
  · rintro b call hkept
    rwa [snprintfStep_octCnt]
  · rintro b es call ⟨hlow, hoct⟩ hmeans
    rw [writtenTexts_append, ← List.append_assoc]
    exact hmeans.step_iff hlow hoct

/-- An indented text, and a call refused behind it. -/
theorem run_snprintfBuf_means_fits :
    (Runs.run snprintfStep ⟨200, 0, fun _ => 0⟩
        [⟨1, .text (List.replicate 94 65)⟩, ⟨1, .text []⟩]).1.Means
      (slice (fun _ => 0) 0 0 ++ writtenTexts (Runs.run snprintfStep ⟨200, 0, fun _ => 0⟩
        [⟨1, .text (List.replicate 94 65)⟩, ⟨1, .text []⟩]).2) := by
  have hmeets : Runs.Meets snprintfStep CmmBuf.Fits ⟨200, 0, fun _ => 0⟩
      [⟨1, .text (List.replicate 94 65)⟩, ⟨1, .text []⟩] := by
    refine ⟨.inr ⟨_, rfl, ?_⟩, .inl ?_, trivial⟩ <;> decide +kernel
  exact (run_snprintfBuf_means_iff (by decide) (by decide) (by decide)).mpr hmeets _
    List.prefix_rfl

/-- A text of 250 bytes moves the offset behind the end of a buffer of 200 bytes, of which it
fills 98, and an empty text moves it to the end. -/
theorem run_snprintfBuf_means_fails :
    ¬ (Runs.run snprintfStep ⟨200, 0, fun _ => 0⟩ [⟨0, .text (List.replicate 250 65)⟩]).1.Means
        (writtenTexts (Runs.run snprintfStep ⟨200, 0, fun _ => 0⟩
          [⟨0, .text (List.replicate 250 65)⟩]).2) ∧
      ¬ (Runs.run snprintfStep ⟨200, 0, fun _ => 0⟩ [⟨0, .text []⟩]).1.Means
        (writtenTexts (Runs.run snprintfStep ⟨200, 0, fun _ => 0⟩ [⟨0, .text []⟩]).2) := by
  constructor
  · intro h
    exact absurd h.offset_eq (by decide +kernel)
  · intro h
    exact absurd h.offset_eq (by decide +kernel)

end TestMac

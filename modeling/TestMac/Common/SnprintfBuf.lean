import TestMac.Lib.Bytes
import TestMac.Lib.CString
import TestMac.Lib.Paths

/-!
# Texts put into a buffer: `snprintbuf.c`

`snprintfBuf` puts an indent and a text behind what a buffer holds. Three margins guard it:
the room for an indent is measured from a hundred bytes before the end of the buffer, the end
itself is looked at behind the indent, and the text is given one byte less than those hundred
leave.
-/

namespace TestMac

open Bytes CString

/-- The difference of two numbers of type `unsigned`. -/
def usub (a b : ℕ) : ℕ := (4294967296 + a - b) % 4294967296

/-- `CmmBuf_s`. The memory begins where the buffer does. -/
structure CmmBuf where
  octCnt : ℕ
  offset : ℕ
  data : Mem

/-- What is done to a buffer: a text is written with the zero that ends it, or `vsnprintf` is
called with a size. -/
inductive BufEvent
  | write (index : ℕ) (text zero : List UInt8)
  | vsnprintf (offset size : ℕ)

/-- The loop of `snprintfBuf` that writes the indent. -/
def indent : ℕ → CmmBuf → CmmBuf × List BufEvent
  | 0, buf => (buf, [])
  | spare + 1, buf =>
    let spaces := List.replicate 4 32
    let rest := indent spare { buf with
      data := store buf.data buf.offset (spaces ++ [0])
      offset := (buf.offset + 4) % 4294967296 }
    (rest.1, .write buf.offset spaces [0] :: rest.2)

/-- The part of `snprintfBuf` behind the indent. -/
def vsnprintfBuf (text : Conversion) (buf : CmmBuf) : ℤ × CmmBuf × List BufEvent :=
  if buf.octCnt ≤ buf.offset then (-1, buf, [])
  else
    let size := usub (usub buf.octCnt buf.offset) 101
    let printed := vsnprintf size text
    let buf' : CmmBuf :=
      { buf with
        data := store buf.data buf.offset (printed.text ++ printed.zero)
        offset := if 0 < printed.rev then (buf.offset + printed.rev.toNat) % 4294967296
          else buf.octCnt }
    (printed.rev, buf',
      [.vsnprintf buf.offset size, .write buf.offset printed.text printed.zero])

/-- The first guard of `snprintfBuf`: the indent ends too close to the end of the buffer. -/
def CmmBuf.Refuses (buf : CmmBuf) (spare : ℕ) : Prop :=
  usub buf.octCnt 100 ≤ (buf.offset + 4 * spare) % 4294967296

instance (buf : CmmBuf) (spare : ℕ) : Decidable (buf.Refuses spare) :=
  inferInstanceAs (Decidable (_ ≤ _))

/-- `snprintfBuf`: the value returned, the buffer, and what is done to it. -/
def snprintfBuf (buf : CmmBuf) (spare : ℕ) (text : Conversion) : ℤ × CmmBuf × List BufEvent :=
  if buf.Refuses spare then (-1, buf, [])
  else
    let indented := indent spare buf
    let rest := vsnprintfBuf text indented.1
    (rest.1, rest.2.1, indented.2 ++ rest.2.2)

/-- A call of `snprintfBuf`: the number of indents, and what the text comes to. -/
structure SnprintfCall where
  spare : ℕ
  text : Conversion

/-- One call, without the value returned. -/
def snprintfStep (buf : CmmBuf) (call : SnprintfCall) : CmmBuf × List BufEvent :=
  (snprintfBuf buf call.spare call.text).2

/-- The bytes that a write puts into the memory. -/
def BufEvent.apply (m : Mem) : BufEvent → Mem
  | .write index text zero => store m index (text ++ zero)
  | .vsnprintf _ _ => m

/-- Nothing is written at the end of the buffer or behind it, and a size is what the buffer
has left, without the margin. -/
def BufEvent.Safe (octCnt : ℕ) : BufEvent → Prop
  | .write index text zero => index + (text ++ zero).length ≤ octCnt
  | .vsnprintf offset size => offset + 101 + size = octCnt

variable {buf : CmmBuf} {spare octCnt : ℕ} {text : Conversion} {calls : List SnprintfCall}

theorem usub_eq {a b : ℕ} (h : b ≤ a) (ha : a < 4294967296) : usub a b = a - b := by
  unfold usub
  omega

section Indent

theorem indent_octCnt (spare : ℕ) (buf : CmmBuf) :
    (indent spare buf).1.octCnt = buf.octCnt := by
  induction spare generalizing buf with
  | zero => rfl
  | succ spare ih => exact ih _

theorem indent_offset (h : buf.offset < 4294967296) :
    (indent spare buf).1.offset = (buf.offset + 4 * spare) % 4294967296 := by
  induction spare generalizing buf with
  | zero => exact (Nat.mod_eq_of_lt h).symm
  | succ spare ih =>
    rw [indent, ih (Nat.mod_lt _ (by decide))]
    dsimp only
    omega

/-- The loop stays below where it ends, but for one byte. -/
theorem indent_safe (h : buf.offset + 4 * spare < octCnt) :
    ∀ e ∈ (indent spare buf).2, e.Safe octCnt := by
  induction spare generalizing buf with
  | zero => exact fun e he => absurd he List.not_mem_nil
  | succ spare ih =>
    intro e he
    rw [indent] at he
    rcases List.mem_cons.mp he with rfl | he
    · simp only [BufEvent.Safe, List.length_append, List.length_replicate, List.length_singleton]
      omega
    · refine ih ?_ e he
      dsimp only
      omega

theorem indent_data (spare : ℕ) (buf : CmmBuf) :
    (indent spare buf).1.data = (indent spare buf).2.foldl BufEvent.apply buf.data := by
  induction spare generalizing buf with
  | zero => rfl
  | succ spare ih => exact ih _

end Indent

section Step

theorem snprintfBuf_refused (h : buf.Refuses spare) :
    snprintfBuf buf spare text = (-1, buf, []) := if_pos h

theorem snprintfBuf_granted (h : ¬ buf.Refuses spare) :
    snprintfBuf buf spare text =
      ((vsnprintfBuf text (indent spare buf).1).1, (vsnprintfBuf text (indent spare buf).1).2.1,
        (indent spare buf).2 ++ (vsnprintfBuf text (indent spare buf).1).2.2) := if_neg h

theorem vsnprintfBuf_octCnt (text : Conversion) (buf : CmmBuf) :
    (vsnprintfBuf text buf).2.1.octCnt = buf.octCnt := by
  rw [vsnprintfBuf]
  by_cases hend : buf.octCnt ≤ buf.offset
  · rw [if_pos hend]
  · rw [if_neg hend]

theorem snprintfStep_octCnt (buf : CmmBuf) (call : SnprintfCall) :
    (snprintfStep buf call).1.octCnt = buf.octCnt := by
  rw [snprintfStep]
  by_cases hguard : buf.Refuses call.spare
  · rw [snprintfBuf_refused hguard]
  · rw [snprintfBuf_granted hguard, vsnprintfBuf_octCnt, indent_octCnt]

theorem vsnprintfBuf_data (text : Conversion) (buf : CmmBuf) :
    (vsnprintfBuf text buf).2.1.data =
      (vsnprintfBuf text buf).2.2.foldl BufEvent.apply buf.data := by
  rw [vsnprintfBuf]
  by_cases hend : buf.octCnt ≤ buf.offset
  · rw [if_pos hend]
    rfl
  · rw [if_neg hend]
    rfl

/-- The memory is changed by what is written only. -/
theorem snprintfStep_data (buf : CmmBuf) (call : SnprintfCall) :
    (snprintfStep buf call).1.data =
      (snprintfStep buf call).2.foldl BufEvent.apply buf.data := by
  rw [snprintfStep]
  by_cases hguard : buf.Refuses call.spare
  · rw [snprintfBuf_refused hguard]
    rfl
  · rw [snprintfBuf_granted hguard, List.foldl_append, ← indent_data, vsnprintfBuf_data]

/-- What `vsnprintf` makes of a text at the offset. -/
def CmmBuf.printed (buf : CmmBuf) (text : Conversion) : Printed :=
  vsnprintf (buf.octCnt - buf.offset - 101) text

/-- Behind an indent that leaves more than a hundred bytes. -/
theorem vsnprintfBuf_eq (hoct : buf.octCnt < 4294967296) (hroom : buf.offset + 100 < buf.octCnt) :
    vsnprintfBuf text buf =
      ((buf.printed text).rev,
        { octCnt := buf.octCnt
          offset := if 0 < (buf.printed text).rev then
              (buf.offset + (buf.printed text).rev.toNat) % 4294967296
            else buf.octCnt
          data := store buf.data buf.offset
            ((buf.printed text).text ++ (buf.printed text).zero) },
        [.vsnprintf buf.offset (buf.octCnt - buf.offset - 101),
          .write buf.offset (buf.printed text).text (buf.printed text).zero]) := by
  have hsize : usub (usub buf.octCnt buf.offset) 101 = buf.octCnt - buf.offset - 101 := by
    rw [usub_eq (by omega) hoct, usub_eq (by omega) (by omega)]
  have hend : ¬ buf.octCnt ≤ buf.offset := by omega
  unfold vsnprintfBuf CmmBuf.printed
  rw [if_neg hend, hsize]

/-- A call that is not refused, when its indent ends below `2 ^ 32`, leaves more than a hundred
bytes behind the indent. -/
theorem granted_room (hlow : 100 ≤ buf.octCnt) (hoct : buf.octCnt < 4294967296)
    (hgranted : ¬ buf.Refuses spare) (hindent : buf.offset + 4 * spare < 4294967296) :
    (indent spare buf).1.offset = buf.offset + 4 * spare ∧
      buf.offset + 4 * spare + 100 < buf.octCnt := by
  rw [CmmBuf.Refuses, usub_eq hlow hoct] at hgranted
  constructor
  · rw [indent_offset (by omega), Nat.mod_eq_of_lt hindent]
  · omega

end Step

/-- The offset is at most where a text of the greatest length leaves it. -/
def CmmBuf.Bounded (octCnt : ℕ) (buf : CmmBuf) : Prop :=
  buf.octCnt = octCnt ∧ buf.offset < octCnt + 2147483648

section Bounded

/-- The part behind the indent, when that leaves more than a hundred bytes. -/
theorem CmmBuf.Bounded.behind_indent (h : buf.Bounded octCnt) (hhigh : octCnt < 1073741824)
    (hroom : buf.offset + 100 < octCnt) (text : Conversion) :
    (vsnprintfBuf text buf).2.1.Bounded octCnt ∧
      ∀ e ∈ (vsnprintfBuf text buf).2.2, e.Safe octCnt := by
  obtain ⟨rfl, -⟩ := h
  have hlength := vsnprintf_length_le (buf.octCnt - buf.offset - 101) text
  have hrev := vsnprintf_rev_lt (buf.octCnt - buf.offset - 101) text
  rw [← CmmBuf.printed] at hlength hrev
  rw [vsnprintfBuf_eq (by omega) hroom]
  constructor
  · refine ⟨rfl, ?_⟩
    dsimp only
    split_ifs <;> omega
  · intro e he
    rcases List.mem_cons.mp he with rfl | he
    · simp only [BufEvent.Safe]
      omega
    · obtain rfl := List.mem_singleton.mp he
      simp only [BufEvent.Safe, List.length_append]
      omega

/-- One call keeps the offset bounded and is safe. -/
theorem CmmBuf.Bounded.step (h : buf.Bounded octCnt) (hlow : 100 ≤ octCnt)
    (hhigh : octCnt < 1073741824) {call : SnprintfCall} (hspare : call.spare < 1048576) :
    (snprintfStep buf call).1.Bounded octCnt ∧
      ∀ e ∈ (snprintfStep buf call).2, e.Safe octCnt := by
  obtain ⟨hoct, hoff⟩ := h
  rw [snprintfStep]
  by_cases hguard : buf.Refuses call.spare
  · rw [snprintfBuf_refused hguard]
    exact ⟨⟨hoct, hoff⟩, fun e he => absurd he List.not_mem_nil⟩
  · obtain ⟨hoffset, hroom⟩ := granted_room (by omega) (by omega) hguard (by omega)
    have hindented : (indent call.spare buf).1.Bounded octCnt := by
      rw [CmmBuf.Bounded, indent_octCnt, hoffset]
      exact ⟨hoct, by omega⟩
    obtain ⟨hbounded, hsafe⟩ := hindented.behind_indent hhigh (by omega) call.text
    rw [snprintfBuf_granted hguard]
    refine ⟨hbounded, ?_⟩
    intro e he
    rcases List.mem_append.mp he with he | he
    · exact indent_safe (by omega) e he
    · exact hsafe e he

/-- What is safe leaves the memory behind the buffer alone. -/
theorem foldl_apply_safe {es : List BufEvent} (h : ∀ e ∈ es, e.Safe octCnt) {i : ℕ}
    (hi : octCnt ≤ i) (m : Mem) : es.foldl BufEvent.apply m i = m i := by
  induction es generalizing m with
  | nil => rfl
  | cons e es ih =>
    have hone : BufEvent.apply m e i = m i := by
      have hsafe := h e List.mem_cons_self
      cases e with
      | write index text zero => exact store_of_not_mem (.inr (le_trans hsafe hi))
      | vsnprintf offset size => rfl
    rw [List.foldl_cons, ih fun e' he' => h e' (List.mem_cons_of_mem e he'), hone]

end Bounded

/-- In every sequence of calls nothing is written behind the end of the buffer, the sizes given
to `vsnprintf` do not wrap, and the memory behind the buffer is left alone, whatever the texts
come to and from every offset that earlier calls leave. -/
theorem run_snprintfBuf_safe (hlow : 100 ≤ buf.octCnt) (hhigh : buf.octCnt < 1073741824)
    (hoffset : buf.offset < buf.octCnt + 2147483648)
    (hspare : ∀ call ∈ calls, call.spare < 1048576) :
    (∀ e ∈ (Runs.run snprintfStep buf calls).2, e.Safe buf.octCnt) ∧
      ∀ i, buf.octCnt ≤ i → (Runs.run snprintfStep buf calls).1.data i = buf.data i := by
  obtain ⟨octCnt, hoct⟩ : ∃ octCnt, buf.octCnt = octCnt := ⟨_, rfl⟩
  rw [hoct] at hlow hhigh hoffset ⊢
  have hbounded : buf.Bounded octCnt := ⟨hoct, hoffset⟩
  clear hoffset hoct
  induction calls generalizing buf with
  | nil => exact ⟨fun e he => absurd he List.not_mem_nil, fun i _ => rfl⟩
  | cons call calls ih =>
    obtain ⟨hnext, hsafe⟩ := hbounded.step hlow hhigh (hspare call List.mem_cons_self)
    obtain ⟨hrest, hdata⟩ := ih (fun c hc => hspare c (List.mem_cons_of_mem call hc)) hnext
    constructor
    · intro e he
      rcases List.mem_append.mp he with he | he
      · exact hsafe e he
      · exact hrest e he
    · intro i hi
      rw [Runs.run, hdata i hi, snprintfStep_data, foldl_apply_safe hsafe hi]

/-- A text cut off, and a call refused behind it. -/
theorem run_snprintfBuf_safe_cut :
    (∀ e ∈ (Runs.run snprintfStep ⟨200, 0, fun _ => 0⟩
        [⟨1, .text (List.replicate 150 65)⟩, ⟨0, .error [] 0⟩]).2, e.Safe 200) ∧
      ∀ i, 200 ≤ i → (Runs.run snprintfStep ⟨200, 0, fun _ => 0⟩
        [⟨1, .text (List.replicate 150 65)⟩, ⟨0, .error [] 0⟩]).1.data i = 0 :=
  run_snprintfBuf_safe (by decide) (by decide) (by decide) (by decide)

end TestMac

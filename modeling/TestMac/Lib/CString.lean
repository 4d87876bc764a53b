import Mathlib.Data.Int.Notation
import Mathlib.Tactic.Common

/-!
# Strings of the C library

A string is the list of its bytes, without the byte 0 that ends it. The functions
follow the library in the locale `C`; `strtok` is given what it keeps between its calls,
and `vsnprintf` what the format and its arguments come to.
-/

namespace CString

/-- The bytes of a string written in a program. -/
def literal (s : String) : List UInt8 := s.toList.map fun c => UInt8.ofNat c.toNat

/-- The string at the start of a buffer. -/
def ofBuffer (buf : List UInt8) : List UInt8 := buf.takeWhile (· ≠ 0)

def tolower (c : UInt8) : UInt8 := if 65 ≤ c ∧ c ≤ 90 then c + 32 else c

/-- `strcasecmp` returns 0. -/
def equalNoCase (s t : List UInt8) : Bool := s.map tolower == t.map tolower

/-- `strtok`: a token, and the rest of the string behind the separator that ends it. -/
def strtok (seps s : List UInt8) : Option (List UInt8 × List UInt8) :=
  let s := s.dropWhile (· ∈ seps)
  if s = [] then none
  else some (s.takeWhile (· ∉ seps), (s.dropWhile (· ∉ seps)).drop 1)

/-- The tokens found by a number of calls of `strtok`, as long as there are any. -/
def tokens (seps : List UInt8) : ℕ → List UInt8 → List (List UInt8)
  | 0, _ => []
  | n + 1, s =>
    match strtok seps s with
    | none => []
    | some (token, rest) => token :: tokens seps n rest

def isspace (c : UInt8) : Bool := c = 32 || (9 ≤ c && c ≤ 13)

/-- The value of a digit, in bases up to 36. -/
def digit (c : UInt8) : Option ℕ :=
  if 48 ≤ c ∧ c ≤ 57 then some (c.toNat - 48)
  else if 97 ≤ tolower c ∧ tolower c ≤ 122 then some ((tolower c).toNat - 87)
  else none

/-- The number that the digits at the start of a string spell. -/
def numeral (base : ℕ) (s : List UInt8) : ℕ :=
  (s.takeWhile fun c => (digit c).any (· < base)).foldl
    (fun n c => n * base + (digit c).getD 0) 0

/-- The digits behind the mark of a base, in the base they are written in. -/
def numeralAnyBase (s : List UInt8) : ℕ :=
  match s with
  | 48 :: c :: digits => if tolower c = 120 then numeral 16 digits else numeral 8 (c :: digits)
  | _ => numeral 10 s

/-- `strtoul` in base 0. A number too large becomes the largest one, and the sign of
the others is kept modulo 2⁶⁴. -/
def strtoul (s : List UInt8) : ℕ :=
  let s := s.dropWhile isspace
  let value := numeralAnyBase (if s.head? = some 43 ∨ s.head? = some 45 then s.drop 1 else s)
  if 0xFFFFFFFFFFFFFFFF < value then 0xFFFFFFFFFFFFFFFF
  else if s.head? = some 45 then (0x10000000000000000 - value) % 0x10000000000000000
  else value

/-- The digits of a number in a base up to 16. -/
def spell (base n : ℕ) : List UInt8 :=
  (Nat.toDigits base n).map fun c => UInt8.ofNat c.toNat

/-- The conversion `%d`. -/
def decimal (n : ℤ) : List UInt8 :=
  if n < 0 then 45 :: spell 10 n.natAbs else spell 10 n.natAbs

/-- The digits are `0` to `9` and `a` to `f`. -/
theorem mem_spell {base n : ℕ} (hlow : 1 < base) (hhigh : base ≤ 16) {c : UInt8}
    (h : c ∈ spell base n) : 48 ≤ c ∧ c ≤ 57 ∨ 97 ≤ c ∧ c ≤ 102 := by
  have hdigit : ∀ d < base, 48 ≤ UInt8.ofNat d.digitChar.toNat ∧
      UInt8.ofNat d.digitChar.toNat ≤ 57 ∨ 97 ≤ UInt8.ofNat d.digitChar.toNat ∧
      UInt8.ofNat d.digitChar.toNat ≤ 102 := by
    intro d hd
    have hd' : d < 16 := by omega
    clear hd
    revert d
    decide
  induction n using Nat.base_induction base hlow with
  | single n hn =>
    rw [spell, Nat.toDigits_of_lt_base hn, List.map_singleton, List.mem_singleton] at h
    exact h ▸ hdigit n hn
  | digit n d hd hn ih =>
    rw [spell, ← Nat.toDigits_append_toDigits hlow hn hd, Nat.toDigits_of_lt_base hd,
      List.map_append, List.mem_append] at h
    rcases h with h | h
    · exact ih h
    · rw [List.map_singleton, List.mem_singleton] at h
      exact h ▸ hdigit d hd

/-- What a format and its arguments come to: a text, or an error behind some bytes. -/
inductive Conversion
  | text (bytes : List UInt8)
  | error (bytes : List UInt8) (code : ℕ)

/-- The bytes of a text, or those before an error. -/
def Conversion.bytes : Conversion → List UInt8
  | .text bytes => bytes
  | .error bytes _ => bytes

/-- What `vsnprintf` writes, a text and the zero that ends it, and the value it returns. -/
structure Printed where
  text : List UInt8
  zero : List UInt8
  rev : ℤ
  deriving DecidableEq

/-- `vsnprintf`, for the size of the room. The length of the whole text is returned, if it is
an `int`, and a negative value otherwise and after an error. -/
def vsnprintf (size : ℕ) : Conversion → Printed
  | .text bytes =>
    { text := bytes.take (size - 1)
      zero := if size = 0 then [] else [0]
      rev := if bytes.length < 2147483648 then bytes.length else -1 }
  | .error bytes code => { text := bytes.take size, zero := [], rev := -(code + 1) }

section Vsnprintf

variable {size : ℕ} {conversion : Conversion}

/-- No more is written than there is room. -/
theorem vsnprintf_length_le (size : ℕ) (conversion : Conversion) :
    (vsnprintf size conversion).text.length + (vsnprintf size conversion).zero.length ≤ size := by
  cases conversion with
  | text bytes =>
    simp only [vsnprintf, List.length_take]
    split_ifs with hsize
    · simp [hsize]
    · rw [List.length_singleton]
      omega
  | error bytes code =>
    simp only [vsnprintf, List.length_take, List.length_nil]
    omega

theorem vsnprintf_rev_lt (size : ℕ) (conversion : Conversion) :
    (vsnprintf size conversion).rev < 2147483648 := by
  cases conversion with
  | text bytes =>
    simp only [vsnprintf]
    split_ifs <;> omega
  | error bytes code =>
    simp only [vsnprintf]
    omega

/-- A text that fits is written as a whole. -/
theorem vsnprintf_fits {bytes : List UInt8} (hsize : bytes.length < size)
    (hint : bytes.length < 2147483648) :
    vsnprintf size (.text bytes) = ⟨bytes, [0], bytes.length⟩ := by
  rw [vsnprintf, List.take_of_length_le (by omega), if_neg (by omega), if_pos hint]

/-- The value returned is positive and counts the bytes of the text that are written exactly
when there are such, the text fits, and its length is an `int`. -/
theorem vsnprintf_counts_iff :
    0 < (vsnprintf size conversion).rev ∧
        (vsnprintf size conversion).rev = (vsnprintf size conversion).text.length ↔
      ∃ bytes, conversion = .text bytes ∧ bytes ≠ [] ∧ bytes.length < size ∧
        bytes.length < 2147483648 := by
  constructor
  · rintro ⟨hpos, hcounts⟩
    cases conversion with
    | text bytes =>
      simp only [vsnprintf, List.length_take] at hpos hcounts
      split_ifs at hpos hcounts with hint
      refine ⟨bytes, rfl, ?_, by omega, hint⟩
      rintro rfl
      exact absurd hpos (by decide)
    | error bytes code =>
      simp only [vsnprintf] at hpos hcounts
      omega
  · rintro ⟨bytes, rfl, hne, hsize, hint⟩
    have hlen := List.length_pos_iff.mpr hne
    rw [vsnprintf_fits hsize hint]
    exact ⟨Int.natCast_pos.mpr hlen, rfl⟩

end Vsnprintf

end CString

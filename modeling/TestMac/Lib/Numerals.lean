import TestMac.Lib.CString

/-!
# Numbers and words read back from a text

What the digits of a number spell is that number again, in every base that a text can be
written in, and the words of a text are its tokens.
-/

namespace CString

variable {base n : ℕ} {c : UInt8} {rest s : List UInt8}

/-- A digit of a base. -/
def IsDigit (base : ℕ) (c : UInt8) : Bool := (digit c).any (· < base)

theorem numeral_eq (base : ℕ) (s : List UInt8) : numeral base s =
    (s.takeWhile (IsDigit base)).foldl (fun n c => n * base + (digit c).getD 0) 0 := rfl

/-- The digit for a small number has its value. -/
theorem digit_digitChar {d : ℕ} (hd : d < 16) :
    digit (UInt8.ofNat d.digitChar.toNat) = some d := by
  revert d
  decide

theorem isDigit_of_mem_spell (hlow : 1 < base) (hhigh : base ≤ 16) (h : c ∈ spell base n) :
    IsDigit base c = true := by
  have hdigit : ∀ d < base, IsDigit base (UInt8.ofNat d.digitChar.toNat) = true := by
    intro d hd
    rw [IsDigit, digit_digitChar (by omega)]
    simpa using hd
  induction n using Nat.base_induction base hlow with
  | single n hn =>
    rw [spell, Nat.toDigits_of_lt_base hn, List.map_singleton, List.mem_singleton] at h
    exact h ▸ hdigit n hn
  | digit n d hd hn ih =>
    rw [spell, ← Nat.toDigits_append_toDigits hlow hn hd, Nat.toDigits_of_lt_base hd,
      List.map_append, List.mem_append] at h
    rcases h with h | h
    · exact ih h
    · rw [List.map_singleton, List.mem_singleton] at h
      exact h ▸ hdigit d hd

theorem spell_ne_nil (base n : ℕ) : spell base n ≠ [] := by
  simp [spell, Nat.toDigits_ne_nil]

/-- The digits of a number have its value. -/
theorem foldl_spell (hlow : 1 < base) (hhigh : base ≤ 16) (n : ℕ) :
    (spell base n).foldl (fun n c => n * base + (digit c).getD 0) 0 = n := by
  induction n using Nat.base_induction base hlow with
  | single n hn =>
    rw [spell, Nat.toDigits_of_lt_base hn, List.map_singleton, List.foldl_cons, List.foldl_nil,
      digit_digitChar (by omega)]
    simp
  | digit n d hd hn ih =>
    rw [spell, ← Nat.toDigits_append_toDigits hlow hn hd, Nat.toDigits_of_lt_base hd,
      List.map_append, List.foldl_append, ← spell, ih, List.map_singleton, List.foldl_cons,
      List.foldl_nil, digit_digitChar (by omega), Option.getD_some, Nat.mul_comm]

/-- A number is read up to the byte behind its digits. -/
theorem takeWhile_spell (hlow : 1 < base) (hhigh : base ≤ 16)
    (hrest : ∀ c ∈ rest.head?, IsDigit base c = false) :
    (spell base n ++ rest).takeWhile (IsDigit base) = spell base n := by
  rw [List.takeWhile_append_of_pos fun c hc => isDigit_of_mem_spell hlow hhigh hc]
  cases rest with
  | nil => simp
  | cons c rest =>
    rw [List.takeWhile_cons_of_neg (by simp [hrest c rfl]), List.append_nil]

theorem numeral_spell (hlow : 1 < base) (hhigh : base ≤ 16)
    (hrest : ∀ c ∈ rest.head?, IsDigit base c = false) :
    numeral base (spell base n ++ rest) = n := by
  rw [numeral_eq, takeWhile_spell hlow hhigh hrest, foldl_spell hlow hhigh]

/-- The digits of a number are read as that number. -/
theorem numeral_of_spell (hlow : 1 < base) (hhigh : base ≤ 16) :
    numeral base (spell base n) = n := by
  rw [← List.append_nil (spell base n)]
  exact numeral_spell hlow hhigh (by simp)

/-- A number as it may be written: in base ten, or with the mark of its base in front. -/
inductive Spelling (n : ℕ) : List UInt8 → Prop
  | decimal : Spelling n (spell 10 n)
  | octal : Spelling n (48 :: spell 8 n)
  | hex {mark : UInt8} : tolower mark = 120 → Spelling n (48 :: mark :: spell 16 n)

/-- The digits of a positive number do not begin with a zero. -/
theorem spell_eq_cons (hlow : 1 < base) (hhigh : base ≤ 16) (hn : 0 < n) :
    ∃ c s, spell base n = c :: s ∧ c ≠ 48 := by
  induction n using Nat.base_induction base hlow with
  | single n hbase =>
    refine ⟨_, [], by rw [spell, Nat.toDigits_of_lt_base hbase, List.map_singleton], ?_⟩
    intro hzero
    have hdigit := digit_digitChar (show n < 16 by omega)
    rw [hzero] at hdigit
    have hnone : n = 0 := Option.some.inj (hdigit.symm.trans (by decide : digit 48 = some 0))
    omega
  | digit n d hd hpos ih =>
    obtain ⟨c, s, hspell, hc⟩ := ih hpos
    rw [spell] at hspell
    refine ⟨c, s ++ spell base d, ?_, hc⟩
    rw [spell, ← Nat.toDigits_append_toDigits hlow hpos hd, List.map_append, hspell,
      List.cons_append, spell]

/-- The digits of the bases up to ten. -/
theorem isDigit_range (hbase : base ≤ 10) (h : IsDigit base c = true) : 48 ≤ c ∧ c ≤ 57 := by
  unfold IsDigit digit at h
  split_ifs at h with hdigit hletter
  · exact hdigit
  · have hlow : 97 ≤ (tolower c).toNat := UInt8.le_iff_toNat_le.mp hletter.1
    simp only [Option.any_some, decide_eq_true_eq] at h
    omega
  · exact absurd h (by simp)

theorem tolower_of_isDigit (hbase : base ≤ 10) (h : IsDigit base c = true) :
    tolower c ≠ 120 := by
  obtain ⟨-, hhigh⟩ := isDigit_range hbase h
  have hupper : ¬ (65 ≤ c ∧ c ≤ 90) := by grind
  rw [tolower, if_neg hupper]
  grind

theorem numeralAnyBase_of_spelling (h : Spelling n s) : numeralAnyBase s = n := by
  cases h with
  | decimal =>
    rcases Nat.eq_zero_or_pos n with rfl | hn
    · decide
    obtain ⟨c, s, hspell, hc⟩ := spell_eq_cons (by decide : 1 < 10) (by decide) hn
    have hten := @numeral_of_spell 10 n (by decide) (by decide)
    rw [hspell] at hten ⊢
    unfold numeralAnyBase
    split
    · exact absurd (List.cons.inj ‹_›).1 hc
    · exact hten
  | octal =>
    obtain ⟨c, s, hspell⟩ := List.exists_cons_of_ne_nil (spell_ne_nil 8 n)
    have height := @numeral_of_spell 8 n (by decide) (by decide)
    have hdigit : IsDigit 8 c = true :=
      isDigit_of_mem_spell (by decide) (by decide) (hspell ▸ List.mem_cons_self)
    have hmark : tolower c ≠ 120 := tolower_of_isDigit (by decide) hdigit
    rw [hspell] at height ⊢
    rw [numeralAnyBase, if_neg hmark, height]
  | hex hmark =>
    rw [numeralAnyBase.eq_def]
    simp only [if_pos hmark]
    exact numeral_of_spell (by decide) (by decide)

/-- Every spelling begins with a digit. -/
theorem Spelling.head (h : Spelling n s) : ∃ c t, s = c :: t ∧ IsDigit 10 c = true := by
  cases h with
  | decimal =>
    obtain ⟨c, t, hspell⟩ := List.exists_cons_of_ne_nil (spell_ne_nil 10 n)
    exact ⟨c, t, hspell,
      isDigit_of_mem_spell (by decide) (by decide) (hspell ▸ List.mem_cons_self)⟩
  | octal => exact ⟨48, _, rfl, by decide⟩
  | hex _ => exact ⟨48, _, rfl, by decide⟩

/-- A digit is neither a blank nor a sign. -/
theorem not_blank_of_isDigit (h : IsDigit base c = true) :
    isspace c = false ∧ c ≠ 43 ∧ c ≠ 45 := by
  have hlow : 48 ≤ c := by
    unfold IsDigit digit at h
    split_ifs at h with hdigit hletter
    · exact hdigit.1
    · unfold tolower at hletter
      split_ifs at hletter <;> grind
    · exact absurd h (by simp)
  refine ⟨?_, ?_, ?_⟩
  · simp only [isspace, Bool.or_eq_false_iff, decide_eq_false_iff_not, Bool.and_eq_false_iff]
    grind
  · grind
  · grind

/-- A number that fits is read back from each of its spellings. -/
theorem strtoul_of_spelling (h : Spelling n s) (hn : n ≤ 0xFFFFFFFFFFFFFFFF) : strtoul s = n := by
  obtain ⟨c, t, rfl, hdigit⟩ := h.head
  obtain ⟨hblank, hplus, hminus⟩ := not_blank_of_isDigit hdigit
  have hdrop : (c :: t).dropWhile isspace = c :: t :=
    List.dropWhile_cons_of_neg (by simp [hblank])
  rw [strtoul, hdrop]
  simp only [List.head?_cons, Option.some.injEq, hplus, hminus, or_self, if_false,
    numeralAnyBase_of_spelling h]
  rw [if_neg (by omega)]

/-- Numbers are read back, and 0 where there is none. -/
theorem strtoul_getD {args : List ℕ} {words : List (List UInt8)}
    (h : List.Forall₂ (fun n s => Spelling n s ∧ n ≤ 0xFFFFFFFFFFFFFFFF) args words) (k : ℕ) :
    strtoul (words.getD k []) = args.getD k 0 := by
  induction h generalizing k with
  | nil =>
    rw [List.getD_nil, List.getD_nil]
    decide
  | cons hn _ ih =>
    cases k with
    | zero => exact strtoul_of_spelling hn.1 hn.2
    | succ k => exact ih k

/-- The base a text is written in, and the text behind the mark of the base. -/
def markedBase (base : ℕ) (s : List UInt8) : ℕ × List UInt8 :=
  if (base = 0 ∨ base = 16) ∧ s.head? = some 48 ∧
      (s.drop 1).head?.any (fun c => tolower c = 120) ∧ (s.drop 2).head?.any (IsDigit 16)
  then (16, s.drop 2)
  else if base ≠ 0 then (base, s)
  else if s.head? = some 48 then (8, s)
  else (10, s)

/-- `strtoul` with what is left behind the number. -/
def strtoulIn (base : ℕ) (s : List UInt8) : ℕ × List UInt8 :=
  let t := s.dropWhile isspace
  let marked := markedBase base
    (if t.head? = some 43 ∨ t.head? = some 45 then t.drop 1 else t)
  let digits := marked.2.takeWhile (IsDigit marked.1)
  if digits = [] then (0, s)
  else
    let value := numeral marked.1 marked.2
    let value := if 0xFFFFFFFFFFFFFFFF < value then 0xFFFFFFFFFFFFFFFF
      else if t.head? = some 45 then (0x10000000000000000 - value) % 0x10000000000000000
      else value
    (value, marked.2.drop digits.length)

/-- Without a digit at its start, a text has no value. -/
theorem numeral_of_no_digit (h : s.takeWhile (IsDigit base) = []) : numeral base s = 0 := by
  rw [numeral_eq, h, List.foldl_nil]

/-- A zero in front changes nothing. -/
theorem numeral_zero_cons (hbase : 0 < base) : numeral base (48 :: s) = numeral base s := by
  have hzero : IsDigit base 48 = true := by
    rw [IsDigit, show digit 48 = some 0 by decide]
    simpa using hbase
  rw [numeral_eq, numeral_eq, List.takeWhile_cons_of_pos hzero, List.foldl_cons,
    show digit 48 = some 0 by decide]
  simp

theorem numeral_markedBase (s : List UInt8) :
    numeral (markedBase 0 s).1 (markedBase 0 s).2 = numeralAnyBase s := by
  rcases s with - | ⟨a, - | ⟨c, s⟩⟩
  · rfl
  · by_cases ha : a = 48
    · subst ha
      decide
    · simp [markedBase, numeralAnyBase, ha]
  by_cases ha : a = 48
  · subst ha
    by_cases hc : tolower c = 120
    · by_cases hs : s.head?.any (IsDigit 16)
      · simp [markedBase, numeralAnyBase, hc, hs]
      · -- the mark of a base without digits
        have hsixteen : s.takeWhile (IsDigit 16) = [] := by
          cases s with
          | nil => rfl
          | cons d s => exact List.takeWhile_cons_of_neg (by simpa using hs)
        have height : IsDigit 8 c = false := by
          cases hdigit : IsDigit 8 c with
          | false => rfl
          | true => exact absurd hc (tolower_of_isDigit (by decide) hdigit)
        have hnone : (c :: s).takeWhile (IsDigit 8) = [] :=
          List.takeWhile_cons_of_neg (by simp [height])
        simp [markedBase, numeralAnyBase, hc, hs, numeral_of_no_digit hsixteen,
          numeral_zero_cons, numeral_of_no_digit hnone]
    · simp [markedBase, numeralAnyBase, hc, numeral_zero_cons]
  · simp [markedBase, numeralAnyBase, ha]

/-- The value is the one that `strtoul` returns. -/
theorem strtoulIn_fst (s : List UInt8) : (strtoulIn 0 s).1 = strtoul s := by
  unfold strtoulIn strtoul
  dsimp only
  rw [← numeral_markedBase]
  generalize markedBase 0 _ = marked
  by_cases hnone : marked.2.takeWhile (IsDigit marked.1) = []
  · rw [if_pos hnone, numeral_of_no_digit hnone]
    simp
  · rw [if_neg hnone]

/-- A text is read as a whole when digits are all that follows the mark of their base. -/
theorem strtoulIn_of_marked {radix : ℕ} {t : List UInt8}
    (hhead : ∀ c ∈ s.head?, isspace c = false ∧ c ≠ 43 ∧ c ≠ 45)
    (hmarked : markedBase radix s = (base, t)) (hdigits : ∀ c ∈ t, IsDigit base c = true)
    (hne : t ≠ []) (hvalue : numeral base t = n) (hn : n ≤ 0xFFFFFFFFFFFFFFFF) :
    strtoulIn radix s = (n, []) := by
  have hdrop : s.dropWhile isspace = s := by
    cases s with
    | nil => rfl
    | cons c s => exact List.dropWhile_cons_of_neg (by simp [(hhead c rfl).1])
  have hplus : s.head? ≠ some 43 := fun h => (hhead 43 h).2.1 rfl
  have hminus : s.head? ≠ some 45 := fun h => (hhead 45 h).2.2 rfl
  have htake : t.takeWhile (IsDigit base) = t := by
    rw [← List.append_nil t, List.takeWhile_append_of_pos hdigits, List.takeWhile_nil]
  rw [strtoulIn, hdrop]
  simp only [hplus, hminus, or_self, if_false, hmarked, htake, hne, hvalue, List.drop_length]
  rw [if_neg (by omega)]

/-- The mark of the base sixteen is not one of its digits. -/
theorem tolower_ne_mark (h : IsDigit 16 c = true) : tolower c ≠ 120 := by
  intro hmark
  unfold IsDigit digit at h
  split_ifs at h with hdigit
  · unfold tolower at hmark
    split_ifs at hmark <;> grind
  · rw [hmark] at h
    exact absurd h (by decide)
  · exact absurd h (by simp)

/-- There is no mark where the second byte is a digit. -/
theorem markedBase_of_digits {radix : ℕ} (hdigits : ∀ c ∈ s, IsDigit 16 c = true) :
    markedBase radix s = if radix ≠ 0 then (radix, s)
      else if s.head? = some 48 then (8, s) else (10, s) := by
  rw [markedBase, if_neg]
  rintro ⟨-, -, hsecond, -⟩
  obtain ⟨c, hc, hlower⟩ := (Option.any_eq_true _ _).mp hsecond
  have hmem := List.mem_of_mem_drop (List.mem_of_mem_head? hc)
  exact tolower_ne_mark (hdigits c hmem) (by simpa using hlower)

theorem markedBase_of_mark {radix : ℕ} (hradix : radix = 0 ∨ radix = 16) {mark : UInt8}
    (hmark : tolower mark = 120) :
    markedBase radix (48 :: mark :: spell 16 n) = (16, spell 16 n) := by
  obtain ⟨c, t, hspell⟩ := List.exists_cons_of_ne_nil (spell_ne_nil 16 n)
  have hc : IsDigit 16 c = true :=
    isDigit_of_mem_spell (by decide) (by decide) (hspell ▸ List.mem_cons_self)
  simp [markedBase, hradix, hmark, hspell, hc]

/-- What is a digit of a small base is one of the base sixteen. -/
theorem isDigit_mono {base' : ℕ} (hbase : base ≤ base') (h : IsDigit base c = true) :
    IsDigit base' c = true := by
  unfold IsDigit at h ⊢
  obtain ⟨d, hd, hlt⟩ := (Option.any_eq_true _ _).mp h
  exact (Option.any_eq_true _ _).mpr ⟨d, hd, by simp at hlt ⊢; omega⟩

/-- A number in base sixteen, with the mark of the base or without it. -/
theorem strtoulIn_hex {mark : List UInt8}
    (hmark : mark = [] ∨ ∃ c, mark = [48, c] ∧ tolower c = 120)
    (hn : n ≤ 0xFFFFFFFFFFFFFFFF) : strtoulIn 16 (mark ++ spell 16 n) = (n, []) := by
  have hdigits : ∀ c ∈ spell 16 n, IsDigit 16 c = true := fun c hc =>
    isDigit_of_mem_spell (by decide) (by decide) hc
  have hvalue := @numeral_of_spell 16 n (by decide) (by decide)
  rcases hmark with rfl | ⟨c, rfl, hc⟩
  · refine strtoulIn_of_marked (fun c hc => ?_) (markedBase_of_digits hdigits) hdigits
      (spell_ne_nil 16 n) hvalue hn
    exact not_blank_of_isDigit (hdigits c (List.mem_of_mem_head? hc))
  · refine strtoulIn_of_marked ?_ (markedBase_of_mark (.inr rfl) hc) hdigits (spell_ne_nil 16 n)
      hvalue hn
    rintro _ ⟨⟩
    exact @not_blank_of_isDigit 10 48 (by decide)

/-- A number as a person writes it is read as a whole. -/
theorem strtoulIn_of_spelling (h : Spelling n s) (hn : n ≤ 0xFFFFFFFFFFFFFFFF) :
    strtoulIn 0 s = (n, []) := by
  have hhead : ∀ c ∈ s.head?, isspace c = false ∧ c ≠ 43 ∧ c ≠ 45 := by
    obtain ⟨c, t, rfl, hdigit⟩ := h.head
    rintro _ ⟨⟩
    exact not_blank_of_isDigit hdigit
  cases h with
  | decimal =>
    have hdigits : ∀ c ∈ spell 10 n, IsDigit 10 c = true := fun c hc =>
      isDigit_of_mem_spell (by decide) (by decide) hc
    have hbase := @markedBase_of_digits (spell 10 n) 0 fun c hc =>
      isDigit_mono (by decide) (hdigits c hc)
    rcases Nat.eq_zero_or_pos n with rfl | hpos
    · refine strtoulIn_of_marked hhead hbase (fun c hc => ?_) (by decide) (by decide) hn
      obtain rfl := List.mem_singleton.mp hc
      decide
    · obtain ⟨c, t, hspell, hc⟩ := spell_eq_cons (by decide : 1 < 10) (by decide) hpos
      rw [if_neg (by simp), if_neg (by rw [hspell]; simpa using hc)] at hbase
      exact strtoulIn_of_marked hhead hbase hdigits (spell_ne_nil 10 n)
        (numeral_of_spell (by decide) (by decide)) hn
  | octal =>
    have hdigits : ∀ c ∈ 48 :: spell 8 n, IsDigit 8 c = true := by
      intro c hc
      rcases List.mem_cons.mp hc with rfl | hc
      · decide
      · exact isDigit_of_mem_spell (by decide) (by decide) hc
    have hbase := @markedBase_of_digits (48 :: spell 8 n) 0 fun c hc =>
      isDigit_mono (by decide) (hdigits c hc)
    refine strtoulIn_of_marked hhead hbase hdigits (List.cons_ne_nil _ _) ?_ hn
    rw [numeral_eq, List.takeWhile_cons_of_pos (by decide), List.foldl_cons]
    exact numeral_of_spell (by decide) (by decide)
  | hex hmark =>
    exact strtoulIn_of_marked hhead (markedBase_of_mark (.inl rfl) hmark)
      (fun c hc => isDigit_of_mem_spell (by decide) (by decide) hc) (spell_ne_nil 16 n)
      (numeral_of_spell (by decide) (by decide)) hn

section Words

variable {seps : List UInt8}

/-- Words, each with the gap before it. Only the first gap may be empty. -/
structure Separated (seps : List UInt8) (parts : List (List UInt8 × List UInt8)) : Prop where
  gaps : ∀ w ∈ parts, ∀ c ∈ w.1, c ∈ seps
  words : ∀ w ∈ parts, w.2 ≠ [] ∧ ∀ c ∈ w.2, c ∉ seps
  apart : ∀ w ∈ parts.tail, w.1 ≠ []

instance (parts : List (List UInt8 × List UInt8)) : Decidable (Separated seps parts) :=
  decidable_of_iff ((∀ w ∈ parts, w.1.all (· ∈ seps) = true) ∧
      (∀ w ∈ parts, w.2 ≠ [] ∧ w.2.all (· ∉ seps) = true) ∧ ∀ w ∈ parts.tail, w.1 ≠ []) <| by
    simp only [List.all_eq_true, decide_eq_true_eq]
    exact ⟨fun ⟨hgaps, hwords, hapart⟩ => ⟨hgaps, hwords, hapart⟩,
      fun ⟨hgaps, hwords, hapart⟩ => ⟨hgaps, hwords, hapart⟩⟩

/-- The text of words with their gaps. -/
def joined (parts : List (List UInt8 × List UInt8)) : List UInt8 :=
  parts.flatMap fun w => w.1 ++ w.2

theorem strtok_gap {gap : List UInt8} (hgap : ∀ c ∈ gap, c ∈ seps) : strtok seps gap = none := by
  have hdrop : gap.dropWhile (· ∈ seps) = [] := by
    rw [← List.append_nil gap, List.dropWhile_append_of_pos (by simpa using hgap),
      List.dropWhile_nil]
  rw [strtok, hdrop]
  rfl

/-- A word is the token, up to the separator behind it. -/
theorem strtok_word {gap word : List UInt8} (hgap : ∀ c ∈ gap, c ∈ seps) (hne : word ≠ [])
    (hword : ∀ c ∈ word, c ∉ seps) (hrest : ∀ c ∈ rest.head?, c ∈ seps) :
    strtok seps (gap ++ word ++ rest) = some (word, rest.drop 1) := by
  have hdrop : (gap ++ word ++ rest).dropWhile (· ∈ seps) = word ++ rest := by
    rw [List.append_assoc, List.dropWhile_append_of_pos (by simpa using hgap)]
    obtain ⟨c, t, rfl⟩ := List.exists_cons_of_ne_nil hne
    rw [List.cons_append, List.dropWhile_cons_of_neg (by simpa using hword c List.mem_cons_self)]
  have hpos : ∀ c ∈ word, decide (c ∉ seps) = true := by simpa using hword
  have htake : (word ++ rest).takeWhile (· ∉ seps) = word := by
    rw [List.takeWhile_append_of_pos hpos]
    cases rest with
    | nil => simp
    | cons c rest => rw [List.takeWhile_cons_of_neg (by simpa using hrest), List.append_nil]
  have hbehind : (word ++ rest).dropWhile (· ∉ seps) = rest := by
    rw [List.dropWhile_append_of_pos hpos]
    cases rest with
    | nil => simp
    | cons c rest => rw [List.dropWhile_cons_of_neg (by simpa using hrest)]
  rw [strtok, hdrop]
  simp only [List.append_eq_nil_iff, hne, false_and, if_false, htake, hbehind]

/-- Behind a word there is a separator, and behind that one the other words. -/
theorem Separated.behind {w : List UInt8 × List UInt8} {parts : List (List UInt8 × List UInt8)}
    (h : Separated seps (w :: parts)) {last : List UInt8} (hlast : ∀ c ∈ last, c ∈ seps) :
    (∀ c ∈ (joined parts ++ last).head?, c ∈ seps) ∧
      ∃ parts' last', Separated seps parts' ∧ (∀ c ∈ last', c ∈ seps) ∧
        (joined parts ++ last).drop 1 = joined parts' ++ last' ∧
        parts'.map Prod.snd = parts.map Prod.snd := by
  cases parts with
  | nil =>
    refine ⟨fun c hc => hlast c (List.mem_of_mem_head? (by simpa [joined] using hc)),
      [], last.drop 1, ⟨by simp, by simp, by simp⟩, fun c hc => hlast c (List.mem_of_mem_drop hc),
      by simp [joined], rfl⟩
  | cons v parts =>
    obtain ⟨gap, word⟩ := v
    obtain ⟨c, gap, rfl⟩ := List.exists_cons_of_ne_nil (h.apart _ List.mem_cons_self)
    have hgap := h.gaps (c :: gap, word) (by simp)
    refine ⟨?_, (gap, word) :: parts, last, ⟨?_, ?_, ?_⟩, hlast, ?_, rfl⟩
    · intro c' hc'
      rw [show c' = c by simpa [joined, eq_comm] using hc']
      exact hgap c List.mem_cons_self
    · intro w' hw' c' hc'
      rcases List.mem_cons.mp hw' with rfl | hw'
      · exact hgap c' (List.mem_cons_of_mem c hc')
      · exact h.gaps w' (by simp [hw']) c' hc'
    · intro w' hw'
      rcases List.mem_cons.mp hw' with rfl | hw'
      · exact h.words (c :: gap, word) (by simp)
      · exact h.words w' (by simp [hw'])
    · intro w' hw'
      exact h.apart w' (by simpa using .inr hw')
    · simp [joined]

/-- The tokens of a text are its words, as many as are asked for. -/
theorem tokens_joined {parts : List (List UInt8 × List UInt8)} (h : Separated seps parts)
    {last : List UInt8} (hlast : ∀ c ∈ last, c ∈ seps) (k : ℕ) :
    tokens seps k (joined parts ++ last) = (parts.map Prod.snd).take k := by
  induction k generalizing parts last with
  | zero => rfl
  | succ k ih =>
    cases parts with
    | nil =>
      rw [tokens, joined, List.flatMap_nil, List.nil_append, strtok_gap hlast]
      rfl
    | cons w parts =>
      obtain ⟨hne, hword⟩ := h.words w List.mem_cons_self
      obtain ⟨hhead, parts', last', hparts, hlast', hdrop, hwords⟩ := h.behind hlast
      have htoken := strtok_word (h.gaps w List.mem_cons_self) hne hword hhead
      rw [tokens, joined, List.flatMap_cons, List.append_assoc (w.1 ++ w.2), ← joined, htoken]
      simp only [hdrop, ih hparts hlast', hwords, List.map_cons, List.take_succ_cons]

end Words

end CString

import Mathlib.Data.List.Basic

/-!
# Texts with nested tags

A text is read byte by byte, with the names of the open elements on a stack. A tag is what
stands between `<` and `>`; one that begins with `/` must close the innermost open element,
any other opens an element with the name before its first space.
-/

namespace Markup

/-- What a tag does to the open elements. -/
def turn (tag : List UInt8) (opened : List (List UInt8)) : Option (List (List UInt8)) :=
  if tag.head? = some 47 then
    if opened.head? = some (tag.drop 1) then some (opened.drop 1) else none
  else some (tag.takeWhile (· ≠ 32) :: opened)

/-- The rest of a text is nested, behind the part of a tag read so far, if any, and within
the open elements. -/
def nested : Option (List UInt8) → List (List UInt8) → List UInt8 → Bool
  | none, opened, [] => opened = []
  | some _, _, [] => false
  | none, opened, c :: s =>
    if c = 60 then nested (some []) opened s
    else if c = 62 then false
    else nested none opened s
  | some tag, opened, c :: s =>
    if c = 60 then false
    else if c = 62 then
      match turn tag opened with
      | none => false
      | some opened' => nested none opened' s
    else nested (some (tag ++ [c])) opened s

/-- Every element of the text is closed, the inner ones first. -/
def wellNested (s : List UInt8) : Bool := nested none [] s

/-- No byte belongs to a tag's ends. -/
def Plain (s : List UInt8) : Prop := ∀ c ∈ s, c ≠ 60 ∧ c ≠ 62

instance (s : List UInt8) : Decidable (Plain s) := List.decidableBAll (fun c => c ≠ 60 ∧ c ≠ 62) s

/-- A name that a tag can carry. -/
def Name (s : List UInt8) : Prop := Plain s ∧ 32 ∉ s ∧ s.head? ≠ some 47

instance (s : List UInt8) : Decidable (Name s) := inferInstanceAs (Decidable (_ ∧ _))

/-- Attributes behind the name of a tag. -/
def Attributes (s : List UInt8) : Prop := Plain s ∧ (s = [] ∨ s.head? = some 32)

/-- Reading the text leaves the open elements as they are. -/
def Balanced (t : List UInt8) : Prop :=
  ∀ opened s, nested none opened (t ++ s) = nested none opened s

variable {s t name attributes : List UInt8} {opened : List (List UInt8)}

theorem plain_nil : Plain [] := fun _ h => absurd h List.not_mem_nil

theorem plain_append : Plain (s ++ t) ↔ Plain s ∧ Plain t := List.forall_mem_append

theorem attributes_nil : Attributes [] := ⟨plain_nil, .inl rfl⟩

section Balanced

theorem Balanced.wellNested (h : Balanced t) : wellNested t = true := by
  have hempty := h [] []
  rw [List.append_nil] at hempty
  rw [Markup.wellNested, hempty]
  rfl

theorem Balanced.nil : Balanced [] := fun _ _ => rfl

theorem Balanced.append (hs : Balanced s) (ht : Balanced t) : Balanced (s ++ t) := by
  intro opened rest
  rw [List.append_assoc, hs, ht]

theorem Plain.balanced (h : Plain t) : Balanced t := by
  intro opened rest
  induction t with
  | nil => rfl
  | cons c t ih =>
    obtain ⟨hlt, hgt⟩ := h c List.mem_cons_self
    rw [List.cons_append, nested, if_neg hlt, if_neg hgt]
    exact ih fun c' hc' => h c' (List.mem_cons_of_mem c hc')

/-- Reading on inside a tag. -/
theorem nested_tag (h : Plain t) (tag : List UInt8) :
    nested (some tag) opened (t ++ 62 :: s) = match turn (tag ++ t) opened with
      | none => false
      | some opened' => nested none opened' s := by
  induction t generalizing tag with
  | nil =>
    rw [List.nil_append, List.append_nil, nested, if_neg (by decide), if_pos rfl]
  | cons c t ih =>
    obtain ⟨hlt, hgt⟩ := h c List.mem_cons_self
    rw [List.cons_append, nested, if_neg hlt, if_neg hgt,
      ih (fun c' hc' => h c' (List.mem_cons_of_mem c hc')), List.append_assoc,
      List.singleton_append]

/-- A tag that opens an element. -/
theorem nested_start (hname : Name name) (hattributes : Attributes attributes) :
    nested none opened (60 :: (name ++ attributes) ++ 62 :: s) =
      nested none (name :: opened) s := by
  obtain ⟨hplain, hspace, hslash⟩ := hname
  obtain ⟨hplain', hempty⟩ := hattributes
  have hfirst : (name ++ attributes).head? ≠ some 47 := by
    cases name with
    | nil => rcases hempty with rfl | hempty <;> simp_all
    | cons c name => simpa using hslash
  have htake : (name ++ attributes).takeWhile (· ≠ 32) = name := by
    have hname : ∀ c ∈ name, decide (c ≠ 32) = true := by
      intro c hc
      exact decide_eq_true fun heq => hspace (heq ▸ hc)
    rw [List.takeWhile_append_of_pos hname]
    rcases hempty with rfl | hempty
    · simp
    · obtain ⟨rest, rfl⟩ := List.head?_eq_some_iff.mp hempty
      simp
  rw [List.cons_append, nested, if_pos rfl, nested_tag (plain_append.mpr ⟨hplain, hplain'⟩),
    List.nil_append, turn, if_neg hfirst, htake]

/-- A tag that closes the innermost open element. -/
theorem nested_stop (hname : Name name) :
    nested none (name :: opened) (60 :: 47 :: name ++ 62 :: s) = nested none opened s := by
  have hplain : Plain (47 :: name) := by
    intro c hc
    rcases List.mem_cons.mp hc with rfl | hc
    · decide
    · exact hname.1 c hc
  rw [List.cons_append, nested, if_pos rfl, nested_tag hplain]
  simp [turn]

/-- An element around a balanced text. -/
theorem Balanced.element (hname : Name name) (hattributes : Attributes attributes)
    (ht : Balanced t) :
    Balanced (60 :: (name ++ attributes) ++ 62 :: (t ++ (60 :: 47 :: name ++ [62]))) := by
  intro opened rest
  simp only [List.append_assoc, List.cons_append, List.nil_append]
  have hstart : nested none opened (60 :: (name ++ attributes) ++
      62 :: (t ++ (60 :: 47 :: (name ++ 62 :: rest)))) =
      nested none (name :: opened) (t ++ (60 :: 47 :: (name ++ 62 :: rest))) :=
    nested_start hname hattributes
  have hstop : nested none (name :: opened) (60 :: 47 :: name ++ 62 :: rest) =
      nested none opened rest := nested_stop hname
  simp only [List.append_assoc, List.cons_append] at hstart hstop
  rw [hstart, ht, hstop]

end Balanced

/-- Two elements inside one, and two that overlap. -/
example : wellNested ("<a b=\"1\"><c> 5</c><d></d></a>".toList.map (·.val.toUInt8)) = true ∧
    wellNested ("<a><c></a></c>".toList.map (·.val.toUInt8)) = false := by decide

end Markup

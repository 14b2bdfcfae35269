import Mathlib.Data.List.DropRight

/-!
# Words of a text, and what stands at its ends

`words` cuts a text at every separator and drops the empty pieces, so it does not depend on
how many separators stand where.  A program that takes what stands before the first separator
(`firstField`) and behind the last (`lastField`) for the first and the last word is right
unless the text begins or ends with a separator: `firstField_eq_iff` and `lastField_eq` say
what it takes otherwise.
-/

set_option autoImplicit false

namespace Library

variable {α : Type} (sep : α → Bool)

/-- The maximal runs without a separator. -/
def words (s : List α) : List (List α) := (s.splitOnP sep).filter fun w => !w.isEmpty

/-- What stands before the first separator. -/
def firstField (s : List α) : List α := s.takeWhile fun c => !sep c

/-- What stands behind the last separator. -/
def lastField (s : List α) : List α := s.rtakeWhile fun c => !sep c

/-- The text begins with a separator. -/
def startsWithSep (s : List α) : Bool := s.head?.any sep

/-- The text ends with a separator. -/
def endsWithSep (s : List α) : Bool := s.getLast?.any sep

variable {sep}

@[simp] theorem words_nil : words sep [] = [] := rfl

@[simp] theorem firstField_nil : firstField sep [] = [] := rfl

theorem ne_nil_of_mem_words {s w : List α} (h : w ∈ words sep s) : w ≠ [] := by
  simpa using (List.mem_filter.mp h).2

/-- The words on the two sides of a separator. -/
theorem words_append_cons (s t : List α) {x : α} (hx : sep x = true) :
    words sep (s ++ x :: t) = words sep s ++ words sep t := by
  unfold words
  rw [List.splitOnP_append_cons s t hx, List.filter_append]

/-- A text without separators is one word. -/
theorem words_of_noSep {s : List α} (hne : s ≠ []) (hs : ∀ x ∈ s, sep x = false) :
    words sep s = [s] := by
  unfold words
  rw [List.splitOnP_eq_singleton hs]
  apply List.filter_eq_self.mpr
  intro w hw
  rw [List.mem_singleton.mp hw]
  simpa using hne

/-! ## The front of a text -/

theorem noSep_firstField {s : List α} : ∀ x ∈ firstField sep s, sep x = false := by
  intro x hx
  simpa using List.mem_takeWhile_imp hx

/-- INTERNAL: a text without separators is its first field, and in any other text a
separator follows the first field. -/
theorem firstField_split (sep : α → Bool) (s : List α) :
    firstField sep s = s ∨ ∃ x t, s = firstField sep s ++ x :: t ∧ sep x = true := by
  have hsplit := List.takeWhile_append_dropWhile (p := fun c => !sep c) (l := s)
  cases hrest : s.dropWhile (fun c => !sep c) with
  | nil =>
      left
      rw [hrest, List.append_nil] at hsplit
      exact hsplit
  | cons x t =>
      right
      refine ⟨x, t, ?_, ?_⟩
      · rw [hrest] at hsplit
        exact hsplit.symm
      · have hhead := List.head?_dropWhile_not (fun c => !sep c) s
        rw [hrest] at hhead
        simpa using hhead

/-- The text before a separator is the first field when no separator is in it. -/
theorem firstField_append_cons {s t : List α} {x : α} (hx : sep x = true)
    (hs : ∀ y ∈ s, sep y = false) : firstField sep (s ++ x :: t) = s := by
  have hpos : ∀ y ∈ s, (!sep y) = true := by
    intro y hy
    simpa using hs y hy
  unfold firstField
  rw [List.takeWhile_append_of_pos hpos]
  simp [hx]

/-- INTERNAL: a nonempty text has an empty first field exactly when it begins with a
separator. -/
theorem firstField_eq_nil_iff (sep : α → Bool) {s : List α} (hne : s ≠ []) :
    firstField sep s = [] ↔ startsWithSep sep s = true := by
  cases s with
  | nil => exact absurd rfl hne
  | cons c s =>
      unfold firstField startsWithSep
      cases hc : sep c <;> simp [hc]

/-- INTERNAL: a first field that is not empty is the first word. -/
theorem words_head?_of_firstField (sep : α → Bool) {s : List α} (hne : firstField sep s ≠ []) :
    (words sep s).head? = some (firstField sep s) := by
  have hword := words_of_noSep hne noSep_firstField
  rcases firstField_split sep s with hall | ⟨x, t, hsplit, hx⟩
  · rw [hall] at hword ⊢
    rw [hword]
    rfl
  · have hwords := words_append_cons (firstField sep s) t hx
    rw [← hsplit, hword] at hwords
    rw [hwords]
    rfl

/-- **When the first field is a given word**: the text does not begin with a separator, and
this is its first word. -/
theorem firstField_eq_iff (sep : α → Bool) {s w : List α} (hw : w ≠ []) :
    firstField sep s = w ↔ startsWithSep sep s = false ∧ (words sep s).head? = some w := by
  by_cases hs : s = []
  · subst hs
    simp [startsWithSep, hw.symm]
  have hnil := firstField_eq_nil_iff sep hs
  constructor
  · rintro rfl
    exact ⟨by simpa [hw] using hnil, words_head?_of_firstField sep hw⟩
  · rintro ⟨hstart, hhead⟩
    have hne : firstField sep s ≠ [] := by
      intro h
      rw [hnil.mp h] at hstart
      cases hstart
    rw [words_head?_of_firstField sep hne] at hhead
    exact Option.some.inj hhead

/-! ## The end of a text -/

theorem noSep_lastField {s : List α} : ∀ x ∈ lastField sep s, sep x = false := by
  intro x hx
  simpa using List.mem_rtakeWhile_imp hx

/-- INTERNAL: a text without separators is its last field, and in any other text a separator
stands in front of the last field. -/
theorem lastField_split (sep : α → Bool) (s : List α) :
    lastField sep s = s ∨ ∃ t x, s = t ++ x :: lastField sep s ∧ sep x = true := by
  have hsplit : s.rdropWhile (fun c => !sep c) ++ lastField sep s = s :=
    List.rdropWhile_append_rtakeWhile
  rcases List.eq_nil_or_concat' (s.rdropWhile fun c => !sep c) with hnil | ⟨t, x, htx⟩
  · left
    rw [hnil, List.nil_append] at hsplit
    exact hsplit
  · right
    refine ⟨t, x, ?_, ?_⟩
    · rw [htx, List.append_assoc] at hsplit
      exact hsplit.symm
    · have hne : s.rdropWhile (fun c => !sep c) ≠ [] := by simp [htx]
      have hlast := List.rdropWhile_last_not (fun c => !sep c) s hne
      simpa [htx] using hlast

/-- The text behind a separator is the last field when no separator is in it. -/
theorem lastField_append_cons {s t : List α} {x : α} (hx : sep x = true)
    (ht : ∀ y ∈ t, sep y = false) : lastField sep (s ++ x :: t) = t := by
  have hpos : ∀ y ∈ t.reverse, (!sep y) = true := by
    intro y hy
    simpa using ht y (List.mem_reverse.mp hy)
  unfold lastField List.rtakeWhile
  rw [List.reverse_append, List.reverse_cons, List.append_assoc,
    List.takeWhile_append_of_pos hpos, List.singleton_append,
    List.takeWhile_cons_of_neg (by simp [hx])]
  simp

/-- INTERNAL: a nonempty text has an empty last field exactly when it ends with a separator. -/
theorem lastField_eq_nil_iff (sep : α → Bool) {s : List α} (hne : s ≠ []) :
    lastField sep s = [] ↔ endsWithSep sep s = true := by
  unfold lastField endsWithSep
  rw [List.rtakeWhile_eq_nil_iff, List.getLast?_eq_some_getLast hne]
  constructor
  · intro h
    simpa using h hne
  · intro h _
    simpa using h

/-- **What the last field is**: nothing when the text ends with a separator, else the last
word. -/
theorem lastField_eq (sep : α → Bool) (s : List α) :
    lastField sep s = if endsWithSep sep s then [] else ((words sep s).getLast?).getD [] := by
  by_cases hs : s = []
  · subst hs
    rfl
  have hnil := lastField_eq_nil_iff sep hs
  by_cases hend : endsWithSep sep s = true
  · rw [if_pos hend, hnil.mpr hend]
  rw [if_neg hend]
  have hne : lastField sep s ≠ [] := fun h => hend (hnil.mp h)
  have hword := words_of_noSep hne noSep_lastField
  rcases lastField_split sep s with hall | ⟨t, x, hsplit, hx⟩
  · rw [hall] at hword ⊢
    rw [hword]
    rfl
  · have hwords := words_append_cons t (lastField sep s) hx
    rw [← hsplit, hword] at hwords
    rw [hwords, List.getLast?_concat]
    rfl

end Library

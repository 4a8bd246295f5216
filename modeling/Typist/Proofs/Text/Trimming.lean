import Mathlib.Data.List.TakeWhile
import Typist.Text.Blank

/-!
# Trimmed texts

What trimming leaves of a text: the one part of it that has blanks alone around it and none at its
ends.
-/

namespace Typist.Text

/-- Whether characters are blanks alone. -/
def IsGap (cs : List Char) : Prop := ∀ c ∈ cs, isBlank c = true

/-- Whether a text is another one without the blanks around it. -/
structure Trims (cs core : List Char) : Prop where
  around : ∃ front back, cs = front ++ core ++ back ∧ IsGap front ∧ IsGap back
  first : ∀ c ∈ core.head?, isBlank c = false
  last : ∀ c ∈ core.getLast?, isBlank c = false

theorem isGap_append {cs ds : List Char} : IsGap (cs ++ ds) ↔ IsGap cs ∧ IsGap ds :=
  List.forall_mem_append

/-- Blanks behind a text do not matter to trimming. -/
theorem trim_append_gap (cs : List Char) {gap : List Char} (h : IsGap gap) :
    trim (cs ++ gap) = trim cs := by
  have hreverse : ∀ c ∈ gap.reverse, isBlank c = true := fun c hc ↦ h c (List.mem_reverse.mp hc)
  rw [trim, trim, List.dropWhile_append]
  split
  · next hnil =>
    rw [List.isEmpty_iff.mp hnil, List.dropWhile_eq_nil_iff.mpr h]
  · rw [trimEnd, trimEnd, List.reverse_append, List.dropWhile_append_of_pos hreverse]

/-- A text is what is left at its end by trimming, and blanks. -/
theorem exists_trimEnd_append (cs : List Char) : ∃ back, cs = trimEnd cs ++ back ∧ IsGap back := by
  refine ⟨(cs.reverse.takeWhile isBlank).reverse, ?_, ?_⟩
  · rw [trimEnd, ← List.reverse_append, List.takeWhile_append_dropWhile, List.reverse_reverse]
  · intro c hc
    exact List.mem_takeWhile_imp (List.mem_reverse.mp hc)

/-- Trimming takes off the blanks around a text. -/
theorem trims_trim (cs : List Char) : Trims cs (trim cs) := by
  obtain ⟨back, hback, hgap⟩ := exists_trimEnd_append (cs.dropWhile isBlank)
  refine ⟨⟨cs.takeWhile isBlank, back, ?_, ?_, hgap⟩, ?_, not_blank_of_mem_getLast?_trim⟩
  · rw [trim, List.append_assoc, ← hback, List.takeWhile_append_dropWhile]
  · intro c hc
    exact List.mem_takeWhile_imp hc
  · intro c hc
    have hhead : (trimEnd (cs.dropWhile isBlank)).head? = some c := hc
    have hfirst := List.head?_dropWhile_not isBlank cs
    rw [hback, List.head?_append, hhead] at hfirst
    simpa using hfirst

/-- So it is the one text that another is trimmed to. -/
theorem trims_iff {cs core : List Char} : Trims cs core ↔ trim cs = core := by
  constructor
  · rintro ⟨⟨front, back, rfl, hfront, hback⟩, hfirst, hlast⟩
    rw [trim_append_gap _ hback, trim_append hfront, trim_eq_self hfirst hlast]
  · rintro rfl
    exact trims_trim cs

/-- A text is trimmed to nothing exactly if it is blank. -/
theorem trim_eq_nil_iff {cs : List Char} : trim cs = [] ↔ IsGap cs := by
  constructor
  · intro h
    obtain ⟨front, back, hcs, hfront, hback⟩ := (trims_iff.mpr h).around
    rw [hcs, List.append_nil, isGap_append]
    exact ⟨hfront, hback⟩
  · exact trim_eq_nil_of_all

end Typist.Text

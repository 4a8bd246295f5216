/-!
# Blank characters

The white-space class of Unicode and trimming by it. Templates, chords and settings all
ignore blanks at their ends; this is the one class they use for it.
-/

namespace Typist.Text

/-- The white-space characters of Unicode, as closed ranges of code points. -/
def blankRanges : List (Nat × Nat) :=
  [(0x09, 0x0D), (0x20, 0x20), (0x85, 0x85), (0xA0, 0xA0), (0x1680, 0x1680), (0x2000, 0x200A),
   (0x2028, 0x2029), (0x202F, 0x202F), (0x205F, 0x205F), (0x3000, 0x3000)]

/-- Whether a character is white space. -/
def isBlank (c : Char) : Bool :=
  blankRanges.any fun r ↦ decide (r.1 ≤ c.toNat) && decide (c.toNat ≤ r.2)

/-- The text without the blanks at its end. -/
def trimEnd (cs : List Char) : List Char :=
  (cs.reverse.dropWhile isBlank).reverse

/-- The text without the blanks at both ends. -/
def trim (cs : List Char) : List Char :=
  trimEnd (cs.dropWhile isBlank)

/-- Trimming a string trims its characters. -/
def trimmed (s : String) : String :=
  String.ofList (trim s.toList)

/-- Every character that counts as white space in ASCII is blank. -/
theorem isBlank_of_isWhitespace {c : Char} (h : c.isWhitespace = true) : isBlank c = true := by
  have : c = ' ' ∨ c = '\t' ∨ c = '\r' ∨ c = '\n' := by
    simpa [Char.isWhitespace, or_assoc] using h
  rcases this with rfl | rfl | rfl | rfl <;> decide

@[simp] theorem trim_nil : trim [] = [] := rfl

/-- A text of blanks alone trims to nothing. -/
theorem trim_eq_nil_of_all {cs : List Char} (h : ∀ c ∈ cs, isBlank c = true) : trim cs = [] := by
  have : cs.dropWhile isBlank = [] := by
    induction cs with
    | nil => rfl
    | cons c cs ih =>
      rw [List.dropWhile_cons, h c (by simp)]
      exact ih fun d hd ↦ h d (by simp [hd])
  simp [trim, this, trimEnd]

/-- Blanks in front of a text do not matter to trimming. -/
theorem trim_append {gap : List Char} (h : ∀ c ∈ gap, isBlank c = true) (cs : List Char) :
    trim (gap ++ cs) = trim cs := by
  rw [trim, List.dropWhile_append_of_pos h, trim]

private theorem dropWhile_eq_self {cs : List Char} (h : ∀ c ∈ cs.head?, isBlank c = false) :
    cs.dropWhile isBlank = cs := by
  cases cs with
  | nil => rfl
  | cons c cs => simp [h c rfl]

/-- A text that neither begins nor ends with a blank stays as it is. -/
theorem trim_eq_self {cs : List Char} (hfirst : ∀ c ∈ cs.head?, isBlank c = false)
    (hlast : ∀ c ∈ cs.getLast?, isBlank c = false) : trim cs = cs := by
  rw [trim, dropWhile_eq_self hfirst, trimEnd, dropWhile_eq_self, List.reverse_reverse]
  rwa [List.head?_reverse]

/-- A trimmed text does not end with a blank. -/
theorem not_blank_of_mem_getLast?_trim {cs : List Char} :
    ∀ c ∈ (trim cs).getLast?, isBlank c = false := by
  intro c hc
  rw [trim, trimEnd, List.getLast?_reverse] at hc
  have := List.head?_dropWhile_not isBlank (cs.dropWhile isBlank).reverse
  rw [Option.mem_def.mp hc] at this
  simpa using this

end Typist.Text

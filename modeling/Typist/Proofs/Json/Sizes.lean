import Typist.Chord
import Typist.Proofs.Json.Quoted

/-!
# Sizes of JSON text

How many bytes a text takes as UTF-8, and how many within quotes. What is escaped grows, each
character to four times six bytes at most.
-/

namespace Typist

namespace Text

/-- The bytes that characters take. -/
def size : List Char → Nat
  | [] => 0
  | c :: cs => c.utf8Size + size cs

@[simp] theorem size_nil : size [] = 0 := rfl

@[simp] theorem size_cons (c : Char) (cs : List Char) : size (c :: cs) = c.utf8Size + size cs := rfl

@[simp] theorem size_append (cs ds : List Char) : size (cs ++ ds) = size cs + size ds := by
  induction cs with
  | nil => exact (Nat.zero_add _).symm
  | cons c cs ih => rw [List.cons_append, size_cons, size_cons, ih, Nat.add_assoc]

/-- No character takes more than four bytes. -/
theorem size_le (cs : List Char) : size cs ≤ 4 * cs.length := by
  induction cs with
  | nil => exact Nat.le_refl 0
  | cons c cs ih =>
    have := c.utf8Size_le_four
    rw [size_cons, List.length_cons]
    omega

end Text

namespace Json

/-- The bytes that a text takes within quotes. -/
def escapedSize (s : String) : Nat := Text.size (s.toList.flatMap escaped)

@[simp] theorem size_quotedChars (s : String) : Text.size (quotedChars s) = escapedSize s + 2 := by
  rw [quotedChars, Text.size_append, Text.size_cons, ← escapedSize]
  have hquote : '"'.utf8Size = 1 := by decide
  rw [hquote, Text.size_cons, Text.size_nil, hquote]
  omega

theorem length_escaped_le (c : Char) : (escaped c).length ≤ 6 := by
  unfold escaped
  split
  case h_8 => split <;> simp [hexPair]
  all_goals decide

/-- A character within quotes takes four times six bytes at most. -/
theorem escapedSize_le (s : String) : escapedSize s ≤ 24 * s.length := by
  rw [escapedSize, ← String.length_toList]
  generalize s.toList = cs
  induction cs with
  | nil => exact Nat.le_refl 0
  | cons c cs ih =>
    have hsize := Text.size_le (escaped c)
    have hlength := length_escaped_le c
    rw [List.flatMap_cons, Text.size_append, List.length_cons]
    omega

/-! ## Values -/

/-- A word of 64 bits has twenty digits at most. -/
theorem size_natural_le (n : UInt64) : Text.size (natural n.toNat).chars ≤ 80 := by
  have hsize := Text.size_le (natural n.toNat).chars
  have hlength : (natural n.toNat).chars.length = (Nat.toDigits 10 n.toNat).length := by
    simp [natural, chars, Literal.ofNat, Literal.chars, Decimal.digitsOf]
  have hdigits : (Nat.toDigits 10 n.toNat).length ≤ 20 := by
    rw [Nat.length_toDigits_le_iff (by decide) (by decide)]
    exact Nat.lt_trans n.toNat_lt (by decide)
  omega

/-- A text of few characters. -/
theorem size_text_le {s : String} {n : Nat} (h : s.length ≤ n) :
    Text.size (text s).chars ≤ 24 * n + 2 := by
  have hsize := escapedSize_le s
  rw [text, chars, Option.getD_some, size_quotedChars]
  omega

/-- Each member takes its name, its value and at most four characters more. -/
theorem size_memberChars_le {ms : List (String × Json)} {n k : Nat}
    (h : ∀ m ∈ ms, m.1.length ≤ n ∧ Text.size m.2.chars ≤ k) :
    Text.size (memberChars (ms.map fun m ↦ (some m.1, m.2))) ≤ ms.length * (24 * n + 4 + k) := by
  have hcolon : ':'.utf8Size = 1 := by decide
  have hcomma : ','.utf8Size = 1 := by decide
  induction ms with
  | nil => exact Nat.zero_le _
  | cons m ms ih =>
    rw [List.forall_mem_cons] at h
    have hrest := ih h.2
    have hname := escapedSize_le m.1
    obtain ⟨hlength, hvalue⟩ := h.1
    cases ms with
    | nil =>
      simp only [List.map_cons, List.map_nil, memberChars, Option.getD_some, Text.size_append,
        Text.size_cons, size_quotedChars, hcolon, List.length_singleton]
      omega
    | cons m' ms =>
      rw [List.map_cons] at hrest
      simp only [List.map_cons, memberChars, Option.getD_some, Text.size_append,
        Text.size_cons, size_quotedChars, hcolon, hcomma]
      rw [List.length_cons, Nat.add_one_mul]
      omega

theorem size_record_le {ms : List (String × Json)} {n k : Nat}
    (h : ∀ m ∈ ms, m.1.length ≤ n ∧ Text.size m.2.chars ≤ k) :
    Text.size (record ms).chars ≤ ms.length * (24 * n + 4 + k) + 2 := by
  have hmembers := size_memberChars_le h
  have hopen : '\x7b'.utf8Size = 1 := by decide
  have hclose : '\x7d'.utf8Size = 1 := by decide
  rw [record, chars, Text.size_append, Text.size_cons, Text.size_cons, Text.size_nil, hopen, hclose]
  omega

end Json

/-- A chord is shown by its modifiers, in nineteen characters at most, and by its key, in nine. -/
theorem Chord.length_text_le (c : Chord) : c.text.length ≤ 28 := by
  obtain ⟨key, modifiers, -⟩ := c
  have hmodifiers : (String.join ((Modifier.all.filter modifiers.contains).map
      (·.label ++ "+"))).length ≤ 19 := by
    obtain ⟨_ | _, _ | _, _ | _, _ | _⟩ := modifiers <;> decide
  have hkey : key.text.length ≤ 9 := by
    cases key with
    | named k => cases k <;> decide
    | char c =>
      rw [ChordKey.text, String.length_singleton]
      decide
  rw [text, String.length_append]
  exact Nat.add_le_add hmodifiers hkey

end Typist

import Typist.Proofs.Typing.Keyboard

/-!
# Typing and reading back one character

The two lookups of a layout search different columns of its list: a stroke is found by the first
entry with the character, the character by the first entry with the code. Where no two entries share
a code they invert each other, although characters may stand in several entries. Tab and the line
breaks are typed with named keys, and so stand apart.
-/

namespace Typist.Layout

variable {l : Layout}

/-- Whether a character is looked up among the character keys. -/
def IsPlain (c : Char) : Prop := c ≠ '\t' ∧ c ≠ '\n' ∧ c ≠ '\r'

instance (c : Char) : Decidable (IsPlain c) := inferInstanceAs (Decidable (_ ∧ _ ∧ _))

theorem controlKey?_eq_none_iff {c : Char} : controlKey? c = none ↔ IsPlain c := by
  unfold controlKey? IsPlain
  split
  · next ht => simp [ht]
  · next ht =>
    split
    · next hb => exact iff_of_false nofun fun h ↦ hb.elim h.2.1 h.2.2
    · next hb => exact iff_of_true rfl ⟨ht, not_or.mp hb⟩

/-- A plain character is typed as the first entry says that has it. -/
theorem stroke?_of_isPlain {c : Char} (h : IsPlain c) :
    l.stroke? c = l.chars.findSome? (·.stroke? c) := by
  rw [stroke?, controlKey?_eq_none_iff.mpr h]

/-- What a key yields can be struck on it, though perhaps in the other state of Shift. -/
theorem isSome_stroke?_glyph (k : CharKey) (shift : Bool) :
    (k.stroke? (k.glyph shift)).isSome = true := by
  unfold CharKey.stroke? CharKey.glyph
  cases shift with
  | false => simp
  | true =>
    simp only [if_true]
    split
    · rfl
    · rfl

/-- What some key yields can be struck. -/
theorem exists_stroke?_of_char? {c : Char} (hc : IsPlain c) {s : Stroke}
    (h : l.char? s = some c) : ∃ s', l.stroke? c = some s' := by
  obtain ⟨e, he, hglyph⟩ := Option.map_eq_some_iff.mp h
  have hstroke : (e.stroke? c).isSome = true := hglyph ▸ isSome_stroke?_glyph e s.shift
  rw [stroke?_of_isPlain hc, ← Option.isSome_iff_exists, List.findSome?_isSome_iff]
  exact ⟨e, List.mem_of_find?_eq_some he, hstroke⟩

/-- Whether the lookups of a layout invert each other: a character is read where it is typed, and one
that is read somewhere is typed somewhere, perhaps elsewhere, where it is read, too. -/
structure Inverts (l : Layout) : Prop where
  char?_of_stroke? : ∀ c, IsPlain c → ∀ s, l.stroke? c = some s → l.char? s = some c
  exists_stroke? : ∀ c, IsPlain c → ∀ s, l.char? s = some c →
    ∃ s', l.stroke? c = some s' ∧ l.char? s' = some c

/-- The lookups invert each other wherever no two entries share a code. -/
theorem inverts_of_nodup (h : (l.chars.map CharKey.code).Nodup) : l.Inverts := by
  have hback : ∀ c, IsPlain c → ∀ s, l.stroke? c = some s → l.char? s = some c := by
    intro c hc s hs
    rw [stroke?_of_isPlain hc] at hs
    exact Layout.char?_of_stroke? h hs
  refine ⟨hback, fun c hc s hs ↦ ?_⟩
  obtain ⟨s', hs'⟩ := exists_stroke?_of_char? hc hs
  exact ⟨s', hs', hback c hc s' hs'⟩

/-- The characters from the blank to the tilde, by their numbers. -/
private theorem stroke?_printable {n : Nat} (h : 32 ≤ n ∧ n ≤ 126) :
    (macAnsi.stroke? (.ofNat n)).isSome = true ∧ (windowsUs.stroke? (.ofNat n)).isSome = true := by
  have hall : ∀ n ∈ List.range' 32 95, (macAnsi.stroke? (.ofNat n)).isSome = true ∧
      (windowsUs.stroke? (.ofNat n)).isSome = true := by decide +kernel
  exact hall n (List.mem_range'_1.mpr ⟨h.1, Nat.lt_succ_of_le h.2⟩)

/-- On both shipped layouts every printable character of ASCII can be typed. -/
theorem exists_stroke?_of_printable (hl : l = macAnsi ∨ l = windowsUs) {c : Char} (hfirst : ' ' ≤ c)
    (hlast : c ≤ '~') : ∃ s, l.stroke? c = some s := by
  have hrange : 32 ≤ c.toNat ∧ c.toNat ≤ 126 := ⟨hfirst, hlast⟩
  have hc := stroke?_printable hrange
  rw [Char.ofNat_toNat] at hc
  rw [← Option.isSome_iff_exists]
  obtain rfl | rfl := hl
  · exact hc.1
  · exact hc.2

theorem isPlain_of_printable {c : Char} (h : ' ' ≤ c) : IsPlain c := by
  refine ⟨?_, ?_, ?_⟩ <;> rintro rfl <;> exact absurd h (by decide)

/-- The lookups of every layout invert each other in which no two entries share a code. Both shipped
layouts are such; none of their character keys is Shift, Enter or Tab, and every printable character
of ASCII is typed where it is read. -/
theorem lookups_invert :
    (∀ l : Layout, (l.chars.map CharKey.code).Nodup → l.Inverts) ∧
      ∀ l, l = macAnsi ∨ l = windowsUs →
        (l.chars.map CharKey.code).Nodup ∧
        (∀ k ∈ [Key.shift, .enter, .tab], ∃ code, l.code? k = some code ∧
          ∀ e ∈ l.chars, e.code ≠ code) ∧
        ∀ c, ' ' ≤ c → c ≤ '~' → ∃ s, l.stroke? c = some s ∧ l.char? s = some c := by
  refine ⟨fun l ↦ inverts_of_nodup, fun l hl ↦ ?_⟩
  have hregular : l.Regular := by
    obtain rfl | rfl := hl
    · exact regular_macAnsi
    · exact regular_windowsUs
  refine ⟨hregular.nodup, fun k hk ↦ ?_, fun c hfirst hlast ↦ ?_⟩
  · obtain ⟨code, hcode, hkey⟩ := hregular.exists_code k
    refine ⟨code, hcode, fun e he heq ↦ ?_⟩
    have hspace : k ≠ .space := by rintro rfl; exact absurd hk (by decide)
    have hapart := hregular.apart e he
    rw [heq, hkey] at hapart
    simp [hspace] at hapart
  · obtain ⟨s, hs⟩ := exists_stroke?_of_printable hl hfirst hlast
    exact ⟨s, hs, (inverts_of_nodup hregular.nodup).char?_of_stroke? c
      (isPlain_of_printable hfirst) s hs⟩

/-- A letter that stands in two entries is read at both, and typed at the first. -/
theorem lookups_invert_of_repeated :
    let l : Layout := ⟨"", [], [⟨'b', 'a', 11⟩, ⟨'a', 'A', 10⟩]⟩
    (l.chars.map CharKey.code).Nodup ∧ l.char? ⟨10, false⟩ = some 'a' ∧
      ∃ s, l.stroke? 'a' = some s ∧ l.char? s = some 'a' ∧ s ≠ ⟨10, false⟩ := by
  intro l
  have hnodup : (l.chars.map CharKey.code).Nodup := by decide
  have hread : l.char? ⟨10, false⟩ = some 'a' := by decide
  have hplain : IsPlain 'a' := by decide
  obtain ⟨s, hs, hback⟩ := (lookups_invert.1 l hnodup).exists_stroke? 'a' hplain ⟨10, false⟩ hread
  refine ⟨hnodup, hread, s, hs, hback, ?_⟩
  rintro rfl
  exact absurd hs (by decide)

end Typist.Layout

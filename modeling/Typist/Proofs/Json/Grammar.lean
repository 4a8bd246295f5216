import Mathlib
import Typist.Proofs.Json.Quoted

/-!
# The grammar of JSON text

Which texts are JSON, and what they denote, said without reading them: a text begins with the text of
a value, and something follows it. The reader of whole texts, which keeps open containers on a stack,
finds a value that makes sense to its end exactly where the grammar has one.

Bytes are given by number: 34 is a quote, 92 a backslash, 44 a comma, 58 a colon, 91 and 93 are the
brackets, and 123 and 125 the braces.
-/

namespace Typist.Json

/-! ## Gaps -/

/-- Whether a text is a gap and what follows it. -/
def Gap (t r : List UInt8) : Prop := ∃ g, t = g ++ r ∧ ∀ b ∈ g, isGap b = true

/-- What follows the gap in front of a text. -/
theorem gap_dropWhile (t : List UInt8) : Gap t (t.dropWhile isGap) :=
  ⟨t.takeWhile isGap, List.takeWhile_append_dropWhile.symm, fun _ hb ↦ List.mem_takeWhile_imp hb⟩

/-- A gap does not matter to the next token. -/
theorem Gap.next_eq {t r : List UInt8} (h : Gap t r) : Token.next? t = Token.next? r := by
  obtain ⟨g, rfl, hg⟩ := h
  rw [Token.next?, Token.next?, List.dropWhile_append_of_pos hg]

theorem gap_nil_iff {t : List UInt8} : Gap t [] ↔ t.all isGap = true := by
  rw [List.all_eq_true]
  constructor
  · rintro ⟨g, rfl, hg⟩
    rwa [List.append_nil]
  · intro h
    exact ⟨t, (List.append_nil t).symm, h⟩

/-! ## Strings -/

/-- Whether a text has these parts up to a quote, and what follows the quote. -/
inductive Quotes : List Part → List UInt8 → List UInt8 → Prop
  | close {r : List UInt8} : Quotes [] (34 :: r) r
  | plain {b : UInt8} {ps : List Part} {t r : List UInt8} : b ≠ 34 → b ≠ 92 → ¬ b < 32 →
      Quotes ps t r → Quotes (.byte b :: ps) (b :: t) r
  | short {e b : UInt8} {ps : List Part} {t r : List UInt8} : shortEscape? e = some b →
      Quotes ps t r → Quotes (.byte b :: ps) (92 :: e :: t) r
  | unit {h₁ h₂ h₃ h₄ : UInt8} {n : Nat} {ps : List Part} {t r : List UInt8} :
      hexUnit? h₁ h₂ h₃ h₄ = some n → Quotes ps t r →
      Quotes (.unit n :: ps) (92 :: 117 :: h₁ :: h₂ :: h₃ :: h₄ :: t) r

theorem Quotes.scan {ps : List Part} {t r : List UInt8} (h : Quotes ps t r) (found : List Part) :
    scanParts found t = some (found.reverse ++ ps, r) := by
  induction h generalizing found with
  | close => rw [scanParts.eq_def, List.append_nil]; rfl
  | plain hquote hbackslash hcontrol _ ih =>
    rw [scanParts.eq_def]
    dsimp only
    rw [if_neg hquote, if_neg hbackslash, if_neg hcontrol, ih]
    simp
  | @short e b ps t r hshort _ ih =>
    have he : e ≠ 117 := by
      rintro rfl
      cases hshort
    rw [scanParts.eq_def]
    dsimp only
    rw [if_neg (by decide), if_pos rfl]
    split
    · next heq =>
      cases heq
      exact absurd rfl he
    · next heq =>
      cases heq
      simp only [hshort]
      rw [ih]
      simp
    · next heq => cases heq
  | unit hunit _ ih =>
    rw [scanParts.eq_def]
    dsimp only
    rw [if_neg (by decide), if_pos rfl]
    simp only [hunit]
    rw [ih]
    simp

theorem quotes_of_scan {found ps : List Part} {t r : List UInt8}
    (h : scanParts found t = some (ps, r)) : ∃ ps', Quotes ps' t r ∧ ps = found.reverse ++ ps' := by
  fun_induction scanParts found t with
  | case2 found bs =>
    cases h
    exact ⟨[], .close, (List.append_nil _).symm⟩
  | case3 found h₁ h₂ h₃ h₄ rest n hunit _ ih =>
    obtain ⟨ps', hps', rfl⟩ := ih h
    exact ⟨_, .unit hunit hps', by simp⟩
  | case5 found e rest _ b hshort _ ih =>
    obtain ⟨ps', hps', rfl⟩ := ih h
    exact ⟨_, .short hshort hps', by simp⟩
  | case9 found b bs hquote hbackslash hcontrol ih =>
    obtain ⟨ps', hps', rfl⟩ := ih h
    exact ⟨_, .plain hquote hbackslash hcontrol hps', by simp⟩
  | _ => cases h

/-! ## Numbers -/

/-- Whether a text begins with digits, at least one, and what follows them. -/
def Digits (ds : List Nat) (t r : List UInt8) : Prop :=
  ds ≠ [] ∧ (∀ d ∈ ds, d < 10) ∧ t = ds.map digitByte ++ r

/-- The sign of an exponent: a minus, or a plus that may be left out. -/
inductive Sign : Bool → List UInt8 → List UInt8 → Prop
  | absent {r : List UInt8} : Sign false r r
  | plus {r : List UInt8} : Sign false (43 :: r) r
  | minus {r : List UInt8} : Sign true (45 :: r) r

/-- The part of a number behind its point. -/
inductive Fraction : Option (List Nat) → List UInt8 → List UInt8 → Prop
  | absent {r : List UInt8} : Fraction none r r
  | present {ds : List Nat} {t r : List UInt8} : Digits ds t r → Fraction (some ds) (46 :: t) r

/-- The part of a number behind an `e`, small or capital. -/
inductive Exponential : Option Exponent → List UInt8 → List UInt8 → Prop
  | absent {r : List UInt8} : Exponential none r r
  | present {e : UInt8} {negative : Bool} {ds : List Nat} {t u r : List UInt8} :
      e = 101 ∨ e = 69 → Sign negative t u → Digits ds u r →
      Exponential (some ⟨negative, ds⟩) (e :: t) r

/-- Whether a text begins with a number behind its sign. Only zero itself begins with a zero. -/
def Unsigned (l : Literal) (t r : List UInt8) : Prop :=
  (l.whole.head? = some 0 → l.whole = [0]) ∧
    ∃ u v, Digits l.whole t u ∧ Fraction l.fraction u v ∧ Exponential l.exponent v r

/-- Whether a text begins with a number. -/
inductive Numeral : Literal → List UInt8 → List UInt8 → Prop
  | unsigned {l : Literal} {t r : List UInt8} : l.negative = false → Unsigned l t r → Numeral l t r
  | minus {l : Literal} {t r : List UInt8} : l.negative = true → Unsigned l t r →
      Numeral l (45 :: t) r

/-- A byte that is a digit is that of its value. -/
theorem digitByte_of_isDigit {b : UInt8} (h : isDigit b = true) :
    b.toNat - 48 < 10 ∧ digitByte (b.toNat - 48) = b := by
  have hall : ∀ n < 256, isDigit (.ofNat n) = true →
      n - 48 < 10 ∧ digitByte (n - 48) = .ofNat n := by decide +kernel
  have hb : UInt8.ofNat b.toNat = b := UInt8.ofNat_toNat
  have hdigit := hall b.toNat b.toNat_lt
  rw [hb] at hdigit
  exact hdigit h

theorem digits_leadingDigits {t : List UInt8} (h : leadingDigits t ≠ []) :
    Digits (leadingDigits t) t (afterDigits t) := by
  have hdigits : ∀ b ∈ t.takeWhile isDigit, isDigit b = true := fun b hb ↦ List.mem_takeWhile_imp hb
  refine ⟨h, fun d hd ↦ ?_, ?_⟩
  · obtain ⟨b, hb, rfl⟩ := List.mem_map.mp hd
    exact (digitByte_of_isDigit (hdigits b hb)).1
  · have hback : (leadingDigits t).map digitByte = t.takeWhile isDigit := by
      rw [leadingDigits, List.map_map]
      exact (List.map_congr_left fun b hb ↦ (digitByte_of_isDigit (hdigits b hb)).2).trans
        (List.map_id _)
    rw [hback, afterDigits, List.takeWhile_append_dropWhile]

/-- Whether what follows a number does not go on with it. -/
def EndsNumber (r : List UInt8) : Prop :=
  ∀ b ∈ r.head?, isDigit b = false ∧ b ≠ 46 ∧ b ≠ 101 ∧ b ≠ 69

theorem Digits.leadingDigits_eq {ds : List Nat} {t r : List UInt8} (h : Digits ds t r)
    (hr : ∀ b ∈ r.head?, isDigit b = false) : leadingDigits t = ds ∧ afterDigits t = r := by
  obtain ⟨-, hdigits, rfl⟩ := h
  exact leadingDigits_digits hdigits hr

theorem fraction_of_scan {ds? : Option (List Nat)} {t r : List UInt8}
    (h : scanFraction t = some (ds?, r)) : Fraction ds? t r := by
  rw [scanFraction.eq_def] at h
  split at h
  · next t =>
    split at h
    · cases h
    · next hds =>
      cases h
      exact .present (digits_leadingDigits hds)
  · cases h
    exact .absent

theorem exponential_of_scan {e? : Option Exponent} {t r : List UInt8}
    (h : scanExponent t = some (e?, r)) : Exponential e? t r := by
  have hsign (t : List UInt8) : Sign (scanSign t).1 t (scanSign t).2 := by
    rw [scanSign.eq_def]
    split
    · exact .plus
    · exact .minus
    · exact .absent
  cases t with
  | nil =>
    cases h
    exact .absent
  | cons b t =>
    rw [scanExponent] at h
    split at h
    · next he =>
      dsimp only at h
      split at h
      · cases h
      · next hds =>
        cases h
        exact .present he (hsign t) (digits_leadingDigits hds)
    · cases h
      exact .absent

theorem unsigned_of_scan {negative : Bool} {l : Literal} {t r : List UInt8}
    (h : scanUnsigned negative t = some (l, r)) : l.negative = negative ∧ Unsigned l t r := by
  rw [scanUnsigned] at h
  split at h
  · cases h
  · cases h
  · next hnone hzero =>
    simp only [Option.bind_eq_bind, Option.bind_eq_some_iff, Option.pure_def] at h
    obtain ⟨⟨ds?, u⟩, hfraction, ⟨e?, v⟩, hexponent, h⟩ := h
    cases h
    refine ⟨rfl, fun hhead ↦ ?_, _, _, digits_leadingDigits hnone, fraction_of_scan hfraction,
      exponential_of_scan hexponent⟩
    cases hds : leadingDigits t with
    | nil => exact absurd hds hnone
    | cons d ds =>
      simp only [hds, List.head?_cons, Option.some.injEq] at hhead
      subst hhead
      cases ds with
      | nil => rfl
      | cons d' ds => exact (hzero d' ds hds).elim

theorem Exponential.scan {e? : Option Exponent} {t r : List UInt8} (h : Exponential e? t r)
    (hr : EndsNumber r) :
    scanExponent t = some (e?, r) ∧ ∀ b ∈ t.head?, isDigit b = false ∧ b ≠ 46 := by
  cases h with
  | absent =>
    refine ⟨?_, fun b hb ↦ ⟨(hr b hb).1, (hr b hb).2.1⟩⟩
    cases t with
    | nil => rfl
    | cons b t =>
      obtain ⟨-, -, hsmall, hcapital⟩ := hr b rfl
      rw [scanExponent, if_neg (by simp [hsmall, hcapital])]
  | @present e negative ds t u _ he hsign hds =>
    have hscan : scanSign t = (negative, u) := by
      cases hsign with
      | plus => rfl
      | minus => rfl
      | absent =>
        obtain ⟨hne, hdigits, rfl⟩ := hds
        obtain ⟨d, ds, rfl⟩ := List.exists_cons_of_ne_nil hne
        have hd : ∀ d < 10, digitByte d ≠ 43 ∧ digitByte d ≠ 45 := by decide
        obtain ⟨hplus, hminus⟩ := hd d (hdigits d List.mem_cons_self)
        rw [List.map_cons, List.cons_append, scanSign.eq_def]
        split
        · next heq => exact absurd (List.cons.inj heq).1 hplus
        · next heq => exact absurd (List.cons.inj heq).1 hminus
        · rfl
    obtain ⟨hlead, hafter⟩ := hds.leadingDigits_eq fun b hb ↦ (hr b hb).1
    constructor
    · rw [scanExponent, if_pos he]
      simp only [hscan, hlead, hafter]
      split
      · exact absurd rfl hds.1
      · rfl
    · rintro b ⟨⟩
      rcases he with rfl | rfl <;> decide

theorem Fraction.scan {ds? : Option (List Nat)} {t r : List UInt8} (h : Fraction ds? t r)
    (hr : ∀ b ∈ r.head?, isDigit b = false ∧ b ≠ 46) :
    scanFraction t = some (ds?, r) ∧ ∀ b ∈ t.head?, isDigit b = false := by
  cases h with
  | absent =>
    refine ⟨?_, fun b hb ↦ (hr b hb).1⟩
    rw [scanFraction.eq_def]
    split
    · next t => exact absurd rfl (hr 46 rfl).2
    · rfl
  | @present ds t _ hds =>
    obtain ⟨hlead, hafter⟩ := hds.leadingDigits_eq fun b hb ↦ (hr b hb).1
    constructor
    · rw [scanFraction, hlead, hafter]
      split
      · exact absurd rfl hds.1
      · rfl
    · rintro b ⟨⟩
      rfl

/-- A number is scanned as far as it goes. -/
theorem Unsigned.scan {l : Literal} {t r : List UInt8} (h : Unsigned l t r) (hr : EndsNumber r) :
    scanUnsigned l.negative t = some (l, r) := by
  obtain ⟨hzero, u, v, hwhole, hfraction, hexponent⟩ := h
  obtain ⟨hscanExponent, hv⟩ := hexponent.scan hr
  obtain ⟨hscanFraction, hu⟩ := hfraction.scan hv
  obtain ⟨hlead, hafter⟩ := hwhole.leadingDigits_eq hu
  rw [scanUnsigned, hlead, hafter, hscanFraction]
  split
  · next heq => exact absurd heq hwhole.1
  · next d ds heq =>
    have hsingle := hzero (by rw [heq]; rfl)
    rw [heq] at hsingle
    cases hsingle
  · simp only [Option.bind_eq_bind, Option.bind_some, hscanExponent]
    rfl

/-! ## Tokens -/

/-- Whether a text begins with a value that holds no others. -/
inductive Scalar : Json → List UInt8 → List UInt8 → Prop
  | null {r : List UInt8} : Scalar .null (Text.utf8 "null".toList ++ r) r
  | isTrue {r : List UInt8} : Scalar (.bool true) (Text.utf8 "true".toList ++ r) r
  | isFalse {r : List UInt8} : Scalar (.bool false) (Text.utf8 "false".toList ++ r) r
  | number {l : Literal} {t r : List UInt8} : Numeral l t r → Scalar (.number l) t r
  | string {ps : List Part} {t r : List UInt8} : Quotes ps t r →
      Scalar (.string (partText? ps)) (34 :: t) r

/-- The byte of a token that is no value. -/
def Token.mark? : Token → Option UInt8
  | .arrayOpen => some 91
  | .arrayClose => some 93
  | .objectOpen => some 123
  | .objectClose => some 125
  | .comma => some 44
  | .colon => some 58
  | .scalar _ => none

/-- A byte of ASCII is told by its character. -/
theorem eq_of_ofUInt8 {b : UInt8} {c : Char} (h : Char.ofUInt8 b = c) : b = .ofNat c.toNat := by
  subst h
  exact UInt8.ofNat_toNat.symm

theorem eq_of_afterWord {cs : List Char} {t r : List UInt8} (h : afterWord? cs t = some r) :
    t = cs.map (fun c ↦ .ofNat c.toNat) ++ r := by
  fun_induction afterWord? cs t with
  | case1 => exact Option.some.inj h
  | case2 => cases h
  | case3 cs b bs ih => rw [List.map_cons, List.cons_append, ← ih h, ← eq_of_ofUInt8 rfl]
  | case4 => cases h

/-- What begins with a byte is a mark or a value. -/
theorem marks_or_scalar {b : UInt8} {t r : List UInt8} {token : Token}
    (h : Token.startingWith b t = some (token, r)) :
    (token.mark? = some b ∧ r = t) ∨ ∃ j, token = .scalar j ∧ Scalar j (b :: t) r := by
  rw [Token.startingWith] at h
  split at h
  case h_7 hb =>
    obtain ⟨⟨ps, r⟩, hscan, h⟩ := Option.map_eq_some_iff.mp h
    cases h
    obtain ⟨ps, hquotes, rfl⟩ := quotes_of_scan hscan
    obtain rfl := eq_of_ofUInt8 hb
    exact .inr ⟨_, rfl, .string hquotes⟩
  case h_8 hb =>
    obtain ⟨r, hafter, h⟩ := Option.map_eq_some_iff.mp h
    cases h
    obtain rfl := eq_of_ofUInt8 hb
    obtain rfl := eq_of_afterWord hafter
    exact .inr ⟨_, rfl, .null⟩
  case h_9 hb =>
    obtain ⟨r, hafter, h⟩ := Option.map_eq_some_iff.mp h
    cases h
    obtain rfl := eq_of_ofUInt8 hb
    obtain rfl := eq_of_afterWord hafter
    exact .inr ⟨_, rfl, .isTrue⟩
  case h_10 hb =>
    obtain ⟨r, hafter, h⟩ := Option.map_eq_some_iff.mp h
    cases h
    obtain rfl := eq_of_ofUInt8 hb
    obtain rfl := eq_of_afterWord hafter
    exact .inr ⟨_, rfl, .isFalse⟩
  case h_11 hb =>
    obtain ⟨⟨l, r⟩, hscan, h⟩ := Option.map_eq_some_iff.mp h
    cases h
    obtain ⟨hnegative, hl⟩ := unsigned_of_scan hscan
    obtain rfl := eq_of_ofUInt8 hb
    exact .inr ⟨_, rfl, .number (.minus hnegative hl)⟩
  case h_12 =>
    obtain ⟨⟨l, r⟩, hscan, h⟩ := Option.map_eq_some_iff.mp h
    cases h
    obtain ⟨hnegative, hl⟩ := unsigned_of_scan hscan
    exact .inr ⟨_, rfl, .number (.unsigned hnegative hl)⟩
  all_goals
    next hb =>
      cases h
      obtain rfl := eq_of_ofUInt8 hb
      exact .inl ⟨rfl, rfl⟩

/-- A token is found behind a gap. -/
theorem marks_or_scalar_of_next {t r : List UInt8} {token : Token}
    (h : Token.next? t = some (token, r)) :
    (∃ b, token.mark? = some b ∧ Gap t (b :: r)) ∨ ∃ j u, token = .scalar j ∧ Gap t u ∧ Scalar j u r := by
  have hgap := gap_dropWhile t
  rw [Token.next?] at h
  split at h
  · cases h
  · next b u hu =>
    rw [hu] at hgap
    obtain ⟨hmark, rfl⟩ | ⟨j, rfl, hj⟩ := marks_or_scalar h
    · exact .inl ⟨b, hmark, hgap⟩
    · exact .inr ⟨j, _, rfl, hgap, hj⟩

/-- Whether a value ends where a text begins: at its end, at a gap, or at what closes or goes on. -/
def Bounds (r : List UInt8) : Prop := ∀ b ∈ r.head?, isGap b = true ∨ b = 44 ∨ b = 93 ∨ b = 125

theorem Bounds.endsNumber {r : List UInt8} (h : Bounds r) : EndsNumber r := by
  intro b hb
  rcases h b hb with hgap | rfl | rfl | rfl
  · simp only [isGap, Bool.or_eq_true, beq_iff_eq] at hgap
    rcases hgap with ((rfl | rfl) | rfl) | rfl <;> decide
  · decide
  · decide
  · decide

/-- A gap ends a value where what follows it does. -/
theorem Gap.bounds {t r : List UInt8} (h : Gap t r) (hr : Bounds r) : Bounds t := by
  obtain ⟨g, rfl, hg⟩ := h
  cases g with
  | nil => exact hr
  | cons b g =>
    rintro b' ⟨⟩
    exact .inl (hg b List.mem_cons_self)

theorem bounds_nil : Bounds [] := nofun

/-- The first byte of a value, and the token that it begins. -/
theorem Scalar.begins {j : Json} {t r : List UInt8} (h : Scalar j t r) :
    ∃ b u, t = b :: u ∧ isGap b = false ∧ b ≠ 93 ∧
      (Bounds r → Token.startingWith b u = some (.scalar j, r)) := by
  cases h with
  | null => exact ⟨110, _, rfl, rfl, by decide, fun _ ↦ rfl⟩
  | isTrue => exact ⟨116, _, rfl, rfl, by decide, fun _ ↦ rfl⟩
  | isFalse => exact ⟨102, _, rfl, rfl, by decide, fun _ ↦ rfl⟩
  | @string ps t _ hquotes =>
    refine ⟨34, t, rfl, rfl, by decide, fun _ ↦ ?_⟩
    show (scanParts [] t).map (fun x ↦ (Token.scalar (.string (partText? x.1)), x.2)) = _
    rw [hquotes.scan]
    rfl
  | @number l _ _ hl =>
    cases hl with
    | @minus t _ hnegative hl =>
      refine ⟨45, t, rfl, rfl, by decide, fun hr ↦ ?_⟩
      show (scanUnsigned true t).map (fun x ↦ (Token.scalar (.number x.1), x.2)) = _
      rw [← hnegative, hl.scan hr.endsNumber]
      rfl
    | unsigned hnegative hl =>
      obtain ⟨-, u, -, ⟨hne, hdigits, rfl⟩, -, -⟩ := id hl
      obtain ⟨d, ds, hwhole⟩ := List.exists_cons_of_ne_nil hne
      have hd : d < 10 := hdigits d (by rw [hwhole]; exact List.mem_cons_self)
      have hclose : ∀ d < 10, digitByte d ≠ 93 := by decide
      obtain ⟨hgap, hstarts⟩ := startingWith_digitByte hd
      rw [hwhole] at hl ⊢
      refine ⟨digitByte d, ds.map digitByte ++ u, rfl, hgap, hclose d hd, fun hr ↦ ?_⟩
      rw [hstarts, ← hnegative]
      show (scanUnsigned l.negative ((d :: ds).map digitByte ++ u)).map _ = _
      rw [hl.scan hr.endsNumber]
      rfl

theorem Gap.next_of_cons {t u : List UInt8} {b : UInt8} (h : Gap t (b :: u))
    (hb : isGap b = false) : Token.next? t = Token.startingWith b u := by
  rw [h.next_eq, Token.next?, List.dropWhile_cons_of_neg (by simp [hb])]

/-- A mark behind a gap is the next token. -/
theorem Gap.next_mark {t r : List UInt8} {b : UInt8} (h : Gap t (b :: r)) {token : Token}
    (hb : token.mark? = some b) : Token.next? t = some (token, r) := by
  cases token with
  | scalar j => cases hb
  | _ =>
    cases hb
    exact h.next_of_cons rfl

/-! ## Values -/

/-- Whether a text begins with a member's name and its colon. -/
def Name (name : Option String) (t r : List UInt8) : Prop :=
  ∃ ps u v, Gap t (34 :: u) ∧ Quotes ps u v ∧ Gap v (58 :: r) ∧ name = partText? ps

/-- What can be spelled: a value, the items within an array or the members within an object. -/
inductive Phrase
  | value (j : Json)
  | items (js : List Json)
  | members (ms : List (Option String × Json))

/-- Whether a text begins with the text of a value, without gaps around it, or with items or members,
of which there is one at least, with the gaps around them; and what follows. -/
inductive Spells : Phrase → List UInt8 → List UInt8 → Prop
  | scalar {j : Json} {t r : List UInt8} : Scalar j t r → Spells (.value j) t r
  | emptyArray {t r : List UInt8} : Gap t (93 :: r) → Spells (.value (.array [])) (91 :: t) r
  | array {js : List Json} {t r : List UInt8} : Spells (.items js) t (93 :: r) →
      Spells (.value (.array js)) (91 :: t) r
  | emptyObject {t r : List UInt8} : Gap t (125 :: r) →
      Spells (.value (.object [])) (123 :: t) r
  | object {ms : List (Option String × Json)} {t r : List UInt8} :
      Spells (.members ms) t (125 :: r) → Spells (.value (.object ms)) (123 :: t) r
  | lastItem {j : Json} {t u v r : List UInt8} : Gap t u → Spells (.value j) u v → Gap v r →
      Spells (.items [j]) t r
  | item {j : Json} {js : List Json} {t u v w r : List UInt8} : Gap t u →
      Spells (.value j) u v → Gap v (44 :: w) → Spells (.items js) w r →
      Spells (.items (j :: js)) t r
  | lastMember {name : Option String} {j : Json} {s t u v r : List UInt8} : Name name s t →
      Gap t u → Spells (.value j) u v → Gap v r → Spells (.members [(name, j)]) s r
  | member {name : Option String} {j : Json} {ms : List (Option String × Json)}
      {s t u v w r : List UInt8} : Name name s t → Gap t u → Spells (.value j) u v →
      Gap v (44 :: w) → Spells (.members ms) w r → Spells (.members ((name, j) :: ms)) s r

/-- Whether a text is a JSON value with gaps around it. -/
def Denotes (t : List UInt8) (j : Json) : Prop := ∃ u v, Gap t u ∧ Spells (.value j) u v ∧ Gap v []

/-! ## What is spelled is read -/

section Building

variable {stack : List Open} {items : List Json} {j : Json} {t u r : List UInt8}

theorem build_emptyArray (h : Token.next? t = some (.arrayOpen, u))
    (hclose : Token.next? u = some (.arrayClose, r)) :
    build stack none t = build stack (some (.array [])) r := by
  rw [build.eq_def]
  dsimp only
  split
  case h_2 heq =>
    cases h.symm.trans heq
    split <;> simp_all
  all_goals simp_all

theorem build_openArray (h : Token.next? t = some (.arrayOpen, u))
    (hitem : ∀ r, Token.next? u ≠ some (.arrayClose, r)) :
    build stack none t = build (.array [] :: stack) none u := by
  rw [build.eq_def]
  dsimp only
  split
  case h_2 heq =>
    cases h.symm.trans heq
    split
    · next heq => exact absurd heq (hitem _)
    · rfl
  all_goals simp_all

theorem build_commaArray (h : Token.next? t = some (.comma, r)) :
    build (.array items :: stack) (some j) t = build (.array (j :: items) :: stack) none r := by
  rw [build.eq_def]
  dsimp only
  split <;> simp_all

theorem build_closeArray (h : Token.next? t = some (.arrayClose, r)) :
    build (.array items :: stack) (some j) t =
      build stack (some (.array (j :: items).reverse)) r := by
  rw [build.eq_def]
  dsimp only
  split <;> simp_all [Open.ending]

end Building

theorem Name.read_eq {name : Option String} {t r : List UInt8} (h : Name name t r) :
    Named.read t = .named name r := by
  obtain ⟨ps, u, v, hquote, hquotes, hcolon, rfl⟩ := h
  have hname : Token.next? t = some (.scalar (.string (partText? ps)), v) := by
    rw [hquote.next_of_cons rfl]
    show (scanParts [] u).map (fun x ↦ (Token.scalar (.string (partText? x.1)), x.2)) = _
    rw [hquotes.scan]
    rfl
  have hmark : Token.next? v = some (.colon, r) := hcolon.next_mark rfl
  rw [Named.read, hname]
  simp only [hmark]

/-- Whether a phrase is read where it is spelled: a value wherever one may stand, items and members
up to what closes them. -/
def Phrase.Reads : Phrase → List UInt8 → List UInt8 → Prop
  | .value j, t, r => (∃ b u, t = b :: u ∧ isGap b = false ∧ b ≠ 93) ∧
      (Bounds r → ∀ s stack, Gap s t → build stack none s = build stack (some j) r)
  | .items js, t, r => (∀ u, Token.next? t ≠ some (.arrayClose, u)) ∧
      ∀ r', r = 93 :: r' → ∀ stack before, build (.array before :: stack) none t =
        build stack (some (.array (before.reverse ++ js))) r'
  | .members ms, t, r => ∀ r', r = 125 :: r' → ∃ name u, Named.read t = .named name u ∧
      ∀ stack before, build (.object before name :: stack) none u =
        build stack (some (.object (before.reverse ++ ms))) r'

theorem ne_arrayClose {s t : List UInt8} (h : Gap s t)
    (ht : ∃ b u, t = b :: u ∧ isGap b = false ∧ b ≠ 93) (r : List UInt8) :
    Token.next? s ≠ some (.arrayClose, r) := by
  obtain ⟨b, u, rfl, hgap, hclose⟩ := ht
  rw [h.next_of_cons hgap]
  intro hnext
  obtain ⟨hmark, -⟩ | ⟨j, hj, -⟩ := marks_or_scalar hnext
  · exact hclose (Option.some.inj hmark).symm
  · cases hj

theorem bounds_cons {b : UInt8} (h : b = 44 ∨ b = 93 ∨ b = 125) (r : List UInt8) :
    Bounds (b :: r) := by
  rintro b' ⟨⟩
  exact .inr h

/-- What is spelled is read. -/
theorem Spells.reads {p : Phrase} {t r : List UInt8} (h : Spells p t r) : p.Reads t r := by
  induction h with
  | scalar hj =>
    obtain ⟨b, u, rfl, hgap, hclose, hnext⟩ := hj.begins
    refine ⟨⟨b, u, rfl, hgap, hclose⟩, fun hr s stack hs ↦ build_scalar ?_⟩
    rw [hs.next_of_cons hgap, hnext hr]
  | emptyArray hclose =>
    exact ⟨⟨91, _, rfl, rfl, by decide⟩, fun _ s stack hs ↦
      build_emptyArray (hs.next_mark rfl) (hclose.next_mark rfl)⟩
  | array _ ih =>
    refine ⟨⟨91, _, rfl, rfl, by decide⟩, fun _ s stack hs ↦ ?_⟩
    rw [build_openArray (hs.next_mark rfl) ih.1, ih.2 _ rfl]
    rfl
  | emptyObject hclose =>
    exact ⟨⟨123, _, rfl, rfl, by decide⟩, fun _ s stack hs ↦
      build_empty (hs.next_mark rfl) (hclose.next_mark rfl)⟩
  | object _ ih =>
    obtain ⟨name, u, hname, hmembers⟩ := ih _ rfl
    refine ⟨⟨123, _, rfl, rfl, by decide⟩, fun _ s stack hs ↦ ?_⟩
    rw [build_open (hs.next_mark rfl) hname, hmembers]
    rfl
  | @lastItem j t u v r hgap _ hend ih =>
    refine ⟨ne_arrayClose hgap ih.1, ?_⟩
    rintro r' rfl stack before
    rw [ih.2 (hend.bounds (bounds_cons (by decide) r')) _ _ hgap,
      build_closeArray (hend.next_mark rfl), List.reverse_cons]
  | @item j js t u v w r hgap _ hcomma _ ih ihs =>
    refine ⟨ne_arrayClose hgap ih.1, ?_⟩
    rintro r' rfl stack before
    rw [ih.2 (hcomma.bounds (bounds_cons (by decide) w)) _ _ hgap,
      build_commaArray (hcomma.next_mark rfl), ihs.2 _ rfl, List.reverse_cons, List.append_assoc]
    rfl
  | @lastMember name j s t u v r hname hgap _ hend ih =>
    rintro r' rfl
    refine ⟨name, t, hname.read_eq, fun stack before ↦ ?_⟩
    rw [ih.2 (hend.bounds (bounds_cons (by decide) r')) _ _ hgap,
      build_close (hend.next_mark rfl), List.reverse_cons]
  | @member name j ms s t u v w r hname hgap _ hcomma _ ih ihs =>
    rintro r' rfl
    obtain ⟨name', x, hname', hmembers⟩ := ihs _ rfl
    refine ⟨name, t, hname.read_eq, fun stack before ↦ ?_⟩
    rw [ih.2 (hcomma.bounds (bounds_cons (by decide) w)) _ _ hgap,
      build_comma (hcomma.next_mark rfl) hname', hmembers, List.reverse_cons, List.append_assoc]
    rfl

/-- A text that denotes a value is read as that value, and nothing is left of it. -/
theorem Denotes.read_eq {t : List UInt8} {j : Json} (h : Denotes t j) : read t = ⟨j, false⟩ := by
  obtain ⟨u, v, hgap, hj, hend⟩ := h
  have hbuild := hj.reads.2 (hend.bounds bounds_nil) t [] hgap
  rw [read, hbuild, build]
  show (⟨j, !v.all isGap⟩ : Document) = ⟨j, false⟩
  rw [gap_nil_iff.mp hend]
  rfl

/-! ## What is read is spelled -/

/-- Whatever is around it, a value that makes no sense makes none. -/
theorem isBroken_ending (o : Open) (j : Json) : (o.ending j).isBroken = j.isBroken := by
  cases o with
  | array items =>
    have hlast : (j :: items).reverse.getLast? = some j := by simp
    rw [Open.ending, isBroken]
    split
    · next item hitem =>
      obtain rfl := Option.some.inj (hitem.symm.trans hlast)
      rfl
    · next hnone =>
      rw [hlast] at hnone
      cases hnone
  | object members name =>
    have hlast : ((name, j) :: members).reverse.getLast? = some (name, j) := by simp
    rw [Open.ending, isBroken]
    split
    · next member hmember =>
      obtain rfl := Option.some.inj (hmember.symm.trans hlast)
      rfl
    · next hnone =>
      rw [hlast] at hnone
      cases hnone

theorem isBroken_abandon (stack : List Open) (j : Json) :
    (abandon stack j).isBroken = j.isBroken := by
  induction stack generalizing j with
  | nil => rfl
  | cons o stack ih => exact (ih (o.ending j)).trans (isBroken_ending o j)

theorem name_of_read {name : Option String} {t r : List UInt8}
    (h : Named.read t = .named name r) : Name name t r := by
  rw [Named.read] at h
  split at h
  · next name' u hname =>
    split at h
    · next v hcolon =>
      cases h
      obtain ⟨b, hmark, -⟩ | ⟨j, s, hj, hgap, hscalar⟩ := marks_or_scalar_of_next hname
      · cases hmark
      obtain ⟨b, hmark, hgap'⟩ | ⟨j, s, hj', -, -⟩ := marks_or_scalar_of_next hcolon
      · cases hj
        cases hmark
        cases hscalar with
        | string hquotes => exact ⟨_, _, _, hgap, hquotes, hgap', rfl⟩
      · cases hj'
    · cases h
  · cases h

/-- What a text that is read to its end begins with: from where a value must begin, a value behind a
gap; behind an item or a member, the further ones and what closes them. -/
structure Begins (t : List UInt8) : Prop where
  value : ∀ stack v r, build stack none t = (v, r) → v.isBroken = false →
    ∃ s j u, Gap t s ∧ Spells (.value j) s u ∧ u.length < t.length ∧
      build stack (some j) u = (v, r)
  items : ∀ stack before j v r, build (.array before :: stack) (some j) t = (v, r) →
    v.isBroken = false → ∃ js u,
      (∀ s s', Gap s s' → Spells (.value j) s' t → Spells (.items (j :: js)) s (93 :: u)) ∧
        u.length < t.length ∧ build stack (some (.array (before.reverse ++ j :: js))) u = (v, r)
  members : ∀ stack before name j v r,
    build (.object before name :: stack) (some j) t = (v, r) → v.isBroken = false → ∃ ms u,
      (∀ s s' s'', Name name s s' → Gap s' s'' → Spells (.value j) s'' t →
        Spells (.members ((name, j) :: ms)) s (125 :: u)) ∧
        u.length < t.length ∧
        build stack (some (.object (before.reverse ++ (name, j) :: ms))) u = (v, r)

/-- The mark that is the next token, behind a gap. -/
theorem gap_of_next {t r : List UInt8} {token : Token} {b : UInt8}
    (h : Token.next? t = some (token, r)) (hb : token.mark? = some b) : Gap t (b :: r) := by
  obtain ⟨b', hmark, hgap⟩ | ⟨j, s, rfl, -, -⟩ := marks_or_scalar_of_next h
  · obtain rfl := Option.some.inj (hmark.symm.trans hb)
    exact hgap
  · cases hb

theorem not_abandoned {stack : List Open} {o : Open} {t r : List UInt8} {v : Json}
    (h : (abandon stack (o.ending .broken), t) = (v, r)) (hv : v.isBroken = false) : False := by
  cases h
  rw [isBroken_abandon, isBroken_ending, isBroken] at hv
  cases hv

/-- Where items go on, they do with the next item and those behind it, or they are closed. -/
theorem begins_items {t : List UInt8} (ih : ∀ u : List UInt8, u.length < t.length → Begins u)
    (stack : List Open) (before : List Json) (j v : Json) (r : List UInt8)
    (h : build (.array before :: stack) (some j) t = (v, r)) (hv : v.isBroken = false) :
    ∃ js u, (∀ s s', Gap s s' → Spells (.value j) s' t → Spells (.items (j :: js)) s (93 :: u)) ∧
      u.length < t.length ∧ build stack (some (.array (before.reverse ++ j :: js))) u = (v, r) := by
  rw [build.eq_def] at h
  dsimp only at h
  split at h
  · next u hcomma =>
    have hu := Token.length_of_next hcomma
    obtain ⟨s₁, j₁, u₁, hgap₁, hj₁, hu₁, h₁⟩ := (ih u hu).value _ _ _ h hv
    obtain ⟨js, u₂, hitems, hu₂, h₂⟩ := (ih u₁ (by omega)).items _ _ _ _ _ h₁ hv
    refine ⟨j₁ :: js, u₂, fun s s' hs hj ↦ ?_, by omega, ?_⟩
    · exact .item hs hj (gap_of_next hcomma rfl) (hitems _ _ hgap₁ hj₁)
    · rwa [List.reverse_cons, List.append_assoc] at h₂
  · next u hclose =>
    refine ⟨[], u, fun s s' hs hj ↦ .lastItem hs hj (gap_of_next hclose rfl),
      Token.length_of_next hclose, ?_⟩
    rwa [Open.ending, List.reverse_cons] at h
  · exact (not_abandoned h hv).elim

/-- So do members. -/
theorem begins_members {t : List UInt8} (ih : ∀ u : List UInt8, u.length < t.length → Begins u)
    (stack : List Open) (before : List (Option String × Json)) (name : Option String) (j v : Json)
    (r : List UInt8) (h : build (.object before name :: stack) (some j) t = (v, r))
    (hv : v.isBroken = false) :
    ∃ ms u, (∀ s s' s'', Name name s s' → Gap s' s'' → Spells (.value j) s'' t →
        Spells (.members ((name, j) :: ms)) s (125 :: u)) ∧
      u.length < t.length ∧
      build stack (some (.object (before.reverse ++ (name, j) :: ms))) u = (v, r) := by
  rw [build.eq_def] at h
  dsimp only at h
  split at h
  · next inner hcomma =>
    have hinner := Token.length_of_next hcomma
    split at h
    · next name₁ u hname =>
      have hu := Named.length_of_read hname
      obtain ⟨s₁, j₁, u₁, hgap₁, hj₁, hu₁, h₁⟩ := (ih u (by omega)).value _ _ _ h hv
      obtain ⟨ms, u₂, hmembers, hu₂, h₂⟩ := (ih u₁ (by omega)).members _ _ _ _ _ _ h₁ hv
      refine ⟨(name₁, j₁) :: ms, u₂, fun s s' s'' hs hs' hj ↦ ?_, by omega, ?_⟩
      · exact .member hs hs' hj (gap_of_next hcomma rfl)
          (hmembers _ _ _ (name_of_read hname) hgap₁ hj₁)
      · rwa [List.reverse_cons, List.append_assoc] at h₂
    · exact (not_abandoned h hv).elim
    · exact (not_abandoned h hv).elim
  · next u hclose =>
    refine ⟨[], u, fun s s' s'' hs hs' hj ↦ .lastMember hs hs' hj (gap_of_next hclose rfl),
      Token.length_of_next hclose, ?_⟩
    rwa [Open.ending, List.reverse_cons] at h
  · exact (not_abandoned h hv).elim

/-- Where a value must begin there is one: a value of a single token, or a container that is empty or
holds a first value and whatever goes on behind it. -/
theorem begins_value {t : List UInt8} (ih : ∀ u : List UInt8, u.length < t.length → Begins u)
    (stack : List Open) (v : Json) (r : List UInt8) (h : build stack none t = (v, r))
    (hv : v.isBroken = false) :
    ∃ s j u, Gap t s ∧ Spells (.value j) s u ∧ u.length < t.length ∧
      build stack (some j) u = (v, r) := by
  rw [build.eq_def] at h
  dsimp only at h
  split at h
  · next j u hnext =>
    obtain ⟨b, hmark, -⟩ | ⟨j', s, hj, hgap, hscalar⟩ := marks_or_scalar_of_next hnext
    · cases hmark
    · cases hj
      exact ⟨s, j, u, hgap, .scalar hscalar, Token.length_of_next hnext, h⟩
  · next inner hopen =>
    have hinner := Token.length_of_next hopen
    split at h
    · next u hclose =>
      have hu := Token.length_of_next hclose
      exact ⟨_, _, u, gap_of_next hopen rfl, .emptyArray (gap_of_next hclose rfl), by omega, h⟩
    · obtain ⟨s₁, j₁, u₁, hgap₁, hj₁, hu₁, h₁⟩ := (ih inner hinner).value _ _ _ h hv
      obtain ⟨js, u₂, hitems, hu₂, h₂⟩ := (ih u₁ (by omega)).items _ _ _ _ _ h₁ hv
      exact ⟨_, _, u₂, gap_of_next hopen rfl, .array (hitems _ _ hgap₁ hj₁), by omega, h₂⟩
  · next inner hopen =>
    have hinner := Token.length_of_next hopen
    split at h
    · next u hclose =>
      have hu := Token.length_of_next hclose
      exact ⟨_, _, u, gap_of_next hopen rfl, .emptyObject (gap_of_next hclose rfl), by omega, h⟩
    · split at h
      · next name u hname =>
        have hu := Named.length_of_read hname
        obtain ⟨s₁, j₁, u₁, hgap₁, hj₁, hu₁, h₁⟩ := (ih u (by omega)).value _ _ _ h hv
        obtain ⟨ms, u₂, hmembers, hu₂, h₂⟩ := (ih u₁ (by omega)).members _ _ _ _ _ _ h₁ hv
        exact ⟨_, _, u₂, gap_of_next hopen rfl,
          .object (hmembers _ _ _ (name_of_read hname) hgap₁ hj₁), by omega, h₂⟩
      · next name _ => exact (not_abandoned (o := .object [] name) h hv).elim
      · exact (not_abandoned (o := .object [] none) h hv).elim
  · cases h
    rw [isBroken_abandon, isBroken] at hv
    cases hv

/-- By induction on how much of a text is left, all of it is spelled. -/
theorem begins (t : List UInt8) : Begins t := by
  induction hn : t.length using Nat.strongRecOn generalizing t with
  | _ n ih =>
    have ih' (u : List UInt8) (hu : u.length < t.length) : Begins u := ih u.length (hn ▸ hu) u rfl
    exact ⟨begins_value ih', begins_items ih', begins_members ih'⟩

/-- The reader finds a value that makes sense, and nothing behind it, exactly in the texts that denote
it. -/
theorem denotes_iff {t : List UInt8} {j : Json} (hj : j.isBroken = false) :
    Denotes t j ↔ read t = ⟨j, false⟩ := by
  refine ⟨Denotes.read_eq, fun h ↦ ?_⟩
  cases hbuild : build [] none t with
  | mk v r =>
    rw [read, hbuild] at h
    obtain ⟨rfl, hend⟩ : v = j ∧ (!r.all isGap) = false := by simpa using h
    obtain ⟨s, j, u, hgap, hspells, -, hrest⟩ := (begins t).value [] v r hbuild hj
    rw [build] at hrest
    cases hrest
    exact ⟨s, r, hgap, hspells, gap_nil_iff.mpr (by simpa using hend)⟩

end Typist.Json

import Typist.Json

/-!
# Tokens of JSON text

The next token of a text given as bytes, and what is left behind it. Strings are scanned in two
steps: where a string ends depends only on its quotes and backslashes, and whether what lies
between denotes a text is decided afterwards.
-/

namespace Typist.Json

/-- A token; scalar values are tokens already. -/
inductive Token
  | arrayOpen | arrayClose | objectOpen | objectClose | comma | colon
  | scalar (j : Json)

/-- Whether a byte stands between tokens. -/
def isGap (b : UInt8) : Bool := b == 32 || b == 9 || b == 10 || b == 13

/-! ## Strings -/

/-- A part of a quoted string: a byte that stands for itself, or a 16-bit unit that an escape
names. -/
inductive Part
  | byte (b : UInt8)
  | unit (n : Nat)
  deriving DecidableEq, Repr

/-- The value of a hexadecimal digit. -/
def hexDigit? (b : UInt8) : Option Nat :=
  let c := Char.ofUInt8 b
  if '0' ≤ c ∧ c ≤ '9' then some (c.toNat - '0'.toNat)
  else if 'a' ≤ c ∧ c ≤ 'f' then some (c.toNat - 'a'.toNat + 10)
  else if 'A' ≤ c ∧ c ≤ 'F' then some (c.toNat - 'A'.toNat + 10)
  else none

/-- The unit that four hexadecimal digits name. -/
def hexUnit? (a b c d : UInt8) : Option Nat := do
  return (((← hexDigit? a) * 16 + (← hexDigit? b)) * 16 + (← hexDigit? c)) * 16 + (← hexDigit? d)

/-- The byte that a letter behind a backslash stands for. -/
def shortEscape? (b : UInt8) : Option UInt8 :=
  match Char.ofUInt8 b with
  | '"' => some 34
  | '\\' => some 92
  | '/' => some 47
  | 'b' => some 8
  | 'f' => some 12
  | 'n' => some 10
  | 'r' => some 13
  | 't' => some 9
  | _ => none

/-- The parts of a string up to its closing quote, behind those found already, latest first.
Control characters and unknown escapes have no place in a string. -/
def scanParts (acc : List Part) : List UInt8 → Option (List Part × List UInt8)
  | [] => none
  | b :: bs =>
    if b = 34 then some (acc.reverse, bs)
    else if b = 92 then
      match bs with
      | 117 :: h₁ :: h₂ :: h₃ :: h₄ :: rest =>
        match hexUnit? h₁ h₂ h₃ h₄ with
        | some n => scanParts (.unit n :: acc) rest
        | none => none
      | e :: rest =>
        match shortEscape? e with
        | some b => scanParts (.byte b :: acc) rest
        | none => none
      | [] => none
    else if b < 32 then none
    else scanParts (.byte b :: acc) bs

/-- Whether a unit is the first half of a surrogate pair. -/
def isHighHalf (n : Nat) : Bool := 0xd800 ≤ n && n < 0xdc00

/-- Whether a unit is the second half of a surrogate pair. -/
def isLowHalf (n : Nat) : Bool := 0xdc00 ≤ n && n < 0xe000

/-- The character of a surrogate pair. -/
def joinHalves (high low : Nat) : Char :=
  Char.ofNat (0x10000 + (high - 0xd800) * 0x400 + (low - 0xdc00))

/-- The bytes that parts denote, behind those found already, latest first. Surrogate halves must
stand side by side in pairs. -/
def partBytes (acc : List UInt8) : List Part → Option (List UInt8)
  | [] => some acc.reverse
  | .byte b :: ps => partBytes (b :: acc) ps
  | .unit n :: .unit m :: ps =>
    if isHighHalf n then
      if isLowHalf m then
        partBytes ((String.utf8EncodeChar (joinHalves n m)).reverse ++ acc) ps
      else none
    else if isLowHalf n then none
    else partBytes ((String.utf8EncodeChar (Char.ofNat n)).reverse ++ acc) (.unit m :: ps)
  | .unit n :: ps =>
    if isHighHalf n || isLowHalf n then none
    else partBytes ((String.utf8EncodeChar (Char.ofNat n)).reverse ++ acc) ps

/-- The text that parts denote. -/
def partText? (ps : List Part) : Option String := do
  String.fromUTF8? ⟨(← partBytes [] ps).toArray⟩

/-! ## Numbers and words -/

/-- Whether a byte is a decimal digit. -/
def isDigit (b : UInt8) : Bool := 48 ≤ b && b ≤ 57

/-- The digits in front of a text. -/
def leadingDigits (bs : List UInt8) : List Nat := (bs.takeWhile isDigit).map fun b ↦ b.toNat - 48

/-- What follows the digits in front of a text. -/
def afterDigits (bs : List UInt8) : List UInt8 := bs.dropWhile isDigit

/-- The part behind a decimal point, if there is a point; one without digits is a fault. -/
def scanFraction : List UInt8 → Option (Option (List Nat) × List UInt8)
  | 46 :: bs =>
    match leadingDigits bs with
    | [] => none
    | ds => some (some ds, afterDigits bs)
  | bs => some (none, bs)

/-- The sign of an exponent: whether it is a minus, and what follows. -/
def scanSign : List UInt8 → Bool × List UInt8
  | 43 :: bs => (false, bs)
  | 45 :: bs => (true, bs)
  | bs => (false, bs)

/-- The exponent, if there is one; one without digits is a fault. -/
def scanExponent : List UInt8 → Option (Option Exponent × List UInt8)
  | [] => some (none, [])
  | b :: bs =>
    if b = 101 ∨ b = 69 then
      let (negative, bs) := scanSign bs
      match leadingDigits bs with
      | [] => none
      | ds => some (some ⟨negative, ds⟩, afterDigits bs)
    else some (none, b :: bs)

/-- A number behind its sign. Only zero itself begins with a zero. -/
def scanUnsigned (negative : Bool) (bs : List UInt8) : Option (Literal × List UInt8) :=
  match leadingDigits bs with
  | [] => none
  | 0 :: _ :: _ => none
  | whole => do
    let (fraction, rest) ← scanFraction (afterDigits bs)
    let (exponent, rest) ← scanExponent rest
    return (⟨negative, whole, fraction, exponent⟩, rest)

/-- What follows a word in front of a text. -/
def afterWord? : List Char → List UInt8 → Option (List UInt8)
  | [], bs => some bs
  | _ :: _, [] => none
  | c :: cs, b :: bs => if Char.ofUInt8 b = c then afterWord? cs bs else none

namespace Token

/-- The token that begins with a byte, and what follows it. -/
def startingWith (b : UInt8) (bs : List UInt8) : Option (Token × List UInt8) :=
  match Char.ofUInt8 b with
  | '[' => some (.arrayOpen, bs)
  | ']' => some (.arrayClose, bs)
  | '{' => some (.objectOpen, bs)
  | '}' => some (.objectClose, bs)
  | ',' => some (.comma, bs)
  | ':' => some (.colon, bs)
  | '"' => (scanParts [] bs).map fun (ps, rest) ↦ (.scalar (.string (partText? ps)), rest)
  | 'n' => (afterWord? ['u', 'l', 'l'] bs).map fun rest ↦ (.scalar .null, rest)
  | 't' => (afterWord? ['r', 'u', 'e'] bs).map fun rest ↦ (.scalar (.bool true), rest)
  | 'f' => (afterWord? ['a', 'l', 's', 'e'] bs).map fun rest ↦ (.scalar (.bool false), rest)
  | '-' => (scanUnsigned true bs).map fun (l, rest) ↦ (.scalar (.number l), rest)
  | _ => (scanUnsigned false (b :: bs)).map fun (l, rest) ↦ (.scalar (.number l), rest)

/-- The first token of a text and what follows it. There is none at the end of the text or where
it makes no sense. -/
def next? (bs : List UInt8) : Option (Token × List UInt8) :=
  match bs.dropWhile isGap with
  | [] => none
  | b :: rest => startingWith b rest

end Token

/-! ## Tokens are not empty -/

theorem length_of_scanParts {acc ps : List Part} {bs rest : List UInt8}
    (h : scanParts acc bs = some (ps, rest)) : rest.length < bs.length := by
  fun_induction scanParts acc bs <;> simp_all <;> omega

theorem length_afterDigits {bs : List UInt8} (h : leadingDigits bs ≠ []) :
    (afterDigits bs).length < bs.length := by
  have hw : 0 < (bs.takeWhile isDigit).length := by
    have := List.length_pos_iff.mpr h
    rwa [leadingDigits, List.length_map] at this
  have := congrArg List.length (List.takeWhile_append_dropWhile (p := isDigit) (l := bs))
  rw [List.length_append] at this
  rw [afterDigits]
  omega

theorem length_of_scanFraction {bs rest : List UInt8} {ds : Option (List Nat)}
    (h : scanFraction bs = some (ds, rest)) : rest.length ≤ bs.length := by
  rw [scanFraction.eq_def] at h
  split at h
  · next bs =>
    have := (List.dropWhile_sublist isDigit (l := bs)).length_le
    split at h
    · simp at h
    · simp only [Option.some.injEq, Prod.mk.injEq] at h
      rw [← h.2, afterDigits, List.length_cons]
      omega
  · simp only [Option.some.injEq, Prod.mk.injEq] at h
    simp [← h.2]

theorem length_scanSign (bs : List UInt8) : (scanSign bs).2.length ≤ bs.length := by
  rw [scanSign.eq_def]
  split <;> simp

theorem length_of_scanExponent {bs rest : List UInt8} {e : Option Exponent}
    (h : scanExponent bs = some (e, rest)) : rest.length ≤ bs.length := by
  cases bs with
  | nil => simp_all [scanExponent]
  | cons b bs =>
    simp only [scanExponent] at h
    have hs := length_scanSign bs
    have hd := (List.dropWhile_sublist isDigit (l := (scanSign bs).2)).length_le
    split at h
    · split at h
      · simp at h
      · simp only [Option.some.injEq, Prod.mk.injEq] at h
        rw [← h.2, afterDigits, List.length_cons]
        omega
    · simp only [Option.some.injEq, Prod.mk.injEq] at h
      simp [← h.2]

theorem length_of_scanUnsigned {negative : Bool} {bs rest : List UInt8} {l : Literal}
    (h : scanUnsigned negative bs = some (l, rest)) : rest.length < bs.length := by
  simp only [scanUnsigned] at h
  split at h
  · simp at h
  · simp at h
  · next hw _ =>
    have hd := length_afterDigits hw
    simp only [Option.bind_eq_bind, Option.bind_eq_some_iff] at h
    obtain ⟨⟨f, r₁⟩, hf, ⟨e, r₂⟩, he, h⟩ := h
    have := length_of_scanFraction hf
    simp only [Option.pure_def, Option.some.injEq, Prod.mk.injEq] at h he
    obtain ⟨-, rfl⟩ := h
    have := length_of_scanExponent he
    omega

theorem length_of_afterWord {cs : List Char} {bs rest : List UInt8}
    (h : afterWord? cs bs = some rest) : rest.length ≤ bs.length := by
  fun_induction afterWord? cs bs <;> simp_all <;> omega

/-- A token takes at least one byte. -/
theorem Token.length_of_next {bs rest : List UInt8} {t : Token}
    (h : Token.next? bs = some (t, rest)) : rest.length < bs.length := by
  have hd := (List.dropWhile_sublist isGap (l := bs)).length_le
  rw [Token.next?] at h
  split at h
  · simp at h
  · next b bs hb =>
    rw [hb, List.length_cons] at hd
    rw [Token.startingWith] at h
    split at h <;> simp only [Option.some.injEq, Prod.mk.injEq, Option.map_eq_some_iff] at h
    case h_7 =>
      obtain ⟨⟨ps, r⟩, hs, -, hr⟩ := h
      simp only at hr
      subst hr
      have := length_of_scanParts hs
      omega
    case h_8 | h_9 | h_10 =>
      obtain ⟨r, hs, -, rfl⟩ := h
      have := length_of_afterWord hs
      omega
    case h_11 =>
      obtain ⟨⟨l, r⟩, hs, -, hr⟩ := h
      simp only at hr
      subst hr
      have := length_of_scanUnsigned hs
      omega
    case h_12 =>
      obtain ⟨⟨l, r⟩, hs, -, hr⟩ := h
      simp only at hr
      subst hr
      have := length_of_scanUnsigned hs
      rw [List.length_cons] at this
      omega
    all_goals
      obtain ⟨-, hr⟩ := h
      subst hr
      omega

end Typist.Json

import Typist.Decimal.Shortest

/-!
# JSON numbers

A number as it is written, and the value it is read as: a whole number where its digits fit a
machine word, otherwise a binary number that is found from as many leading digits as fit 64 bits
and one multiplication or division by a power of ten.
-/

namespace Typist.Json

open Decimal (Binary64)

/-- The digits of an exponent and whether it is below zero. -/
structure Exponent where
  negative : Bool
  digits : List Nat
  deriving DecidableEq, Repr

/-- A number as it is written. -/
structure Literal where
  negative : Bool
  whole : List Nat
  fraction : Option (List Nat)
  exponent : Option Exponent
  deriving DecidableEq, Repr

/-- A number as it is read. -/
inductive Number
  /-- A whole number of 64 bits. -/
  | whole (n : Nat)
  /-- The number `-n`, below zero and no lower than a signed word goes. -/
  | below (n : Nat)
  | float (negative : Bool) (x : Binary64)
  deriving DecidableEq, Repr

/-- The literal of a natural number. -/
def Literal.ofNat (n : Nat) : Literal := ⟨false, Decimal.digitsOf n, none, none⟩

/-- Leading digits that fit 64 bits, and what follows them. -/
structure Significand where
  value : Nat
  rest : List Nat
  deriving DecidableEq, Repr

/-- Appends digits as long as the number fits 64 bits. -/
def takeDigits (n : Nat) : List Nat → Significand
  | [] => ⟨n, []⟩
  | d :: ds => if 10 * n + d < UInt64.size then takeDigits (10 * n + d) ds else ⟨n, d :: ds⟩

/-- The digits of the largest power of ten that is divided by at once. -/
def powStep : Nat := 308

/-- Divides by that power a number of times. -/
def divSteps (x : Binary64) : Nat → Option Binary64
  | 0 => some x
  | steps + 1 =>
    if x.isZero then some x
    else
      match (Binary64.pow10 powStep).bind x.div with
      | some y => divSteps y steps
      | none => none

/-- The quotient of a number and a power of ten: the largest steps first, then what is left. -/
def divPow10 (x : Binary64) (k : Nat) : Option Binary64 :=
  let steps := (k - 1) / powStep
  (divSteps x steps).bind fun y ↦ (Binary64.pow10 (k - powStep * steps)).bind y.div

/-- The product of a number and a power of ten, unless it is beyond the largest number. -/
def mulPow10 (x : Binary64) (k : Nat) : Option Binary64 :=
  if powStep < k then if x.isZero then some x else none
  else (Binary64.pow10 k).bind x.mul

/-- A whole number scaled by a power of ten. -/
def scaled (n : Nat) (exponent : Int) : Option Binary64 := do
  let x ← Binary64.nearest n 1
  if 0 ≤ exponent then mulPow10 x exponent.toNat else divPow10 x (-exponent).toNat

namespace Exponent

/-- The size of an exponent, unless it needs more than 31 bits. -/
def size? (digits : List Nat) : Option Nat :=
  digits.foldl
    (fun n d ↦ n.bind fun n ↦ if 10 * n + d < Nat.pow 2 31 then some (10 * n + d) else none)
    (some 0)

/-- A whole number with an exponent that comes on top of a given one. An exponent beyond 31 bits
is out of range or leaves nothing. -/
def scale (e : Exponent) (n : Nat) (exponent : Int) : Option Binary64 :=
  match size? e.digits with
  | some k => scaled n (if e.negative then exponent - k else exponent + k)
  | none => if n ≠ 0 ∧ !e.negative then none else some Binary64.zero

end Exponent

namespace Literal

/-- The digits that count and the power of ten they count by, the exponent apart. -/
def significand (l : Literal) : Nat × Int :=
  let whole := takeDigits 0 l.whole
  let fraction := takeDigits whole.value (l.fraction.getD [])
  let taken := (l.fraction.getD []).length - fraction.rest.length
  (fraction.value, (whole.rest.length : Int) - taken)

/-- The value as a binary number, if that is finite. -/
def float? (l : Literal) : Option Binary64 :=
  let (n, power) := l.significand
  match l.exponent with
  | some e => e.scale n power
  | none => scaled n power

/-- The value as a whole number, if the literal is written as one and it fits a word. Zero with a
sign and what is lower than a signed word goes count as binary numbers. -/
def whole? (l : Literal) : Option Number :=
  let whole := takeDigits 0 l.whole
  if l.fraction.isSome ∨ l.exponent.isSome ∨ whole.rest ≠ [] then none
  else if !l.negative then some (.whole whole.value)
  else if 0 < whole.value ∧ whole.value ≤ Nat.pow 2 63 then some (.below whole.value)
  else none

/-- The number that is read, unless it is out of range. -/
def value? (l : Literal) : Option Number :=
  l.whole?.orElse fun _ ↦ l.float?.map (.float l.negative)

/-- The characters of a number. -/
def chars (l : Literal) : List Char :=
  (if l.negative then ['-'] else []) ++ l.whole.map Nat.digitChar ++
    (match l.fraction with
      | some ds => '.' :: ds.map Nat.digitChar
      | none => []) ++
    match l.exponent with
      | some e => 'e' :: (if e.negative then ['-'] else []) ++ e.digits.map Nat.digitChar
      | none => []

end Literal

end Typist.Json

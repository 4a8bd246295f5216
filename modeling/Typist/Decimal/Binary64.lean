/-!
# Binary floating point numbers

Finite, non-negative numbers of 53 significant bits, rounded to nearest with ties to even, in exact
arithmetic.
-/

namespace Typist.Decimal

/-- The number `mantissa · 2 ^ exponent`. -/
structure Binary64 where
  mantissa : Nat
  exponent : Int
  deriving DecidableEq, Repr

/-- A fraction that multiplies a power of two out of its denominator or into its numerator. -/
def scale (num den : Nat) (exponent : Int) : Nat × Nat :=
  if 0 ≤ exponent then (num * Nat.pow 2 exponent.toNat, den)
  else (num, den * Nat.pow 2 (-exponent).toNat)

/-- The whole number nearest to a fraction; a tie goes to the even neighbour. -/
def roundHalfEven (num den : Nat) : Nat :=
  let m := num / den
  let r := num % den
  if den < 2 * r ∨ (den = 2 * r ∧ m % 2 = 1) then m + 1 else m

namespace Binary64

/-- Zero. -/
def zero : Binary64 := ⟨0, -1074⟩

/-- Whether the number is zero. -/
def isZero (x : Binary64) : Bool := x.mantissa == 0

/-- The number as a fraction. -/
def ratio (x : Binary64) : Nat × Nat := scale x.mantissa 1 x.exponent

/-- The exponent of the last bit that is kept of a fraction. -/
def lastBit (num den : Nat) : Int :=
  let guess : Int := (num.log2 : Int) - den.log2 - 53
  let (n, d) := scale num den (-guess)
  max (if Nat.pow 2 53 ≤ n / d then guess + 1 else guess) (-1074)

/-- The number nearest to a fraction, unless that is beyond the largest. -/
def nearest (num den : Nat) : Option Binary64 :=
  if num = 0 then some zero
  else
    let e := lastBit num den
    let (n, d) := scale num den (-e)
    let m := roundHalfEven n d
    let x : Binary64 := if m = Nat.pow 2 53 then ⟨Nat.pow 2 52, e + 1⟩ else ⟨m, e⟩
    if 971 < x.exponent then none else some x

/-- The rounded product. -/
def mul (x y : Binary64) : Option Binary64 :=
  nearest (x.ratio.1 * y.ratio.1) (x.ratio.2 * y.ratio.2)

/-- The rounded quotient by a number that is not zero. -/
def div (x y : Binary64) : Option Binary64 :=
  nearest (x.ratio.1 * y.ratio.2) (x.ratio.2 * y.ratio.1)

/-- The number nearest to a power of ten, if there is one. -/
def pow10 (k : Nat) : Option Binary64 := nearest (Nat.pow 10 k) 1

end Binary64

end Typist.Decimal

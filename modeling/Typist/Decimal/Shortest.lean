import Typist.Decimal.Binary64

/-!
# Shortest decimal digits

The fewest decimal digits that read back as a given number, and among those of equal number the
ones nearest to it, together with their layout.
-/

namespace Typist.Decimal

/-- Digits without leading zeros, and the power of ten of the first one. -/
structure Digits where
  digits : List Nat
  leading : Int
  deriving DecidableEq, Repr

/-- Multiplies a fraction by a power of ten. -/
def shift10 (num den : Nat) (k : Int) : Nat × Nat :=
  if 0 ≤ k then (num * Nat.pow 10 k.toNat, den) else (num, den * Nat.pow 10 (-k).toNat)

/-- The power of ten of the first digit of a fraction that is not zero, within the range of the
binary numbers. -/
def leadingPower (num den : Nat) : Int :=
  let fits (k : Int) : Bool := let (n, d) := shift10 num den (-k); decide (d ≤ n)
  match (List.range 640).find? fun (i : Nat) ↦ fits (308 - (i : Int)) with
  | some i => 308 - (i : Int)
  | none => -332

/-- The decimal digits of a whole number. -/
def digitsOf (n : Nat) : List Nat := (Nat.toDigits 10 n).map fun c ↦ c.toNat - '0'.toNat

/-- Digits without the zeros at their end. -/
def withoutEndingZeros (ds : List Nat) : List Nat := (ds.reverse.dropWhile (· == 0)).reverse

namespace Binary64

/-- Whether a whole multiple of a power of ten rounds to the number. -/
def isReadFrom (x : Binary64) (m : Nat) (k : Int) : Bool :=
  let (n, d) := shift10 m 1 k
  nearest n d == some x

/-- The candidate with a number of digits: of the two neighbours on that decimal grid which read
back, the nearer, and the even one of two that are equally near. -/
def candidate? (x : Binary64) (leading : Int) (count : Nat) : Option (Nat × Int) :=
  let k := leading - count + 1
  let (n, d) := shift10 x.ratio.1 x.ratio.2 (-k)
  let below := n / d
  let nearer := roundHalfEven n d
  let other := if nearer = below then below + 1 else below
  if x.isReadFrom nearer k then some (nearer, k)
  else if x.isReadFrom other k then some (other, k)
  else none

/-- The shortest digits of a number that is not zero. -/
def shortest (x : Binary64) : Digits :=
  let leading := leadingPower x.ratio.1 x.ratio.2
  match (List.range 17).findSome? fun i ↦ x.candidate? leading (i + 1) with
  | some (m, k) =>
    let digits := digitsOf m
    ⟨withoutEndingZeros digits, k + digits.length - 1⟩
  | none => ⟨[], 0⟩

end Binary64

/-- How a floating point number is laid out. -/
structure FloatLayout where
  /-- The powers of the first digit that are written without an exponent. -/
  lowest : Int
  highest : Int
  /-- What follows a whole number. -/
  wholeEnding : String
  /-- The exponent's mark for numbers above one; below, a minus sign takes the place of the plus. -/
  exponentMark : String
  plusSign : String

/-- The characters of digits. -/
def showDigits (ds : List Nat) : String := String.ofList (ds.map Nat.digitChar)

namespace FloatLayout

/-- Digits with a point among them, in front of them or behind them. -/
def positional (l : FloatLayout) (d : Digits) : String :=
  if d.leading < 0 then
    "0." ++ showDigits (List.replicate (-d.leading - 1).toNat 0 ++ d.digits)
  else
    let whole := d.leading.toNat + 1
    let padded := d.digits ++ List.replicate (whole - d.digits.length) 0
    showDigits (padded.take whole) ++
      if padded.length ≤ whole then l.wholeEnding else "." ++ showDigits (padded.drop whole)

/-- Digits with a point behind the first and an exponent. -/
def scientific (l : FloatLayout) (d : Digits) : String :=
  showDigits (d.digits.take 1) ++
    (if d.digits.length ≤ 1 then "" else "." ++ showDigits (d.digits.drop 1)) ++
    l.exponentMark ++ (if d.leading < 0 then "-" else l.plusSign) ++
    showDigits (digitsOf d.leading.natAbs)

/-- The text of a number. -/
def text (l : FloatLayout) (negative : Bool) (x : Binary64) : String :=
  (if negative then "-" else "") ++
    if x.isZero then "0" ++ l.wholeEnding
    else
      let d := x.shortest
      if l.lowest ≤ d.leading ∧ d.leading ≤ l.highest then l.positional d else l.scientific d

end FloatLayout

end Typist.Decimal

/-!
# Decimal numerals

Runs of ASCII digits read as numbers, with the 64-bit limit that delays obey. Leading zeros are
allowed; signs and the digits of other scripts are not digits here.
-/

namespace Typist.Text.Numeral

/-- The value of an ASCII digit. -/
def digit? (c : Char) : Option Nat :=
  if '0' ≤ c ∧ c ≤ '9' then some (c.toNat - '0'.toNat) else none

/-- Reads further digits behind the number read so far. -/
def extend? (n : Nat) : List Char → Option Nat
  | [] => some n
  | c :: cs => do extend? (10 * n + (← digit? c)) cs

/-- The number a non-empty run of digits stands for. -/
def value? : List Char → Option Nat
  | [] => none
  | cs => extend? 0 cs

/-- Why a text is not a number of 64 bits. -/
inductive Fault
  | empty
  | badDigit
  | tooLarge
  deriving DecidableEq, Repr

/-- The wording of a fault. -/
def Fault.message : Fault → String
  | .empty => "cannot parse integer from empty string"
  | .badDigit => "invalid digit found in string"
  | .tooLarge => "number too large to fit in target type"

/-- A value that must fit in 64 bits. -/
def toWord (n : Nat) : Except Fault UInt64 :=
  if n < UInt64.size then .ok (UInt64.ofNat n) else .error .tooLarge

/-- Digits read one by one: the first digit that makes the number too large and the first
character that is no digit compete by position. -/
def scan (n : Nat) : List Char → Except Fault UInt64
  | [] => toWord n
  | c :: cs =>
    match digit? c with
    | none => .error .badDigit
    | some d => if 10 * n + d < UInt64.size then scan (10 * n + d) cs else .error .tooLarge

/-- A number of 64 bits with an optional plus sign; a sign alone is a bad digit. -/
def word : List Char → Except Fault UInt64
  | [] => .error .empty
  | ['+'] => .error .badDigit
  | '+' :: cs => scan 0 cs
  | cs => scan 0 cs

@[simp] theorem value?_nil : value? [] = none := rfl

/-- Reading behind a prefix continues from that prefix's number. -/
theorem extend?_append (n : Nat) (cs ds : List Char) :
    extend? n (cs ++ ds) = (extend? n cs).bind fun m ↦ extend? m ds := by
  induction cs generalizing n with
  | nil => rfl
  | cons c cs ih =>
    rw [List.cons_append, extend?, extend?]
    cases digit? c with
    | none => rfl
    | some d => exact ih (10 * n + d)

end Typist.Text.Numeral

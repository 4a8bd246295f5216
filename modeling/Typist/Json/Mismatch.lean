import Typist.Json
import Typist.Text.Quoted

/-!
# Mismatches

Why a text is not a value of the expected form. A text that is no JSON, or not readable where it
has to be, is malformed and no more is said about it; every other mismatch names what was found and
what was wanted, and shows scalar values.
-/

namespace Typist.Json

/-- What was found, as far as a message shows it. -/
inductive Found
  | null
  | bool (b : Bool)
  | number (n : Number)
  | string (s : String)
  | sequence
  | map
  deriving DecidableEq, Repr

/-- Why a text is not a value of the expected form. -/
inductive Mismatch
  | malformed
  | missingField (name : String)
  | duplicateField (name : String)
  | unknownField (name : String) (known : List String)
  | unknownVariant (name : String) (known : List String)
  | invalidType (found : Found) (wanted : String)
  | invalidValue (found : Found) (wanted : String)
  | invalidLength (length : Nat) (wanted : String)
  deriving DecidableEq, Repr

/-- Floating point numbers in messages: at most sixteen digits stand in front of the point and at
most four zeros behind it, and a whole number keeps a zero behind its point. -/
def floatLayout : Decimal.FloatLayout := ⟨-5, 15, ".0", "e", "+"⟩

/-- A word between backticks. -/
def ticked (s : String) : String :=
  String.ofList ('\x60' :: s.toList ++ ['\x60'])

/-- The wording of a number. -/
def Number.text : Number → String
  | .whole n => "integer " ++ ticked (toString n)
  | .below n => "integer " ++ ticked ("-" ++ toString n)
  | .float negative x => "floating point " ++ ticked (floatLayout.text negative x)

/-- The wording of what was found. -/
def Found.text : Found → String
  | .null => "null"
  | .bool b => "boolean " ++ ticked (if b then "true" else "false")
  | .number n => n.text
  | .string s => "string " ++ Text.quoted s
  | .sequence => "sequence"
  | .map => "map"

/-- The wording of a choice. -/
def choiceText : List String → String
  | [a] => ticked a
  | [a, b] => ticked a ++ " or " ++ ticked b
  | as => "one of " ++ ", ".intercalate (as.map ticked)

/-- The wording of a number of elements. -/
def elementsText (n : Nat) : String := toString n ++ if n = 1 then " element" else " elements"

/-- The wording of a mismatch. -/
def Mismatch.message : Mismatch → String
  | .malformed => "syntax"
  | .missingField name => "missing field " ++ ticked name
  | .duplicateField name => "duplicate field " ++ ticked name
  | .unknownField name known =>
    "unknown field " ++ ticked name ++ ", expected " ++ choiceText known
  | .unknownVariant name known =>
    "unknown variant " ++ ticked name ++ ", expected " ++ choiceText known
  | .invalidType found wanted => "invalid type: " ++ found.text ++ ", expected " ++ wanted
  | .invalidValue found wanted => "invalid value: " ++ found.text ++ ", expected " ++ wanted
  | .invalidLength length wanted =>
    "invalid length " ++ toString length ++ ", expected " ++ wanted

/-- What a value shows in a message, unless it cannot be read. -/
def found? : Json → Option Found
  | .null => some .null
  | .bool b => some (.bool b)
  | .number l => l.value?.map .number
  | .string s => s.map .string
  | .array _ => some .sequence
  | .object _ => some .map
  | .broken => none

/-- The mismatch of a value that has the wrong type. -/
def mismatch (j : Json) (wanted : String) : Mismatch :=
  match j.found? with
  | some found => .invalidType found wanted
  | none => .malformed

/-! ## Scalar values -/

/-- Reads a text that is called something in messages. -/
def asTextOf (wanted : String) : Json → Except Mismatch String
  | .string (some s) => .ok s
  | j => .error (j.mismatch wanted)

/-- Reads a text. -/
def asText : Json → Except Mismatch String := asTextOf "a string"

/-- Reads a truth value. -/
def asBool : Json → Except Mismatch Bool
  | .bool b => .ok b
  | j => .error (j.mismatch "a boolean")

/-- Reads a whole number of 64 bits. -/
def asWord (wanted : String) (j : Json) : Except Mismatch UInt64 :=
  match j.found? with
  | some (.number (.whole n)) => .ok (UInt64.ofNat n)
  | some (.number (.below n)) => .error (.invalidValue (.number (.below n)) wanted)
  | _ => .error (j.mismatch wanted)

/-- Reads a value or null. -/
def orNull {α : Type} (read : Json → Except Mismatch α) : Json → Except Mismatch (Option α)
  | .null => .ok none
  | j => (read j).map some

end Typist.Json

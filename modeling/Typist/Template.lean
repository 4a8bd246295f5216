import Typist.Action
import Typist.Entry
import Typist.Text.Blank
import Typist.Text.Numeral

/-!
# Typing templates

A template is literal text with placeholders in braces: fields, keys and delays. It is split from
left to right into pieces, each closed piece is resolved to a part, and reading stops at the first
fault. An opening brace inside a placeholder and a closing one in literal text are ordinary
characters.
-/

namespace Typist

/-- Why a template does not compile. -/
inductive CompileError
  | noEntry
  /-- A placeholder is never closed; its position counts characters. -/
  | unterminated (position : Nat)
  | unknownPlaceholder (token : String)
  | invalidDelay (argument : String)
  deriving DecidableEq, Repr

/-- The wording of a compile error. -/
def CompileError.message : CompileError → String
  | .noEntry => "no credential selected for auto-type"
  | .unterminated n =>
    "placeholder opened at position " ++ toString n ++ " is never closed with '\x7d'"
  | .unknownPlaceholder t => "unknown placeholder \x7b" ++ t ++ "\x7d"
  | .invalidDelay a => "invalid delay '" ++ a ++ "': expected a whole number of milliseconds"

namespace Template

/-- The template used when none is given. -/
def standard : String :=
  "\x7bUSERNAME\x7d\x7bTAB\x7d\x7bPASSWORD\x7d\x7bENTER\x7d"

/-- A stretch of a template's text. -/
inductive Piece
  | literal (text : List Char)
  /-- The text between an opening brace and the next closing one. -/
  | token (inner : List Char)
  /-- An opening brace without a closing one, at a position. -/
  | dangling (position : Nat)
  deriving DecidableEq, Repr

/-- The pieces of a template text that starts at a position. -/
def pieces (position : Nat) (cs : List Char) : List Piece :=
  let text := cs.takeWhile (· != '{')
  match _hopen : cs.dropWhile (· != '{') with
  | [] => [.literal text]
  | _ :: after =>
    let inner := after.takeWhile (· != '}')
    match _hclose : after.dropWhile (· != '}') with
    | [] => [.literal text, .dangling (position + text.length)]
    | _ :: rest =>
      .literal text :: .token inner :: pieces (position + text.length + inner.length + 2) rest
  termination_by cs.length
  decreasing_by
    have h₁ := (List.dropWhile_sublist (· != '{') (l := cs)).length_le
    have h₂ := (List.dropWhile_sublist (· != '}') (l := after)).length_le
    rw [_hopen] at h₁
    rw [_hclose] at h₂
    simp only [List.length_cons] at h₁ h₂
    omega

/-- A resolved piece of a template. -/
inductive Part
  | literal (text : List Char)
  | field (f : Field)
  | key (k : Key)
  | delay (ms : UInt64)
  deriving DecidableEq, Repr

/-- The capitals of ASCII letters. -/
def capitals (cs : List Char) : List Char := cs.map Char.toUpper

/-- The argument of a trimmed delay token: the word alone has an empty one, and otherwise a blank
must follow the word. -/
def delayArgument? (inner : List Char) : Option (List Char) :=
  if capitals (inner.take 5) = "DELAY".toList then
    match inner.drop 5 with
    | [] => some []
    | c :: rest => if Text.isBlank c then some (Text.trim (c :: rest)) else none
  else none

/-- A delay's argument is a whole number below 2^64 in ASCII digits. -/
def delayOfArgument (argument : List Char) : Except CompileError Part :=
  match Text.Numeral.value? argument with
  | some n =>
    if n < UInt64.size then .ok (.delay (UInt64.ofNat n))
    else .error (.invalidDelay (String.ofList argument))
  | none => .error (.invalidDelay (String.ofList argument))

/-- Resolves a placeholder: a field, else a key, else a delay. -/
def Part.ofToken (raw : List Char) : Except CompileError Part :=
  let inner := Text.trim raw
  let token := String.ofList (capitals inner)
  match Field.ofName? token with
  | some f => .ok (.field f)
  | none =>
    match Key.ofName? token with
    | some k => .ok (.key k)
    | none =>
      match delayArgument? inner with
      | some argument => delayOfArgument argument
      | none => .error (.unknownPlaceholder token)

/-- The parts before the first fault, and that fault. -/
structure Reading where
  parts : List Part
  fault : Option CompileError
  deriving DecidableEq, Repr

/-- A part in front of a reading. -/
def Reading.cons (p : Part) (r : Reading) : Reading := ⟨p :: r.parts, r.fault⟩

/-- Resolves pieces up to the first fault. -/
def Reading.ofPieces : List Piece → Reading
  | [] => ⟨[], none⟩
  | .literal t :: ps => (ofPieces ps).cons (.literal t)
  | .token inner :: ps =>
    match Part.ofToken inner with
    | .ok p => (ofPieces ps).cons p
    | .error e => ⟨[], some e⟩
  | .dangling n :: _ => ⟨[], some (.unterminated n)⟩

/-- Reads a template. -/
def read (template : String) : Reading :=
  Reading.ofPieces (pieces 0 template.toList)

/-- The action of a part for an entry; a text may be empty. -/
def Part.fill (e : Entry) : Part → Action
  | literal t => .text (String.ofList t)
  | field f => .text (e.value f)
  | key k => .press k
  | delay ms => .delay ms

/-- The accesses to the entry that filling a part makes. -/
def Part.accesses : Part → List Access
  | field f => f.accesses
  | _ => []

/-- What compiling does: its accesses to the entry, in order, and its outcome. -/
structure Compilation where
  accesses : List Access
  result : Except CompileError Sequence

/-- Compiles a template against an entry. Parts before a fault are still filled, so their accesses
are made, but a fault leaves nothing of the sequence. -/
def compile (template : String) (entry : Option Entry) : Compilation :=
  match entry with
  | none => ⟨[], .error .noEntry⟩
  | some e =>
    let r := read template
    { accesses := r.parts.flatMap Part.accesses
      result :=
        match r.fault with
        | some fault => .error fault
        | none => .ok (.ofActions (r.parts.map (Part.fill e))) }

/-- How often the password was unlocked. -/
def Compilation.unlocks (c : Compilation) : Nat := c.accesses.count .unlock

/-- How often the password was locked. -/
def Compilation.locks (c : Compilation) : Nat := c.accesses.count .lock

end Template

end Typist

import Typist.Json

/-!
# Writing JSON text

Values are written without spaces, members in their order. In strings only quotes, backslashes and
control characters are escaped.
-/

namespace Typist.Json

/-- Two hexadecimal digits of a number, in small letters. -/
def hexPair (n : Nat) : List Char := [Nat.digitChar (n / 16), Nat.digitChar (n % 16)]

/-- A character within quotes. -/
def escaped (c : Char) : List Char :=
  match c with
  | '"' => ['\\', '"']
  | '\\' => ['\\', '\\']
  | '\x08' => ['\\', 'b']
  | '\t' => ['\\', 't']
  | '\n' => ['\\', 'n']
  | '\x0c' => ['\\', 'f']
  | '\r' => ['\\', 'r']
  | c => if c < ' ' then ['\\', 'u', '0', '0'] ++ hexPair c.toNat else [c]

/-- A text in quotes. -/
def quotedChars (s : String) : List Char := '"' :: s.toList.flatMap escaped ++ ['"']

mutual

/-- The characters of a value. What was not readable is written as an empty string, and nothing
stands where a text was broken. -/
def chars : Json → List Char
  | .null => ['n', 'u', 'l', 'l']
  | .bool true => ['t', 'r', 'u', 'e']
  | .bool false => ['f', 'a', 'l', 's', 'e']
  | .number l => l.chars
  | .string s => quotedChars (s.getD "")
  | .array items => '[' :: itemChars items ++ [']']
  | .object members => '{' :: memberChars members ++ ['}']
  | .broken => []

/-- Items with commas between them. -/
def itemChars : List Json → List Char
  | [] => []
  | [j] => j.chars
  | j :: js => j.chars ++ ',' :: itemChars js

/-- Members with commas between them. -/
def memberChars : List (Option String × Json) → List Char
  | [] => []
  | [m] => quotedChars (m.1.getD "") ++ ':' :: m.2.chars
  | m :: ms => quotedChars (m.1.getD "") ++ ':' :: m.2.chars ++ ',' :: memberChars ms

end

/-- The text of a value. -/
def render (j : Json) : String := String.ofList j.chars

/-- The bytes of the text of a value. -/
def bytes (j : Json) : List UInt8 := j.render.toUTF8.data.toList

end Typist.Json

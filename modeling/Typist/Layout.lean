import Typist.Key

/-!
# Keyboard layouts

A layout says which native code each named key and each printable character has. Both lookups
take the first entry that fits, so the order of the entries decides between repeated ones.
-/

namespace Typist

/-- The number by which the system knows a key. -/
abbrev KeyCode := UInt16

/-- A key together with the state of Shift under which it is struck. -/
structure Stroke where
  code : KeyCode
  shift : Bool
  deriving DecidableEq, Repr

/-- A character key: what it yields alone and under Shift. -/
structure CharKey where
  plain : Char
  shifted : Char
  code : KeyCode
  deriving DecidableEq, Repr

/-- The key codes of one keyboard layout. -/
structure Layout where
  name : String
  keys : List (Key × KeyCode)
  chars : List CharKey
  deriving Repr

namespace CharKey

/-- How the key yields a character, the unshifted way first. -/
def stroke? (k : CharKey) (c : Char) : Option Stroke :=
  if k.plain = c then some ⟨k.code, false⟩
  else if k.shifted = c then some ⟨k.code, true⟩
  else none

/-- What the key yields in a state of Shift. -/
def glyph (k : CharKey) (shift : Bool) : Char :=
  if shift then k.shifted else k.plain

end CharKey

namespace Layout

/-- The code of a named key. -/
def code? (l : Layout) (k : Key) : Option KeyCode :=
  (l.keys.find? fun e ↦ e.1 = k).map Prod.snd

/-- The named key of a code. -/
def key? (l : Layout) (code : KeyCode) : Option Key :=
  (l.keys.find? fun e ↦ e.2 = code).map Prod.fst

/-- The named key that types a control character: Tab for a tab, Enter for either line break. -/
def controlKey? (c : Char) : Option Key :=
  if c = '\t' then some .tab
  else if c = '\n' ∨ c = '\r' then some .enter
  else none

/-- How a character is typed, if the layout has a key for it. -/
def stroke? (l : Layout) (c : Char) : Option Stroke :=
  match controlKey? c with
  | some k => (l.code? k).map fun code ↦ ⟨code, false⟩
  | none => l.chars.findSome? (·.stroke? c)

/-- The character that a stroke yields. -/
def char? (l : Layout) (s : Stroke) : Option Char :=
  (l.chars.find? fun k ↦ k.code = s.code).map (·.glyph s.shift)

/-- A stroke is found only at a key that yields the character. -/
theorem glyph_of_stroke? {k : CharKey} {c : Char} {s : Stroke} (h : k.stroke? c = some s) :
    s.code = k.code ∧ k.glyph s.shift = c := by
  unfold CharKey.stroke? at h
  split at h
  · cases h; simp_all [CharKey.glyph]
  · split at h
    · cases h; simp_all [CharKey.glyph]
    · cases h

end Layout

end Typist

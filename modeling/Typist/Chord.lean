import Typist.Layout
import Typist.Text.Blank

/-!
# Chords

A chord is a key pressed while a set of modifiers is held. It is written as words joined by plus
signs, is shown in one canonical form, and becomes a native target through a layout.
-/

namespace Typist

/-- A set of held modifiers. -/
structure Modifiers where
  shift : Bool := false
  control : Bool := false
  alt : Bool := false
  command : Bool := false
  deriving DecidableEq, Repr

/-- One of the four modifiers of a chord. -/
inductive Modifier
  | shift | control | alt | command
  deriving DecidableEq, Repr

namespace Modifier

/-- The four modifiers in the order in which a chord shows them. -/
def all : List Modifier := [control, alt, shift, command]

/-- The word that shows a modifier. -/
def label : Modifier → String
  | control => "Ctrl" | alt => "Alt" | shift => "Shift" | command => "Cmd"

/-- The words for a modifier, in small letters. -/
def words : Modifier → List String
  | control => ["ctrl", "control"]
  | alt => ["alt", "opt", "option"]
  | shift => ["shift"]
  | command => ["cmd", "command", "meta", "super", "win"]

/-- The modifier of a word; the case of ASCII letters does not matter. -/
def ofWord? (word : String) : Option Modifier :=
  all.find? fun m ↦ m.words.contains word.toLower

end Modifier

namespace Modifiers

/-- No modifier. -/
def none : Modifiers := {}

/-- The set with one more modifier. -/
def insert (s : Modifiers) : Modifier → Modifiers
  | .shift => { s with shift := true }
  | .control => { s with control := true }
  | .alt => { s with alt := true }
  | .command => { s with command := true }

/-- The set without a modifier. -/
def erase (s : Modifiers) : Modifier → Modifiers
  | .shift => { s with shift := false }
  | .control => { s with control := false }
  | .alt => { s with alt := false }
  | .command => { s with command := false }

/-- Whether a modifier is in the set. -/
def contains (s : Modifiers) : Modifier → Bool
  | .shift => s.shift
  | .control => s.control
  | .alt => s.alt
  | .command => s.command

/-- The set as a sum of 1 for Shift, 2 for Control, 4 for Alt and 8 for Command. -/
def mask (s : Modifiers) : Nat :=
  s.shift.toNat + 2 * s.control.toNat + 4 * s.alt.toNat + 8 * s.command.toNat

/-- The set of a mask, whose further bits are ignored. -/
def ofMask (n : Nat) : Modifiers :=
  ⟨n.testBit 0, n.testBit 1, n.testBit 2, n.testBit 3⟩

/-- Inserting adds just that modifier. -/
theorem contains_insert (s : Modifiers) (m n : Modifier) :
    (s.insert m).contains n = (decide (m = n) || s.contains n) := by
  cases m <;> cases n <;> simp [insert, contains]

/-- Erasing removes just that modifier. -/
theorem contains_erase (s : Modifiers) (m n : Modifier) :
    (s.erase m).contains n = (!decide (m = n) && s.contains n) := by
  cases m <;> cases n <;> simp [erase, contains]

/-- Sets with the same modifiers are equal. -/
theorem ext_contains {s t : Modifiers} (h : ∀ m, s.contains m = t.contains m) : s = t := by
  have h₁ := h .shift
  have h₂ := h .control
  have h₃ := h .alt
  have h₄ := h .command
  cases s; cases t
  simp_all [contains]

/-- A mask gives back its set. -/
theorem ofMask_mask (s : Modifiers) : ofMask s.mask = s := by
  obtain ⟨_ | _, _ | _, _ | _, _ | _⟩ := s <;> decide

end Modifiers

/-- The key of a chord: a named key or a printable character. -/
inductive ChordKey
  | named (k : Key)
  | char (c : Char)
  deriving DecidableEq, Repr

namespace ChordKey

/-- The key with an ASCII letter made small. -/
def folded : ChordKey → ChordKey
  | named k => named k
  | char c => char c.toLower

/-- The key as it is shown: a name, or a character with an ASCII letter made a capital. -/
def text : ChordKey → String
  | named k => k.name
  | char c => String.singleton c.toUpper

/-- The key of one part of a written chord: a key name or alias, or one printable character of
ASCII that is not the blank. -/
def ofPart? (part : List Char) : Option ChordKey :=
  match Key.ofName? (String.ofList part) with
  | some k => some (named k)
  | none =>
    match part with
    | [c] => if '!' ≤ c ∧ c ≤ '~' then some (char c) else none
    | _ => none

private theorem toLower_toLower (c : Char) : c.toLower.toLower = c.toLower := by
  unfold Char.toLower
  by_cases h : c.val ≥ 'A'.val ∧ c.val ≤ 'Z'.val
  · have hA : ('A'.val).toNat = 65 := rfl
    have hZ : ('Z'.val).toNat = 90 := rfl
    have hd : ('a'.val - 'A'.val).toNat = 32 := rfl
    have h₁ := UInt32.le_iff_toNat_le.mp h.1
    have h₂ := UInt32.le_iff_toNat_le.mp h.2
    have : ¬ ((c.val + ('a'.val - 'A'.val)) ≥ 'A'.val ∧
        (c.val + ('a'.val - 'A'.val)) ≤ 'Z'.val) := by
      intro ⟨_, h₃⟩
      have h₃ := UInt32.le_iff_toNat_le.mp h₃
      rw [UInt32.toNat_add] at h₃
      omega
    simp only [h, and_self, ↓reduceDIte, this]
  · simp only [h, ↓reduceDIte]

@[simp] theorem folded_folded (k : ChordKey) : k.folded.folded = k.folded := by
  cases k with
  | named k => rfl
  | char c => simp only [folded, toLower_toLower]

end ChordKey

/-- A key with the modifiers that must be held; the letters of its key are small. -/
structure Chord where
  key : ChordKey
  modifiers : Modifiers
  folded_key : key.folded = key := by rfl

instance : DecidableEq Chord := fun a b ↦
  decidable_of_iff (a.key = b.key ∧ a.modifiers = b.modifiers) (by cases a; cases b; simp)

/-- Why a text is not a chord. -/
inductive ChordError
  | empty
  | missingKey
  | unknownKey (part : String)
  | duplicateKey (part : String)
  deriving DecidableEq, Repr

/-- The wording of a chord error. -/
def ChordError.message : ChordError → String
  | .empty => "hotkey string is empty"
  | .missingKey => "hotkey has no key, only modifiers"
  | .unknownKey part => "unknown key '" ++ part ++ "'"
  | .duplicateKey part => "hotkey has more than one key: '" ++ part ++ "'"

namespace Chord

/-- The chord of a key, folding its letters. -/
def make (key : ChordKey) (modifiers : Modifiers) : Chord :=
  ⟨key.folded, modifiers, key.folded_folded⟩

/-- The chord as it is shown: its modifiers in a fixed order, then its key. -/
def text (c : Chord) : String :=
  String.join ((Modifier.all.filter c.modifiers.contains).map (·.label ++ "+")) ++ c.key.text

/-- The texts between the plus signs. -/
def splitPlus : List Char → List (List Char)
  | [] => [[]]
  | '+' :: cs => [] :: splitPlus cs
  | c :: cs =>
    match splitPlus cs with
    | [] => [[c]]
    | p :: ps => (c :: p) :: ps

/-- The body of a trimmed chord text, and whether the plus key follows it: two plus signs at the
end, or one that is the whole text, name that key. -/
def splitPlusKey (cs : List Char) : List Char × Bool :=
  match cs.reverse with
  | '+' :: '+' :: rest => (rest.reverse, true)
  | ['+'] => ([], true)
  | _ => (cs, false)

/-- The trimmed parts of a chord's body that are not empty. -/
def parts (body : List Char) : List (List Char) :=
  ((splitPlus body).map Text.trim).filter fun p ↦ !p.isEmpty

/-- What has been read of a chord: its modifiers and perhaps its key. -/
structure Draft where
  modifiers : Modifiers := {}
  key : Option ChordKey := none
  deriving DecidableEq, Repr

/-- Reads one more part: a modifier word, or the one key. -/
def Draft.add (d : Draft) (part : List Char) : Except ChordError Draft :=
  match Modifier.ofWord? (String.ofList part) with
  | some m => .ok { d with modifiers := d.modifiers.insert m }
  | none =>
    if d.key.isSome then .error (.duplicateKey (String.ofList part))
    else
      match ChordKey.ofPart? part with
      | some k => .ok { d with key := some k }
      | none => .error (.unknownKey (String.ofList part))

/-- Reads a chord such as "Ctrl+Alt+A" or "Ctrl++". Blanks around the parts and empty parts do
not count; of several faults the leftmost is reported. -/
def parse (s : String) : Except ChordError Chord :=
  let cs := Text.trim s.toList
  if cs.isEmpty then .error .empty
  else
    let (body, plus) := splitPlusKey cs
    match (parts body).foldlM Draft.add { key := if plus then some (.char '+') else none } with
    | .error e => .error e
    | .ok d =>
      match d.key with
      | some k => .ok (make k d.modifiers)
      | none => .error .missingKey

end Chord

/-- What a listener waits for: a native code under exactly these modifiers. -/
structure Target where
  code : KeyCode
  modifiers : Modifiers
  deriving DecidableEq, Repr

/-- Whether a key-down under the held modifiers is the target. -/
def Target.accepts (t : Target) (code : KeyCode) (held : Modifiers) : Bool :=
  decide (t.code = code) && decide (t.modifiers = held)

/-- The target of a chord in a layout. A modifier is never a target, for it does not arrive as a
key-down of its own; a character that needs Shift adds it. -/
def Chord.target? (c : Chord) (l : Layout) : Option Target :=
  match c.key with
  | .named k => if k.isModifier then none else (l.code? k).map fun code ↦ ⟨code, c.modifiers⟩
  | .char ch =>
    (l.stroke? ch).map fun s ↦
      ⟨s.code, if s.shift then c.modifiers.insert .shift else c.modifiers⟩

/-- A target accepts just its own code and modifiers. -/
theorem Target.accepts_iff (t : Target) (code : KeyCode) (held : Modifiers) :
    t.accepts code held = true ↔ t = ⟨code, held⟩ := by
  cases t
  simp [accepts]

end Typist

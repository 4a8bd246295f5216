/-!
# Named keys

The keys that a template or a chord can address by name, their spellings, and the four
modifiers among them.
-/

namespace Typist

/-- A key with a name. `command` is the key that opens the system menu on keyboards without it. -/
inductive Key
  | tab | enter | space | backspace | delete | insert | home | «end» | pageUp | pageDown
  | left | right | up | down | escape
  | f1 | f2 | f3 | f4 | f5 | f6 | f7 | f8 | f9 | f10 | f11 | f12
  | shift | control | alt | command
  deriving DecidableEq, Repr

namespace Key

/-- Every key, in the order in which they are listed to the user. -/
def all : List Key :=
  [tab, enter, space, backspace, delete, insert, home, «end», pageUp, pageDown,
   left, right, up, down, escape,
   f1, f2, f3, f4, f5, f6, f7, f8, f9, f10, f11, f12,
   shift, control, alt, command]

/-- The modifier keys, in the order in which they are released. -/
def modifiers : List Key := [shift, control, alt, command]

/-- Whether the key is a modifier. -/
def isModifier (k : Key) : Bool := modifiers.contains k

/-- The name under which a key is shown. -/
def name : Key → String
  | tab => "Tab" | enter => "Enter" | space => "Space" | backspace => "Backspace"
  | delete => "Delete" | insert => "Insert" | home => "Home" | «end» => "End"
  | pageUp => "PageUp" | pageDown => "PageDown" | left => "Left" | right => "Right"
  | up => "Up" | down => "Down" | escape => "Escape"
  | f1 => "F1" | f2 => "F2" | f3 => "F3" | f4 => "F4" | f5 => "F5" | f6 => "F6"
  | f7 => "F7" | f8 => "F8" | f9 => "F9" | f10 => "F10" | f11 => "F11" | f12 => "F12"
  | shift => "Shift" | control => "Control" | alt => "Alt" | command => "Command"

/-- The short spellings of a key beside its name, in capitals. -/
def aliases : Key → List String
  | backspace => ["BKSP", "BS"]
  | delete => ["DEL"]
  | insert => ["INS"]
  | pageUp => ["PGUP"]
  | pageDown => ["PGDN"]
  | escape => ["ESC"]
  | control => ["CTRL"]
  | command => ["CMD", "META"]
  | _ => []

/-- Every spelling of a key, in capitals. -/
def spellings (k : Key) : List String := k.name.toUpper :: k.aliases

/-- The key of a name or alias; the case of ASCII letters does not matter. -/
def ofName? (text : String) : Option Key :=
  all.find? fun k ↦ k.spellings.contains text.toUpper

/-- The listing leaves no key out. -/
theorem mem_all (k : Key) : k ∈ all := by cases k <;> decide

/-- Modifiers are exactly the four listed keys. -/
theorem isModifier_iff (k : Key) : k.isModifier = true ↔ k ∈ modifiers := by
  simp [isModifier]

end Key

end Typist

import Typist.Action
import Typist.Script

/-!
# Injectors

An injector types a sequence through the native calls of a keyboard. Characters of the layout are
struck as keys, with Shift around those that need it; other characters go out as they are. All
modifiers are released before and after a sequence. Cancellation is looked at between actions only,
and the first key event that fails ends the sequence.
-/

namespace Typist

/-- Why a sequence was not typed to its end. -/
inductive InjectionError
  /-- The system does not permit it; the hint tells which setting to change. -/
  | notPermitted (hint : String)
  | unsupported
  | cancelled
  | synthesisFailed (reason : String)
  deriving DecidableEq, Repr

/-- The wording of an injection error. -/
def InjectionError.message : InjectionError → String
  | .notPermitted hint => "input synthesis not permitted: " ++ hint
  | .unsupported => "key injection is not supported on this platform"
  | .cancelled => "auto-type cancelled"
  | .synthesisFailed reason => "native input synthesis failed: " ++ reason

/-- How a run of a sequence ends. -/
abbrev TypingResult := Except InjectionError Unit

/-- Typing that may end early. -/
abbrev Typing := ExceptT InjectionError Script

namespace Typing

/-- Send one half of a key press; a refusal ends the typing. -/
def keyEvent (code : KeyCode) (down : Bool) : Typing Unit :=
  ExceptT.mk (.call (.key code down) fun r ↦ .done (r.mapError .synthesisFailed))

/-- Send a character that has no key; a refusal skips it. -/
def unicode (c : Char) : Typing Unit :=
  ExceptT.mk (.call (.unicode c) fun _ ↦ .done (.ok ()))

/-- Press and release a key. -/
def press (code : KeyCode) : Typing Unit := do
  keyEvent code true
  keyEvent code false

/-- Type while a key is held: the key is released also if the typing fails, and a failing release
counts more than what failed before it. -/
def holding (code : KeyCode) (body : Typing Unit) : Typing Unit := do
  keyEvent code true
  let result ← ExceptT.lift body.run
  keyEvent code false
  ExceptT.mk (.done result)

/-- Type one character. -/
def char (l : Layout) (c : Char) : Typing Unit :=
  match l.stroke? c with
  | none => unicode c
  | some s =>
    match if s.shift then l.code? .shift else none with
    | none => press s.code
    | some shift => holding shift (press s.code)

/-- The characters of a text that are typed: a line feed right after a carriage return belongs to
the same line break. -/
def typedChars : List Char → List Char
  | '\r' :: '\n' :: cs => '\r' :: typedChars cs
  | c :: cs => c :: typedChars cs
  | [] => []

/-- What is asked alike of both halves of a line break is asked of the characters that are typed. -/
theorem any_typedChars {p : Char → Bool} (h : p '\n' = p '\r') (cs : List Char) :
    (typedChars cs).any p = cs.any p := by
  fun_induction typedChars cs with
  | case1 cs ih => simp [ih, h]
  | case2 c cs _ ih => simp [ih]
  | case3 => rfl

/-- Type a text. -/
def text (l : Layout) (s : String) : Typing Unit :=
  (typedChars s.toList).forM (char l)

/-- Do something with the code of a key; a key that the layout lacks is skipped. -/
def withKey (l : Layout) (k : Key) (f : KeyCode → Typing Unit) : Typing Unit :=
  match l.code? k with
  | some code => f code
  | none => pure ()

/-- Carry out one action. -/
def action (l : Layout) : Action → Typing Unit
  | .text s => text l s
  | .press k => withKey l k press
  | .down k => withKey l k (keyEvent · true)
  | .up k => withKey l k (keyEvent · false)
  | .delay ms => ExceptT.lift (Script.pause ms.toNat)

/-- Carry out actions, each after a look at the cancellation flag and with a pause behind it. -/
def actions (l : Layout) (pauseMs : Nat) : List Action → Typing Unit
  | [] => pure ()
  | a :: as => do
    if ← ExceptT.lift Script.isCancelled then throw .cancelled
    action l a
    ExceptT.lift (Script.pause pauseMs)
    actions l pauseMs as

end Typing

/-- Release every modifier of the layout, in order; refusals do not matter. -/
def Script.releaseModifiers (l : Layout) : Script Unit :=
  (Key.modifiers.filterMap l.code?).forM fun code ↦ do
    let _ ← Script.ask (.key code false)

/-- A keyboard that can be typed on. -/
structure Keyboard where
  layout : Layout
  /-- The advice for a user whose system does not permit typing. -/
  hint : String

/-- Type a sequence on a keyboard, if the system trusts this process. -/
def Keyboard.perform (k : Keyboard) (trusted : Bool) (pauseMs : Nat) (s : Sequence) :
    Script TypingResult :=
  if trusted then do
    Script.releaseModifiers k.layout
    let result ← (Typing.actions k.layout pauseMs s.actions).run
    Script.releaseModifiers k.layout
    return result
  else return .error (.notPermitted k.hint)

/-- What types: a keyboard, or nothing on a system that has none to offer. It remembers how the
last sequence failed. -/
structure Injector where
  keyboard : Option Keyboard
  lastError : Option String := none

namespace Injector

/-- The injector of a system without one. -/
def unsupported : Injector := ⟨none, none⟩

/-- Whether the system lets this process type. -/
def isAvailable (i : Injector) (trusted : Bool) : Bool := i.keyboard.isSome && trusted

/-- Type a sequence. -/
def perform (i : Injector) (trusted : Bool) (pauseMs : Nat) (s : Sequence) : Script TypingResult :=
  match i.keyboard with
  | some k => k.perform trusted pauseMs s
  | none => return .error .unsupported

/-- Release the modifiers on their own. -/
def releaseModifiers (i : Injector) : Script Unit :=
  match i.keyboard with
  | some k => Script.releaseModifiers k.layout
  | none => return ()

/-- The injector after a sequence that ended with a result. -/
def ended (i : Injector) (r : TypingResult) : Injector :=
  { i with lastError := match r with | .ok _ => none | .error e => some e.message }

end Injector

end Typist

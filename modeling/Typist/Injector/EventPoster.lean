import Typist.Chord
import Typist.Layout.MacAnsi
import Typist.Script

/-!
# Posted keyboard events

A poster turns native calls into keyboard events that carry their modifiers as flags. It keeps the
modifiers whose keys it has last sent down, and it does so before it makes the event, which may
fail.
-/

namespace Typist

/-- A keyboard event that was posted. -/
structure PostedEvent where
  code : KeyCode
  down : Bool
  flags : Modifiers
  text : Option Char := none
  deriving DecidableEq, Repr

/-- Whether an event can be made. -/
inductive Creation
  | made
  | noSource
  | noEvent
  deriving DecidableEq, Repr

/-- A poster: the modifiers it holds, and how many events it has tried to make. -/
structure EventPoster where
  held : Modifiers := {}
  attempts : Nat := 0
  deriving DecidableEq, Repr

/-- The modifier that a key is, if it is one. -/
def Key.modifier? : Key → Option Modifier
  | .shift => some .shift
  | .control => some .control
  | .alt => some .alt
  | .command => some .command
  | _ => none

namespace EventPoster

/-- The layout whose codes the poster knows. -/
def layout : Layout := .macAnsi

/-- The held modifiers after one half of a key press. -/
def heldAfter (held : Modifiers) (code : KeyCode) (down : Bool) : Modifiers :=
  match (layout.key? code).bind Key.modifier? with
  | some m => if down then held.insert m else held.erase m
  | none => held

/-- The answer to an attempt at an event for a code. -/
def reply (code : KeyCode) : Creation → NativeReply
  | .made => .ok ()
  | .noSource => .error "failed to create event source"
  | .noEvent => .error ("failed to create key event for " ++ toString code.toNat)

/-- Make and post one event, given how each attempt ends. -/
def post (creation : Nat → Creation) (p : EventPoster) (e : PostedEvent) :
    EventPoster × List PostedEvent × NativeReply :=
  let n := p.attempts + 1
  ({ p with attempts := n }, if creation n = .made then [e] else [], reply e.code (creation n))

/-- Carry out one native call. A character is typed by the halves of a key without a place, and
without flags; a first half that fails is the last. -/
def call (creation : Nat → Creation) (p : EventPoster) :
    NativeCall → EventPoster × List PostedEvent × NativeReply
  | .key code down =>
    let held := heldAfter p.held code down
    post creation { p with held := held } ⟨code, down, held, none⟩
  | .unicode c =>
    match post creation p ⟨0, true, {}, some c⟩ with
    | (p, posted, .error reason) => (p, posted, .error reason)
    | (p, posted, .ok ()) =>
      let (p, more, r) := post creation p ⟨0, false, {}, some c⟩
      (p, posted ++ more, r)

end EventPoster

end Typist

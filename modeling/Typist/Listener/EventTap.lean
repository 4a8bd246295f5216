import Typist.Listener.Monitor
import Typist.Listener.Notice

/-!
# Event taps

An event tap sees key-downs before the applications do. It lets other keys pass, drops the presses
of its target and reports the first of each. The system may disable a tap; after the events that
arrived together it is enabled again, and reports that once.
-/

namespace Typist

/-- The type of an event at the tap. -/
inductive TapEventType
  | keyDown | keyUp | flagsChanged
  | disabledByTimeout | disabledByUserInput
  /-- An event that is dropped. -/
  | null
  deriving DecidableEq, Repr

/-- An event at the tap. -/
structure TapEvent where
  type : TapEventType
  code : KeyCode
  /-- The modifier bits of the event, among others. -/
  flags : Nat
  /-- Whether this process posted the event. -/
  own : Bool
  /-- Zero for the first key-down of a press. -/
  autorepeat : Int
  deriving Repr

namespace EventTap

/-- The bit by which event flags show a held modifier. -/
def flagBit : Modifier → Nat
  | .shift => 17
  | .control => 18
  | .alt => 19
  | .command => 20

/-- The flags of a set of modifiers. -/
def flagsOf (s : Modifiers) : Nat :=
  ((Modifier.all.filter s.contains).map fun m ↦ 1 <<< flagBit m).foldr (· + ·) 0

/-- The modifiers held according to event flags; Caps Lock and others do not count. -/
def heldModifiers (flags : Nat) : Modifiers :=
  ⟨flags.testBit (flagBit .shift), flags.testBit (flagBit .control),
    flags.testBit (flagBit .alt), flags.testBit (flagBit .command)⟩

/-- What is done with a key-down. -/
inductive Verdict
  | pass
  | trigger
  | swallow
  deriving DecidableEq, Repr

/-- Own events and other keys pass; of a press of the target, the first key-down triggers and the
repeated ones are swallowed. -/
def classify (target : Target) (e : TapEvent) : Verdict :=
  if e.own || !target.accepts e.code (heldModifiers e.flags) then .pass
  else if e.autorepeat ≠ 0 then .swallow
  else .trigger

end EventTap

/-- A tap with its target. -/
structure EventTap where
  target : Target
  enabled : Bool := true
  deriving Repr

namespace EventTap

/-- What one event does: the tap afterwards, the type with which the event goes on, and what is
posted. -/
def handle (t : EventTap) (e : TapEvent) : EventTap × TapEventType × List Notice :=
  match e.type with
  | .keyDown =>
    if t.enabled then
      match classify t.target e with
      | .pass => (t, .keyDown, [])
      | .trigger => (t, .null, [.triggered])
      | .swallow => (t, .null, [])
    else (t, .keyDown, [])
  | .disabledByTimeout => ({ t with enabled := false }, .disabledByTimeout, [])
  | .disabledByUserInput => ({ t with enabled := false }, .disabledByUserInput, [])
  | type => (t, type, [])

/-- What events that arrive together do. -/
def handleAll (t : EventTap) : List TapEvent → EventTap × List TapEventType × List Notice
  | [] => (t, [], [])
  | e :: es =>
    let (t₁, type, posted) := t.handle e
    let (t₂, types, later) := t₁.handleAll es
    (t₂, type :: types, posted ++ later)

/-- Whether an event tells that the system disabled the tap. -/
def isDisabling (e : TapEvent) : Bool :=
  e.type == .disabledByTimeout || e.type == .disabledByUserInput

end EventTap

/-- The taps of a system: the one that runs, and how many were made and enabled. -/
structure TapHost where
  /-- Whether this process may observe keys. -/
  permitted : Bool := true
  refusesTap : Bool := false
  refusesSource : Bool := false
  running : Option (ListenerId × EventTap) := none
  made : Nat := 0
  enablings : Nat := 0
  deriving Repr

namespace TapHost

/-- Make, connect and enable a tap. -/
def install (target : Target) (h : TapHost) : TapHost × Except RegistrationError ListenerId :=
  if h.refusesTap then (h, .error (.listenerFailed "CGEventTapCreate returned null"))
  else if h.refusesSource then
    ({ h with made := h.made + 1 }, .error (.listenerFailed "failed to create run loop source"))
  else
    ({ h with running := some (h.made, ⟨target, true⟩), made := h.made + 1,
              enablings := h.enablings + 1 }, .ok h.made)

/-- Release a tap. -/
def stop (l : ListenerId) (h : TapHost) : TapHost :=
  match h.running with
  | some (l', _) => if l = l' then { h with running := none } else h
  | none => h

/-- The platform of a layout with event taps. -/
def platform (layout : Layout) : Platform TapHost where
  layout := layout
  permitted := TapHost.permitted
  install := install
  stop := stop

/-- Events that arrive together at the running tap: how each goes on, and what is posted. -/
def deliver (h : TapHost) (es : List TapEvent) :
    TapHost × Option (List TapEventType) × List Notice :=
  match h.running with
  | none => (h, none, [])
  | some (l, t) =>
    let (t, types, posted) := t.handleAll es
    if es.any EventTap.isDisabling then
      ({ h with running := some (l, { t with enabled := true }), enablings := h.enablings + 1 },
        some types, posted ++ [.restarted])
    else ({ h with running := some (l, t) }, some types, posted)

/-- Whether there is a tap and it is enabled. -/
def isEnabled (h : TapHost) : Bool := (h.running.map (·.2.enabled)).getD false

end TapHost

end Typist

import Typist.Listener.Monitor
import Typist.Listener.Notice

/-!
# Low-level keyboard hooks

A hook is called for every key message of the system. It lets injected messages and other keys
pass, swallows the presses of its target and reports each press once. Each hook has a thread that
removes it when it ends; the calls to the system that install, end and remove it may fail.
-/

namespace Typist

/-- A key message as a hook sees it. -/
structure KeyMessage where
  code : KeyCode
  /-- The number of the message, of which the low 32 bits count. -/
  message : UInt32
  injected : Bool
  /-- Whether the message is to be acted upon, and not only to be passed on. -/
  actionable : Bool := true
  deriving DecidableEq, Repr

namespace KeyMessage

/-- Whether the message is a key-down, of a system key or not. -/
def isDown (m : KeyMessage) : Bool := m.message == 256 || m.message == 260

/-- Whether the message is a key-up, of a system key or not. -/
def isUp (m : KeyMessage) : Bool := m.message == 257 || m.message == 261

end KeyMessage

/-- What a hook knows while its thread runs. -/
structure HookContext where
  target : Target
  /-- Set from the target's key-down to its key-up. -/
  targetDown : Bool := false
  deriving DecidableEq, Repr

/-- The outcome of one call of a hook. -/
structure HookVerdict where
  swallowed : Bool
  posted : List Notice
  deriving DecidableEq, Repr

namespace HookContext

/-- One physical key message under the modifiers held at that moment. -/
def handle (c : HookContext) (m : KeyMessage) (held : Modifiers) : HookContext × HookVerdict :=
  if m.isDown && c.target.accepts m.code held then
    ({ c with targetDown := true }, ⟨true, if c.targetDown then [] else [.triggered]⟩)
  else if m.isUp && decide (m.code = c.target.code) && c.targetDown then
    ({ c with targetDown := false }, ⟨true, []⟩)
  else (c, ⟨false, []⟩)

/-- One message: an injected one, or one that is only to be passed on, leaves all as it is. -/
def call (c : HookContext) (m : KeyMessage) (held : Modifiers) : HookContext × HookVerdict :=
  if m.actionable && !m.injected then c.handle m held else (c, ⟨false, []⟩)

/-- A stream of messages, each with the modifiers held at it. -/
def callAll (c : HookContext) : List (KeyMessage × Modifiers) → HookContext × List HookVerdict
  | [] => (c, [])
  | (m, held) :: ms =>
    let (c₁, v) := c.call m held
    let (c₂, vs) := c₁.callAll ms
    (c₂, v :: vs)

end HookContext

/-- An installed hook. -/
structure Hook where
  id : ListenerId
  /-- Present while the hook's thread runs. -/
  context : Option HookContext
  deriving DecidableEq, Repr

/-- How the system answers the calls that deal with hooks. -/
structure HookFaults where
  permitted : Bool := true
  /-- The system's reason for having no module to hook from. -/
  noModule : Option String := none
  /-- The system's reason for refusing a hook. -/
  noHook : Option String := none
  keepsHook : Bool := false
  losesQuit : Bool := false
  deriving DecidableEq, Repr

/-- The hooks of a system, the newest first, and the keys held down. -/
structure HookChain where
  hooks : List Hook := []
  installed : Nat := 0
  /-- How often a hook was asked to be removed, with success or without. -/
  removals : Nat := 0
  held : List KeyCode := []
  faults : HookFaults := {}
  deriving Repr

namespace HookChain

/-- The modifiers held down; either system key counts as Command. -/
def heldModifiers (h : HookChain) : Modifiers :=
  ⟨h.held.contains 0x10, h.held.contains 0x11, h.held.contains 0x12,
    h.held.contains 0x5B || h.held.contains 0x5C⟩

/-- Install a hook with a thread of its own. -/
def install (target : Target) (h : HookChain) :
    HookChain × Except RegistrationError ListenerId :=
  match h.faults.noModule, h.faults.noHook with
  | some reason, _ => (h, .error (.listenerFailed reason))
  | none, some reason => (h, .error (.listenerFailed reason))
  | none, none =>
    ({ h with hooks := ⟨h.installed, some ⟨target, false⟩⟩ :: h.hooks,
              installed := h.installed + 1 }, .ok h.installed)

/-- The thread of a hook ends: it removes the hook, unless the system keeps it. -/
def endThread (l : ListenerId) (h : HookChain) : HookChain :=
  if h.hooks.any fun k ↦ decide (k.id = l) && k.context.isSome then
    { h with
      removals := h.removals + 1
      hooks :=
        if h.faults.keepsHook then
          h.hooks.map fun k ↦ if k.id = l then { k with context := none } else k
        else h.hooks.filter fun k ↦ !decide (k.id = l) }
  else h

/-- Ask the thread of a hook to end; a request that is lost leaves it running. -/
def stop (l : ListenerId) (h : HookChain) : HookChain :=
  if h.faults.losesQuit then h else h.endThread l

/-- The platform of a layout with keyboard hooks. -/
def platform (layout : Layout) : Platform HookChain where
  layout := layout
  permitted h := h.faults.permitted
  install := install
  stop := stop

/-- A message at the newest hook, if that hook's thread runs. -/
def deliver (h : HookChain) (m : KeyMessage) : HookChain × Option HookVerdict :=
  match h.hooks with
  | ⟨id, some c⟩ :: rest =>
    let (c, v) := c.call m h.heldModifiers
    ({ h with hooks := ⟨id, some c⟩ :: rest }, some v)
  | _ => (h, none)

/-- The newest hook's thread fails to read its messages and ends; tells whether one ran. -/
def failThread (h : HookChain) : HookChain × Bool :=
  match h.hooks with
  | ⟨id, some _⟩ :: _ => (h.endThread id, true)
  | _ => (h, false)

end HookChain

end Typist

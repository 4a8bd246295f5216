import Typist.Engine
import Typist.Listener.Monitor
import Typist.Status

/-!
# Commands

What clients ask of the daemon's core, and what it answers.
-/

namespace Typist

/-- A command. -/
inductive Command
  | status
  /-- Type an entry, or the armed one. -/
  | autoType (entry : Option Entry) (template : Option String)
  /-- Keep an entry for the hotkey. -/
  | arm (entry : Entry) (template : Option String)
  | disarm
  | register (chord : Option Chord)
  | unregister
  /-- Cancel the sequence that is being typed. -/
  | cancel
  | shutdown

/-- Why a command was not carried out. -/
inductive CommandError
  | notArmed
  | engine (e : EngineError)
  | registration (e : RegistrationError)
  | stopped
  deriving DecidableEq, Repr

namespace CommandError

/-- The wording of a command error. -/
def message : CommandError → String
  | .notArmed => "no entry is armed for auto-type"
  | .engine e => e.message
  | .registration e => e.message
  | .stopped => "state machine is not running"

/-- The kind of an error, for clients to tell errors apart. -/
def code : CommandError → String
  | .notArmed => "not_armed"
  | .engine (.compile _) => "compile_error"
  | .engine (.injection _) => "injection_failed"
  | .engine .busy => "busy"
  | .registration _ => "hotkey_error"
  | .stopped => "internal"

end CommandError

/-- An answer to a command. -/
inductive Answer
  | status (s : Snapshot)
  | typed (actions : UInt64)
  | armed
  | disarmed (wasArmed : Bool)
  | registered (hotkey : String)
  | unregistered
  | cancelled (wasRunning : Bool)
  | refused (e : CommandError)
  deriving DecidableEq, Repr

/-- The name of a client's outstanding command. -/
structure Ticket where
  index : Nat
  deriving DecidableEq, Repr

end Typist

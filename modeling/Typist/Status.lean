/-!
# The daemon's status

Whether the daemon is typing, and what it tells about itself.
-/

namespace Typist

/-- Whether a sequence is being typed. -/
inductive DaemonState
  | idle
  | typing
  deriving DecidableEq, Repr

/-- The name of a state in text. -/
def DaemonState.display : DaemonState → String
  | .idle => "Idle"
  | .typing => "Typing"

/-- The daemon at one moment. -/
structure Snapshot where
  state : DaemonState
  hotkey : Option String
  armed : Bool
  injectionAvailable : Bool
  deriving DecidableEq, Repr

/-- The version that the daemon reports. -/
def daemonVersion : String := "0.1.0"

/-- What the daemon reports to a client. -/
structure Status where
  version : String
  state : DaemonState
  hotkeyRegistered : Bool
  hotkey : Option String
  armed : Bool
  injectionAvailable : Bool
  uptimeSecs : UInt64
  deriving DecidableEq, Repr

/-- The report on a moment. -/
def Status.ofSnapshot (s : Snapshot) (uptimeSecs : UInt64) : Status where
  version := daemonVersion
  state := s.state
  hotkeyRegistered := s.hotkey.isSome
  hotkey := s.hotkey
  armed := s.armed
  injectionAvailable := s.injectionAvailable
  uptimeSecs

end Typist

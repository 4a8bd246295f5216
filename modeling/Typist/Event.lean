/-!
# Events

What the daemon tells its observers while chords are pressed and sequences are typed.
-/

namespace Typist

/-- An event. -/
inductive Event
  | hotkeyRegistered (hotkey : String)
  | hotkeyUnregistered
  | hotkeyTriggered
  /-- The system had stopped the listener, and it was started again. -/
  | listenerRestarted
  /-- The chord was pressed when nothing could be typed. -/
  | triggerRejected (reason : String)
  | sequenceStarted (actions : UInt64)
  | sequenceFinished (actions durationMs : UInt64)
  | sequenceFailed (error : String)
  deriving DecidableEq, Repr

/-- The line that shows an event. -/
def Event.display : Event → String
  | .hotkeyRegistered hotkey => "HOTKEY_REGISTERED (" ++ hotkey ++ ")"
  | .hotkeyUnregistered => "HOTKEY_UNREGISTERED"
  | .hotkeyTriggered => "HOTKEY_TRIGGERED"
  | .listenerRestarted => "LISTENER_RESTARTED"
  | .triggerRejected reason => "TRIGGER_REJECTED (" ++ reason ++ ")"
  | .sequenceStarted actions => "SEQUENCE_STARTED (" ++ toString actions ++ " actions)"
  | .sequenceFinished actions durationMs =>
    "SEQUENCE_FINISHED (" ++ toString actions ++ " actions, " ++ toString durationMs ++ "ms)"
  | .sequenceFailed error => "SEQUENCE_FAILED (" ++ error ++ ")"

end Typist

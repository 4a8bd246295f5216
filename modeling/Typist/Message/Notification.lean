import Typist.Event
import Typist.Json.Tagged
import Typist.Json.Writer

/-!
# Events on the wire

Events as JSON values, and the notifications that carry them to subscribers.
-/

namespace Typist

open Json (Body Record Tagged)

/-- A text that a message must have. -/
def Json.Field.text (name : String) : Json.Field String := ⟨name, Json.asText, .required⟩

/-- A truth value that a message must have. -/
def Json.Field.bool (name : String) : Json.Field Bool := ⟨name, Json.asBool, .required⟩

/-- A count that a message must have. -/
def Json.Field.count (name : String) : Json.Field UInt64 := ⟨name, Json.asWord "usize", .required⟩

/-- A number of 64 bits that a message must have. -/
def Json.Field.word (name : String) : Json.Field UInt64 := ⟨name, Json.asWord "u64", .required⟩

/-- An object with its tag first. -/
def Json.tagged (variant : String) (members : List (String × Json)) : Json :=
  .record ((Json.tagName, .text variant) :: members)

namespace Event

/-- The value that stands for an event. -/
def toJson : Event → Json
  | .hotkeyRegistered hotkey => .tagged "hotkey_registered" [("hotkey", .text hotkey)]
  | .hotkeyUnregistered => .tagged "hotkey_unregistered" []
  | .hotkeyTriggered => .tagged "hotkey_triggered" []
  | .listenerRestarted => .tagged "listener_restarted" []
  | .triggerRejected reason => .tagged "trigger_rejected" [("reason", .text reason)]
  | .sequenceStarted actions => .tagged "sequence_started" [("actions", .natural actions.toNat)]
  | .sequenceFinished actions durationMs =>
    .tagged "sequence_finished"
      [("actions", .natural actions.toNat), ("duration_ms", .natural durationMs.toNat)]
  | .sequenceFailed error => .tagged "sequence_failed" [("error", .text error)]

/-- What the form of an event is called. -/
def variantName (name : String) : String := "struct variant AutoTypeEvent::" ++ name

/-- The form of events. -/
def form : Tagged Event where
  wanted := "internally tagged enum AutoTypeEvent"
  variants := [
    ("hotkey_registered",
      .record (.one (variantName "HotkeyRegistered") (.text "hotkey") .hotkeyRegistered)),
    ("hotkey_unregistered", .unit .hotkeyUnregistered),
    ("hotkey_triggered", .unit .hotkeyTriggered),
    ("listener_restarted", .unit .listenerRestarted),
    ("trigger_rejected",
      .record (.one (variantName "TriggerRejected") (.text "reason") .triggerRejected)),
    ("sequence_started",
      .record (.one (variantName "SequenceStarted") (.count "actions") .sequenceStarted)),
    ("sequence_finished",
      .record (.two (variantName "SequenceFinished") (.count "actions") (.word "duration_ms")
        .sequenceFinished)),
    ("sequence_failed",
      .record (.one (variantName "SequenceFailed") (.text "error") .sequenceFailed))]

/-- The text of an event. -/
def render (e : Event) : String := e.toJson.render

/-- Reads the text of an event. -/
def ofBytes (bytes : List UInt8) : Except Json.Mismatch Event := form.decode bytes

end Event

/-- What the daemon sends to a subscriber without being asked. -/
structure Notification where
  event : Event
  deriving DecidableEq, Repr

namespace Notification

/-- The value that stands for a notification. -/
def toJson (n : Notification) : Json := .tagged "event" [("event", n.event.toJson)]

/-- The event within a notification. -/
def eventField : Json.Field Event := ⟨"event", Event.form.read .whole Json.maxDepth, .required⟩

/-- The form of notifications. -/
def form : Tagged Notification where
  wanted := "internally tagged enum Notification"
  variants := [("event", .record (.one "struct variant Notification::Event" eventField .mk))]

/-- The text of a notification. -/
def render (n : Notification) : String := n.toJson.render

/-- Reads the text of a notification. -/
def ofBytes (bytes : List UInt8) : Except Json.Mismatch Notification := form.decode bytes

end Notification

end Typist

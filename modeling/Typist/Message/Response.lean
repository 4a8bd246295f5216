import Typist.Message.Notification
import Typist.Status

/-!
# Responses

What the daemon answers to a request.
-/

namespace Typist

open Json (Body Mismatch Record Tagged)

namespace DaemonState

/-- The name of a state in messages. -/
def name : DaemonState → String
  | .idle => "idle"
  | .typing => "typing"

/-- The state of a name. -/
def ofName? : String → Option DaemonState
  | "idle" => some .idle
  | "typing" => some .typing
  | _ => none

/-- Every name of a state. -/
def names : List String := ["idle", "typing"]

/-- Reads a name. -/
def ofName (s : String) : Except Mismatch DaemonState :=
  match ofName? s with
  | some state => .ok state
  | none => .error (.unknownVariant s names)

/-- Reads what stands beside a name in an object: nothing but null. Within a message an empty
object is as good. -/
def bareBody (inMessage : Bool) : Json → Except Mismatch Unit
  | .null => .ok ()
  | .object [] => if inMessage then .ok () else .error (.invalidType .map "unit")
  | j => .error (j.mismatch "unit")

/-- Reads a state: its name, or an object with that name alone. -/
def read (inMessage : Bool) : Json → Except Mismatch DaemonState
  | .string (some s) => ofName s
  | .object [(some s, j)] => do
    let state ← ofName s
    bareBody inMessage j
    return state
  | .object _ => .error (.invalidValue .map "map with a single key")
  | j => .error (j.mismatch "string or map")

end DaemonState

namespace Status

/-- The state in a status. -/
def stateField : Json.Field DaemonState := ⟨"state", DaemonState.read true, .required⟩

/-- The registered chord in a status. -/
def hotkeyField : Json.Field (Option String) := ⟨"hotkey", Json.orNull Json.asText, .nullable none⟩

/-- The form of a status. -/
def form : Record Status where
  wanted := "struct DaemonStatus"
  slots := [
    (Json.Field.text "version").slot, stateField.slot, (Json.Field.bool "hotkey_registered").slot,
    hotkeyField.slot, (Json.Field.bool "armed").slot, (Json.Field.bool "injection_available").slot,
    (Json.Field.word "uptime_secs").slot]
  build m := do
    return {
      version := ← m.get (.text "version")
      state := ← m.get stateField
      hotkeyRegistered := ← m.get (.bool "hotkey_registered")
      hotkey := ← m.get hotkeyField
      armed := ← m.get (.bool "armed")
      injectionAvailable := ← m.get (.bool "injection_available")
      uptimeSecs := ← m.get (.word "uptime_secs") }

/-- The members that stand for a status. -/
def members (s : Status) : List (String × Json) := [
  ("version", .text s.version), ("state", .text s.state.name),
  ("hotkey_registered", .bool s.hotkeyRegistered), ("hotkey", .optionalText s.hotkey),
  ("armed", .bool s.armed), ("injection_available", .bool s.injectionAvailable),
  ("uptime_secs", .natural s.uptimeSecs.toNat)]

end Status

/-- A response. -/
inductive Response
  | pong
  | status (s : Status)
  | typed (actions : UInt64)
  | armed
  | disarmed (wasArmed : Bool)
  | hotkeyRegistered (hotkey : String)
  | hotkeyUnregistered
  | cancelled (wasRunning : Bool)
  | subscribed
  | error (code message : String)
  deriving DecidableEq, Repr

namespace Response

/-- The value that stands for a response. -/
def toJson : Response → Json
  | .pong => .tagged "pong" []
  | .status s => .tagged "status" s.members
  | .typed actions => .tagged "typed" [("actions", .natural actions.toNat)]
  | .armed => .tagged "armed" []
  | .disarmed wasArmed => .tagged "disarmed" [("was_armed", .bool wasArmed)]
  | .hotkeyRegistered hotkey => .tagged "hotkey_registered" [("hotkey", .text hotkey)]
  | .hotkeyUnregistered => .tagged "hotkey_unregistered" []
  | .cancelled wasRunning => .tagged "cancelled" [("was_running", .bool wasRunning)]
  | .subscribed => .tagged "subscribed" []
  | .error code message => .tagged "error" [("code", .text code), ("message", .text message)]

/-- What the form of a response is called. -/
def variantName (name : String) : String := "struct variant Response::" ++ name

/-- The form of responses. -/
def form : Tagged Response where
  wanted := "internally tagged enum Response"
  variants := [
    ("pong", .unit .pong),
    ("status", .record { Status.form with build := fun m ↦ .status <$> Status.form.build m }),
    ("typed", .record (.one (variantName "Typed") (.count "actions") .typed)),
    ("armed", .unit .armed),
    ("disarmed", .record (.one (variantName "Disarmed") (.bool "was_armed") .disarmed)),
    ("hotkey_registered",
      .record (.one (variantName "HotkeyRegistered") (.text "hotkey") .hotkeyRegistered)),
    ("hotkey_unregistered", .unit .hotkeyUnregistered),
    ("cancelled", .record (.one (variantName "Cancelled") (.bool "was_running") .cancelled)),
    ("subscribed", .unit .subscribed),
    ("error", .record (.two (variantName "Error") (.text "code") (.text "message") .error))]

/-- The text of a response. -/
def render (r : Response) : String := r.toJson.render

/-- Reads the text of a response. -/
def ofBytes (bytes : List UInt8) : Except Mismatch Response := form.decode bytes

/-- The line that shows a response, for those that have one. -/
def display? : Response → Option String
  | .status s => some s.state.display
  | _ => none

end Response

end Typist

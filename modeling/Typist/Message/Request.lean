import Typist.Message.SentEntry

/-!
# Requests

What a client asks of the daemon.
-/

namespace Typist

open Json (Body Record Tagged)

/-- A request. -/
inductive Request
  | ping
  | getStatus
  /-- Type an entry, or the armed one. -/
  | autoType (entry : Option SentEntry) (template : Option String)
  /-- Keep an entry for the hotkey. -/
  | arm (entry : SentEntry) (template : Option String)
  | disarm
  | registerHotkey (hotkey : String)
  | unregisterHotkey
  | cancel
  | subscribe
  deriving DecidableEq, Repr

namespace Request

/-- The template of a request; without one a default is typed. -/
def template : Json.Field (Option String) := ⟨"template", Json.orNull Json.asText, .optional none⟩

/-- The entry that is to be typed, if it is not the armed one. -/
def typedEntry : Json.Field (Option SentEntry) :=
  ⟨"entry", Json.orNull (SentEntry.form.read .whole), .optional none⟩

/-- The entry that is to be armed. -/
def armedEntry : Json.Field SentEntry := ⟨"entry", SentEntry.form.read .whole, .required⟩

/-- The chord that is to be registered. -/
def hotkey : Json.Field String := ⟨"hotkey", Json.asText, .required⟩

/-- The form of requests. -/
def form : Tagged Request where
  wanted := "internally tagged enum Request"
  variants := [
    ("ping", .unit .ping),
    ("get_status", .unit .getStatus),
    ("auto_type",
      .record (.two "struct variant Request::AutoType" typedEntry template .autoType)),
    ("arm", .record (.two "struct variant Request::Arm" armedEntry template .arm)),
    ("disarm", .unit .disarm),
    ("register_hotkey",
      .record (.one "struct variant Request::RegisterHotkey" hotkey .registerHotkey)),
    ("unregister_hotkey", .unit .unregisterHotkey),
    ("cancel", .unit .cancel),
    ("subscribe", .unit .subscribe)]

/-- Reads a request from the bytes of a frame. -/
def ofBytes (bytes : List UInt8) : Except Json.Mismatch Request := form.decode bytes

end Request

end Typist

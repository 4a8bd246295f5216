import Typist.Entry
import Typist.Json.Tagged

/-!
# Entries in messages

A credential as a client sends it: five texts, each empty if it is left out. What is shown of one
holds neither the password nor more than a glance needs.
-/

namespace Typist

open Json (Record)

/-- A credential as it is sent. -/
structure SentEntry where
  title : String := ""
  username : String := ""
  password : String := ""
  url : String := ""
  notes : String := ""
  deriving DecidableEq, Repr

namespace SentEntry

/-- The entry that was meant: an empty password is none. -/
def toEntry (s : SentEntry) : Entry where
  title := s.title
  username := s.username
  url := s.url
  notes := s.notes
  password := if s.password = "" then none else some s.password

/-- A text field that may be left out. -/
def textField (name : String) : Json.Field String := ⟨name, Json.asText, .optional ""⟩

/-- The form of an entry. -/
def form : Record SentEntry where
  wanted := "struct EntryPayload"
  slots := ["title", "username", "password", "url", "notes"].map fun name ↦ (textField name).slot
  build m := do
    return {
      title := ← m.get (textField "title")
      username := ← m.get (textField "username")
      password := ← m.get (textField "password")
      url := ← m.get (textField "url")
      notes := ← m.get (textField "notes") }

/-- What is shown of a sent entry. -/
def glance (s : SentEntry) : String :=
  "EntryPayload \x7b title: " ++ Text.quoted s.title ++ ", username: " ++ Text.quoted s.username ++
    ", password: \"<redacted>\", .. \x7d"

end SentEntry

/-- What is shown of an entry. -/
def Entry.glance (e : Entry) : String :=
  "Entry \x7b title: " ++ Text.quoted e.title ++ ", username: " ++ Text.quoted e.username ++
    ", url: " ++ Text.quoted e.url ++ ", has_password: " ++
    (if e.hasPassword then "true" else "false") ++ ", .. \x7d"

end Typist

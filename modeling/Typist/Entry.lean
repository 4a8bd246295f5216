/-!
# Credential entries

An entry is what is typed: five text fields, of which the password may be missing and is only
read between an unlocking and a locking access.
-/

namespace Typist

/-- A field that a template can name. -/
inductive Field
  | title | username | url | notes | password
  deriving DecidableEq, Repr

/-- The spellings of a field in a template, in capitals. -/
def Field.spellings : Field → List String
  | .title => ["TITLE"]
  | .username => ["USERNAME", "USER"]
  | .url => ["URL"]
  | .notes => ["NOTES"]
  | .password => ["PASSWORD", "PASS", "PWD"]

/-- Every field. -/
def Field.all : List Field := [.title, .username, .url, .notes, .password]

/-- The field of a spelling in capitals. -/
def Field.ofName? (name : String) : Option Field :=
  all.find? fun f ↦ f.spellings.contains name

/-- A credential. -/
structure Entry where
  title : String := ""
  username : String := ""
  url : String := ""
  notes : String := ""
  password : Option String := none
  deriving DecidableEq, Repr

/-- An access to a credential while a template is compiled. -/
inductive Access
  | read (f : Field)
  | unlock
  | lock
  deriving DecidableEq, Repr

namespace Entry

/-- Whether the entry holds a password. -/
def hasPassword (e : Entry) : Bool := e.password.isSome

/-- The password while it is unlocked; an entry without one unlocks to an empty text. -/
def unlocked (e : Entry) : String := e.password.getD ""

/-- The text before the first line break. -/
def firstLine (s : String) : String :=
  String.ofList (s.toList.takeWhile fun c ↦ c != '\r' && c != '\n')

/-- The text that a field contributes: of the notes, only the first line. -/
def value (e : Entry) : Field → String
  | .title => e.title
  | .username => e.username
  | .url => e.url
  | .notes => firstLine e.notes
  | .password => e.unlocked

end Entry

/-- The accesses that reading a field makes. -/
def Field.accesses : Field → List Access
  | .password => [.unlock, .lock]
  | f => [.read f]

/-- A first line holds no line break. -/
theorem Entry.not_break_of_mem_firstLine {s : String} {c : Char}
    (h : c ∈ (Entry.firstLine s).toList) : c ≠ '\r' ∧ c ≠ '\n' := by
  simp only [Entry.firstLine, String.toList_ofList] at h
  have := List.all_eq_true.mp (List.all_takeWhile (p := fun c ↦ c != '\r' && c != '\n')) c h
  simpa using this

end Typist

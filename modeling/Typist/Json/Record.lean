import Typist.Json.Mismatch

/-!
# Records

A record is read from the members of an object, by name, or from the items of an array, by
position. Its members are judged in the order of the text, so that of several mismatches the first
one counts; only then are absent fields noticed.
-/

namespace Typist.Json

/-- Whether a field may be absent, and what it then is. -/
inductive Presence (α : Type)
  | required
  /-- An object may leave the field out, an array may not. -/
  | nullable (value : α)
  | optional (value : α)

/-- A field of a record. -/
structure Field (α : Type) where
  name : String
  read : Json → Except Mismatch α
  presence : Presence α := .required

/-- What a record needs to know of a field to judge a member. -/
structure Slot where
  name : String
  check : Json → Except Mismatch Unit

/-- The slot of a field. -/
def Field.slot {α : Type} (f : Field α) : Slot := ⟨f.name, fun j ↦ (f.read j).map fun _ ↦ ()⟩

/-- The values that were found for the slots of a record. -/
structure Members where
  values : List (String × Json)
  /-- For a record by position, the names of its slots and what was wanted. -/
  positions : Option (List String × String)

namespace Members

/-- The mismatch of a field that is absent. -/
def absence (m : Members) (name : String) : Mismatch :=
  match m.positions with
  | some (names, wanted) => .invalidLength (names.idxOf name) wanted
  | none => .missingField name

/-- The value of a field. -/
def get {α : Type} (m : Members) (f : Field α) : Except Mismatch α :=
  match m.values.find? fun v ↦ v.1 == f.name with
  | some (_, j) => f.read j
  | none =>
    match f.presence with
    | .optional value => .ok value
    | .nullable value => if m.positions.isSome then .error (m.absence f.name) else .ok value
    | .required => .error (m.absence f.name)

end Members

/-- A form of records. -/
structure Record (α : Type) where
  /-- What the form is called in messages. -/
  wanted : String
  slots : List Slot
  /-- Whether members with unknown names are refused. -/
  closed : Bool := false
  build : Members → Except Mismatch α

/-- How much of a text is known when it is judged: all of it, or no more than was needed so far. -/
inductive Extent
  | whole
  | front
  deriving DecidableEq, Repr

namespace Record

variable {α : Type}

/-- The names of a record's fields. -/
def names (r : Record α) : List String := r.slots.map Slot.name

/-- The wording of a record by position. -/
def wantedLength (r : Record α) : String := r.wanted ++ " with " ++ elementsText r.slots.length

/-- Judges members in their order, behind those found already. Members with unknown names need not
be readable, but their text must make sense. -/
def gather (r : Record α) (found : List (String × Json)) :
    List (Option String × Json) → Except Mismatch (List (String × Json))
  | [] => .ok found
  | (none, _) :: _ => .error .malformed
  | (some name, j) :: rest =>
    match r.slots.find? fun s ↦ s.name == name with
    | none =>
      if r.closed then .error (.unknownField name r.names)
      else if j.isBroken then .error .malformed
      else r.gather found rest
    | some slot =>
      if found.any fun v ↦ v.1 == name then .error (.duplicateField name)
      else
        match slot.check j with
        | .ok () => r.gather (found ++ [(name, j)]) rest
        | .error e => .error e

/-- Reads a record by name. -/
def ofMembers (r : Record α) (members : List (Option String × Json)) : Except Mismatch α := do
  r.build ⟨← r.gather [] members, none⟩

/-- Judges items in the order of the slots. -/
def checkItems : List Slot → List Json → Except Mismatch Unit
  | slot :: slots, j :: items =>
    match slot.check j with
    | .ok () => checkItems slots items
    | .error e => .error e
  | _, _ => .ok ()

/-- Reads a record by position. Items beyond the last field are noticed last; where only the front
of the text is known they are no more than a comma in the wrong place. -/
def ofItems (r : Record α) (extent : Extent) (items : List Json) : Except Mismatch α := do
  checkItems r.slots items
  let value ← r.build ⟨r.names.zip items, some (r.names, r.wantedLength)⟩
  if items.length ≤ r.slots.length then return value
  else match extent with
    | .front => throw .malformed
    | .whole => throw (.invalidLength items.length (elementsText r.slots.length ++ " in sequence"))

/-- Reads a record. -/
def read (r : Record α) (extent : Extent) : Json → Except Mismatch α
  | .object members => r.ofMembers members
  | .array items => r.ofItems extent items
  | j => .error (j.mismatch r.wanted)

/-- The form of records with one field. -/
def one {β : Type} (wanted : String) (f : Field β) (make : β → α) : Record α where
  wanted
  slots := [f.slot]
  build m := do return make (← m.get f)

/-- The form of records with two fields. -/
def two {β γ : Type} (wanted : String) (f : Field β) (g : Field γ) (make : β → γ → α) :
    Record α where
  wanted
  slots := [f.slot, g.slot]
  build m := do return make (← m.get f) (← m.get g)

end Record

end Typist.Json

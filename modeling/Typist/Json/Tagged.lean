import Typist.Json.Reader
import Typist.Json.Record

/-!
# Tagged values

A tagged value is an object with a member `type` that names its variant, anywhere among its other
members, or an array whose first item is that name. The tag is judged where it stands; everything
else must be readable to its end before the variant's own fields are judged.
-/

namespace Typist.Json

/-- What a variant carries besides its tag. -/
inductive Body (α : Type)
  | unit (value : α)
  | record (r : Record α)

/-- A form of tagged values. -/
structure Tagged (α : Type) where
  /-- What the form is called in messages. -/
  wanted : String
  variants : List (String × Body α)

/-- The name of the tag. -/
def tagName : String := "type"

/-- How deep containers may nest in a text. -/
def maxDepth : Nat := 127

/-- The members of a tagged object apart from its tag, or the items of a tagged array behind its
tag. -/
inductive Content
  | members (ms : List (Option String × Json))
  | items (js : List Json)

/-- Reads what a variant carries. -/
def Body.read {α : Type} (b : Body α) : Content → Except Mismatch α
  | .members ms =>
    match b with
    | .unit value => .ok value
    | .record r => r.ofMembers ms
  | .items js =>
    match b with
    | .unit value =>
      if js.isEmpty then .ok value
      else .error (.invalidLength js.length (elementsText 0 ++ " in sequence"))
    | .record r => r.ofItems .whole js

namespace Tagged

variable {α : Type}

/-- The names of the variants. -/
def names (t : Tagged α) : List String := t.variants.map (·.1)

/-- The variant that a tag names. Within a value that was read to its end, a variant's index is as
good as its name. -/
def variant? (t : Tagged α) (extent : Extent) : Json → Except Mismatch (Body α)
  | .string (some s) =>
    match t.variants.find? fun v ↦ v.1 == s with
    | some v => .ok v.2
    | none => .error (.unknownVariant s t.names)
  | j =>
    match extent, j.found? with
    | .whole, some (.number (.whole n)) =>
      match t.variants[n]? with
      | some v => .ok v.2
      | none =>
        .error (.invalidValue (.number (.whole n))
          ("variant index 0 <= i < " ++ toString t.variants.length))
    | _, _ => .error (j.mismatch "variant identifier")

/-- Judges the members of a tagged object in their order: the variant once its tag was found, and
the members apart from the tag, latest first. -/
def gather (t : Tagged α) (extent : Extent) (depth : Nat) (variant : Option (Body α))
    (others : List (Option String × Json)) : List (Option String × Json) →
    Except Mismatch (Body α × Content)
  | [] =>
    match variant with
    | some v => .ok (v, .members others.reverse)
    | none => .error (.missingField tagName)
  | (none, _) :: _ => .error .malformed
  | (some name, j) :: rest =>
    if name = tagName then
      match variant with
      | some _ => .error (.duplicateField tagName)
      | none =>
        match t.variant? extent j with
        | .ok v => t.gather extent depth (some v) others rest
        | .error e => .error e
    else if j.isReadable depth then t.gather extent depth variant ((some name, j) :: others) rest
    else .error .malformed

/-- The variant of a tagged value and what it carries. -/
def split (t : Tagged α) (extent : Extent) (depth : Nat) : Json →
    Except Mismatch (Body α × Content)
  | .object members => t.gather extent depth none [] members
  | .array [] => .error (.missingField tagName)
  | .array (tag :: items) => do
    let v ← t.variant? extent tag
    if items.all (isReadable depth) then return (v, .items items) else throw .malformed
  | j => .error (j.mismatch t.wanted)

/-- Reads a tagged value whose containers nest in a number of others at most. -/
def read (t : Tagged α) (extent : Extent) (depth : Nat) (j : Json) : Except Mismatch α := do
  let (body, content) ← t.split extent depth j
  body.read content

end Tagged

/-- Reads a text with a form; nothing may follow the value. -/
def decode {α : Type} (form : Json → Except Mismatch α) (bytes : List UInt8) :
    Except Mismatch α := do
  let document := Json.read bytes
  let value ← form document.value
  if document.trailing then throw .malformed else return value

/-- Reads the text of a tagged value. -/
def Tagged.decode {α : Type} (t : Tagged α) : List UInt8 → Except Mismatch α :=
  Json.decode (t.read .front (maxDepth - 1))

/-- Reads the text of a record. -/
def Record.decode {α : Type} (r : Record α) : List UInt8 → Except Mismatch α :=
  Json.decode (r.read .front)

end Typist.Json

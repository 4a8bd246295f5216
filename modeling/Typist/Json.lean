import Typist.Json.Number

/-!
# JSON values

What a JSON text denotes, with as much of the text as its readers still have to judge: numbers keep
their digits, members keep their order and repetitions, and the place where a text stops making
sense stays visible. A reader that needs only the front of a text can so be as exact about its
faults as one that needs all of it.
-/

namespace Typist

/-- A value. A string or a member's name is `none` if it is quoted but denotes no text: it holds
half of a surrogate pair, or bytes that are no characters. `broken` stands where the text stops
making sense; nothing follows it in the list that holds it. -/
inductive Json
  | null
  | bool (b : Bool)
  | number (n : Json.Literal)
  | string (s : Option String)
  | array (items : List Json)
  | object (members : List (Option String × Json))
  | broken

namespace Json

instance : Inhabited Json := ⟨.null⟩

/-- A string that denotes a text. -/
def text (s : String) : Json := .string (some s)

/-- A natural number. -/
def natural (n : Nat) : Json := .number (.ofNat n)

/-- An object with readable names. -/
def record (members : List (String × Json)) : Json :=
  .object (members.map fun m ↦ (some m.1, m.2))

/-- A text, or null. -/
def optionalText : Option String → Json
  | some s => text s
  | none => .null

/-- Whether the text of a value stops making sense within it. Only its last part can be where. -/
def isBroken : Json → Bool
  | .broken => true
  | .array items =>
    match h : items.getLast? with
    | some item =>
      have := List.sizeOf_lt_of_mem (List.mem_of_getLast? h)
      item.isBroken
    | none => false
  | .object members =>
    match h : members.getLast? with
    | some member =>
      have := List.sizeOf_lt_of_mem (List.mem_of_getLast? h)
      have : sizeOf member.2 < sizeOf member := by cases member; simp only [Prod.mk.sizeOf_spec]; omega
      member.2.isBroken
    | none => false
  | _ => false
termination_by j => sizeOf j

/-- Whether everything in a value that nests no deeper than a number of containers can be read:
its strings denote texts, its numbers are in range, and its text makes sense to the end. -/
def isReadable : Nat → Json → Bool
  | _, .broken => false
  | _, .string s => s.isSome
  | _, .number n => n.value?.isSome
  | 0, .array _ => false
  | 0, .object _ => false
  | depth + 1, .array items => items.all (isReadable depth)
  | depth + 1, .object members => members.all fun m ↦ m.1.isSome && isReadable depth m.2
  | _, _ => true

end Json

end Typist

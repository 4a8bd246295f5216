import Typist.Json.Token

/-!
# Reading JSON text

A text given as bytes becomes a value. The containers that are still open stand on a stack, so that
depth costs no more than length, and every text becomes a value: from the first token that has no
place on, the text is broken, and what was read before it stays.
-/

namespace Typist.Json

/-- A container that is still open, with what it holds so far, latest first. An object also knows
the name that the next value belongs to. -/
inductive Open
  | array (items : List Json)
  | object (members : List (Option String × Json)) (name : Option String)

/-- The container that ends with a value, whether it was closed or abandoned. -/
def Open.ending (o : Open) (j : Json) : Json :=
  match o with
  | .array items => .array (j :: items).reverse
  | .object members name => .object ((name, j) :: members).reverse

/-- The value of a text that is broken within open containers, innermost first. -/
def abandon (stack : List Open) (j : Json) : Json := stack.foldl (fun j o ↦ o.ending j) j

/-- How an object goes on where a name must come. -/
inductive Named
  /-- A name and its colon. -/
  | named (name : Option String) (rest : List UInt8)
  /-- A name without a colon. -/
  | bare (name : Option String)
  | nameless

/-- Reads a name and its colon. -/
def Named.read (bytes : List UInt8) : Named :=
  match Token.next? bytes with
  | some (.scalar (.string name), rest) =>
    match Token.next? rest with
    | some (.colon, rest) => .named name rest
    | _ => .bare name
  | _ => .nameless

theorem Named.length_of_read {bytes rest : List UInt8} {name : Option String}
    (h : Named.read bytes = .named name rest) : rest.length < bytes.length := by
  rw [Named.read] at h
  split at h
  · next h₁ =>
    have := Token.length_of_next h₁
    split at h
    · next h₂ =>
      have := Token.length_of_next h₂
      simp only [Named.named.injEq] at h
      rw [← h.2]
      omega
    · simp at h
  · simp at h

/-- Reads on within open containers, either from a value that has just ended or from where one must
begin; the result is the outermost value and what follows it. -/
def build (stack : List Open) (ended : Option Json) (bytes : List UInt8) : Json × List UInt8 :=
  match ended with
  | none =>
    match _h : Token.next? bytes with
    | some (.scalar j, rest) => build stack (some j) rest
    | some (.arrayOpen, inner) =>
      match _h₂ : Token.next? inner with
      | some (.arrayClose, rest) => build stack (some (.array [])) rest
      | _ => build (.array [] :: stack) none inner
    | some (.objectOpen, inner) =>
      match _h₂ : Token.next? inner with
      | some (.objectClose, rest) => build stack (some (.object [])) rest
      | _ =>
        match _h₃ : Named.read inner with
        | .named name rest => build (.object [] name :: stack) none rest
        | .bare name => (abandon stack (.object [(name, .broken)]), inner)
        | .nameless => (abandon stack (.object [(none, .broken)]), inner)
    | _ => (abandon stack .broken, bytes)
  | some j =>
    match stack with
    | [] => (j, bytes)
    | .array items :: stack =>
      match _h : Token.next? bytes with
      | some (.comma, rest) => build (.array (j :: items) :: stack) none rest
      | some (.arrayClose, rest) => build stack (some (Open.ending (.array items) j)) rest
      | _ => (abandon stack (Open.ending (.array (j :: items)) .broken), bytes)
    | .object members name :: stack =>
      match _h : Token.next? bytes with
      | some (.comma, inner) =>
        match _h₂ : Named.read inner with
        | .named next rest => build (.object ((name, j) :: members) next :: stack) none rest
        | .bare next =>
          (abandon stack (Open.ending (.object ((name, j) :: members) next) .broken), inner)
        | .nameless =>
          (abandon stack (Open.ending (.object ((name, j) :: members) none) .broken), inner)
      | some (.objectClose, rest) => build stack (some (Open.ending (.object members name) j)) rest
      | _ => (abandon stack (Open.ending (.object ((name, j) :: members) none) .broken), bytes)
termination_by bytes.length
decreasing_by
  all_goals first
    | exact Token.length_of_next _h
    | have := Token.length_of_next _h
      have := Token.length_of_next _h₂
      omega
    | have := Token.length_of_next _h
      have := Named.length_of_read _h₃
      omega
    | have := Token.length_of_next _h
      have := Named.length_of_read _h₂
      omega

/-- A whole text: its value, and whether anything but gaps follows it. -/
structure Document where
  value : Json
  trailing : Bool

/-- The value of a text. -/
def read (bytes : List UInt8) : Document :=
  let (value, rest) := build [] none bytes
  ⟨value, !rest.all isGap⟩

end Typist.Json

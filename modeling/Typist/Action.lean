import Typist.Key

/-!
# Actions and sequences

A sequence is what a template compiles to and all that an injector is given: a list of actions
in the order in which they are carried out. An empty text is never an action.
-/

namespace Typist

/-- One step of typing. -/
inductive Action
  /-- Type the text character by character. -/
  | text (s : String)
  | press (k : Key)
  | down (k : Key)
  | up (k : Key)
  /-- Wait for a number of milliseconds. -/
  | delay (ms : UInt64)
  deriving DecidableEq, Repr

namespace Action

/-- Whether the action types an empty text, and so does nothing. -/
def isVoid : Action → Bool
  | text s => s.isEmpty
  | _ => false

/-- The action for logs: the length of a text is shown, the text is not. -/
def summary : Action → String
  | text s => "Text(<" ++ toString s.length ++ " chars>)"
  | press k => "KeyPress(" ++ k.name ++ ")"
  | down k => "KeyDown(" ++ k.name ++ ")"
  | up k => "KeyUp(" ++ k.name ++ ")"
  | delay ms => "Delay(" ++ toString ms.toNat ++ "ms)"

/-- The milliseconds for which the action waits. -/
def wait : Action → Nat
  | delay ms => ms.toNat
  | _ => 0

end Action

/-- Actions in the order of their execution, none of them void. -/
structure Sequence where
  actions : List Action
  no_void : ∀ a ∈ actions, a.isVoid = false := by simp

namespace Sequence

instance : DecidableEq Sequence := fun s t ↦
  decidable_of_iff (s.actions = t.actions) (by cases s; cases t; simp)

/-- The sequence without actions. -/
def empty : Sequence := ⟨[], by simp⟩

/-- The sequence of the actions that are not void. -/
def ofActions (l : List Action) : Sequence :=
  ⟨l.filter fun a ↦ !a.isVoid, by simp⟩

/-- Append an action; a void one is dropped. -/
def push (s : Sequence) (a : Action) : Sequence :=
  if h : a.isVoid = true then s
  else ⟨s.actions ++ [a], by
    intro b hb
    rcases List.mem_append.mp hb with hb | hb
    · exact s.no_void b hb
    · simpa [List.mem_singleton.mp hb] using h⟩

/-- Append a text; an empty one is dropped. -/
def pushText (s : Sequence) (text : String) : Sequence := s.push (.text text)

/-- The number of actions. -/
def size (s : Sequence) : Nat := s.actions.length

/-- Whether there is no action. -/
def isEmpty (s : Sequence) : Bool := s.actions.isEmpty

/-- The milliseconds of all delays together. -/
def totalWait (s : Sequence) : Nat := (s.actions.map Action.wait).foldr (· + ·) 0

/-- The milliseconds of all delays together, if they fit in 64 bits. -/
def totalWait? (s : Sequence) : Option UInt64 :=
  if s.totalWait < UInt64.size then some (UInt64.ofNat s.totalWait) else none

@[simp] theorem actions_empty : empty.actions = [] := rfl

@[simp] theorem actions_ofActions (l : List Action) :
    (ofActions l).actions = l.filter fun a ↦ !a.isVoid := rfl

/-- Pushing adds the action at the end unless it is void. -/
theorem actions_push (s : Sequence) (a : Action) :
    (s.push a).actions = if a.isVoid then s.actions else s.actions ++ [a] := by
  unfold push
  split <;> simp_all

/-- Building from a list is pushing its actions one by one. -/
theorem ofActions_append_singleton (l : List Action) (a : Action) :
    ofActions (l ++ [a]) = (ofActions l).push a := by
  have : (ofActions (l ++ [a])).actions = ((ofActions l).push a).actions := by
    rw [actions_push]
    cases h : a.isVoid <;> simp [h]
  cases hs : ofActions (l ++ [a]); cases ht : (ofActions l).push a
  simp_all

end Sequence

end Typist

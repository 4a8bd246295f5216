import Typist.Layout

/-!
# Scripts

A script is typing seen from the system: a finite tree of native calls, waits and looks at the
cancellation flag, each continuing with the answer. Whoever has the answers can carry it out at
once, or hold it between two calls and go on later.
-/

namespace Typist

/-- One request to the system's keyboard. -/
inductive NativeCall
  /-- One half of a key press. -/
  | key (code : KeyCode) (down : Bool)
  /-- A character that has no key. -/
  | unicode (c : Char)
  deriving DecidableEq, Repr

/-- The answer to a native call: done, or refused for a reason. -/
abbrev NativeReply := Except String Unit

/-- A computation that asks the system. -/
inductive Script (α : Type) where
  | done (a : α)
  | call (c : NativeCall) (next : NativeReply → Script α)
  /-- Looks whether the run has been cancelled. -/
  | look (next : Bool → Script α)
  /-- Waits for a number of milliseconds. -/
  | wait (ms : Nat) (next : Script α)

namespace Script

variable {α β : Type}

/-- One script after the other. -/
def bind : Script α → (α → Script β) → Script β
  | done a, f => f a
  | call c next, f => call c fun r ↦ (next r).bind f
  | look next, f => look fun b ↦ (next b).bind f
  | wait ms next, f => wait ms (next.bind f)

instance : Monad Script where
  pure := done
  bind := bind

/-- Make one native call. -/
def ask (c : NativeCall) : Script NativeReply := call c done

/-- Whether the run has been cancelled. -/
def isCancelled : Script Bool := look done

/-- Wait; no time at all is no wait. -/
def pause (ms : Nat) : Script Unit :=
  if ms = 0 then done () else wait ms (done ())

/-- The system's side: how calls are answered, what the cancellation flag says, and waiting. -/
structure Host (m : Type → Type) where
  call : NativeCall → m NativeReply
  isCancelled : m Bool
  wait : Nat → m Unit

/-- Carry out a whole script. -/
def run {m : Type → Type} [Monad m] (h : Host m) : Script α → m α
  | done a => pure a
  | call c next => do (next (← h.call c)).run h
  | look next => do (next (← h.isCancelled)).run h
  | wait ms next => do h.wait ms; next.run h

/-- What happens while a native call is made. -/
inductive Happening
  /-- The call is answered; meanwhile the run may have been cancelled. -/
  | answered (reply : NativeReply) (cancels : Bool)
  /-- The call brings the run down. -/
  | crashed
  /-- The call is not answered yet; meanwhile the run may have been cancelled. -/
  | held (cancels : Bool)

/-- How far a script was carried out. -/
inductive Progress (α : Type)
  | ended (a : α)
  | crashed
  | held (rest : Script α)

/-- Carry out a script until it ends, crashes, or waits for a call that is not answered yet. The
flag is the state of cancellation, given back as it stands in the end. -/
def drive {m : Type → Type} [Monad m] (answer : NativeCall → m Happening) (flag : Bool) :
    Script α → m (Progress α × Bool)
  | done a => pure (.ended a, flag)
  | look next => (next flag).drive answer flag
  | wait _ next => next.drive answer flag
  | call c next => do
    match ← answer c with
    | .answered reply cancels => (next reply).drive answer (flag || cancels)
    | .crashed => pure (.crashed, flag)
    | .held cancels => pure (.held (call c next), flag || cancels)

@[simp] theorem done_bind (a : α) (f : α → Script β) : (done a).bind f = f a := rfl

@[simp] theorem bind_done (s : Script α) : s.bind done = s := by
  induction s with
  | done a => rfl
  | call c next ih => simp [bind, ih]
  | look next ih => simp [bind, ih]
  | wait ms next ih => simp [bind, ih]

theorem bind_assoc {γ : Type} (s : Script α) (f : α → Script β) (g : β → Script γ) :
    (s.bind f).bind g = s.bind fun a ↦ (f a).bind g := by
  induction s with
  | done a => rfl
  | call c next ih => simp [bind, ih]
  | look next ih => simp [bind, ih]
  | wait ms next ih => simp [bind, ih]

instance : LawfulMonad Script :=
  LawfulMonad.mk' Script bind_done (fun _ _ ↦ rfl) bind_assoc

end Script

end Typist

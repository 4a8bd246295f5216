import Typist.Engine

/-!
# Callers of the engine

Any number of callers share one engine. Each makes one call, and the atomic steps of different calls
can be interleaved in every order; a list of choices says in which. What the system is asked to do is
kept in order, with the caller on whose behalf it was.
-/

namespace Typist

/-- A call of the engine. -/
inductive EngineCall
  /-- Type a sequence, after whatever is being typed. -/
  | perform (s : Sequence)
  /-- Type a sequence, unless one is being typed. -/
  | attempt (s : Sequence)
  /-- The same with a token of the caller. -/
  | attemptWith (s : Sequence) (t : Token)
  /-- Compile a template for an entry and type what comes of it, unless something is being typed. -/
  | typeEntry (template : Option String) (entry : Entry)
  /-- Look whether the system permits typing. -/
  | probe

/-- A caller: how far its call is. -/
inductive Caller
  | typing (j : Job)
  /-- The template was rejected. -/
  | rejected (e : CompileError)
  | probing (p : Probe)

namespace Engine

/-- A call begins. Compiling takes no step of its own, as it touches nothing that is shared. -/
def begin (e : Engine) : EngineCall → Engine × Caller
  | .perform s => let (e, j) := e.performing s; (e, .typing j)
  | .attempt s => let (e, j) := e.trying s; (e, .typing j)
  | .attemptWith s t => (e, .typing (tryingWith s t))
  | .typeEntry template entry =>
    match (e.compile template entry).result with
    | .error fault => (e.rejectTemplate fault, .rejected fault)
    | .ok s => let (e, j) := e.trying s; (e, .typing j)
  | .probe => (e, .probing .wanting)

end Engine

namespace Caller

/-- How a call that is over ended; a probe has no outcome. -/
def outcome? : Caller → Option Outcome
  | .typing j => j.outcome?
  | .rejected e => some (.returned (.error (.compile e)))
  | .probing _ => none

/-- One atomic step that needs no answer of the system. -/
def advance (trusted : Bool) (e : Engine) : Caller → Engine × Caller
  | .typing j => let (e, j) := j.advance trusted e; (e, .typing j)
  | .rejected fault => (e, .rejected fault)
  | .probing p => let (e, p) := p.advance trusted e; (e, .probing p)

end Caller

/-- An engine with its callers, in the order in which they came. -/
structure Crowd where
  engine : Engine
  callers : List Caller := []

namespace Crowd

/-- What moves next. -/
inductive Choice
  /-- Somebody makes a call. -/
  | call (c : EngineCall)
  /-- A caller takes an atomic step. -/
  | advance (i : Nat) (trusted : Bool)
  /-- The system answers the native call of a caller. -/
  | answer (i : Nat) (r : NativeReply)
  /-- The native call of a caller brings its run down. -/
  | crash (i : Nat)
  /-- Somebody cancels whatever is being typed. -/
  | cancel
  /-- Somebody raises a token. -/
  | raise (t : Token)

/-- A native call, and the caller on whose behalf it was made. -/
structure Deed where
  caller : Nat
  call : NativeCall
  deriving DecidableEq, Repr

/-- Lets the job of a caller do something, if it is typing. -/
def onJob (c : Crowd) (i : Nat) (f : Job → Job) : Crowd × List Deed :=
  match c.callers[i]? with
  | some (.typing j) =>
    ({ c with callers := c.callers.set i (.typing (f j)) },
      (j.pending?.map (⟨i, ·⟩)).toList)
  | _ => (c, [])

/-- One step, and the native call that it completes. -/
def step (c : Crowd) : Choice → Crowd × List Deed
  | .call call =>
    let (engine, caller) := c.engine.begin call
    (⟨engine, c.callers ++ [caller]⟩, [])
  | .advance i trusted =>
    match c.callers[i]? with
    | some caller =>
      let (engine, caller) := caller.advance trusted c.engine
      (⟨engine, c.callers.set i caller⟩, [])
    | none => (c, [])
  | .answer i r => c.onJob i (·.answer r)
  | .crash i => c.onJob i Job.crash
  | .cancel => ({ c with engine := c.engine.cancel }, [])
  | .raise t => ({ c with engine := c.engine.cancelToken t }, [])

/-- A run: every native call that was made, in order. -/
def run (c : Crowd) : List Choice → Crowd × List Deed
  | [] => (c, [])
  | choice :: rest =>
    let (c, deeds) := c.step choice
    let (c, later) := c.run rest
    (c, deeds ++ later)

/-- A run of choices after others goes on where those ended. -/
theorem run_append (c : Crowd) (cs rest : List Choice) :
    c.run (cs ++ rest) =
      (((c.run cs).1.run rest).1, (c.run cs).2 ++ ((c.run cs).1.run rest).2) := by
  induction cs generalizing c with
  | nil => simp [run]
  | cons choice cs ih => simp [run, ih]

end Crowd

end Typist

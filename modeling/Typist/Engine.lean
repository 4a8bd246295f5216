import Typist.Cancellation
import Typist.Injector
import Typist.Template

/-!
# The typing engine

The engine owns the injector and types one sequence at a time. A request takes the injector, shows
that it is busy, publishes its token, types, and undoes this in turn; each of these is one atomic
step, so that requests of several threads can be interleaved at every point between two steps.
-/

namespace Typist

/-- What applies to every sequence. -/
structure TypingOptions where
  /-- The milliseconds of pause after every action. -/
  pauseMs : Nat := 10
  /-- The template of a request that brings none. -/
  defaultTemplate : String := Template.standard
  deriving DecidableEq, Repr

/-- Why a request was not carried out. -/
inductive EngineError
  | compile (e : CompileError)
  | injection (e : InjectionError)
  | busy
  deriving DecidableEq, Repr

/-- The wording of an engine error. -/
def EngineError.message : EngineError → String
  | .compile e => e.message
  | .injection e => e.message
  | .busy => "another auto-type sequence is already running"

/-- What all requests share. -/
structure Engine where
  options : TypingOptions := {}
  injector : Injector
  /-- Whether a request has the injector. -/
  taken : Bool := false
  /-- Whether a sequence is being typed. -/
  busy : Bool := false
  /-- The token of the sequence that is being typed. -/
  current : Option Token := none
  /-- The wording of the last request's failure. -/
  lastError : Option String := none
  flags : Cancellation := .empty

/-- How a request ends. -/
inductive Outcome
  | returned (r : Except EngineError Unit)
  /-- A native call brought the run down. -/
  | crashed

/-- How far a request is. -/
inductive Stage
  /-- Wants the injector. -/
  | wanting
  /-- Has the injector. -/
  | entered
  /-- Has shown that it is busy. -/
  | announced
  /-- Has published its token, and types. -/
  | typing (s : Script TypingResult)
  /-- Has typed. -/
  | typed (r : TypingResult)
  /-- Has withdrawn its token. -/
  | withdrawn (r : TypingResult)
  /-- Has left word of how it went, or crashed before that. -/
  | reported (o : Outcome)
  /-- No longer shows that it is busy. -/
  | quiet (o : Outcome)
  /-- Has given the injector back, or never had it. -/
  | finished (o : Outcome)

/-- A request to type a sequence. -/
structure Job where
  sequence : Sequence
  token : Token
  /-- Whether it waits for the injector, or else is refused when another request has it. -/
  waits : Bool
  stage : Stage := .wanting

namespace Engine

/-- Compile a template, or the default one, for an entry. -/
def compile (e : Engine) (template : Option String) (entry : Entry) : Template.Compilation :=
  Template.compile (template.getD e.options.defaultTemplate) (some entry)

/-- Whether the system permits typing, as one who looks alone sees it. While a request has the
injector it evidently does. -/
def isAvailable (e : Engine) (trusted : Bool) : Bool :=
  e.taken || e.injector.isAvailable trusted

/-- Cancel the sequence that is being typed, if there is one. -/
def cancel (e : Engine) : Engine :=
  match e.current with
  | some t => { e with flags := e.flags.cancel t }
  | none => e

/-- Cancel the sequence of a token. -/
def cancelToken (e : Engine) (t : Token) : Engine := { e with flags := e.flags.cancel t }

/-- A fresh token. -/
def freshToken (e : Engine) : Engine × Token :=
  let (flags, t) := e.flags.fresh
  ({ e with flags := flags }, t)

/-- Note that a template was rejected. -/
def rejectTemplate (e : Engine) (fault : CompileError) : Engine :=
  { e with lastError := some fault.message }

end Engine

/-! ## Looking

Whoever wants to know whether typing is possible takes the injector for a moment. -/

/-- How far someone is who looks whether the system permits typing. -/
inductive Probe
  /-- Wants the injector. -/
  | wanting
  /-- Has the injector. -/
  | looking
  /-- Knows. -/
  | seen (available : Bool)
  deriving DecidableEq, Repr

namespace Probe

/-- One atomic step. Finding the injector taken is answer enough. -/
def advance (trusted : Bool) (e : Engine) : Probe → Engine × Probe
  | .wanting =>
    if e.taken then (e, .seen true) else ({ e with taken := true }, .looking)
  | .looking => ({ e with taken := false }, .seen (e.injector.isAvailable trusted))
  | .seen available => (e, .seen available)

/-- Two steps that nobody comes between leave the engine as it was, and see what there is. -/
theorem advance_advance (trusted : Bool) (e : Engine) :
    (fun (e', p) ↦ advance trusted e' p) (advance trusted e .wanting) =
      (e, .seen (e.isAvailable trusted)) := by
  cases e with
  | mk options injector taken => cases taken <;> simp [advance, Engine.isAvailable]

end Probe

/-! ## Requests -/

namespace Job

/-- Whether the request is over. -/
def isFinished (j : Job) : Bool := match j.stage with | .finished _ => true | _ => false

/-- How the request ended. -/
def outcome? (j : Job) : Option Outcome :=
  match j.stage with
  | .finished o => some o
  | _ => none

/-- The native call whose answer the request waits for. -/
def pending? (j : Job) : Option NativeCall :=
  match j.stage with
  | .typing (.call c _) => some c
  | _ => none

/-- One atomic step that needs no answer of the system. A request that waits for the injector, for
such an answer, or for nothing more stays as it is. -/
def advance (trusted : Bool) (e : Engine) (j : Job) : Engine × Job :=
  match j.stage with
  | .wanting =>
    if !e.taken then ({ e with taken := true }, { j with stage := .entered })
    else if j.waits then (e, j)
    else (e, { j with stage := .finished (.returned (.error .busy)) })
  | .entered => ({ e with busy := true }, { j with stage := .announced })
  | .announced =>
    ({ e with current := some j.token },
      { j with stage := .typing (e.injector.perform trusted e.options.pauseMs j.sequence) })
  | .typing (.done r) =>
    ({ e with injector := e.injector.ended r }, { j with stage := .typed r })
  | .typing (.look next) => (e, { j with stage := .typing (next (e.flags.isCancelled j.token)) })
  | .typing (.wait _ next) => (e, { j with stage := .typing next })
  | .typing (.call ..) => (e, j)
  | .typed r => ({ e with current := none }, { j with stage := .withdrawn r })
  | .withdrawn r =>
    ({ e with lastError := e.injector.lastError },
      { j with stage := .reported (.returned (r.mapError .injection)) })
  | .reported o => ({ e with busy := false }, { j with stage := .quiet o })
  | .quiet o => ({ e with taken := false }, { j with stage := .finished o })
  | .finished _ => (e, j)

/-- The system answers the pending native call. -/
def answer (j : Job) (reply : NativeReply) : Job :=
  match j.stage with
  | .typing (.call _ next) => { j with stage := .typing (next reply) }
  | _ => j

/-- The pending native call brings the run down: what the request shows of itself is undone, but its
token stays published and it leaves no word. -/
def crash (j : Job) : Job :=
  match j.stage with
  | .typing (.call ..) => { j with stage := .reported .crashed }
  | _ => j

/-- Take a number of steps. -/
def advanceBy (trusted : Bool) : Nat → Engine × Job → Engine × Job
  | 0, s => s
  | n + 1, (e, j) => advanceBy trusted n (j.advance trusted e)

/-- Carry a request on, without another one in between, until it is over, waits for the injector,
or waits for a native call that is not answered yet. -/
def drive {m : Type → Type} [Monad m] (answer : NativeCall → m Script.Happening) (trusted : Bool)
    (e : Engine) (j : Job) : m (Engine × Job) := do
  let (e, j) := advanceBy trusted 3 (e, j)
  match j.stage with
  | .typing s =>
    let (progress, cancelled) ← s.drive answer (e.flags.isCancelled j.token)
    let e := if cancelled then e.cancelToken j.token else e
    match progress with
    | .held rest => return (e, { j with stage := .typing rest })
    | .crashed => return advanceBy trusted 2 (e, { j with stage := .reported .crashed })
    | .ended r => return advanceBy trusted 5 (e, { j with stage := .typing (.done r) })
  | _ => return (e, j)

end Job

namespace Engine

/-- A request that waits for the injector. -/
def performing (e : Engine) (s : Sequence) : Engine × Job :=
  let (e, t) := e.freshToken
  (e, ⟨s, t, true, .wanting⟩)

/-- A request that is refused while another one has the injector. -/
def trying (e : Engine) (s : Sequence) : Engine × Job :=
  let (e, t) := e.freshToken
  (e, ⟨s, t, false, .wanting⟩)

/-- Such a request with a token of the caller. -/
def tryingWith (s : Sequence) (t : Token) : Job := ⟨s, t, false, .wanting⟩

end Engine

end Typist

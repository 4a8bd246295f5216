import Typist.Dispatcher

/-!
# The daemon

The dispatcher with everything that goes on around it: notices and commands that wait to be taken,
sequences that are being typed, and reports that wait to be taken. One step lets one of these move;
which one is a choice of the surroundings, so every interleaving is a list of choices.
-/

namespace Typist

/-- Someone who types an assignment. -/
structure Worker where
  job : Job
  ticket : Option Ticket

/-- The worker of an assignment: it is refused if anyone else is typing. -/
def Worker.ofAssignment (a : Assignment) : Worker :=
  ⟨Engine.tryingWith a.sequence a.token, a.ticket⟩

/-- The report of a worker whose job is over. A crash is an injection that failed. -/
def Worker.report? (w : Worker) (crashReason : String) : Option Report :=
  w.job.outcome?.map fun o ↦
    { actions := UInt64.ofNat w.job.sequence.size
      result := match o with
        | .returned r => r
        | .crashed =>
          .error (.injection (.synthesisFailed ("typing worker failed: " ++ crashReason)))
      ticket := w.ticket }

/-- The daemon between two steps. -/
structure Daemon (σ : Type) where
  dispatcher : Dispatcher σ
  notices : NoticeQueue
  commands : List (Ticket × Command) := []
  workers : List Worker := []
  reports : List Report := []
  /-- The status command that the dispatcher is busy with, and how far it is. -/
  probe : Option (Ticket × Probe) := none
  /-- Whether the dispatcher still takes anything. -/
  running : Bool := true

namespace Daemon

variable {σ : Type}

/-- What the outside sees of a daemon. -/
inductive Output
  | emitted (e : Event)
  | answered (t : Ticket) (a : Answer)
  deriving DecidableEq, Repr

/-- Whether the dispatcher can take something now. -/
def isTaking (d : Daemon σ) : Bool := d.running && d.probe.isNone

/-- Carries out effects: events and answers go out, assignments get a worker, and a status command
begins to look. -/
def apply (d : Daemon σ) : List Effect → Daemon σ × List Output
  | [] => (d, [])
  | .emit e :: rest =>
    let (d, out) := d.apply rest
    (d, .emitted e :: out)
  | .answer t a :: rest =>
    let (d, out) := d.apply rest
    (d, .answered t a :: out)
  | .start a :: rest =>
    { d with workers := d.workers ++ [Worker.ofAssignment a] }.apply rest
  | .probe t :: rest => { d with probe := some (t, .wanting) }.apply rest

/-- Answers that the daemon is not running. -/
def refuse (tickets : List Ticket) : List Output :=
  tickets.map fun t ↦ .answered t (.refused .stopped)

/-- A client sends a command. -/
def send (d : Daemon σ) (t : Ticket) (c : Command) : Daemon σ × List Output :=
  if d.running then ({ d with commands := d.commands ++ [(t, c)] }, [])
  else (d, match c with | .shutdown => [] | _ => refuse [t])

/-- The dispatcher takes the oldest notice. -/
def takeNotice (d : Daemon σ) : Daemon σ × List Output :=
  if d.isTaking then
    match d.notices.take? with
    | some (n, notices) =>
      let (dispatcher, effects) := d.dispatcher.onNotice n
      { d with notices, dispatcher }.apply effects
    | none => (d, [])
  else (d, [])

/-- The dispatcher stops for good. Nothing that waits is taken any more, and whoever waits for an
answer learns that there will be none. -/
def halt (w : Surroundings σ) (d : Daemon σ) : Daemon σ × List Output :=
  ({ d with
      dispatcher := d.dispatcher.stop w, running := false, commands := [], reports := []
      notices := d.notices.cleared },
    refuse (d.commands.filterMap fun (t, c) ↦ match c with | .shutdown => none | _ => some t) ++
      refuse (d.reports.filterMap (·.ticket)))

/-- The dispatcher takes the oldest command; shutting down makes it stop. -/
def takeCommand (w : Surroundings σ) (d : Daemon σ) : Daemon σ × List Output :=
  if d.isTaking then
    match d.commands with
    | [] => (d, [])
    | (_, .shutdown) :: commands => { d with commands }.halt w
    | (t, c) :: commands =>
      let (dispatcher, effects) := d.dispatcher.onCommand w t c
      { d with commands, dispatcher }.apply effects
  else (d, [])

/-- Nobody is left who could send commands: the dispatcher stops once it has taken the last. -/
def abandon (w : Surroundings σ) (d : Daemon σ) : Daemon σ × List Output :=
  if d.isTaking && d.commands.isEmpty then d.halt w else (d, [])

/-- The dispatcher takes the oldest report. -/
def takeReport (d : Daemon σ) (elapsedMs : UInt64) : Daemon σ × List Output :=
  if d.isTaking then
    match d.reports with
    | [] => (d, [])
    | r :: reports =>
      let (dispatcher, effects) := d.dispatcher.onReport r elapsedMs
      { d with reports, dispatcher }.apply effects
  else (d, [])

/-- The dispatcher looks on whether typing is possible, and answers once it knows. -/
def lookOn (w : Surroundings σ) (d : Daemon σ) : Daemon σ × List Output :=
  match d.probe with
  | none => (d, [])
  | some (t, p) =>
    let (engine, p) := p.advance w.trusted d.dispatcher.engine
    let d := { d with dispatcher := { d.dispatcher with engine } }
    match p with
    | .seen available =>
      ({ d with probe := none }, [.answered t (.status (d.dispatcher.snapshot available))])
    | _ => ({ d with probe := some (t, p) }, [])

/-- Puts the engine and a worker's job as they have become. -/
def putJob (d : Daemon σ) (i : Nat) (w : Worker) (engine : Engine) (job : Job) : Daemon σ :=
  { d with
    dispatcher := { d.dispatcher with engine }
    workers := d.workers.set i { w with job } }

/-- A worker whose job is over hands in its report. -/
def handIn (d : Daemon σ) (crashReason : String) (i : Nat) : Daemon σ × List Output :=
  match d.workers[i]? with
  | none => (d, [])
  | some w =>
    match w.report? crashReason with
    | none => (d, [])
    | some r =>
      let d := { d with workers := d.workers.eraseIdx i }
      if d.running then ({ d with reports := d.reports ++ [r] }, [])
      else (d, refuse r.ticket.toList)

/-! ## Steps -/

/-- What moves next. -/
inductive Choice
  /-- The listener posts a notice. -/
  | notice (n : Notice)
  | send (t : Ticket) (c : Command)
  | takeNotice
  | takeCommand
  | abandon
  | takeReport (elapsedMs : UInt64)
  /-- The dispatcher takes an atomic step of a status command. -/
  | lookOn
  /-- A worker takes an atomic step. -/
  | work (i : Nat)
  /-- The system answers the native call of a worker. -/
  | reply (i : Nat) (r : NativeReply)
  /-- The native call of a worker brings it down. -/
  | crash (i : Nat)
  | handIn (i : Nat)
  /-- Someone cancels whatever the engine is typing. -/
  | cancelEngine

/-- One step. Only a live listener posts notices. -/
def step (w : Surroundings σ) (crashReason : String) (d : Daemon σ) :
    Choice → Daemon σ × List Output
  | .notice n =>
    if d.dispatcher.monitor.isRegistered then ({ d with notices := d.notices.post n }, [])
    else (d, [])
  | .send t c => d.send t c
  | .takeNotice => d.takeNotice
  | .takeCommand => d.takeCommand w
  | .abandon => d.abandon w
  | .takeReport elapsedMs => d.takeReport elapsedMs
  | .lookOn => d.lookOn w
  | .work i =>
    match d.workers[i]? with
    | some v =>
      let (engine, job) := v.job.advance w.trusted d.dispatcher.engine
      (d.putJob i v engine job, [])
    | none => (d, [])
  | .reply i r =>
    match d.workers[i]? with
    | some v => (d.putJob i v d.dispatcher.engine (v.job.answer r), [])
    | none => (d, [])
  | .crash i =>
    match d.workers[i]? with
    | some v => (d.putJob i v d.dispatcher.engine v.job.crash, [])
    | none => (d, [])
  | .handIn i => d.handIn crashReason i
  | .cancelEngine =>
    ({ d with dispatcher := { d.dispatcher with engine := d.dispatcher.engine.cancel } }, [])

/-- A run: what the outside saw, in order. -/
def run (w : Surroundings σ) (crashReason : String) (d : Daemon σ) :
    List Choice → Daemon σ × List Output
  | [] => (d, [])
  | c :: cs =>
    let (d, out) := d.step w crashReason c
    let (d, later) := d.run w crashReason cs
    (d, out ++ later)

/-- A run of choices after others goes on where those ended. -/
theorem run_append (w : Surroundings σ) (crashReason : String) (d : Daemon σ)
    (cs rest : List Choice) :
    d.run w crashReason (cs ++ rest) =
      (((d.run w crashReason cs).1.run w crashReason rest).1,
        (d.run w crashReason cs).2 ++ ((d.run w crashReason cs).1.run w crashReason rest).2) := by
  induction cs generalizing d with
  | nil => simp [run]
  | cons c cs ih => simp [run, ih]

/-! ## Settling

One way to let everything move that can: first all notices, then all commands, then the workers,
then the reports. -/

/-- Takes as many notices as are waiting. -/
def takeNotices (d : Daemon σ) : Daemon σ × List Output :=
  d.notices.waiting.foldl (fun (d, out) _ ↦
    let (d, more) := d.takeNotice
    (d, out ++ more)) (d, [])

/-- Takes as many commands as are waiting, and carries each out. -/
def takeCommands (w : Surroundings σ) (d : Daemon σ) : Daemon σ × List Output :=
  d.commands.foldl (fun (d, out) _ ↦
    let (d, taken) := d.takeCommand w
    let (d, looked) := d.lookOn w
    let (d, seen) := d.lookOn w
    (d, out ++ taken ++ looked ++ seen)) (d, [])

/-- Carries every worker on as far as the system lets it, and takes its report if it is done. -/
def workOn {m : Type → Type} [Monad m] (answer : NativeCall → m Script.Happening)
    (w : Surroundings σ) (crashReason : String) (elapsedMs : UInt64) (d : Daemon σ) :
    m (Daemon σ × List Output) := do
  match d.workers with
  | [] => return (d, [])
  | v :: _ =>
    let (engine, job) ← v.job.drive answer w.trusted d.dispatcher.engine
    let (d, refused) := (d.putJob 0 v engine job).handIn crashReason 0
    let (d, out) := d.takeReport elapsedMs
    return (d, refused ++ out)

/-- Lets everything move that can. -/
def settle {m : Type → Type} [Monad m] (answer : NativeCall → m Script.Happening)
    (w : Surroundings σ) (crashReason : String) (elapsedMs : UInt64) (d : Daemon σ) :
    m (Daemon σ × List Output) := do
  let (d, noticed) := d.takeNotices
  let (d, commanded) := d.takeCommands w
  let (d, worked) ← d.workOn answer w crashReason elapsedMs
  return (d, noticed ++ commanded ++ worked)

end Daemon

end Typist

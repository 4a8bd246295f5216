import Mathlib
import Typist.Layout.MacAnsi
import Typist.Proofs.Daemon.Step
import Typist.Proofs.Engine.Holding

/-!
# One sequence in flight

A sequence is in flight from the moment it is started until its report is taken. The dispatcher
keeps its state and its token, the worker and the report travel on their own, and they agree: at
most one sequence is in flight, it is with its worker or its report waits, and the dispatcher is
typing under its token for just as long.
-/

namespace Typist

/-! ## Decisions -/

namespace Dispatcher

variable {σ : Type}

/-- What a decision does to the sequence in flight: it leaves it alone, or starts one where there
is none. -/
inductive Turn (d d' : Dispatcher σ) (es : List Effect) : Prop
  | keeps : d'.state = d.state → d'.running = d.running →
      Effect.assignments es = [] → Turn d d' es
  | starts (a : Assignment) : d.state = .idle → d'.state = .typing → d'.running = some a.token →
      Effect.assignments es = [a] → Turn d d' es

/-- A sequence is started where there is none, or not at all. -/
theorem Starts.turn {d d' : Dispatcher σ} {entry : Entry} {template : Option String}
    {ticket : Option Ticket} {es : List Effect} (h : d.Starts entry template ticket d' es) :
    Turn d d' es := by
  cases h with
  | busy => exact .keeps rfl rfl (Effect.assignments_toOwner ..)
  | rejected => exact .keeps rfl rfl (Effect.assignments_toOwner ..)
  | started hs => exact .starts _ hs rfl rfl rfl

/-- A notice starts a sequence where there is none, or leaves the one in flight alone. -/
theorem Notices.turn {d d' : Dispatcher σ} {n : Notice} {es : List Effect}
    (h : d.Notices n d' es) : Turn d d' es := by
  cases h with
  | restarted => exact .keeps rfl rfl rfl
  | unarmed => exact .keeps rfl rfl rfl
  | armed _ hstarts =>
    cases hstarts.turn with
    | keeps hs hr he => exact .keeps hs hr he
    | starts a hi hs hr he => exact .starts a hi hs hr he

/-- A command starts a sequence where there is none, or leaves the one in flight alone. -/
theorem Commands.turn {w : Surroundings σ} {d d' : Dispatcher σ} {t : Ticket} {c : Command}
    {es : List Effect} (h : d.Commands w t c d' es) : Turn d d' es := by
  cases h with
  | typed _ hstarts => exact hstarts.turn
  | unregistrable =>
    refine .keeps rfl rfl ?_
    split <;> rfl
  | _ => exact .keeps rfl rfl rfl

/-- A report starts nothing. -/
theorem assignments_onReport (d : Dispatcher σ) (r : Report) (elapsedMs : UInt64) :
    Effect.assignments (d.onReport r elapsedMs).2 = [] :=
  Effect.assignments_toOwner ..

end Dispatcher

/-! ## Workers and reports -/

/-- Whether a report tells of an assignment. -/
def Report.IsOf (r : Report) (a : Assignment) : Prop :=
  r.actions = UInt64.ofNat a.sequence.size ∧ r.ticket = a.ticket

/-- Whether a worker types an assignment, under its token. -/
def Worker.Types (v : Worker) (a : Assignment) : Prop :=
  v.job.sequence = a.sequence ∧ v.job.token = a.token ∧ v.ticket = a.ticket

namespace Worker

theorem types_ofAssignment (a : Assignment) : (ofAssignment a).Types a := ⟨rfl, rfl, rfl⟩

/-- A worker's report tells of the assignment that it types. -/
theorem Types.isOf {v : Worker} {a : Assignment} (h : v.Types a) {crashReason : String}
    {r : Report} (hr : v.report? crashReason = some r) : r.IsOf a := by
  unfold report? at hr
  cases ho : v.job.outcome? with
  | none =>
    rw [ho] at hr
    cases hr
  | some o =>
    rw [ho] at hr
    cases hr
    exact ⟨by rw [h.1], h.2.2⟩

end Worker

/-! ## The invariant -/

namespace Daemon

variable {σ : Type}

/-- Whether no sequence is in flight, and no trace of one is left. -/
structure Idle (d : Daemon σ) : Prop where
  state : d.dispatcher.state = .idle
  running : d.dispatcher.running = none
  workers : d.workers = []
  reports : d.reports = []

/-- Which sequence is in flight, and where it is: nowhere, with its worker, or reported. -/
inductive Flight (d : Daemon σ) : Option Assignment → Prop
  | grounded : d.Idle → Flight d none
  | typing {a : Assignment} {v : Worker} : d.dispatcher.state = .typing →
      d.dispatcher.running = some a.token → d.workers = [v] → d.reports = [] → v.Types a →
      Flight d (some a)
  | reported {a : Assignment} {r : Report} : d.dispatcher.state = .typing →
      d.dispatcher.running = some a.token → d.workers = [] → d.reports = [r] → r.IsOf a →
      Flight d (some a)

/-- The invariant reads no more than the sequence's own parts. -/
theorem Flight.congr {d d' : Daemon σ} {o : Option Assignment} (h : d.Flight o)
    (hs : d'.dispatcher.state = d.dispatcher.state)
    (hr : d'.dispatcher.running = d.dispatcher.running) (hw : d'.workers = d.workers)
    (hp : d'.reports = d.reports) : d'.Flight o := by
  cases h with
  | grounded h =>
    exact .grounded ⟨hs.trans h.state, hr.trans h.running, hw.trans h.workers, hp.trans h.reports⟩
  | typing h₁ h₂ h₃ h₄ h₅ =>
    exact .typing (hs.trans h₁) (hr.trans h₂) (hw.trans h₃) (hp.trans h₄) h₅
  | reported h₁ h₂ h₃ h₄ h₅ =>
    exact .reported (hs.trans h₁) (hr.trans h₂) (hw.trans h₃) (hp.trans h₄) h₅

/-- Carrying out a decision that started from the sequence in flight. -/
theorem Flight.turn {d : Daemon σ} {o : Option Assignment} (h : d.Flight o)
    {dispatcher : Dispatcher σ} {es : List Effect} (ht : d.dispatcher.Turn dispatcher es)
    (notices : NoticeQueue) (commands : List (Ticket × Command)) :
    ∃ o', ({ d with notices, commands, dispatcher }.apply es).1.Flight o' ∧
      o.toList ++ Effect.assignments es = o'.toList := by
  cases ht with
  | keeps hs hr he =>
    refine ⟨o, h.congr ?_ ?_ ?_ ?_, ?_⟩
    · rw [dispatcher_apply]
      exact hs
    · rw [dispatcher_apply]
      exact hr
    · rw [workers_apply, he]
      exact List.append_nil _
    · rw [reports_apply]
    · rw [he, List.append_nil]
  | starts a hi hs hr he =>
    cases h with
    | typing h => rw [hi] at h; cases h
    | reported h => rw [hi] at h; cases h
    | grounded h =>
      refine ⟨some a, .typing (v := .ofAssignment a) ?_ ?_ ?_ ?_ (Worker.types_ofAssignment a), ?_⟩
      · rw [dispatcher_apply]
        exact hs
      · rw [dispatcher_apply]
        exact hr
      · rw [workers_apply, he, h.workers]
        rfl
      · rw [reports_apply]
        exact h.reports
      · rw [he]
        rfl

/-- The report that is taken is that of the sequence in flight, and none is in flight then. -/
theorem Flight.takeReport {d : Daemon σ} {o : Option Assignment} (h : d.Flight o) {r : Report}
    {rs : List Report} (hr : d.reports = r :: rs) (elapsedMs : UInt64) :
    ∃ a, o = some a ∧ r.IsOf a ∧
      ({ d with
          reports := rs, dispatcher := (d.dispatcher.onReport r elapsedMs).1 }.apply
        (d.dispatcher.onReport r elapsedMs).2).1.Idle := by
  cases h with
  | grounded h =>
    rw [h.reports] at hr
    cases hr
  | typing _ _ _ h _ =>
    rw [h] at hr
    cases hr
  | @reported a _ _ _ hw h hof =>
    rw [h] at hr
    cases hr
    refine ⟨a, rfl, hof, ?_, ?_, ?_, ?_⟩
    · rw [dispatcher_apply]
      rfl
    · rw [dispatcher_apply]
      rfl
    · rw [workers_apply, Dispatcher.assignments_onReport, hw]
      rfl
    · rw [reports_apply]

/-- A worker is the only one, and types the sequence in flight. -/
theorem Flight.worker {d : Daemon σ} {o : Option Assignment} (h : d.Flight o) {i : Nat}
    {v : Worker} (hv : d.workers[i]? = some v) :
    i = 0 ∧ d.workers = [v] ∧ d.reports = [] ∧ d.dispatcher.state = .typing ∧
      ∃ a, o = some a ∧ d.dispatcher.running = some a.token ∧ v.Types a := by
  cases h with
  | grounded h =>
    rw [h.workers] at hv
    cases hv
  | reported _ _ h =>
    rw [h] at hv
    cases hv
  | @typing a u hs hr hw hp ht =>
    rw [hw] at hv
    cases i with
    | zero =>
      cases hv
      exact ⟨rfl, hw, hp, hs, a, rfl, hr, ht⟩
    | succ i => cases hv

/-- A worker moves without a change to what is in flight. -/
theorem Flight.putJob {d : Daemon σ} {o : Option Assignment} (h : d.Flight o) {i : Nat}
    {v : Worker} (hv : d.workers[i]? = some v) {job : Job}
    (hj : job.sequence = v.job.sequence ∧ job.token = v.job.token) (engine : Engine) :
    (d.putJob i v engine job).Flight o := by
  obtain ⟨rfl, hw, hp, hs, a, rfl, hr, ht⟩ := h.worker hv
  refine .typing (v := { v with job }) hs hr ?_ hp ⟨hj.1.trans ht.1, hj.2.trans ht.2.1, ht.2.2⟩
  simp only [Daemon.putJob, hw]
  rfl

/-- A worker that hands in its report is the one of the sequence in flight. -/
theorem Flight.handIn {d : Daemon σ} {o : Option Assignment} (h : d.Flight o) {i : Nat}
    {v : Worker} (hv : d.workers[i]? = some v) {crashReason : String} {r : Report}
    (hr : v.report? crashReason = some r) :
    Flight { d with workers := d.workers.eraseIdx i, reports := d.reports ++ [r] } o := by
  obtain ⟨rfl, hw, hp, hs, a, rfl, hrun, ht⟩ := h.worker hv
  refine .reported hs hrun ?_ ?_ (ht.isOf hr)
  · simp [hw]
  · simp [hp]

variable (w : Surroundings σ) (crashReason : String)

variable {w crashReason} in
/-- What a step of a dispatcher that goes on does to the sequence in flight: it takes the reports
of those in flight before, and adds those that are started. -/
theorem Flight.moves {d : Daemon σ} {o : Option Assignment} (h : d.Flight o) {c : Choice}
    {s : Daemon σ × List Output} {es : List Effect} {rs : List Report}
    (hm : d.Moves w crashReason c s es rs) (hs : s.1.running = true) :
    ∃ o' done, s.1.Flight o' ∧ List.Forall₂ Report.IsOf rs done ∧
      o.toList ++ Effect.assignments es = done ++ o'.toList := by
  -- most moves start nothing and take no report
  have same {d' : Daemon σ} (h' : d'.Flight o) :
      ∃ o' done, d'.Flight o' ∧ List.Forall₂ Report.IsOf [] done ∧
        o.toList ++ [] = done ++ o'.toList :=
    ⟨o, [], h', .nil, List.append_nil _⟩
  cases hm with
  | still => exact same h
  | posted => exact same (h.congr rfl rfl rfl rfl)
  | sent => exact same (h.congr rfl rfl rfl rfl)
  | unheard => exact same h
  | noticed _ _ hn =>
    obtain ⟨o', hf, he⟩ := h.turn hn.turn { d.notices with waiting := _ } d.commands
    exact ⟨o', [], hf, .nil, he⟩
  | commanded _ _ _ hc =>
    obtain ⟨o', hf, he⟩ := h.turn hc.turn d.notices _
    exact ⟨o', [], hf, .nil, he⟩
  | reported ms _ hr =>
    obtain ⟨a, rfl, hof, hidle⟩ := h.takeReport hr ms
    refine ⟨none, [a], .grounded hidle, .cons hof .nil, ?_⟩
    rw [Dispatcher.assignments_onReport]
    rfl
  | stopped => cases hs
  | looked => exact same (h.congr rfl rfl rfl rfl)
  | knew => exact same (h.congr rfl rfl rfl rfl)
  | worked hv => exact same (h.putJob hv (Job.advance_frame ..) _)
  | replied r hv => exact same (h.putJob hv (Job.answer_frame ..) _)
  | crashed hv => exact same (h.putJob hv (Job.crash_frame ..) _)
  | handedIn hv hr => exact same (h.handIn hv hr)
  | late _ _ hd =>
    rw [hd] at hs
    cases hs
  | cancelled => exact same (h.congr rfl rfl rfl rfl)

/-- What a run does to the sequence in flight: it takes the reports of those that were in flight
first, and the last one started may still be in flight. -/
theorem Flight.run {d : Daemon σ} {o : Option Assignment} (h : d.Flight o) (cs : List Choice)
    (hd : (d.run w crashReason cs).1.running = true) :
    ∃ o' done, (d.run w crashReason cs).1.Flight o' ∧
      List.Forall₂ Report.IsOf (d.closed w crashReason cs) done ∧
      o.toList ++ d.started w crashReason cs = done ++ o'.toList := by
  induction cs generalizing d o with
  | nil => exact ⟨o, [], h, .nil, List.append_nil _⟩
  | cons c cs ih =>
    obtain ⟨o₁, done₁, h₁, hof₁, he₁⟩ :=
      h.moves (d.moves w crashReason c) (running_of_run w crashReason hd)
    obtain ⟨o₂, done₂, h₂, hof₂, he₂⟩ := ih h₁ hd
    refine ⟨o₂, done₁ ++ done₂, h₂, List.rel_append hof₁ hof₂, ?_⟩
    rw [started, starts, ← List.append_assoc, he₁, List.append_assoc, he₂, List.append_assoc]

/-! ## Single flight -/

/-- The sequences of a run that were started and whose reports are not taken yet. Reports are taken
in the order of the starts. -/
def inFlight (d : Daemon σ) (cs : List Choice) : List Assignment :=
  (d.started w crashReason cs).drop (d.closed w crashReason cs).length

/-- A daemon that agrees about the sequences in flight. -/
structure Agrees (d : Daemon σ) (flying : List Assignment) : Prop where
  typing_iff : d.dispatcher.state = .typing ↔ d.dispatcher.running.isSome = true
  running_iff : d.dispatcher.running.isSome = true ↔ flying.length = 1
  /-- There is never more than one. -/
  length_le : flying.length ≤ 1
  reports_le : d.reports.length ≤ 1
  /-- Each is with its worker, or its report waits. -/
  places : d.workers.length + d.reports.length = flying.length
  running_eq : d.dispatcher.running = flying.head?.map Assignment.token
  /-- The worker types it under the token that the dispatcher keeps. -/
  workers : ∀ v ∈ d.workers, ∃ a ∈ flying, v.Types a ∧ d.dispatcher.running = some v.job.token
  reports : ∀ r ∈ d.reports, ∃ a ∈ flying, r.IsOf a

theorem Flight.agrees {d : Daemon σ} {o : Option Assignment} (h : d.Flight o) :
    d.Agrees o.toList := by
  cases h with
  | grounded h =>
    constructor <;> simp [h.state, h.running, h.workers, h.reports]
  | typing hs hr hw hp ht =>
    constructor <;> simp [hs, hr, hw, hp, ht, ht.2.1]
  | reported hs hr hw hp hof =>
    constructor <;> simp [hs, hr, hw, hp, hof]

/-- Single flight: whatever is posted, sent, taken, typed, crashed or cancelled, and in which
order, as long as the dispatcher runs there is at most one sequence in flight, and the dispatcher's
state, its token, the worker and the waiting report agree about it. -/
theorem single_flight {d : Daemon σ} (hd : d.Idle) (cs : List Choice)
    (hrun : (d.run w crashReason cs).1.running = true) :
    (d.run w crashReason cs).1.Agrees (d.inFlight w crashReason cs) ∧
      List.Forall₂ Report.IsOf (d.closed w crashReason cs)
        ((d.started w crashReason cs).take (d.closed w crashReason cs).length) := by
  obtain ⟨o, done, hf, hof, he⟩ := (Flight.grounded hd).run w crashReason cs hrun
  rw [Option.toList_none, List.nil_append] at he
  have hlength := hof.length_eq
  constructor
  · rw [inFlight, he, hlength, List.drop_left]
    exact hf.agrees
  · rw [he, hlength, List.take_left]
    exact hof

/-- A command of a client brings one sequence in flight. -/
theorem single_flight_of_command :
    let cs : List Choice := [.send ⟨0⟩ (.autoType (some {}) (some "ab")), .takeCommand]
    (fresh .macAnsi).Idle ∧
      ((fresh .macAnsi).run (permissive .macAnsi) "" cs).1.running = true ∧
      ((fresh .macAnsi).run (permissive .macAnsi) "" cs).1.dispatcher.state = .typing ∧
      ((fresh .macAnsi).inFlight (permissive .macAnsi) "" cs).length = 1 := by
  intro cs
  have hidle : (fresh .macAnsi).Idle := ⟨rfl, rfl, rfl, rfl⟩
  have hrun : ((fresh .macAnsi).run (permissive .macAnsi) "" cs).1.running = true := by cbv
  have hstate : ((fresh .macAnsi).run (permissive .macAnsi) "" cs).1.dispatcher.state =
      .typing := by cbv
  have hagrees := (single_flight (permissive .macAnsi) "" hidle cs hrun).1
  exact ⟨hidle, hrun, hstate, hagrees.running_iff.mp (hagrees.typing_iff.mp hstate)⟩

end Daemon

end Typist

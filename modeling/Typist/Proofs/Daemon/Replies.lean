import Mathlib
import Typist.Layout.MacAnsi
import Typist.Proofs.Daemon.Account
import Typist.Proofs.Daemon.Passage
import Typist.Proofs.Daemon.Refusal

/-!
# Answers to commands that type

A command that types is decided on when the dispatcher takes it: it is refused at once, or a
sequence is started for it, and then the answer tells what became of this sequence. The answer goes
to who sent the command, once, when the dispatcher is idle again and the injector is free.
-/

namespace Typist

namespace Dispatcher

variable {σ : Type}

/-- What a command that types comes to: it is refused if there is nothing to type, then if a
sequence is in flight, then if the template is rejected, and else a sequence is to be started. -/
def verdict (d : Dispatcher σ) (entry : Option Entry) (template : Option String) :
    Except CommandError Sequence :=
  match d.entryFor entry template with
  | none => .error .notArmed
  | some a =>
    match d.state with
    | .typing => .error (.engine .busy)
    | .idle =>
      match (d.engine.compile a.template a.entry).result with
      | .error e => .error (.engine (.compile e))
      | .ok s => .ok s

section Verdict

variable {w : Surroundings σ} {d d' : Dispatcher σ} {t : Ticket} {entry : Option Entry}
  {template : Option String} {es : List Effect}

/-- Where a command is to be refused it is refused at once, nobody else is answered, and nothing is
started. -/
theorem Commands.of_error (h : d.Commands w t (.autoType entry template) d' es) {e : CommandError}
    (hv : d.verdict entry template = .error e) :
    Effect.assignments es = [] ∧
      ∀ u a, Daemon.Output.answered u a ∈ Effect.outputs es ↔ u = t ∧ a = .refused e := by
  cases h with
  | unarmed ha =>
    rw [verdict, ha] at hv
    cases hv
    exact ⟨rfl, by simp [Effect.outputs, Effect.output?]⟩
  | typed ha hstarts =>
    simp only [verdict, ha] at hv
    cases hstarts with
    | busy hs =>
      rw [hs] at hv
      cases hv
      exact ⟨rfl, by simp [Effect.outputs, Effect.output?, Effect.toOwner]⟩
    | rejected hs he =>
      simp only [hs, he] at hv
      cases hv
      exact ⟨rfl, by simp [Effect.outputs, Effect.output?, Effect.toOwner]⟩
    | started hs he =>
      simp only [hs, he] at hv
      cases hv

/-- Else its sequence is started, and nobody is answered. -/
theorem Commands.of_ok (h : d.Commands w t (.autoType entry template) d' es) {s : Sequence}
    (hv : d.verdict entry template = .ok s) :
    (∃ token, Effect.assignments es = [⟨s, token, some t⟩]) ∧
      ∀ u a, Daemon.Output.answered u a ∉ Effect.outputs es := by
  cases h with
  | unarmed ha =>
    rw [verdict, ha] at hv
    cases hv
  | typed ha hstarts =>
    simp only [verdict, ha] at hv
    cases hstarts with
    | busy hs =>
      rw [hs] at hv
      cases hv
    | rejected hs he =>
      simp only [hs, he] at hv
      cases hv
    | started hs he =>
      simp only [hs, he] at hv
      cases hv
      exact ⟨⟨_, rfl⟩, by simp [Effect.outputs, Effect.output?]⟩

end Verdict

end Dispatcher

/-- The answer that a report gives. -/
def Report.answer (r : Report) : Answer :=
  match r.result with
  | .ok () => .typed r.actions
  | .error e => .refused (.engine e)

namespace Daemon

variable {σ : Type} {w : Surroundings σ} {crashReason : String}

/-! ## Answers of a step -/

theorem eq_stopped_of_mem_refuse {ts : List Ticket} {t : Ticket} {a : Answer}
    (h : .answered t a ∈ refuse ts) : a = .refused .stopped := by
  obtain ⟨u, -, hu⟩ := List.mem_map.mp h
  cases hu
  rfl

/-- A report answers the owner of its sequence, and tells how that ended. -/
theorem mem_outputs_onReport {d : Dispatcher σ} {r : Report} {elapsedMs : UInt64} {t : Ticket}
    {a : Answer} :
    .answered t a ∈ Effect.outputs (d.onReport r elapsedMs).2 ↔
      r.ticket = some t ∧ a = r.answer := by
  have houtputs : Effect.outputs (d.onReport r elapsedMs).2 =
      .emitted (match r.result with
        | .ok () => Event.sequenceFinished r.actions elapsedMs
        | .error e => .sequenceFailed e.message) :: Effect.outputs (Effect.toOwner r.ticket r.answer) :=
    rfl
  rw [houtputs]
  cases ht : r.ticket with
  | none => simp [Effect.toOwner, Effect.outputs]
  | some u =>
    simp [Effect.toOwner, Effect.outputs, Effect.output?, eq_comm]

/-- How an answer can come about: the dispatcher has stopped, it takes a command or a report, or it
was busy with a status command. -/
theorem Moves.answered_cases {d : Daemon σ} {c : Choice} {s : Daemon σ × List Output}
    {es : List Effect} {rs : List Report} (hm : d.Moves w crashReason c s es rs) {t : Ticket}
    {a : Answer} (ha : .answered t a ∈ s.2) :
    (s.1.running = false ∧ a = .refused .stopped) ∨
      (c = .takeCommand ∧ d.isTaking = true ∧ ∃ b rest d', d.commands = (t, b) :: rest ∧
        b ≠ .shutdown ∧ d.dispatcher.Commands w t b d' es ∧ .answered t a ∈ Effect.outputs es) ∨
      (∃ ms r rest, c = .takeReport ms ∧ d.isTaking = true ∧ d.reports = r :: rest ∧
        r.ticket = some t ∧ a = r.answer) ∨
      ∃ p available, d.probe = some (t, p) ∧ a = .status (d.dispatcher.snapshot available) := by
  cases hm with
  | unheard _ _ _ hd => exact .inl ⟨hd, eq_stopped_of_mem_refuse ha⟩
  | noticed _ _ hn =>
    rw [snd_apply] at ha
    have howner := Effect.mem_owners ha
    rw [hn.owners.1] at howner
    cases howner
  | @commanded u b rest d' _ ht hcs hb hc =>
    rw [snd_apply] at ha
    have howner := Effect.mem_owners ha
    rw [(hc.owners hb).1] at howner
    obtain rfl := List.mem_singleton.mp howner
    exact .inr (.inl ⟨rfl, ht, b, rest, d', hcs, hb, hc, ha⟩)
  | @reported r rest ms ht hr =>
    rw [snd_apply, mem_outputs_onReport] at ha
    exact .inr (.inr (.inl ⟨ms, r, rest, rfl, ht, hr, ha.1, ha.2⟩))
  | stopped =>
    rcases List.mem_append.mp ha with ha | ha
    · exact .inl ⟨rfl, eq_stopped_of_mem_refuse ha⟩
    · exact .inl ⟨rfl, eq_stopped_of_mem_refuse ha⟩
  | knew hp =>
    cases List.mem_singleton.mp ha
    exact .inr (.inr (.inr ⟨_, _, hp, rfl⟩))
  | late _ _ hd => exact .inl ⟨hd, eq_stopped_of_mem_refuse ha⟩
  | _ => cases ha

/-! ## Where a sequence comes from -/

/-- Whether the dispatcher can take a command that types, and it is the oldest one. -/
structure Takes (d : Daemon σ) (t : Ticket) (entry : Option Entry) (template : Option String) :
    Prop where
  taking : d.isTaking = true
  head : d.commands.head? = some (t, .autoType entry template)

/-- A sequence answers whom it was started for. -/
theorem ticket_of_starts {d d' : Dispatcher σ} {entry : Entry} {template : Option String}
    {ticket : Option Ticket} {es : List Effect} (h : d.Starts entry template ticket d' es)
    {a : Assignment} (ha : a ∈ Effect.assignments es) : a.ticket = ticket := by
  cases h with
  | started =>
    obtain rfl := List.mem_singleton.mp ha
    rfl
  | _ => cases ticket <;> cases ha

theorem ticket_of_notices {d d' : Dispatcher σ} {n : Notice} {es : List Effect}
    (h : d.Notices n d' es) {a : Assignment} (ha : a ∈ Effect.assignments es) :
    a.ticket = none := by
  cases h with
  | armed _ hstarts => exact ticket_of_starts hstarts ha
  | _ => cases ha

/-- The sequence that is started for a command is what the command came to. -/
theorem verdict_of_commands {d d' : Dispatcher σ} {t : Ticket} {c : Command} {es : List Effect}
    (h : d.Commands w t c d' es) {a : Assignment} (ha : a ∈ Effect.assignments es) :
    ∃ entry template, c = .autoType entry template ∧
      d.verdict entry template = .ok a.sequence ∧ a.ticket = some t := by
  cases c with
  | autoType entry template =>
    refine ⟨entry, template, rfl, ?_⟩
    cases hv : d.verdict entry template with
    | error e =>
      rw [(h.of_error hv).1] at ha
      cases ha
    | ok s =>
      obtain ⟨⟨token, hstarted⟩, -⟩ := h.of_ok hv
      rw [hstarted] at ha
      obtain rfl := List.mem_singleton.mp ha
      exact ⟨rfl, rfl⟩
  | register chord =>
    cases h with
    | registered => cases ha
    | unregistrable =>
      split at ha
      · cases ha
      · cases ha
  | _ => cases h <;> cases ha

/-- A sequence is started for a notice, and answers nobody, or for the command that is taken, and
is what this command came to. -/
theorem starts_cases {d : Daemon σ} {c : Choice} {a : Assignment} (ha : a ∈ d.starts w c) :
    (c = .takeNotice ∧ a.ticket = none) ∨
      (c = .takeCommand ∧ ∃ t entry template, d.Takes t entry template ∧
        d.dispatcher.verdict entry template = .ok a.sequence ∧ a.ticket = some t) := by
  have hm := d.moves w "" c
  rw [starts] at ha
  generalize d.effects w c = es at hm ha
  generalize d.step w "" c = s at hm
  generalize d.closes c = rs at hm
  cases hm with
  | noticed _ _ hn => exact .inl ⟨rfl, ticket_of_notices hn ha⟩
  | @commanded t b rest d' _ ht hcs _ hc =>
    obtain ⟨entry, template, rfl, hv, htick⟩ := verdict_of_commands hc ha
    exact .inr ⟨rfl, t, entry, template, ⟨ht, by rw [hcs, List.head?_cons]⟩, hv, htick⟩
  | reported =>
    rw [Dispatcher.assignments_onReport] at ha
    cases ha
  | _ => cases ha

/-! ## What is due -/

variable (w crashReason) in
/-- Whether a sequence was started for a command at some step of a run, as what this command came
to, and such exchanges were made after it. -/
def BeganFor (d : Daemon σ) (cs : List Choice) (t : Ticket) (entry : Option Entry)
    (template : Option String) (s : Sequence) (xs : List Exchange) : Prop :=
  ∃ first mid, cs = first ++ .takeCommand :: mid ∧
    (d.run w crashReason first).1.Takes t entry template ∧
    (d.run w crashReason first).1.dispatcher.verdict entry template = .ok s ∧
    xs = ((d.run w crashReason first).1.step w crashReason .takeCommand).1.exchanged
      w crashReason mid

variable (w crashReason) in
/-- When which answer is due to a command that types: what is answered in a step after a run. -/
inductive Due (d : Daemon σ) (cs : List Choice) (t : Ticket) (entry : Option Entry)
    (template : Option String) : Choice → Answer → Prop
  /-- It is taken and refused. -/
  | refused {e : CommandError} : (d.run w crashReason cs).1.Takes t entry template →
      (d.run w crashReason cs).1.dispatcher.verdict entry template = .error e →
      Due d cs t entry template .takeCommand (.refused e)
  /-- Its own sequence was performed, every action of it. -/
  | typed {s : Sequence} {xs : List Exchange} {k : Keyboard} (elapsedMs : UInt64) :
      d.BeganFor w crashReason cs t entry template s xs → w.trusted = true →
      d.dispatcher.engine.injector.keyboard = some k → k.Performs s xs →
      Due d cs t entry template (.takeReport elapsedMs) (.typed (UInt64.ofNat s.size))
  /-- Its own sequence came to something else. -/
  | failed {s : Sequence} {xs : List Exchange} {o : Outcome} {e : EngineError}
      (elapsedMs : UInt64) : d.BeganFor w crashReason cs t entry template s xs →
      (d.dispatcher.engine.script w.trusted s).Comes xs o → o.result crashReason = .error e →
      Due d cs t entry template (.takeReport elapsedMs) (.refused (.engine e))
  /-- The dispatcher has stopped. -/
  | stopped (c : Choice) :
      ((d.run w crashReason cs).1.step w crashReason c).1.running = false →
      Due d cs t entry template c (.refused .stopped)

/-- A sequence that answers somebody was started for a command that they sent. -/
theorem Unused.beganFor {d : Daemon σ} (hd : d.Unused) {cs : List Choice} {a : Assignment}
    {xs : List Exchange} (h : d.Began w crashReason cs a xs) {t : Ticket}
    (ht : a.ticket = some t) :
    ∃ entry template, (t, .autoType entry template) ∈ sends cs ∧
      d.BeganFor w crashReason cs t entry template a.sequence xs := by
  obtain ⟨first, c, mid, rfl, hstart, hxs⟩ := h
  obtain ⟨-, hnone⟩ | ⟨rfl, u, entry, template, htakes, hv, hu⟩ := starts_cases hstart
  · rw [ht] at hnone
    cases hnone
  · obtain rfl : t = u := Option.some.inj (ht.symm.trans hu)
    refine ⟨entry, template, ?_, first, mid, rfl, htakes, hv, hxs⟩
    rw [sends_append]
    apply List.mem_append_left
    exact (hd.sent_run w crashReason first).commands _ (List.mem_of_head? htakes.head)

/-- The answer that a report gives is due, if the report tells what the sequence came to. -/
theorem BeganFor.due {d : Daemon σ} {cs : List Choice} {t : Ticket} {entry : Option Entry}
    {template : Option String} {s : Sequence} {xs : List Exchange}
    (h : d.BeganFor w crashReason cs t entry template s xs) {r : Report} {o : Outcome}
    (hcomes : (d.dispatcher.engine.script w.trusted s).Comes xs o)
    (hresult : r.result = o.result crashReason) (hactions : r.actions = UInt64.ofNat s.size)
    (elapsedMs : UInt64) :
    d.Due w crashReason cs t entry template (.takeReport elapsedMs) r.answer := by
  unfold Report.answer
  cases hr : r.result with
  | error e => exact .failed elapsedMs h hcomes (hresult.symm.trans hr)
  | ok u =>
    obtain rfl : o = .returned (.ok ()) := by
      rw [hr] at hresult
      cases o with
      | crashed => cases hresult
      | returned q =>
        have hq : .ok u = q := hresult
        rw [← hq]
    obtain ⟨htrusted, k, hk, hperforms⟩ := Engine.performs_of_comes hcomes
    rw [hactions]
    exact .typed elapsedMs h htrusted hk hperforms

variable (w crashReason) in
/-- Every answer to a command that types is due to it. -/
theorem Unused.due {d : Daemon σ} (hd : d.Unused) (cs : List Choice) (c : Choice)
    {sent : List (Ticket × Command)} (hcs : ∀ x ∈ sends cs, x ∈ sent)
    (hn : (awaiting sent).Nodup) {t : Ticket} {entry : Option Entry} {template : Option String}
    (hsent : (t, .autoType entry template) ∈ sent) {a : Answer}
    (ha : .answered t a ∈ ((d.run w crashReason cs).1.step w crashReason c).2) :
    d.Due w crashReason cs t entry template c a := by
  have hwaits := hd.sent_run w crashReason cs
  -- the ticket tells the command
  have hsame {b : Command} (hb : (t, b) ∈ sends cs) (hne : b ≠ .shutdown) :
      b = .autoType entry template :=
    eq_of_awaiting_nodup hn (hcs _ hb) hsent hne nofun
  obtain ⟨hstop, rfl⟩ | ⟨rfl, ht, b, rest, d', hq, hne, hc, hout⟩ |
      ⟨ms, r, rest, rfl, ht, hr, htick, rfl⟩ | ⟨p, -, hp, -⟩ :=
    (moves w crashReason _ c).answered_cases ha
  · exact .stopped c hstop
  · obtain rfl := hsame (hwaits.commands _ (hq ▸ List.mem_cons_self)) hne
    cases hv : (d.run w crashReason cs).1.dispatcher.verdict entry template with
    | error e =>
      obtain ⟨-, rfl⟩ := ((hc.of_error hv).2 t a).mp hout
      exact .refused ⟨ht, by rw [hq, List.head?_cons]⟩ hv
    | ok s => exact absurd hout ((hc.of_ok hv).2 t a)
  · obtain ⟨o, hf, hway⟩ := hd.toIdle.underway w crashReason cs (running_of_isTaking ht)
    obtain ⟨b, rfl, hof, -⟩ := hf.takeReport hr ms
    obtain ⟨xs, hbegan, hcarries⟩ := hway b rfl
    obtain ⟨entry', template', hmem, hfor⟩ := hd.beganFor hbegan (hof.2.symm.trans htick)
    cases hsame hmem nofun
    obtain ⟨o, hcomes, hresult⟩ := hcarries.reports r (hr ▸ List.mem_cons_self)
    exact hfor.due hcomes hresult hof.1 ms
  · cases hsame (hwaits.probe t p hp) nofun

/-! ## The way is free -/

/-- Whether no sequence is in flight and nobody has the injector. -/
structure Settled (d : Daemon σ) : Prop extends Idle d where
  free : d.dispatcher.engine.taken = false

variable (w crashReason) in
/-- Where the injector is in a run of a dispatcher that goes on. -/
theorem Unused.locked_run {d : Daemon σ} (hd : d.Unused) (cs : List Choice)
    (hs : (d.run w crashReason cs).1.running = true) : (d.run w crashReason cs).1.Locked := by
  refine run_induction w crashReason (P := fun _ d' ↦ d'.Locked)
    (hd.toIdle.locked hd.taken hd.probe) ?_ cs hs
  intro cs c hbefore hlocked hs
  obtain ⟨o, hf, -⟩ := hd.toIdle.underway w crashReason cs hbefore
  exact ((moves w crashReason _ c).refusals hf hlocked hs).1

variable (w crashReason) in
/-- When a report is taken no sequence is in flight, and nobody has the injector. -/
theorem Unused.settled_takeReport {d : Daemon σ} (hd : d.Unused) (cs : List Choice)
    (ht : (d.run w crashReason cs).1.isTaking = true) {r : Report} {rest : List Report}
    (hr : (d.run w crashReason cs).1.reports = r :: rest) (elapsedMs : UInt64) :
    ((d.run w crashReason cs).1.step w crashReason (.takeReport elapsedMs)).1.Settled := by
  have hs := running_of_isTaking ht
  obtain ⟨o, hf, -⟩ := hd.toIdle.underway w crashReason cs hs
  obtain ⟨a, rfl, -, hidle⟩ := hf.takeReport hr elapsedMs
  have hstep : (d.run w crashReason cs).1.step w crashReason (.takeReport elapsedMs) =
      { (d.run w crashReason cs).1 with
          reports := rest
          dispatcher := ((d.run w crashReason cs).1.dispatcher.onReport r elapsedMs).1 }.apply
        ((d.run w crashReason cs).1.dispatcher.onReport r elapsedMs).2 := by
    simp only [step, takeReport, ht, hr, if_true]
  have hlocked := hd.locked_run w crashReason cs hs
  have hworkers : (d.run w crashReason cs).1.workers = [] := by
    cases hf with
    | typing _ _ _ hp =>
      rw [hp] at hr
      cases hr
    | reported _ _ hw => exact hw
  have hfree : (d.run w crashReason cs).1.dispatcher.engine.taken = false := by
    have hholders := hlocked.holders
    rw [hworkers, isProbed_of_isTaking ht] at hholders
    cases htaken : (d.run w crashReason cs).1.dispatcher.engine.taken with
    | false => rfl
    | true =>
      rw [htaken] at hholders
      cases hholders
  rw [hstep]
  refine ⟨hidle, ?_⟩
  rw [dispatcher_apply]
  exact hfree

/-- A dispatcher that answers in a step in which it could take a report takes one. -/
theorem exists_report {d : Daemon σ} {elapsedMs : UInt64} {t : Ticket} {a : Answer}
    (h : .answered t a ∈ (d.takeReport elapsedMs).2) :
    d.isTaking = true ∧ ∃ r rest, d.reports = r :: rest := by
  unfold takeReport at h
  split at h
  · next ht =>
    refine ⟨ht, ?_⟩
    split at h
    · cases h
    · next r rest hr => exact ⟨r, rest, hr⟩
  · cases h

/-- No command finds a sequence in flight where none is. -/
theorem Settled.verdict_ne_busy {d : Daemon σ} (h : d.Settled) (entry : Option Entry)
    (template : Option String) :
    d.dispatcher.verdict entry template ≠ .error (.engine .busy) := by
  simp only [Dispatcher.verdict, h.state]
  split
  · simp
  · split
    · simp
    · simp

/-! ## Completion -/

/-- Two looks are enough for the status command that the dispatcher is busy with. -/
theorem lookOn_lookOn (d : Daemon σ) :
    ∃ engine, ((d.lookOn w).1.lookOn w).1 =
      { d with dispatcher := { d.dispatcher with engine }, probe := none } := by
  cases hp : d.probe with
  | none =>
    refine ⟨d.dispatcher.engine, ?_⟩
    simp only [lookOn, hp]
    rw [← hp]
  | some tp =>
    obtain ⟨t, p⟩ := tp
    cases p with
    | wanting =>
      cases htaken : d.dispatcher.engine.taken with
      | true => exact ⟨_, by simp only [lookOn, hp, Probe.advance, htaken, if_true]; rfl⟩
      | false => exact ⟨_, by simp only [lookOn, hp, Probe.advance, htaken]; rfl⟩
    | looking => exact ⟨_, by simp only [lookOn, hp, Probe.advance]; rfl⟩
    | seen available => exact ⟨_, by simp only [lookOn, hp, Probe.advance]; rfl⟩

/-- A dispatcher that takes the only report owes an answer for the commands that wait. -/
theorem outstanding_takeReport {d : Daemon σ} (ht : d.isTaking = true) (hw : d.workers = [])
    {r : Report} (hr : d.reports = [r]) (elapsedMs : UInt64) :
    (d.takeReport elapsedMs).1.outstanding = awaiting d.commands := by
  have hprobe : (d.takeReport elapsedMs).1.probe = none := by
    simp only [takeReport, ht, hr, if_true]
    rw [probe_apply _ _ (Dispatcher.owners_onReport _ r elapsedMs).2]
    exact probe_of_isTaking ht
  rw [outstanding, hprobe]
  simp [takeReport, ht, hr, hw, Dispatcher.assignments_onReport]

/-- Once the only worker, if there is one, is done, and its report is taken, an answer is owed only
for the commands that wait. -/
theorem Flight.outstanding_takeReport {d : Daemon σ} {o : Option Assignment} (hf : d.Flight o)
    (ht : d.isTaking = true) (hdone : ∀ v ∈ d.workers, v.job.isFinished = true)
    (elapsedMs : UInt64) :
    ((d.handIn crashReason 0).1.takeReport elapsedMs).1.outstanding = awaiting d.commands := by
  cases hf with
  | grounded h =>
    have hhand : (d.handIn crashReason 0).1 = d := by simp [Daemon.handIn, h.workers]
    have htake : (d.takeReport elapsedMs).1 = d := by simp [Daemon.takeReport, h.reports]
    rw [hhand, htake]
    simp [outstanding, probe_of_isTaking ht, h.workers, h.reports]
  | @typing a v _ _ hw hp =>
    obtain ⟨o, ho⟩ : ∃ o, v.job.stage = .finished o := by
      have hv := hdone v (by simp [hw])
      unfold Job.isFinished at hv
      split at hv
      · next o hst => exact ⟨o, hst⟩
      · cases hv
    obtain ⟨r, hr⟩ : ∃ r, v.report? crashReason = some r := by
      rw [Worker.report?, Job.outcome?, ho]
      exact ⟨_, rfl⟩
    have hhand : (d.handIn crashReason 0).1 = { d with workers := [], reports := [r] } := by
      simp [Daemon.handIn, hw, hr, running_of_isTaking ht, hp]
    rw [hhand]
    exact Daemon.outstanding_takeReport (d := { d with workers := [], reports := [r] }) ht rfl rfl
      elapsedMs
  | reported _ _ hw hp =>
    have hhand : (d.handIn crashReason 0).1 = d := by simp [Daemon.handIn, hw]
    rw [hhand]
    exact Daemon.outstanding_takeReport ht hw hp elapsedMs

/-- A dispatcher that goes on, and whose workers are done, comes to owe an answer only for the
commands that wait. -/
theorem Flight.outstanding_of_finished {d : Daemon σ} {o : Option Assignment} (hf : d.Flight o)
    (hs : d.running = true) (hdone : ∀ v ∈ d.workers, v.job.isFinished = true)
    (elapsedMs : UInt64) :
    (d.run w crashReason [.lookOn, .lookOn, .handIn 0, .takeReport elapsedMs]).1.outstanding =
      awaiting d.commands := by
  obtain ⟨engine, hlook⟩ := lookOn_lookOn (w := w) d
  have hrun : (d.run w crashReason [.lookOn, .lookOn, .handIn 0, .takeReport elapsedMs]).1 =
      ((((d.lookOn w).1.lookOn w).1.handIn crashReason 0).1.takeReport elapsedMs).1 := rfl
  rw [hrun, hlook]
  have hf' : Flight { d with dispatcher := { d.dispatcher with engine }, probe := none } o :=
    hf.congr rfl rfl rfl rfl
  apply hf'.outstanding_takeReport ?_ hdone elapsedMs
  rw [isTaking, hs]
  rfl

/-! ## The hotkey -/

/-- Effects that are for nobody answer nobody. -/
theorem answered_outputs {es : List Effect} (h : Effect.owners es = []) :
    answered (Effect.outputs es) = [] := by
  rw [List.eq_nil_iff_forall_not_mem]
  intro t ht
  obtain ⟨o, ho, hout⟩ := List.mem_filterMap.mp ht
  cases o with
  | emitted e => cases hout
  | answered u a =>
    cases hout
    have howner := Effect.mem_owners ho
    rw [h] at howner
    cases howner

/-- A notice that is taken answers nobody. -/
theorem answered_takeNotice (d : Daemon σ) : answered d.takeNotice.2 = [] := by
  unfold takeNotice
  split
  · split
    · next n notices _ =>
      dsimp only
      rw [snd_apply]
      exact answered_outputs (d.dispatcher.notices n).owners.1
    · rfl
  · rfl

/-- The report of a sequence that answers nobody. -/
theorem Flight.answered_takeReport {d : Daemon σ} {a : Assignment} (hf : d.Flight (some a))
    (ha : a.ticket = none) (elapsedMs : UInt64) : answered (d.takeReport elapsedMs).2 = [] := by
  unfold Daemon.takeReport
  split
  · split
    · rfl
    · next r reports hr =>
      obtain ⟨b, hb, hof, -⟩ := hf.takeReport hr elapsedMs
      cases hb
      dsimp only
      rw [snd_apply]
      apply answered_outputs
      rw [(Dispatcher.owners_onReport ..).1, hof.2, ha]
      rfl
  · rfl

/-- Where a notice starts a sequence, this one is in flight then, and it answers nobody. -/
theorem Flight.takeNotice {d : Daemon σ} {o : Option Assignment} (hf : d.Flight o)
    (hstart : d.starts w .takeNotice ≠ [])
    (hs : (d.step w crashReason .takeNotice).1.running = true) :
    ∃ a, (d.step w crashReason .takeNotice).1.Flight (some a) ∧ a.ticket = none := by
  obtain ⟨o', done, hf', hof, ho⟩ := hf.moves (d.moves w crashReason .takeNotice) hs
  have hdone : done = [] := List.forall₂_nil_left_iff.mp hof
  have ho : o.toList ++ d.starts w .takeNotice = o'.toList := by
    rw [hdone] at ho
    exact ho
  obtain ⟨a, rest, hcons⟩ := List.exists_cons_of_ne_nil hstart
  have hmem : a ∈ o'.toList := by
    rw [← ho, hcons]
    exact List.mem_append_right _ List.mem_cons_self
  obtain rfl : o' = some a := Option.mem_toList.mp hmem
  refine ⟨a, hf', ?_⟩
  have hstarted : a ∈ d.starts w .takeNotice := by
    rw [hcons]
    exact List.mem_cons_self
  obtain ⟨-, hnone⟩ | ⟨hc, -⟩ := starts_cases hstarted
  · exact hnone
  · cases hc

/-- As long as no report is taken, the sequence in flight stays in flight. -/
theorem Flight.run_of_closed {d : Daemon σ} {a : Assignment} (hf : d.Flight (some a))
    (cs : List Choice) (hs : (d.run w crashReason cs).1.running = true)
    (hclosed : d.closed w crashReason cs = []) : (d.run w crashReason cs).1.Flight (some a) := by
  obtain ⟨o, done, hf', hof, ho⟩ := hf.run w crashReason cs hs
  rw [hclosed] at hof
  have hdone : done = [] := List.forall₂_nil_left_iff.mp hof
  have hmem : a ∈ o.toList := by
    rw [hdone] at ho
    rw [← List.nil_append o.toList, ← ho]
    exact List.mem_append_left _ (List.mem_singleton_self a)
  obtain rfl : o = some a := Option.mem_toList.mp hmem
  exact hf'

/-! ## Routing -/

variable (w crashReason) in
/-- What the dispatcher does with a command that it takes. -/
theorem Takes.decides {d : Daemon σ} {t : Ticket} {entry : Option Entry}
    {template : Option String} (h : d.Takes t entry template) :
    ∃ d' es, d.dispatcher.Commands w t (.autoType entry template) d' es ∧
      (d.step w crashReason .takeCommand).2 = Effect.outputs es ∧
      d.starts w .takeCommand = Effect.assignments es := by
  obtain ⟨rest, hcs⟩ := List.head?_eq_some_iff.mp h.head
  refine ⟨_, _, d.dispatcher.commands w t (.autoType entry template), ?_, ?_⟩
  · simp only [step, takeCommand, h.taking, hcs, if_true, snd_apply]
  · simp only [starts, effects, h.taking, hcs]

variable (w crashReason) in
/-- How commands that type are answered in a run. -/
structure Routes (d : Daemon σ) (cs : List Choice) : Prop where
  at_most_one : ∀ t, (answered (d.run w crashReason cs).2).count t ≤ 1
  /-- Whoever sent a command has exactly one answer, or is owed it. -/
  exactly_one : ∀ t ∈ awaiting (sends cs), (answered (d.run w crashReason cs).2).count t = 1 ↔
    t ∉ (d.run w crashReason cs).1.outstanding
  /-- A command that does not wait any more is answered once the dispatcher, which goes on, has
  taken the report of the sequence in flight, which is over. -/
  completes : (d.run w crashReason cs).1.running = true →
    (∀ v ∈ (d.run w crashReason cs).1.workers, v.job.isFinished = true) →
    ∀ t ∈ awaiting (sends cs), t ∉ awaiting (d.run w crashReason cs).1.commands → ∀ elapsedMs,
      (answered (d.run w crashReason
        (cs ++ [.lookOn, .lookOn, .handIn 0, .takeReport elapsedMs])).2).count t = 1
  /-- What a command comes to is decided when it is taken: it is refused, -/
  refused : ∀ before rest t entry template e, cs = before ++ .takeCommand :: rest →
    (d.run w crashReason before).1.Takes t entry template →
    (d.run w crashReason before).1.dispatcher.verdict entry template = .error e →
    .answered t (.refused e) ∈ ((d.run w crashReason before).1.step w crashReason .takeCommand).2
  /-- or its sequence is started. -/
  started : ∀ before rest t entry template s, cs = before ++ .takeCommand :: rest →
    (d.run w crashReason before).1.Takes t entry template →
    (d.run w crashReason before).1.dispatcher.verdict entry template = .ok s →
    ∃ token, (d.run w crashReason before).1.starts w .takeCommand = [⟨s, token, some t⟩]
  /-- Every answer is due to the command. -/
  due : ∀ before c rest t entry template a, cs = before ++ c :: rest →
    (t, .autoType entry template) ∈ sends cs →
    .answered t a ∈ ((d.run w crashReason before).1.step w crashReason c).2 →
    d.Due w crashReason before t entry template c a
  /-- When a sequence is answered for, none is in flight and the injector is free, so that a next
  command does not find them taken. -/
  free : ∀ before elapsedMs rest t a, cs = before ++ .takeReport elapsedMs :: rest →
    .answered t a ∈ ((d.run w crashReason before).1.step w crashReason (.takeReport elapsedMs)).2 →
    ((d.run w crashReason before).1.step w crashReason (.takeReport elapsedMs)).1.Settled ∧
      ∀ entry template, ((d.run w crashReason before).1.step w crashReason
        (.takeReport elapsedMs)).1.dispatcher.verdict entry template ≠ .error (.engine .busy)
  /-- A sequence that the hotkey started answers nobody, when it is started and when the next
  report, which is its own, is taken. -/
  hotkey : ∀ before mid elapsedMs rest,
    cs = before ++ .takeNotice :: (mid ++ .takeReport elapsedMs :: rest) →
    (d.run w crashReason before).1.starts w .takeNotice ≠ [] →
    ((d.run w crashReason before).1.step w crashReason .takeNotice).1.closed w crashReason mid =
      [] →
    answered ((d.run w crashReason before).1.step w crashReason .takeNotice).2 = [] ∧
      answered ((d.run w crashReason (before ++ .takeNotice :: mid)).1.step w crashReason
        (.takeReport elapsedMs)).2 = []

variable (w crashReason) in
/-- Answers are routed to their owners, once: in every run in which no two commands are sent under
one ticket. -/
theorem replies_routed {d : Daemon σ} (hd : d.Unused) {cs : List Choice}
    (hn : (awaiting (sends cs)).Nodup) : d.Routes w crashReason cs := by
  have hnothing : d.outstanding = [] := by
    simp [outstanding, awaiting, hd.commands, hd.probe, hd.workers, hd.reports]
  have haccount (t : Ticket) := account_run w crashReason d cs t
  simp only [hnothing, List.count_nil, Nat.zero_add] at haccount
  constructor
  case at_most_one =>
    intro t
    have hle := List.nodup_iff_count_le_one.mp hn t
    have := haccount t
    omega
  case exactly_one =>
    intro t ht
    have hone := List.count_eq_one_of_mem hn ht
    have := haccount t
    rw [← List.count_eq_zero]
    omega
  case completes =>
    intro hs hdone t ht hwaits elapsedMs
    obtain ⟨o, hf, -⟩ := hd.toIdle.underway w crashReason cs hs
    have hleft : (d.run w crashReason
        (cs ++ [.lookOn, .lookOn, .handIn 0, .takeReport elapsedMs])).1.outstanding =
        awaiting (d.run w crashReason cs).1.commands := by
      rw [run_append]
      exact hf.outstanding_of_finished hs hdone elapsedMs
    have hbalance := account_run w crashReason d
      (cs ++ [.lookOn, .lookOn, .handIn 0, .takeReport elapsedMs]) t
    have hsent : sends (cs ++ [.lookOn, .lookOn, .handIn 0, .takeReport elapsedMs]) = sends cs := by
      rw [sends_append]
      exact List.append_nil _
    rw [hleft, hsent, hnothing, List.count_eq_zero.mpr hwaits, List.count_eq_one_of_mem hn ht]
      at hbalance
    exact hbalance
  case refused =>
    intro before _ t entry template e _ htakes hv
    obtain ⟨d', es, hc, hout, -⟩ := htakes.decides w crashReason
    rw [hout, (hc.of_error hv).2]
    exact ⟨rfl, rfl⟩
  case started =>
    intro before _ t entry template s _ htakes hv
    obtain ⟨d', es, hc, -, hstarts⟩ := htakes.decides w crashReason
    rw [hstarts]
    exact (hc.of_ok hv).1
  case due =>
    intro before c rest t entry template a hcs hsent ha
    apply hd.due w crashReason before c ?_ hn hsent ha
    rw [hcs, sends_append]
    exact fun x hx ↦ List.mem_append_left _ hx
  case free =>
    intro before elapsedMs _ t a _ ha
    obtain ⟨ht, r, rest, hr⟩ := exists_report ha
    have hsettled := hd.settled_takeReport w crashReason before ht hr elapsedMs
    exact ⟨hsettled, hsettled.verdict_ne_busy⟩
  case hotkey =>
    intro before mid elapsedMs _ _ hstart hclosed
    refine ⟨answered_takeNotice _, ?_⟩
    have hend : (d.run w crashReason (before ++ .takeNotice :: mid)).1 =
        (((d.run w crashReason before).1.step w crashReason .takeNotice).1.run
          w crashReason mid).1 := by
      rw [run_append]
      rfl
    rw [hend]
    show answered (Daemon.takeReport _ elapsedMs).2 = []
    cases hs : (((d.run w crashReason before).1.step w crashReason .takeNotice).1.run
        w crashReason mid).1.running with
    | false =>
      unfold takeReport
      rw [isTaking, hs]
      rfl
    | true =>
      have hstarted := running_of_run w crashReason hs
      have hbefore := (moves w crashReason _ .takeNotice).running hstarted
      obtain ⟨o, hf, -⟩ := hd.toIdle.underway w crashReason before hbefore
      obtain ⟨a, hfa, hnone⟩ := hf.takeNotice hstart hstarted
      exact (hfa.run_of_closed mid hs hclosed).answered_takeReport hnone elapsedMs

/-- Two clients want something typed, and what the first one wants is typed to its end. -/
def competing : List Choice :=
  List.flatten
    [[.send ⟨0⟩ (.autoType (some {}) (some "\t")), .takeCommand],
      [.send ⟨1⟩ (.autoType (some {}) none), .takeCommand],
      List.replicate 3 (.work 0), List.replicate 4 (.reply 0 (.ok ())),
      [.work 0, .reply 0 (.ok ()), .reply 0 (.ok ()), .work 0],
      List.replicate 4 (.reply 0 (.ok ())), List.replicate 5 (.work 0),
      [.handIn 0, .takeReport 7]]

/-- The second client is refused, and the first one is told that its one action was performed. -/
theorem replies_routed_of_competing :
    (fresh .macAnsi).Unused ∧ (awaiting (sends competing)).Nodup ∧
      ((fresh .macAnsi).run (permissive .macAnsi) "" competing).2 =
        [.emitted (.sequenceStarted 1), .emitted (.triggerRejected EngineError.busy.message),
          .answered ⟨1⟩ (.refused (.engine .busy)), .emitted (.sequenceFinished 1 7),
          .answered ⟨0⟩ (.typed 1)] ∧
      (fresh .macAnsi).Routes (permissive .macAnsi) "" competing := by
  have hn : (awaiting (sends competing)).Nodup := by decide
  refine ⟨unused_fresh _, hn, ?_, replies_routed (permissive .macAnsi) "" (unused_fresh _) hn⟩
  cbv

end Daemon

end Typist

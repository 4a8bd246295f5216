import Mathlib.Data.List.Forall2
import Typist.Proofs.Daemon.Plays
import Typist.Proofs.Engine.Performing

/-!
# Twins

Two daemons whose clients bring the same but for the entry. As long as the sequences of the two
entries would end alike, whether they are cancelled or not, one daemon can follow the other through
everything that the surroundings choose and see: its worker types on only where the other's typing
has become independent of what is still to come.
-/

namespace Typist

/-! ## One entry for another -/

/-- A command with another entry, if it brings one. -/
def Command.withEntry (e : Entry) : Command → Command
  | .autoType (some _) template => .autoType (some e) template
  | .arm _ template => .arm e template
  | c => c

/-- A choice with another entry, if it brings one. -/
def Daemon.Choice.withEntry (e : Entry) : Choice → Choice
  | .send t c => .send t (c.withEntry e)
  | c => c

/-- It is still the surroundings' to make. -/
theorem Daemon.Choice.isOutward_withEntry (e : Entry) {c : Choice} :
    (c.withEntry e).IsOutward ↔ c.IsOutward := by
  cases c <;> rfl

/-! ## Typing alike -/

section Relations

variable (p : Sequence → Script TypingResult) (answer : NativeCall → NativeReply)

/-- Whether two sequences are of the same size, and typing them ends alike, whether they are
cancelled or not. -/
structure Sequence.Alike (s s' : Sequence) : Prop where
  size : s.size = s'.size
  under : ∀ cancelled, (p s).under answer cancelled = (p s').under answer cancelled
  heeds : (p s).Heeds answer

/-- Whether two requests are equally far, and scripts that are being typed end alike from now on. -/
inductive Stage.Alike : Stage → Stage → Prop
  | same {st : Stage} : (∀ s, st ≠ .typing s) → Alike st st
  | typing {s s' : Script TypingResult} :
      (∀ cancelled, s.under answer cancelled = s'.under answer cancelled) → s.Heeds answer →
      Alike (.typing s) (.typing s')

/-- Whether two workers type alike. -/
structure Worker.Alike (v v' : Worker) : Prop where
  sequence : v.job.sequence.Alike p answer v'.job.sequence
  stage : v.job.stage.Alike answer v'.job.stage
  token : v.job.token = v'.job.token
  waits : v.job.waits = v'.job.waits
  ticket : v.ticket = v'.ticket

/-- Whether two effects are the same, or hand out sequences that are typed alike. -/
inductive Effect.Alike : Effect → Effect → Prop
  | same {e : Effect} : e.assignment? = none → Alike e e
  | start {s s' : Sequence} (token : Token) (ticket : Option Ticket) : s.Alike p answer s' →
      Alike (.start ⟨s, token, ticket⟩) (.start ⟨s', token, ticket⟩)

/-- Whether two compilations are at the same fault, or give sequences that are typed alike. -/
inductive Template.CompilesAlike : Except CompileError Sequence → Except CompileError Sequence → Prop
  | error (e : CompileError) : CompilesAlike (.error e) (.error e)
  | ok {s s' : Sequence} : s.Alike p answer s' → CompilesAlike (.ok s) (.ok s')

end Relations

section Alike

variable {p : Sequence → Script TypingResult} {answer : NativeCall → NativeReply}

/-- Requests that want to type alike types keep step until they type. -/
theorem Worker.Alike.advance {v v' : Worker} (h : v.Alike p answer v')
    (hstage : ∀ s, v.job.stage ≠ .typing s) {trusted : Bool} {e : Engine}
    (hscript : ∀ s, e.script trusted s = p s) :
    (v.job.advance trusted e).1 = (v'.job.advance trusted e).1 ∧
      Worker.Alike p answer { v with job := (v.job.advance trusted e).2 }
        { v' with job := (v'.job.advance trusted e).2 } := by
  obtain ⟨⟨s, token, waits, stage⟩, ticket⟩ := v
  obtain ⟨⟨s', token', waits', stage'⟩, ticket'⟩ := v'
  obtain ⟨hsequence, hstages, rfl, rfl, rfl⟩ := h
  dsimp only at hstage hsequence hstages ⊢
  cases hstages with
  | typing => exact absurd rfl (hstage _)
  | same =>
    have hkeeps {st : Stage} (hst : ∀ s, st ≠ .typing s) :
        Worker.Alike p answer ⟨⟨s, token, waits, st⟩, ticket⟩ ⟨⟨s', token, waits, st⟩, ticket⟩ :=
      ⟨hsequence, .same hst, rfl, rfl, rfl⟩
    cases stage with
    | wanting =>
      simp only [Job.advance]
      split
      · exact ⟨rfl, hkeeps (by simp)⟩
      · split
        · exact ⟨rfl, hkeeps (by simp)⟩
        · exact ⟨rfl, hkeeps (by simp)⟩
    | announced =>
      refine ⟨rfl, hsequence, ?_, rfl, rfl, rfl⟩
      refine .typing (fun b ↦ ?_) ?_
      · show (e.script trusted s).under answer b = (e.script trusted s').under answer b
        rw [hscript, hscript]
        exact hsequence.under b
      · show (e.script trusted s).Heeds answer
        rw [hscript]
        exact hsequence.heeds
    | typing s => exact absurd rfl (hstage s)
    | _ => exact ⟨rfl, hkeeps (by simp)⟩

/-- The like of a worker that types does so, too. -/
theorem Worker.Alike.exists_typing {v v' : Worker} (h : v.Alike p answer v')
    {s : Script TypingResult} (hs : v.job.stage = .typing s) :
    ∃ s', v'.job.stage = .typing s' ∧
      (∀ cancelled, s.under answer cancelled = s'.under answer cancelled) ∧ s.Heeds answer := by
  have hstages := h.stage
  rw [hs] at hstages
  generalize hs' : v'.job.stage = st' at hstages
  cases hstages with
  | same hnot => exact absurd rfl (hnot s)
  | typing hunder hheeds => exact ⟨_, rfl, hunder, hheeds⟩

/-- Their reports are the same. -/
theorem Worker.Alike.report? {v v' : Worker} (h : v.Alike p answer v') (crashReason : String) :
    v.report? crashReason = v'.report? crashReason := by
  have houtcome : v.job.outcome? = v'.job.outcome? := by
    have hstage := h.stage
    unfold Job.outcome?
    generalize v.job.stage = st, v'.job.stage = st' at hstage
    cases hstage <;> rfl
  rw [Worker.report?, Worker.report?, houtcome, h.sequence.size, h.ticket]

/-- Effects that hand out nothing. -/
theorem Effect.alike_refl {es : List Effect} (h : ∀ e ∈ es, e.assignment? = none) :
    List.Forall₂ (Effect.Alike p answer) es es :=
  List.forall₂_same.mpr fun e he ↦ .same (h e he)

theorem Effect.assignment?_of_mem_toOwner {t : Option Ticket} {a : Answer} :
    ∀ e ∈ toOwner t a, e.assignment? = none := by
  cases t with
  | none => simp [toOwner]
  | some t =>
    rintro e he
    obtain rfl := List.mem_singleton.mp he
    rfl

end Alike

/-! ## Twin dispatchers -/

/-- An armed entry replaced by another one. -/
def Armed.withEntry (e : Entry) (a : Armed) : Armed := { a with entry := e }

/-- One entry in another's place: the two, the template under which they are typed, the engine that
types them, whether it is trusted, and how the system treats its events. -/
structure Swap where
  entry : Entry
  entry' : Entry
  template : String
  engine : Engine
  trusted : Bool
  creation : Creation

namespace Swap

/-- The script that types a sequence. -/
def script (x : Swap) (s : Sequence) : Script TypingResult := x.engine.script x.trusted s

/-- Whoever types as the engine does, and is trusted like it, types a sequence with this script. -/
theorem script_eq (x : Swap) {e : Engine} (he : e.TypesAs x.engine) {trusted : Bool}
    (ht : trusted = x.trusted) (s : Sequence) : e.script trusted s = x.script s := by
  rw [he.script, ht, script]

/-- What the system answers. -/
def answer (x : Swap) : NativeCall → NativeReply := EventPoster.answer x.creation

/-- Whether a template, or else the default one, is that of the swap. -/
def Means (x : Swap) (template : Option String) : Prop :=
  template.getD x.engine.options.defaultTemplate = x.template

/-- Whether the template is at the same fault for both entries, or gives sequences that are typed
alike. -/
def CompilesAlike (x : Swap) : Prop :=
  Template.CompilesAlike x.script x.answer (Template.compile x.template (some x.entry)).result
    (Template.compile x.template (some x.entry')).result

end Swap

/-- Whether a command names no other template. -/
def Command.Means (x : Swap) : Command → Prop
  | .autoType _ template => x.Means template
  | .arm _ template => x.Means template
  | _ => True

/-- Whether a choice brings no command that names another template. -/
def Daemon.Choice.Means (x : Swap) : Choice → Prop
  | .send _ c => c.Means x
  | _ => True

variable {σ : Type} {x : Swap}

/-- Whether two dispatchers differ in the armed entry only. -/
structure Dispatcher.Twins (x : Swap) (d d' : Dispatcher σ) : Prop where
  monitor : d.monitor = d'.monitor
  engine : d.engine = d'.engine
  state : d.state = d'.state
  running : d.running = d'.running
  armed : ∃ a : Option Armed, (∀ y ∈ a, x.Means y.template) ∧
    d.armed = a.map (Armed.withEntry x.entry) ∧ d'.armed = a.map (Armed.withEntry x.entry')
  types : d.engine.TypesAs x.engine

namespace Dispatcher.Twins

variable {d d' : Dispatcher σ}

/-- Twins start sequences that are typed alike, or none. -/
theorem startSequence (h : d.Twins x d') (hx : x.CompilesAlike) {template : Option String}
    (ht : x.Means template) (ticket : Option Ticket) :
    (d.startSequence x.entry template ticket).1.Twins x
        (d'.startSequence x.entry' template ticket).1 ∧
      List.Forall₂ (Effect.Alike x.script x.answer) (d.startSequence x.entry template ticket).2
        (d'.startSequence x.entry' template ticket).2 := by
  obtain ⟨monitor, engine, state, armed, running⟩ := d
  obtain ⟨monitor', engine', state', armed', running'⟩ := d'
  obtain ⟨rfl, rfl, rfl, rfl, harmed, htypes⟩ := h
  dsimp only at harmed htypes
  cases state with
  | typing =>
    exact ⟨⟨rfl, rfl, rfl, rfl, harmed, htypes⟩,
      .cons (.same rfl) (Effect.alike_refl Effect.assignment?_of_mem_toOwner)⟩
  | idle =>
    have hcompile (e : Entry) :
        (engine.compile template e).result = (Template.compile x.template (some e)).result := by
      rw [Engine.compile, htypes.2]
      exact congrArg (fun t ↦ (Template.compile t (some e)).result) ht
    simp only [Dispatcher.startSequence, hcompile]
    unfold Swap.CompilesAlike at hx
    generalize (Template.compile x.template (some x.entry)).result = result at hx
    generalize (Template.compile x.template (some x.entry')).result = result' at hx
    cases hx with
    | error e =>
      exact ⟨⟨rfl, rfl, rfl, rfl, harmed, htypes⟩,
        .cons (.same rfl) (Effect.alike_refl Effect.assignment?_of_mem_toOwner)⟩
    | ok hs =>
      refine ⟨⟨rfl, rfl, rfl, rfl, harmed, htypes⟩, ?_⟩
      dsimp only
      rw [hs.size]
      exact .cons (.same rfl) (.cons (.start _ _ hs) .nil)

/-- Twins take a notice alike. -/
theorem onNotice (h : d.Twins x d') (hx : x.CompilesAlike) (n : Notice) :
    (d.onNotice n).1.Twins x (d'.onNotice n).1 ∧
      List.Forall₂ (Effect.Alike x.script x.answer) (d.onNotice n).2 (d'.onNotice n).2 := by
  cases n with
  | restarted => exact ⟨h, .cons (.same rfl) .nil⟩
  | triggered =>
    obtain ⟨a, hmeans, harmed, harmed'⟩ := h.armed
    cases a with
    | none =>
      rw [Option.map_none] at harmed harmed'
      simp only [Dispatcher.onNotice, harmed, harmed']
      exact ⟨h, .cons (.same rfl) (.cons (.same rfl) .nil)⟩
    | some a =>
      rw [Option.map_some] at harmed harmed'
      simp only [Dispatcher.onNotice, harmed, harmed']
      obtain ⟨htwins, heffects⟩ := h.startSequence hx (hmeans a rfl) none
      exact ⟨htwins, .cons (.same rfl) heffects⟩

/-- Twins take a command alike. -/
theorem onCommand (h : d.Twins x d') (hx : x.CompilesAlike) (w : Surroundings σ) (t : Ticket)
    {c : Command} (hc : c.Means x) :
    (d.onCommand w t (c.withEntry x.entry)).1.Twins x
        (d'.onCommand w t (c.withEntry x.entry')).1 ∧
      List.Forall₂ (Effect.Alike x.script x.answer)
        (d.onCommand w t (c.withEntry x.entry)).2 (d'.onCommand w t (c.withEntry x.entry')).2 := by
  cases c with
  | status => exact ⟨h, .cons (.same rfl) .nil⟩
  | autoType entry template =>
    cases entry with
    | some e => exact h.startSequence hx hc (some t)
    | none =>
      obtain ⟨a, hmeans, harmed, harmed'⟩ := h.armed
      cases a with
      | none =>
        rw [Option.map_none] at harmed harmed'
        simp only [Command.withEntry, Dispatcher.onCommand, Dispatcher.entryFor, harmed, harmed']
        exact ⟨h, .cons (.same rfl) .nil⟩
      | some a =>
        rw [Option.map_some] at harmed harmed'
        simp only [Command.withEntry, Dispatcher.onCommand, Dispatcher.entryFor, harmed, harmed']
        refine h.startSequence hx ?_ (some t)
        cases template with
        | none => exact hmeans a rfl
        | some template => exact hc
  | arm entry template =>
    refine ⟨⟨h.monitor, h.engine, h.state, h.running, ?_, h.types⟩, .cons (.same rfl) .nil⟩
    exact ⟨some ⟨entry, template⟩, fun y hy ↦ by cases hy; exact hc, rfl, rfl⟩
  | disarm =>
    obtain ⟨a, -, harmed, harmed'⟩ := h.armed
    refine ⟨⟨h.monitor, h.engine, h.state, h.running, ⟨none, by simp, rfl, rfl⟩, h.types⟩, ?_⟩
    have hsome : d.armed.isSome = d'.armed.isSome := by rw [harmed, harmed']; cases a <;> rfl
    simp only [Command.withEntry, Dispatcher.onCommand, hsome]
    exact .cons (.same rfl) .nil
  | register chord =>
    obtain ⟨monitor, engine, state, armed, running⟩ := d
    obtain ⟨monitor', engine', state', armed', running'⟩ := d'
    obtain ⟨rfl, rfl, rfl, rfl, harmed, htypes⟩ := h
    simp only [Command.withEntry, Dispatcher.onCommand, Dispatcher.register]
    split
    · exact ⟨⟨rfl, rfl, rfl, rfl, harmed, htypes⟩, .cons (.same rfl) (.cons (.same rfl) .nil)⟩
    · refine ⟨⟨rfl, rfl, rfl, rfl, harmed, htypes⟩, Effect.alike_refl ?_⟩
      split <;> simp [Effect.assignment?]
  | unregister =>
    simp only [Command.withEntry, Dispatcher.onCommand, h.monitor]
    split
    · exact ⟨⟨rfl, h.engine, h.state, h.running, h.armed, h.types⟩,
        .cons (.same rfl) (.cons (.same rfl) .nil)⟩
    · exact ⟨h, .cons (.same rfl) .nil⟩
  | cancel =>
    simp only [Command.withEntry, Dispatcher.onCommand, h.running]
    split
    · exact ⟨⟨h.monitor, congrArg (Engine.cancelToken · _) h.engine, h.state, rfl, h.armed,
        h.types⟩, .cons (.same rfl) .nil⟩
    · exact ⟨h, .cons (.same rfl) .nil⟩
  | shutdown => exact ⟨h, .nil⟩

/-- Twins report alike. -/
theorem onReport (h : d.Twins x d') (r : Report) (elapsedMs : UInt64) :
    (d.onReport r elapsedMs).1.Twins x (d'.onReport r elapsedMs).1 ∧
      List.Forall₂ (Effect.Alike x.script x.answer) (d.onReport r elapsedMs).2
        (d'.onReport r elapsedMs).2 :=
  ⟨⟨h.monitor, h.engine, rfl, rfl, h.armed, h.types⟩,
    .cons (.same rfl) (Effect.alike_refl Effect.assignment?_of_mem_toOwner)⟩

/-- Twins stop alike. -/
theorem stop (h : d.Twins x d') (w : Surroundings σ) : (d.stop w).Twins x (d'.stop w) := by
  obtain ⟨monitor, engine, state, armed, running⟩ := d
  obtain ⟨monitor', engine', state', armed', running'⟩ := d'
  obtain ⟨rfl, rfl, rfl, rfl, harmed, htypes⟩ := h
  refine ⟨rfl, rfl, rfl, rfl, harmed, ?_⟩
  unfold Dispatcher.stop
  cases running <;> exact htypes

end Dispatcher.Twins

/-! ## Twin daemons -/

/-- Whether two daemons differ in the entries that clients brought, and in how far sequences are
typed that end alike. -/
structure Daemon.Twins (x : Swap) (d d' : Daemon σ) : Prop where
  dispatcher : d.dispatcher.Twins x d'.dispatcher
  notices : d.notices = d'.notices
  reports : d.reports = d'.reports
  probe : d.probe = d'.probe
  running : d.running = d'.running
  commands : ∃ cs : List (Ticket × Command), (∀ c ∈ cs, c.2.Means x) ∧
    d.commands = cs.map (fun c ↦ (c.1, c.2.withEntry x.entry)) ∧
    d'.commands = cs.map fun c ↦ (c.1, c.2.withEntry x.entry')
  workers : List.Forall₂ (Worker.Alike x.script x.answer) d.workers d'.workers

namespace Daemon.Twins

variable {d d' : Daemon σ}

/-- Twins take on effects that are alike, and the same goes out. -/
theorem apply (h : d.Twins x d') {es es' : List Effect}
    (hes : List.Forall₂ (Effect.Alike x.script x.answer) es es') :
    (d.apply es).1.Twins x (d'.apply es').1 ∧ (d.apply es).2 = (d'.apply es').2 := by
  induction hes generalizing d d' with
  | nil => exact ⟨h, rfl⟩
  | @cons e e' es es' he _ ih =>
    cases he with
    | start token ticket hs =>
      apply ih
      refine { h with workers := List.rel_append h.workers (.cons ?_ .nil) }
      exact ⟨hs, .same (by simp [Worker.ofAssignment, Engine.tryingWith]), rfl, rfl, rfl⟩
    | same hnone =>
      cases e with
      | emit e =>
        obtain ⟨htwins, hout⟩ := ih h
        exact ⟨htwins, congrArg (_ :: ·) hout⟩
      | answer t a =>
        obtain ⟨htwins, hout⟩ := ih h
        exact ⟨htwins, congrArg (_ :: ·) hout⟩
      | probe t => exact ih { h with probe := rfl }
      | start a => cases hnone

/-- Twins stop for good alike. -/
theorem halt (h : d.Twins x d') (w : Surroundings σ) :
    (d.halt w).1.Twins x (d'.halt w).1 ∧ (d.halt w).2 = (d'.halt w).2 := by
  obtain ⟨cs, hmeans, hcs, hcs'⟩ := h.commands
  refine ⟨⟨h.dispatcher.stop w, congrArg NoticeQueue.cleared h.notices, rfl, h.probe, rfl,
    ⟨[], by simp, rfl, rfl⟩, h.workers⟩, ?_⟩
  simp only [Daemon.halt, hcs, hcs', h.reports, List.filterMap_map]
  congr 2
  refine List.filterMap_congr fun c _ ↦ ?_
  obtain ⟨t, c⟩ := c
  cases c with
  | autoType entry template => cases entry <;> rfl
  | _ => rfl

/-- A worker of one twin has its like in the other. -/
theorem getElem?_workers (h : d.Twins x d') (i : Nat) :
    (d.workers[i]? = none ∧ d'.workers[i]? = none) ∨
      ∃ v v', d.workers[i]? = some v ∧ d'.workers[i]? = some v' ∧
        v.Alike x.script x.answer v' := by
  have hlength := h.workers.length_eq
  rcases Nat.lt_or_ge i d.workers.length with hi | hi
  · have hi' : i < d'.workers.length := hlength ▸ hi
    exact .inr ⟨_, _, List.getElem?_eq_getElem hi, List.getElem?_eq_getElem hi',
      List.forall₂_iff_get.mp h.workers |>.2 i hi hi'⟩
  · exact .inl ⟨List.getElem?_eq_none hi, List.getElem?_eq_none (hlength ▸ hi)⟩

/-- A report that one twin's worker hands in, the other's does too. -/
theorem handIn (h : d.Twins x d') (crashReason : String) (i : Nat) :
    (d.handIn crashReason i).1.Twins x (d'.handIn crashReason i).1 ∧
      (d.handIn crashReason i).2 = (d'.handIn crashReason i).2 := by
  have hv := h.getElem?_workers i
  have herase : List.Forall₂ (Worker.Alike x.script x.answer) (d.workers.eraseIdx i)
      (d'.workers.eraseIdx i) := by
    rw [List.eraseIdx_eq_take_drop_succ, List.eraseIdx_eq_take_drop_succ]
    exact List.rel_append (List.forall₂_take i h.workers) (List.forall₂_drop (i + 1) h.workers)
  obtain ⟨dispatcher, notices, commands, workers, reports, probe, running⟩ := d
  obtain ⟨dispatcher', notices', commands', workers', reports', probe', running'⟩ := d'
  obtain ⟨hdispatcher, rfl, rfl, rfl, rfl, hcommands, hworkers⟩ := h
  dsimp only at hv
  obtain ⟨hv, hv'⟩ | ⟨v, v', hv, hv', halike⟩ := hv
  · simp only [Daemon.handIn, hv, hv']
    exact ⟨⟨hdispatcher, rfl, rfl, rfl, rfl, hcommands, hworkers⟩, trivial⟩
  · simp only [Daemon.handIn, hv, hv', halike.report? crashReason]
    split
    · exact ⟨⟨hdispatcher, rfl, rfl, rfl, rfl, hcommands, hworkers⟩, rfl⟩
    · split
      · exact ⟨⟨hdispatcher, rfl, rfl, rfl, rfl, hcommands, herase⟩, rfl⟩
      · exact ⟨⟨hdispatcher, rfl, rfl, rfl, rfl, hcommands, herase⟩, rfl⟩

/-- Twins can take something at the same times. -/
theorem isTaking_eq (h : d.Twins x d') : d.isTaking = d'.isTaking := by
  rw [isTaking, isTaking, h.running, h.probe]

/-- Twins take a notice alike. -/
theorem takeNotice (h : d.Twins x d') (hx : x.CompilesAlike) :
    d.takeNotice.1.Twins x d'.takeNotice.1 ∧ d.takeNotice.2 = d'.takeNotice.2 := by
  unfold Daemon.takeNotice
  rw [h.isTaking_eq, h.notices]
  cases d'.isTaking with
  | false => exact ⟨h, rfl⟩
  | true =>
    cases d'.notices.take? with
    | none => exact ⟨h, rfl⟩
    | some taken =>
      obtain ⟨n, notices⟩ := taken
      obtain ⟨hnext, heffects⟩ := h.dispatcher.onNotice hx n
      have htaken : Daemon.Twins x { d with notices, dispatcher := (d.dispatcher.onNotice n).1 }
          { d' with notices, dispatcher := (d'.dispatcher.onNotice n).1 } :=
        { h with dispatcher := hnext, notices := rfl }
      exact htaken.apply heffects

/-- Twins take a command alike. -/
theorem takeCommand (h : d.Twins x d') (hx : x.CompilesAlike) (w : Surroundings σ) :
    (d.takeCommand w).1.Twins x (d'.takeCommand w).1 ∧
      (d.takeCommand w).2 = (d'.takeCommand w).2 := by
  obtain ⟨cs, hmeans, hcs, hcs'⟩ := h.commands
  unfold Daemon.takeCommand
  rw [h.isTaking_eq, hcs, hcs']
  cases d'.isTaking with
  | false => exact ⟨h, rfl⟩
  | true =>
    cases cs with
    | nil => exact ⟨h, rfl⟩
    | cons c cs =>
      obtain ⟨t, c⟩ := c
      have hrest : ∀ c ∈ cs, c.2.Means x := fun c hc ↦ hmeans c (List.mem_cons_of_mem _ hc)
      have hwaiting : Daemon.Twins x
          { d with commands := cs.map fun c ↦ (c.1, c.2.withEntry x.entry) }
          { d' with commands := cs.map fun c ↦ (c.1, c.2.withEntry x.entry') } :=
        { h with commands := ⟨cs, hrest, rfl, rfl⟩ }
      obtain ⟨hnext, heffects⟩ := h.dispatcher.onCommand hx w t (hmeans _ List.mem_cons_self)
      have htaken : Daemon.Twins x
          { d with
            commands := cs.map fun c ↦ (c.1, c.2.withEntry x.entry)
            dispatcher := (d.dispatcher.onCommand w t (c.withEntry x.entry)).1 }
          { d' with
            commands := cs.map fun c ↦ (c.1, c.2.withEntry x.entry')
            dispatcher := (d'.dispatcher.onCommand w t (c.withEntry x.entry')).1 } :=
        { hwaiting with dispatcher := hnext }
      cases c with
      | shutdown => exact hwaiting.halt w
      | autoType entry template => cases entry <;> exact htaken.apply heffects
      | _ => exact htaken.apply heffects

/-- Twins take a report alike. -/
theorem takeReport (h : d.Twins x d') (elapsedMs : UInt64) :
    (d.takeReport elapsedMs).1.Twins x (d'.takeReport elapsedMs).1 ∧
      (d.takeReport elapsedMs).2 = (d'.takeReport elapsedMs).2 := by
  unfold Daemon.takeReport
  rw [h.isTaking_eq, h.reports]
  cases d'.isTaking with
  | false => exact ⟨h, rfl⟩
  | true =>
    cases d'.reports with
    | nil => exact ⟨h, rfl⟩
    | cons r reports =>
      obtain ⟨hnext, heffects⟩ := h.dispatcher.onReport r elapsedMs
      have htaken : Daemon.Twins x
          { d with reports, dispatcher := (d.dispatcher.onReport r elapsedMs).1 }
          { d' with reports, dispatcher := (d'.dispatcher.onReport r elapsedMs).1 } :=
        { h with dispatcher := hnext, reports := rfl }
      exact htaken.apply heffects

/-- Twins look alike on whether typing is possible. -/
theorem lookOn (h : d.Twins x d') (w : Surroundings σ) :
    (d.lookOn w).1.Twins x (d'.lookOn w).1 ∧ (d.lookOn w).2 = (d'.lookOn w).2 := by
  have hlooked {e : Engine} (he : e.TypesAs d.dispatcher.engine) :
      Dispatcher.Twins x { d.dispatcher with engine := e } { d'.dispatcher with engine := e } :=
    { h.dispatcher with
      engine := rfl
      types := ⟨he.1.trans h.dispatcher.types.1, he.2.trans h.dispatcher.types.2⟩ }
  have hsnapshot (available : Bool) :
      d.dispatcher.snapshot available = d'.dispatcher.snapshot available := by
    obtain ⟨a, -, harmed, harmed'⟩ := h.dispatcher.armed
    rw [Dispatcher.snapshot, Dispatcher.snapshot, Dispatcher.hotkey?, Dispatcher.hotkey?,
      h.dispatcher.monitor, h.dispatcher.state, harmed, harmed', Option.isSome_map,
      Option.isSome_map]
  simp only [Daemon.lookOn, ← h.probe, ← h.dispatcher.engine]
  split
  · exact ⟨h, rfl⟩
  · next t p _ =>
    have htypes := Probe.typesAs_advance w.trusted d.dispatcher.engine p
    generalize p.advance w.trusted d.dispatcher.engine = looked at htypes
    obtain ⟨e, p⟩ := looked
    cases p with
    | seen available =>
      refine ⟨{ h with dispatcher := hlooked htypes, probe := rfl }, ?_⟩
      exact congrArg (fun s ↦ [Output.answered t (.status s)]) (hsnapshot available)
    | _ => exact ⟨{ h with dispatcher := hlooked htypes, probe := rfl }, rfl⟩

/-- A step that the surroundings choose brings twins to twins, and they see the same. -/
theorem step (h : d.Twins x d') (hx : x.CompilesAlike) (w : Surroundings σ) (crashReason : String)
    {c : Choice} (hc : c.IsOutward) (hmeans : c.Means x) :
    (d.step w crashReason (c.withEntry x.entry)).1.Twins x
        (d'.step w crashReason (c.withEntry x.entry')).1 ∧
      (d.step w crashReason (c.withEntry x.entry)).2 =
        (d'.step w crashReason (c.withEntry x.entry')).2 := by
  have htwins := h
  obtain ⟨dispatcher, notices, commands, workers, reports, probe, running⟩ := d
  obtain ⟨dispatcher', notices', commands', workers', reports', probe', running'⟩ := d'
  obtain ⟨hdispatcher, rfl, rfl, rfl, rfl, hcommands, hworkers⟩ := h
  have htaking : isTaking ⟨dispatcher, notices, commands, workers, reports, probe, running⟩ =
    isTaking ⟨dispatcher', notices, commands', workers', reports, probe, running⟩ := rfl
  dsimp only at hcommands hworkers hdispatcher
  cases c with
  | notice n =>
    simp only [Choice.withEntry, Daemon.step, hdispatcher.monitor]
    split
    · exact ⟨⟨hdispatcher, rfl, rfl, rfl, rfl, hcommands, hworkers⟩, rfl⟩
    · exact ⟨htwins, rfl⟩
  | send t c =>
    simp only [Choice.withEntry, Daemon.step, send]
    split
    · obtain ⟨cs, hcs, rfl, rfl⟩ := hcommands
      refine ⟨⟨hdispatcher, rfl, rfl, rfl, rfl, ⟨cs ++ [(t, c)], ?_, ?_, ?_⟩, hworkers⟩, rfl⟩
      · intro y hy
        rcases List.mem_append.mp hy with hy | hy
        · exact hcs y hy
        · obtain rfl := List.mem_singleton.mp hy
          exact hmeans
      · rw [List.map_append]
        rfl
      · rw [List.map_append]
        rfl
    · refine ⟨htwins, ?_⟩
      cases c with
      | autoType entry template => cases entry <;> rfl
      | _ => rfl
  | takeNotice => exact htwins.takeNotice hx
  | takeCommand => exact htwins.takeCommand hx w
  | abandon =>
    obtain ⟨cs, -, hcs, hcs'⟩ := hcommands
    have hempty : commands.isEmpty = commands'.isEmpty := by
      rw [hcs, hcs', List.isEmpty_map, List.isEmpty_map]
    simp only [Choice.withEntry, Daemon.step, abandon, htaking, hempty]
    split
    · exact htwins.halt w
    · exact ⟨htwins, rfl⟩
  | takeReport elapsedMs => exact htwins.takeReport elapsedMs
  | lookOn => exact htwins.lookOn w
  | work i => exact hc.elim
  | reply i r => exact hc.elim
  | crash i => exact hc.elim
  | handIn i => exact htwins.handIn crashReason i
  | cancelEngine =>
    refine ⟨⟨⟨hdispatcher.monitor, ?_, hdispatcher.state, hdispatcher.running, hdispatcher.armed,
      ?_⟩, rfl, rfl, rfl, rfl, hcommands, hworkers⟩, rfl⟩
    · exact congrArg Engine.cancel hdispatcher.engine
    · obtain ⟨hkeyboard, hoptions⟩ := Engine.typesAs_cancel dispatcher.engine
      exact ⟨hkeyboard.trans hdispatcher.types.1, hoptions.trans hdispatcher.types.2⟩

/-! ### Workers in between -/

/-- Two workers that are put alike leave twins behind. -/
theorem putJob (h : d.Twins x d') (i : Nat) {v v' : Worker} {e : Engine}
    (he : e.TypesAs d.dispatcher.engine) {job job' : Job}
    (halike : Worker.Alike x.script x.answer { v with job } { v' with job := job' }) :
    (d.putJob i v e job).Twins x (d'.putJob i v' e job') := by
  refine { h with
    dispatcher := { h.dispatcher with
      engine := rfl
      types := ⟨he.1.trans h.dispatcher.types.1, he.2.trans h.dispatcher.types.2⟩ }
    workers := ?_ }
  rw [workers_putJob, workers_putJob, List.set_eq_take_append_cons_drop,
    List.set_eq_take_append_cons_drop, ← h.workers.length_eq]
  split
  · exact List.rel_append (List.forall₂_take i h.workers)
      (.cons halike (List.forall₂_drop (i + 1) h.workers))
  · exact h.workers

variable {w : Surroundings σ} {crashReason : String}

/-- Where a worker comes to a script that always ends the same way, its like types on to that end. -/
theorem putJob_typing (h : d.Twins x d') {i : Nat} {v v' : Worker} (hv' : d'.workers[i]? = some v')
    (halike : v.Alike x.script x.answer v') {s s' : Script TypingResult}
    (hs' : v'.job.stage = .typing s') (hheeds : s.Heeds x.answer)
    (hunder : ∀ b, s.under x.answer b =
      s'.under x.answer (d.dispatcher.engine.flags.isCancelled v.job.token)) :
    ∃ d₁', d'.Plays w crashReason x.creation [] [] d₁' ∧
      (d.putJob i v d.dispatcher.engine { v.job with stage := .typing s }).Twins x d₁' := by
  refine ⟨_, plays_typing hv' hs', ?_⟩
  rw [← h.dispatcher.engine, ← halike.token]
  exact h.putJob i ⟨rfl, rfl⟩ { halike with stage := .typing hunder hheeds }

/-- A worker that has not begun to type, or is done with it, does the same as its like. -/
theorem work_apart (h : d.Twins x d') (hw : w.trusted = x.trusted) {i : Nat} {v v' : Worker}
    (hv : d.workers[i]? = some v) (hv' : d'.workers[i]? = some v')
    (halike : v.Alike x.script x.answer v') (hstage : ∀ s, v.job.stage ≠ .typing s) :
    ∃ d₁', d'.Plays w crashReason x.creation [] [] d₁' ∧
      (d.step w crashReason (.work i)).1.Twins x d₁' := by
  obtain ⟨hengine, hjob⟩ := halike.advance hstage (x.script_eq h.dispatcher.types hw)
  refine ⟨_, plays_work hv', ?_⟩
  simp only [Daemon.step, hv]
  rw [← h.dispatcher.engine, ← hengine]
  exact h.putJob i (Job.typesAs_advance _ _ _) hjob

/-- A worker that types does what its like can wait with, unless it sees now whether the run is
cancelled and this settles how it ends, or comes to its end. -/
theorem work_typing (h : d.Twins x d') {i : Nat} {v v' : Worker} (hv : d.workers[i]? = some v)
    (hv' : d'.workers[i]? = some v') (halike : v.Alike x.script x.answer v')
    {s : Script TypingResult} (hstage : v.job.stage = .typing s) :
    ∃ d₁', d'.Plays w crashReason x.creation [] [] d₁' ∧
      (d.step w crashReason (.work i)).1.Twins x d₁' := by
  obtain ⟨s', hstage', hunder, hheeds⟩ := halike.exists_typing hstage
  -- the other worker can wait as long as it is going to end alike
  have hwaits {t : Script TypingResult} (ht : ∀ b, t.under x.answer b = s'.under x.answer b)
      (htheeds : t.Heeds x.answer) :
      (d.putJob i v d.dispatcher.engine { v.job with stage := .typing t }).Twins x d' := by
    rw [← putJob_self hv', ← h.dispatcher.engine]
    refine h.putJob i ⟨rfl, rfl⟩ { halike with stage := ?_ }
    rw [hstage']
    exact .typing ht htheeds
  cases s with
  | done r =>
    simp only [Daemon.step, hv, Job.advance, hstage]
    have hends (b : Bool) : s'.under (EventPoster.answer x.creation) b = r := (hunder b).symm
    have htyped : d'.Plays w crashReason x.creation [] [] _ := plays_typing hv' hstage'
    rw [hends] at htyped
    refine ⟨_, htyped.trans (plays_work (getElem?_putJob hv' _ _)), ?_⟩
    rw [putJob_putJob, ← h.dispatcher.engine]
    have hover : Worker.Alike x.script x.answer
        { v with job := { v.job with stage := .typed r } }
        { v' with job := { v'.job with stage := .typed r } } :=
      { halike with stage := .same (by simp) }
    have htypes : Engine.TypesAs
        { d.dispatcher.engine with injector := d.dispatcher.engine.injector.ended r }
        d.dispatcher.engine := ⟨rfl, rfl⟩
    exact h.putJob i htypes hover
  | look next =>
    simp only [Daemon.step, hv, Job.advance, hstage]
    obtain ⟨hover, htrue, hfalse⟩ := hheeds
    cases hflag : d.dispatcher.engine.flags.isCancelled v.job.token with
    | true =>
      refine h.putJob_typing hv' halike hstage' htrue fun b ↦ ?_
      rw [hflag, ← hunder true]
      exact (hover b).trans (hover true).symm
    | false =>
      -- it may still be cancelled at a later look, unless there is none that counts
      rcases hfalse.under_true with hcancelled | hsettled
      · refine ⟨d', .rest d', hwaits (fun b ↦ ?_) hfalse⟩
        rw [← hunder b]
        cases b with
        | false => rfl
        | true => exact hcancelled.trans (hover true).symm
      · refine h.putJob_typing hv' halike hstage' hfalse fun b ↦ ?_
        rw [hflag, ← hunder false]
        cases b with
        | false => rfl
        | true => exact hsettled
  | wait ms next =>
    simp only [Daemon.step, hv, Job.advance, hstage]
    exact ⟨d', .rest d', hwaits hunder hheeds⟩
  | call c next =>
    simp only [Daemon.step, hv, Job.advance, hstage]
    refine ⟨d', .rest d', ?_⟩
    rw [putJob_self hv]
    exact h

/-- What a worker of one twin does, the other twin can make up for by letting its like work on. -/
theorem work (h : d.Twins x d') (hw : w.trusted = x.trusted) (i : Nat) :
    ∃ d₁', d'.Plays w crashReason x.creation [] [] d₁' ∧
      (d.step w crashReason (.work i)).1.Twins x d₁' := by
  obtain ⟨hv, -⟩ | ⟨v, v', hv, hv', halike⟩ := h.getElem?_workers i
  · simp only [Daemon.step, hv]
    exact ⟨d', .rest d', h⟩
  · by_cases hstage : ∃ s, v.job.stage = .typing s
    · obtain ⟨s, hstage⟩ := hstage
      exact h.work_typing hv hv' halike hstage
    · exact h.work_apart hw hv hv' halike fun s hs ↦ hstage ⟨s, hs⟩

/-- An answer to a native call brings a worker no nearer to another end. -/
theorem reply (h : d.Twins x d') {i : Nat} {v : Worker} {c : NativeCall}
    (hv : d.workers[i]? = some v) (hc : v.job.pending? = some c) :
    (d.step w crashReason (.reply i (x.answer c))).1.Twins x d' := by
  obtain ⟨hnone, -⟩ | ⟨v, v', hv₁, hv', halike⟩ := h.getElem?_workers i
  · cases hv.symm.trans hnone
  obtain rfl := Option.some_inj.mp (hv.symm.trans hv₁)
  obtain ⟨next, hstage⟩ : ∃ next, v.job.stage = .typing (.call c next) := by
    unfold Job.pending? at hc
    split at hc
    · next c' next hstage =>
      cases hc
      exact ⟨next, hstage⟩
    · cases hc
  obtain ⟨s', hstage', hunder, hheeds⟩ := halike.exists_typing hstage
  simp only [Daemon.step, hv, Job.answer, hstage]
  rw [← putJob_self hv', ← h.dispatcher.engine]
  refine h.putJob i ⟨rfl, rfl⟩ { halike with stage := ?_ }
  rw [hstage']
  exact .typing hunder hheeds

/-- Whatever the surroundings choose and see of one twin, they can see of the other. -/
theorem plays (h : d.Twins x d') (hx : x.CompilesAlike) (hw : w.trusted = x.trusted)
    {cs : List Choice} (hmeans : ∀ c ∈ cs, c.Means x) {out : List Output} {d₁ : Daemon σ}
    (hplays : d.Plays w crashReason x.creation (cs.map (Choice.withEntry x.entry)) out d₁) :
    ∃ d₁', d'.Plays w crashReason x.creation (cs.map (Choice.withEntry x.entry')) out d₁' ∧
      d₁.Twins x d₁' := by
  generalize hall : cs.map (Choice.withEntry x.entry) = all at hplays
  induction hplays generalizing cs d' with
  | rest d =>
    obtain rfl := List.map_eq_nil_iff.mp hall
    exact ⟨d', .rest d', h⟩
  | turn hc _ ih =>
    obtain ⟨c, cs, rfl, rfl, rfl⟩ := List.map_eq_cons_iff.mp hall
    rw [Choice.isOutward_withEntry] at hc
    obtain ⟨hnext, hout⟩ := h.step hx w crashReason hc (hmeans c List.mem_cons_self)
    obtain ⟨d₁', hplays, htwins⟩ :=
      ih hnext (fun c hc ↦ hmeans c (List.mem_cons_of_mem _ hc)) rfl
    refine ⟨d₁', ?_, htwins⟩
    rw [hout]
    exact .turn ((Choice.isOutward_withEntry x.entry').mpr hc) hplays
  | work i _ ih =>
    obtain ⟨d₂', hwork, hnext⟩ := h.work hw i
    obtain ⟨d₁', hplays, htwins⟩ := ih hnext hmeans hall
    exact ⟨d₁', hwork.trans hplays, htwins⟩
  | reply p hv hc _ ih =>
    rw [EventPoster.reply_call] at ih
    exact ih (h.reply hv hc) hmeans hall

end Daemon.Twins

end Typist

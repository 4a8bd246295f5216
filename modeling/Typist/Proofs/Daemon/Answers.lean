import Mathlib.Data.List.Basic
import Typist.Proofs.Daemon.Events
import Typist.Proofs.Daemon.Replies

/-!
# Answers to commands

Which answers a command can have, and which events the daemon tells. Whatever the run, whoever sends
a command under a ticket of its own is answered as befits the command, and a hotkey is shown by the
chord that is registered.
-/

namespace Typist

/-- Whether an answer befits a command. -/
inductive Command.Answers : Command → Answer → Prop
  | status {s : Snapshot} (chord : Option Chord) : s.hotkey = chord.map Chord.text →
      Answers .status (.status s)
  | typed (entry : Option Entry) (template : Option String) (actions : UInt64) :
      Answers (.autoType entry template) (.typed actions)
  | unarmed (entry : Option Entry) (template : Option String) :
      Answers (.autoType entry template) (.refused .notArmed)
  | failed (entry : Option Entry) (template : Option String) (e : EngineError) :
      Answers (.autoType entry template) (.refused (.engine e))
  | armed (entry : Entry) (template : Option String) : Answers (.arm entry template) .armed
  | disarmed (wasArmed : Bool) : Answers .disarm (.disarmed wasArmed)
  | registered (chord : Chord) : Answers (.register (some chord)) (.registered chord.text)
  | unregistrable (chord : Option Chord) (e : RegistrationError) :
      Answers (.register chord) (.refused (.registration e))
  | unregistered : Answers .unregister .unregistered
  | cancelled (wasRunning : Bool) : Answers .cancel (.cancelled wasRunning)
  | stopped (c : Command) : Answers c (.refused .stopped)

/-- Whether an event is one that the daemon tells: a hotkey is shown by its chord, and a trigger is
rejected because a sequence is being typed or because there is nothing to be typed. -/
inductive Event.IsTold : Event → Prop
  | registered (chord : Chord) : IsTold (.hotkeyRegistered chord.text)
  | unregistered : IsTold .hotkeyUnregistered
  | triggered : IsTold .hotkeyTriggered
  | restarted : IsTold .listenerRestarted
  | busy : IsTold (.triggerRejected EngineError.busy.message)
  | unarmed : IsTold (.triggerRejected CommandError.notArmed.message)
  | started (actions : UInt64) : IsTold (.sequenceStarted actions)
  | finished (actions durationMs : UInt64) : IsTold (.sequenceFinished actions durationMs)
  | failed (error : String) : IsTold (.sequenceFailed error)

/-- What is registered is the chord that was asked for. -/
theorem Monitor.chord?_of_register_ok {σ : Type} {p : Platform σ} {m m' : Monitor σ}
    {chord : Option Chord} (h : m.register p chord = (m', .ok ())) :
    ∃ c, chord = some c ∧ m'.chord? = some c := by
  simp only [register] at h
  cases ha : qualify p (m.unregister p).system chord with
  | error _ => simp [ha] at h
  | ok ct =>
    obtain ⟨c, t⟩ := ct
    have hchord : chord = some c := by
      unfold qualify at ha
      split at ha
      · cases ha
      · split at ha
        · cases ha
        · split at ha <;> cases ha
          rfl
    cases hi : (p.install t (m.unregister p).system).2 with
    | error _ => simp [ha, settle, hi] at h
    | ok _ =>
      simp only [ha, settle, hi, Prod.mk.injEq, and_true] at h
      exact ⟨c, hchord, by rw [← h]; rfl⟩

namespace Dispatcher

variable {σ : Type} {w : Surroundings σ} {d d' : Dispatcher σ} {t u : Ticket} {es : List Effect}
  {a : Answer}

/-- The hotkey is shown by the chord that was asked for. -/
theorem exists_hotkey_of_register_ok {chord : Option Chord} {monitor : Monitor σ}
    (h : d.monitor.register w.platform chord = (monitor, .ok ())) :
    ∃ c, chord = some c ∧ (hotkey? { d with monitor }).getD "" = c.text := by
  obtain ⟨c, hchord, hc⟩ := Monitor.chord?_of_register_ok h
  refine ⟨c, hchord, ?_⟩
  rw [hotkey?, hc]
  rfl

/-- A wish to start a sequence is refused at once, if it is answered at once. -/
theorem Starts.answer {entry : Entry} {template : Option String} {ticket : Option Ticket}
    (h : d.Starts entry template ticket d' es)
    (ha : .answered u a ∈ Effect.outputs es) : ∃ e, a = .refused (.engine e) := by
  cases h with
  | started => simp [Effect.outputs, Effect.output?] at ha
  | busy | rejected =>
    cases ticket with
    | none => simp [Effect.outputs, Effect.output?, Effect.toOwner] at ha
    | some v =>
      simp only [Effect.outputs, Effect.output?, Effect.toOwner, List.filterMap_cons,
        List.filterMap_nil, List.mem_cons, List.not_mem_nil, or_false, reduceCtorEq, false_or,
        Daemon.Output.answered.injEq] at ha
      exact ⟨_, ha.2⟩

/-- What is answered when a command is taken befits it. -/
theorem Commands.answer {c : Command} (h : d.Commands w t c d' es)
    (ha : .answered u a ∈ Effect.outputs es) : c.Answers a := by
  cases h with
  | typed _ hstarts =>
    obtain ⟨e, rfl⟩ := hstarts.answer ha
    exact .failed _ _ e
  | @registered chord monitor hm =>
    obtain ⟨c, rfl, hc⟩ := exists_hotkey_of_register_ok hm
    rw [hc] at ha
    simp only [Effect.outputs, Effect.output?, List.filterMap_cons, List.filterMap_nil,
      List.mem_cons, List.not_mem_nil, or_false, reduceCtorEq, false_or,
      Daemon.Output.answered.injEq] at ha
    rw [ha.2]
    exact .registered c
  | @unregistrable chord _ e =>
    have ha' : a = .refused (.registration e) := by
      split at ha <;> simp_all [Effect.outputs, Effect.output?]
    rw [ha']
    exact .unregistrable chord e
  | status => simp [Effect.outputs, Effect.output?] at ha
  | shutdown => cases ha
  | _ =>
    simp only [Effect.outputs, Effect.output?, List.filterMap_cons, List.filterMap_nil,
      List.mem_cons, List.not_mem_nil, or_false, reduceCtorEq, false_or,
      Daemon.Output.answered.injEq] at ha
    rw [ha.2]
    constructor

/-- What is told when a sequence is wished for. -/
theorem Starts.tells {entry : Entry} {template : Option String} {ticket : Option Ticket}
    (h : d.Starts entry template ticket d' es) : ∀ e ∈ Effect.events es, e.IsTold := by
  cases h with
  | busy =>
    rw [Effect.events_emit, Effect.events_toOwner, List.forall_mem_singleton]
    exact .busy
  | rejected =>
    rw [Effect.events_emit, Effect.events_toOwner, List.forall_mem_singleton]
    exact .failed _
  | started =>
    rw [Effect.events_emit]
    exact List.forall_mem_singleton.mpr (.started _)

theorem Notices.tells {n : Notice} (h : d.Notices n d' es) :
    ∀ e ∈ Effect.events es, e.IsTold := by
  cases h with
  | restarted => exact List.forall_mem_singleton.mpr .restarted
  | unarmed => exact List.forall_mem_cons.mpr ⟨.triggered, List.forall_mem_singleton.mpr .unarmed⟩
  | armed _ hstarts => exact List.forall_mem_cons.mpr ⟨.triggered, hstarts.tells⟩

theorem Commands.tells {c : Command} (h : d.Commands w t c d' es) :
    ∀ e ∈ Effect.events es, e.IsTold := by
  cases h with
  | typed _ hstarts => exact hstarts.tells
  | @registered chord monitor hm =>
    obtain ⟨c, -, hc⟩ := exists_hotkey_of_register_ok hm
    rw [hc]
    exact List.forall_mem_singleton.mpr (.registered c)
  | unregistrable =>
    split
    · exact List.forall_mem_singleton.mpr .unregistered
    · exact List.forall_mem_nil _
  | unregistered => exact List.forall_mem_singleton.mpr .unregistered
  | _ => exact List.forall_mem_nil _

theorem tells_onReport (d : Dispatcher σ) (r : Report) (elapsedMs : UInt64) :
    ∀ e ∈ Effect.events (d.onReport r elapsedMs).2, e.IsTold := by
  rw [onReport]
  cases r.result with
  | ok _ =>
    rw [Effect.events_emit, Effect.events_toOwner, List.forall_mem_singleton]
    exact .finished _ _
  | error e =>
    rw [Effect.events_emit, Effect.events_toOwner, List.forall_mem_singleton]
    exact .failed _

end Dispatcher

namespace Daemon

variable {σ : Type} {w : Surroundings σ} {crashReason : String}

variable (w crashReason) in
/-- Every answer befits the command that was sent under its ticket. -/
theorem Unused.answers_step {d : Daemon σ} (hd : d.Unused) (cs : List Choice) (c : Choice)
    {sent : List (Ticket × Command)} (hcs : ∀ x ∈ sends cs, x ∈ sent)
    (hn : (awaiting sent).Nodup) {t : Ticket} {command : Command} (hsent : (t, command) ∈ sent)
    (hcommand : command ≠ .shutdown) {a : Answer}
    (ha : .answered t a ∈ ((d.run w crashReason cs).1.step w crashReason c).2) :
    command.Answers a := by
  have hwaits := hd.sent_run w crashReason cs
  have hsame {b : Command} (hb : (t, b) ∈ sends cs) (hne : b ≠ .shutdown) : b = command :=
    eq_of_awaiting_nodup hn (hcs _ hb) hsent hne hcommand
  obtain ⟨-, rfl⟩ | ⟨rfl, -, b, rest, d', hq, hne, hc, hout⟩ |
      ⟨ms, r, rest, rfl, ht, hr, htick, rfl⟩ | ⟨p, available, hp, rfl⟩ :=
    (moves w crashReason _ c).answered_cases ha
  · exact .stopped command
  · obtain rfl := hsame (hwaits.commands _ (hq ▸ List.mem_cons_self)) hne
    exact hc.answer hout
  · obtain ⟨o, hf, hway⟩ := hd.toIdle.underway w crashReason cs (running_of_isTaking ht)
    obtain ⟨b, rfl, hof, -⟩ := hf.takeReport hr ms
    obtain ⟨xs, hbegan, -⟩ := hway b rfl
    obtain ⟨entry, template, hmem, -⟩ := hd.beganFor hbegan (hof.2.symm.trans htick)
    obtain rfl := hsame hmem nofun
    unfold Report.answer
    split
    · exact .typed entry template r.actions
    · exact .failed entry template _
  · obtain rfl := hsame (hwaits.probe t p hp) nofun
    exact .status (d.run w crashReason cs).1.dispatcher.monitor.chord? rfl

variable (w crashReason) in
theorem Unused.answers {d : Daemon σ} (hd : d.Unused) {cs : List Choice}
    {sent : List (Ticket × Command)} (hcs : ∀ x ∈ sends cs, x ∈ sent) (hn : (awaiting sent).Nodup)
    {t : Ticket} {command : Command} (hsent : (t, command) ∈ sent) (hcommand : command ≠ .shutdown)
    {a : Answer} (ha : .answered t a ∈ (d.run w crashReason cs).2) : command.Answers a := by
  induction cs using List.reverseRecOn with
  | nil => cases ha
  | append_singleton cs c ih =>
    have hbefore : ∀ x ∈ sends cs, x ∈ sent := by
      intro x hx
      apply hcs
      rw [sends_append]
      exact List.mem_append_left _ hx
    rw [run_concat] at ha
    rcases List.mem_append.mp ha with ha | ha
    · exact ih hbefore ha
    · exact hd.answers_step w crashReason cs c hbefore hn hsent hcommand ha

/-- Whatever a step tells is one of these. -/
theorem Moves.tells {d : Daemon σ} {c : Choice} {s : Daemon σ × List Output}
    {es : List Effect} {rs : List Report} (hm : d.Moves w crashReason c s es rs) :
    ∀ e ∈ events s.2, e.IsTold := by
  cases hm with
  | noticed _ _ hn =>
    rw [snd_apply]
    exact hn.tells
  | commanded _ _ _ hc =>
    rw [snd_apply]
    exact hc.tells
  | @reported r _ ms =>
    rw [snd_apply]
    exact d.dispatcher.tells_onReport r ms
  | unheard =>
    rw [events_refuse]
    exact List.forall_mem_nil _
  | stopped =>
    rw [events_halt]
    exact List.forall_mem_nil _
  | late =>
    rw [events_refuse]
    exact List.forall_mem_nil _
  | _ => exact List.forall_mem_nil _

variable (w crashReason) in
theorem tells_run (d : Daemon σ) (cs : List Choice) :
    ∀ e ∈ events (d.run w crashReason cs).2, e.IsTold := by
  induction cs generalizing d with
  | nil => exact List.forall_mem_nil _
  | cons c cs ih =>
    rw [run, events_append]
    exact List.forall_mem_append.mpr ⟨(moves w crashReason d c).tells, ih _⟩

end Daemon

end Typist

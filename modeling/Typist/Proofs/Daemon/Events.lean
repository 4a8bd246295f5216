import Mathlib
import Typist.Layout.MacAnsi
import Typist.Proofs.Daemon.History
import Typist.Proofs.Daemon.Release
import Typist.Proofs.Daemon.Stream

/-!
# The events of the daemon

Whoever sees the events and nothing else knows whether a sequence is in flight and which chord is
registered: sequences show as blocks that do not overlap, every trigger is followed by what came of
it, and a status answer says what the events before it say.
-/

namespace Typist

/-- How many actions an assignment is announced with. -/
def Assignment.actions (a : Assignment) : UInt64 := UInt64.ofNat a.sequence.size

theorem Assignment.eq_of_toList {o o' : Option Assignment} (h : o.toList = o'.toList) : o = o' := by
  cases o <;> cases o' <;> simp_all

/-- A registration that succeeds leaves a chord registered. -/
theorem Monitor.isRegistered_of_register_ok {σ : Type} {p : Platform σ} {m m' : Monitor σ}
    {chord : Option Chord} (h : m.register p chord = (m', .ok ())) : m'.isRegistered = true := by
  simp only [register] at h
  cases hq : qualify p (m.unregister p).system chord with
  | error e => simp [hq] at h
  | ok ct =>
    obtain ⟨c, t⟩ := ct
    cases hi : (p.install t (m.unregister p).system).2 with
    | error e => simp [hq, settle, hi] at h
    | ok l =>
      simp only [hq, settle, hi, Prod.mk.injEq] at h
      rw [← h.1]
      rfl

/-! ## Decisions -/

namespace Effect

@[simp] theorem assignments_emit (e : Event) (es : List Effect) :
    assignments (emit e :: es) = assignments es := rfl

/-- The events among effects, in order. -/
def events (es : List Effect) : List Event := Daemon.events (outputs es)

@[simp] theorem events_emit (e : Event) (es : List Effect) :
    events (emit e :: es) = e :: events es := rfl

/-- An answer to an owner shows no event. -/
@[simp] theorem events_toOwner (t : Option Ticket) (a : Answer) : events (toOwner t a) = [] := by
  cases t <;> rfl

end Effect

namespace Dispatcher

variable {σ : Type}

/-- Starting a sequence leaves the armed entry alone. -/
theorem Starts.armed {d d' : Dispatcher σ} {entry : Entry} {template : Option String}
    {ticket : Option Ticket} {es : List Effect} (h : d.Starts entry template ticket d' es) :
    d'.armed = d.armed := by
  cases h <;> rfl

/-- A wish to start a sequence shows as one event, which tells what came of it. -/
theorem Starts.reaction {d d' : Dispatcher σ} {entry : Entry} {template : Option String}
    {ticket : Option Ticket} {es : List Effect} (h : d.Starts entry template ticket d' es) :
    ∃ e, Effect.events es = [e] ∧ e.isReaction = true := by
  cases h with
  | busy => exact ⟨_, by rw [Effect.events_emit, Effect.events_toOwner], rfl⟩
  | rejected => exact ⟨_, by rw [Effect.events_emit, Effect.events_toOwner], rfl⟩
  | started => exact ⟨_, rfl, rfl⟩

/-- Starting a sequence opens a block if no sequence is in flight. -/
theorem Starts.blocks {d d' : Dispatcher σ} {entry : Entry} {template : Option String}
    {ticket : Option Ticket} {es : List Effect} (h : d.Starts entry template ticket d' es)
    {o o' : Option Assignment} (hidle : d.state = .idle → o = none)
    (ho : o.toList ++ Effect.assignments es = o'.toList) :
    Event.Blocks (o.map Assignment.actions) (Effect.events es) (o'.map Assignment.actions) := by
  cases h with
  | busy =>
    rw [Effect.assignments_emit, Effect.assignments_toOwner, List.append_nil] at ho
    rw [Effect.events_emit, Effect.events_toOwner, Assignment.eq_of_toList ho]
    exact .other rfl (.nil _)
  | @rejected e hs =>
    rw [Effect.assignments_emit, Effect.assignments_toOwner, List.append_nil] at ho
    rw [Effect.events_emit, Effect.events_toOwner, ← Assignment.eq_of_toList ho, hidle hs]
    exact .rejected ⟨e, rfl⟩ (.nil _)
  | @started s hs =>
    rw [hidle hs] at ho ⊢
    rw [← Assignment.eq_of_toList (o := some ⟨s, d.engine.freshToken.2, ticket⟩) ho]
    exact .started _ (.nil _)

/-- A notice leaves the armed entry alone. -/
theorem Notices.armed_eq {d d' : Dispatcher σ} {n : Notice} {es : List Effect}
    (h : d.Notices n d' es) : d'.armed = d.armed := by
  cases h with
  | armed _ hstarts => exact hstarts.armed
  | _ => rfl

/-- A trigger is shown together with what came of it, and nothing else is. -/
theorem Notices.reacted {d d' : Dispatcher σ} {n : Notice} {es : List Effect}
    (h : d.Notices n d' es) : Event.Reacted (Effect.events es) := by
  cases h with
  | restarted => exact Event.reacted_of_not_mem (by decide)
  | unarmed => exact Event.reacted_pair rfl
  | armed _ hstarts =>
    obtain ⟨e, he, hr⟩ := hstarts.reaction
    rw [Effect.events_emit, he]
    exact Event.reacted_pair hr

/-- A notice opens a block if no sequence is in flight and it starts one. -/
theorem Notices.blocks {d d' : Dispatcher σ} {n : Notice} {es : List Effect}
    (h : d.Notices n d' es) {o o' : Option Assignment} (hidle : d.state = .idle → o = none)
    (ho : o.toList ++ Effect.assignments es = o'.toList) :
    Event.Blocks (o.map Assignment.actions) (Effect.events es) (o'.map Assignment.actions) := by
  cases h with
  | restarted =>
    rw [Assignment.eq_of_toList ((List.append_nil _).symm.trans ho)]
    exact .other rfl (.nil _)
  | unarmed =>
    rw [Assignment.eq_of_toList ((List.append_nil _).symm.trans ho)]
    exact .other rfl (.other rfl (.nil _))
  | armed _ hstarts => exact .other rfl (hstarts.blocks hidle ho)

/-- No notice tells of the registered chord. -/
theorem Notices.isOfHotkey {d d' : Dispatcher σ} {n : Notice} {es : List Effect}
    (h : d.Notices n d' es) : ∀ e ∈ Effect.events es, e.isOfHotkey = false := by
  cases h with
  | restarted => decide
  | unarmed => decide
  | armed _ hstarts =>
    obtain ⟨e, he, hr⟩ := hstarts.reaction
    rw [Effect.events_emit, he]
    intro b hb
    obtain rfl | rfl : b = _ ∨ b = e := by simpa using hb
    · rfl
    · exact Event.isOfHotkey_of_isReaction hr

/-- A command opens a block if no sequence is in flight and it starts one. -/
theorem Commands.blocks {w : Surroundings σ} {d d' : Dispatcher σ} {t : Ticket} {c : Command}
    {es : List Effect} (h : d.Commands w t c d' es) {o o' : Option Assignment}
    (hidle : d.state = .idle → o = none) (ho : o.toList ++ Effect.assignments es = o'.toList) :
    Event.Blocks (o.map Assignment.actions) (Effect.events es) (o'.map Assignment.actions) := by
  cases h with
  | typed _ hstarts => exact hstarts.blocks hidle ho
  | registered =>
    rw [Assignment.eq_of_toList ((List.append_nil _).symm.trans ho)]
    exact .other rfl (.nil _)
  | unregistrable =>
    split at ho
    · next hr =>
      rw [Assignment.eq_of_toList ((List.append_nil _).symm.trans ho), if_pos hr]
      exact .other rfl (.nil _)
    · next hr =>
      rw [Assignment.eq_of_toList ((List.append_nil _).symm.trans ho), if_neg hr]
      exact .nil _
  | unregistered =>
    rw [Assignment.eq_of_toList ((List.append_nil _).symm.trans ho)]
    exact .other rfl (.nil _)
  | _ =>
    rw [Assignment.eq_of_toList ((List.append_nil _).symm.trans ho)]
    exact .nil _

/-- Whether the registered chord is the one that events tell. -/
def ShowsHotkey (d : Dispatcher σ) (es : List Event) : Prop :=
  ∀ hotkey, d.hotkey? = some hotkey ↔ Event.Registered hotkey es

/-- Whether an entry is armed exactly if the handled commands say so. -/
def IsArmedBy (d : Dispatcher σ) (cs : List Command) : Prop :=
  d.armed.isSome = true ↔ Command.Arming cs

section Shows

variable {d d' : Dispatcher σ} {es es' : List Event} {cs : List Command}

theorem ShowsHotkey.congr (h : d.ShowsHotkey es) (hm : d'.hotkey? = d.hotkey?)
    (he : ∀ e ∈ es', e.isOfHotkey = false) : d'.ShowsHotkey (es ++ es') := by
  intro hotkey
  rw [hm, h, Event.Registered, Event.Registered, latest_append_of_not]
  intro e hmem
  have hno := he e hmem
  constructor
  · rintro rfl
    cases hno
  · rw [hno]
    exact Bool.false_ne_true

theorem ShowsHotkey.registered {hotkey : String} (hm : d.hotkey? = some hotkey) :
    d.ShowsHotkey (es ++ [.hotkeyRegistered hotkey]) := by
  intro other
  rw [hm, Event.Registered, latest_append, latest_singleton]
  simp [Event.isOfHotkey]

theorem ShowsHotkey.unregistered (hm : d.hotkey? = none) :
    d.ShowsHotkey (es ++ [.hotkeyUnregistered]) := by
  intro hotkey
  rw [hm, Event.Registered, latest_append, latest_singleton]
  simp [Event.isOfHotkey]

theorem IsArmedBy.congr (h : d.IsArmedBy cs) (ha : d'.armed = d.armed) {c : Command}
    (hc : (∀ entry template, c ≠ .arm entry template) ∧ c ≠ .disarm) :
    d'.IsArmedBy (cs ++ [c]) := by
  have hd : d.armed.isSome = true ↔ Command.Arming cs := h
  rw [IsArmedBy, ha, hd, Command.Arming, Command.Arming, latest_append_of_not]
  intro b hb
  obtain rfl := List.mem_singleton.mp hb
  exact ⟨fun ⟨entry, template, he⟩ ↦ hc.1 entry template he, hc.2⟩

end Shows

/-- No chord is shown where none is registered. -/
theorem hotkey?_of_isRegistered {d : Dispatcher σ} (h : d.monitor.isRegistered = false) :
    d.hotkey? = none := by
  rw [hotkey?, Option.map_eq_none_iff, ← Option.not_isSome_iff_eq_none]
  exact Bool.eq_false_iff.mp h

/-- What a command does to the registered chord shows as events. -/
theorem Commands.hotkey {w : Surroundings σ} {d d' : Dispatcher σ} {t : Ticket} {c : Command}
    {es : List Effect} (h : d.Commands w t c d' es) {shown : List Event}
    (hd : d.ShowsHotkey shown) : d'.ShowsHotkey (shown ++ Effect.events es) := by
  cases h with
  | typed _ hstarts =>
    obtain ⟨e, he, hr⟩ := hstarts.reaction
    rw [he]
    apply hd.congr
    · rw [hotkey?, hstarts.monitor, hotkey?]
    · intro b hb
      obtain rfl := List.mem_singleton.mp hb
      exact Event.isOfHotkey_of_isReaction hr
  | @registered chord monitor hm =>
    obtain ⟨c, hc⟩ := Option.isSome_iff_exists.mp (Monitor.isRegistered_of_register_ok hm)
    have hshown : hotkey? { d with monitor } = some c.text := by rw [hotkey?, hc, Option.map_some]
    rw [hshown]
    exact .registered hshown
  | @unregistrable chord monitor e hm =>
    have hnone : hotkey? { d with monitor } = none :=
      hotkey?_of_isRegistered (Monitor.isRegistered_of_register_error hm)
    split
    · exact .unregistered hnone
    · next hr =>
      apply hd.congr
      · rw [hnone, hotkey?_of_isRegistered (Bool.eq_false_iff.mpr hr)]
      · exact List.forall_mem_nil _
  | unregistered =>
    apply ShowsHotkey.unregistered
    exact hotkey?_of_isRegistered (Monitor.isRegistered_unregister ..)
  | _ => exact hd.congr rfl (List.forall_mem_nil _)

/-- Whether an entry is armed follows from the commands that are handled. -/
theorem Commands.armedBy {w : Surroundings σ} {d d' : Dispatcher σ} {t : Ticket} {c : Command}
    {es : List Effect} (h : d.Commands w t c d' es) {cs : List Command} (hd : d.IsArmedBy cs) :
    d'.IsArmedBy (cs ++ [c]) := by
  cases h with
  | armed entry template =>
    rw [IsArmedBy, Command.Arming, latest_append, latest_singleton]
    simp
  | disarmed =>
    rw [IsArmedBy, Command.Arming, latest_append, latest_singleton]
    simp
  | typed _ hstarts => exact hd.congr hstarts.armed ⟨nofun, nofun⟩
  | _ => exact hd.congr rfl ⟨nofun, nofun⟩

end Dispatcher

/-! ## Steps -/

namespace Daemon

variable {σ : Type} {w : Surroundings σ} {crashReason : String}

/-- Triggers are counted among the events. -/
theorem triggers_eq_count (out : List Output) :
    triggers out = (events out).count .hotkeyTriggered := by
  induction out with
  | nil => rfl
  | cons o out ih =>
    cases o with
    | answered t a => exact ih
    | emitted e =>
      have hcons : events (.emitted e :: out) = e :: events out := rfl
      rw [hcons, List.count_cons, ← ih, triggers, List.countP_cons, ← triggers]
      cases e <;> rfl

theorem reacted_of_triggers {out : List Output} (h : triggers out = 0) :
    Event.Reacted (events out) := by
  apply Event.reacted_of_not_mem
  rw [← List.count_eq_zero, ← triggers_eq_count, h]

@[simp] theorem events_halt (d : Daemon σ) : events (d.halt w).2 = [] := by
  rw [halt, events_append, events_refuse, events_refuse, List.append_nil]

/-- Whatever a step shows, every trigger comes with what came of it. -/
theorem Moves.reacted {d : Daemon σ} {c : Choice} {s : Daemon σ × List Output}
    {es : List Effect} {rs : List Report} (h : d.Moves w crashReason c s es rs) :
    Event.Reacted (events s.2) := by
  have hnil : Event.Reacted [] := Event.reacted_of_not_mem nofun
  cases h with
  | noticed _ _ hn =>
    rw [snd_apply]
    exact hn.reacted
  | commanded _ _ _ hc =>
    rw [snd_apply]
    exact reacted_of_triggers hc.silent.triggers
  | reported ms =>
    rw [snd_apply]
    exact reacted_of_triggers (Dispatcher.silent_onReport ..).triggers
  | unheard =>
    rw [events_refuse]
    exact hnil
  | stopped =>
    rw [events_halt]
    exact hnil
  | late =>
    rw [events_refuse]
    exact hnil
  | _ => exact hnil

/-- No sequence is in flight while the dispatcher is idle. -/
theorem Flight.eq_none_of_idle {d : Daemon σ} {o : Option Assignment} (h : d.Flight o)
    (hs : d.dispatcher.state = .idle) : o = none := by
  cases h with
  | grounded => rfl
  | typing ht => rw [hs] at ht; cases ht
  | reported ht => rw [hs] at ht; cases ht

/-- The report that is taken closes the block of its sequence. -/
theorem blocks_onReport {a : Assignment} {r : Report} (h : r.IsOf a) (d : Dispatcher σ)
    (elapsedMs : UInt64) :
    Event.Blocks (some a.actions) (Effect.events (d.onReport r elapsedMs).2) none := by
  have hactions : a.actions = r.actions := h.1.symm
  rw [hactions, Dispatcher.onReport]
  cases r.result with
  | ok _ =>
    rw [Effect.events_emit, Effect.events_toOwner]
    exact .finished _ _ (.nil _)
  | error e =>
    rw [Effect.events_emit, Effect.events_toOwner]
    exact .failed _ _ (.nil _)

/-- A report is no news of the registered chord. -/
theorem isOfHotkey_onReport (r : Report) (d : Dispatcher σ) (elapsedMs : UInt64) :
    ∀ e ∈ Effect.events (d.onReport r elapsedMs).2, e.isOfHotkey = false := by
  rw [Dispatcher.onReport]
  cases r.result with
  | ok _ =>
    rw [Effect.events_emit, Effect.events_toOwner, List.forall_mem_singleton]
    rfl
  | error e =>
    rw [Effect.events_emit, Effect.events_toOwner, List.forall_mem_singleton]
    rfl

/-- A block is open exactly while a sequence is in flight. -/
theorem Flight.blocks {d : Daemon σ} {o : Option Assignment} (h : d.Flight o) {c : Choice}
    {s : Daemon σ × List Output} {es : List Effect} {rs : List Report}
    (hm : d.Moves w crashReason c s es rs) (hs : s.1.running = true) :
    ∃ o', s.1.Flight o' ∧
      Event.Blocks (o.map Assignment.actions) (events s.2) (o'.map Assignment.actions) := by
  obtain ⟨o', done, hf, hof, ho⟩ := h.moves hm hs
  refine ⟨o', hf, ?_⟩
  -- a move that shows no event and takes no report leaves the sequence in flight alone
  have same {shown : List Event} (hshown : shown = []) (hrs : List.Forall₂ Report.IsOf [] done)
      (ho : o.toList ++ [] = done ++ o'.toList) :
      Event.Blocks (o.map Assignment.actions) shown (o'.map Assignment.actions) := by
    cases hrs
    rw [hshown, Assignment.eq_of_toList ((List.append_nil _).symm.trans ho)]
    exact .nil _
  cases hm with
  | noticed _ _ hn =>
    cases hof
    rw [snd_apply]
    exact hn.blocks h.eq_none_of_idle ho
  | commanded _ _ _ hc =>
    cases hof
    rw [snd_apply]
    exact hc.blocks h.eq_none_of_idle ho
  | reported ms _ hr =>
    obtain ⟨a, rfl, hr, -⟩ := h.takeReport hr ms
    rw [Dispatcher.assignments_onReport] at ho
    obtain _ | ⟨-, hnil⟩ := hof
    cases hnil
    have hnone : o' = none := by
      cases o' with
      | none => rfl
      | some a' => simp at ho
    rw [snd_apply, hnone]
    exact blocks_onReport hr ..
  | unheard => exact same (events_refuse _) hof ho
  | stopped => cases hs
  | late => exact same (events_refuse _) hof ho
  | _ => exact same rfl hof ho

/-- The events of a step tell what became of the registered chord. -/
theorem Moves.showsHotkey {d : Daemon σ} {c : Choice} {s : Daemon σ × List Output}
    {es : List Effect} {rs : List Report} (hm : d.Moves w crashReason c s es rs)
    {shown : List Event} (h : d.dispatcher.ShowsHotkey shown) (hs : s.1.running = true) :
    s.1.dispatcher.ShowsHotkey (shown ++ events s.2) := by
  cases hm with
  | noticed _ _ hn =>
    rw [dispatcher_apply, snd_apply]
    apply h.congr
    · rw [Dispatcher.hotkey?, hn.monitor, Dispatcher.hotkey?]
    · exact hn.isOfHotkey
  | commanded _ _ _ hc =>
    rw [dispatcher_apply, snd_apply]
    exact hc.hotkey h
  | @reported r _ ms =>
    rw [dispatcher_apply, snd_apply]
    apply h.congr rfl
    exact isOfHotkey_onReport r _ ms
  | unheard =>
    rw [events_refuse]
    exact h.congr rfl (List.forall_mem_nil _)
  | stopped => cases hs
  | late =>
    rw [events_refuse]
    exact h.congr rfl (List.forall_mem_nil _)
  | _ => exact h.congr rfl (List.forall_mem_nil _)

/-- Where no command is taken, the armed entry stays. -/
theorem Moves.armed_eq {d : Daemon σ} {c : Choice} {s : Daemon σ × List Output}
    {es : List Effect} {rs : List Report} (hm : d.Moves w crashReason c s es rs)
    (hc : c ≠ .takeCommand) : s.1.dispatcher.armed = d.dispatcher.armed := by
  cases hm with
  | noticed _ _ hn =>
    rw [dispatcher_apply]
    exact hn.armed_eq
  | commanded => exact absurd rfl hc
  | reported =>
    rw [dispatcher_apply]
    rfl
  | _ => rfl

/-- Only a command that is handled arms or disarms. -/
theorem isArmedBy_step {d : Daemon σ} {cs : List Command} (h : d.dispatcher.IsArmedBy cs)
    (c : Choice) (hs : (d.step w crashReason c).1.running = true) :
    (d.step w crashReason c).1.dispatcher.IsArmedBy (cs ++ d.handles c) := by
  by_cases hc : c = .takeCommand
  · subst hc
    rw [step] at hs ⊢
    obtain ⟨hsame, hno⟩ | ⟨t, c, rest, ht, hcs, -, htake⟩ | ⟨t, rest, -, -, htake⟩ :=
      d.takeCommand_cases w
    · rw [hsame, hno, List.append_nil]
      exact h
    · have hhandles : d.handles .takeCommand = [c] := by
        rw [handles, ht, hcs]
        rfl
      rw [htake, hhandles, dispatcher_apply]
      exact (d.dispatcher.commands w t c).armedBy h
    · rw [htake] at hs
      cases hs
  · have hno : d.handles c = [] := by
      unfold handles
      split
      · exact absurd rfl hc
      · rfl
    rw [hno, List.append_nil]
    rw [Dispatcher.IsArmedBy, (d.moves w crashReason c).armed_eq hc]
    exact h

/-- A dispatcher that has stopped shows no event and is not busy with a status command. -/
theorem Moves.stopped_frame {d : Daemon σ} {c : Choice} {s : Daemon σ × List Output}
    {es : List Effect} {rs : List Report} (hm : d.Moves w crashReason c s es rs)
    (h : d.running = false → d.probe = none) (hs : s.1.running = false) :
    s.1.probe = none ∧ events s.2 = [] := by
  cases hm with
  | noticed ht =>
    rw [running_apply] at hs
    exact absurd ((running_of_isTaking ht).symm.trans hs) nofun
  | commanded ht =>
    rw [running_apply] at hs
    exact absurd ((running_of_isTaking ht).symm.trans hs) nofun
  | reported _ ht =>
    rw [running_apply] at hs
    exact absurd ((running_of_isTaking ht).symm.trans hs) nofun
  | unheard => exact ⟨h hs, events_refuse _⟩
  | stopped _ _ ht =>
    have hp := probe_of_isTaking ht
    exact ⟨hp, events_halt _⟩
  | looked hp =>
    rw [h hs] at hp
    cases hp
  | knew => exact ⟨rfl, rfl⟩
  | late => exact ⟨h hs, events_refuse _⟩
  | _ => exact ⟨h hs, rfl⟩

/-! ## The invariant -/

/-- What a daemon has told with the events that it showed, and with the commands that it handled. -/
structure Tells (d : Daemon σ) (es : List Event) (cs : List Command) : Prop where
  blocks : ∃ o, Event.Blocks none es o
  flight : d.running = true →
    ∃ o, d.Flight o ∧ Event.Blocks none es (o.map Assignment.actions)
  hotkey : d.running = true → d.dispatcher.ShowsHotkey es
  armed : d.running = true → d.dispatcher.IsArmedBy cs
  probe : d.running = false → d.probe = none

theorem Unused.tells {d : Daemon σ} (h : d.Unused) : d.Tells [] [] where
  blocks := ⟨none, .nil _⟩
  flight _ := ⟨none, .grounded h.toIdle, .nil _⟩
  hotkey _ := by
    intro hotkey
    rw [Dispatcher.hotkey?_of_isRegistered h.unregistered]
    simp [Event.Registered, not_latest_nil]
  armed _ := by
    rw [Dispatcher.IsArmedBy, h.armed]
    simp [Command.Arming, not_latest_nil]
  probe _ := h.probe

/-- A step keeps what is told true. -/
theorem Tells.step {d : Daemon σ} {es : List Event} {cs : List Command} (h : d.Tells es cs)
    (c : Choice) :
    (d.step w crashReason c).1.Tells (es ++ events (d.step w crashReason c).2)
      (cs ++ d.handles c) := by
  have hm := d.moves w crashReason c
  have hflight (hs : (d.step w crashReason c).1.running = true) :
      ∃ o, (d.step w crashReason c).1.Flight o ∧
        Event.Blocks none (es ++ events (d.step w crashReason c).2)
          (o.map Assignment.actions) := by
    obtain ⟨o, hf, hb⟩ := h.flight (hm.running hs)
    obtain ⟨o', hf', hb'⟩ := hf.blocks hm hs
    exact ⟨o', hf', hb.append hb'⟩
  constructor
  case flight => exact hflight
  case blocks =>
    cases hs : (d.step w crashReason c).1.running with
    | true =>
      obtain ⟨o, -, hb⟩ := hflight hs
      exact ⟨_, hb⟩
    | false =>
      rw [(hm.stopped_frame h.probe hs).2, List.append_nil]
      exact h.blocks
  case hotkey =>
    intro hs
    exact hm.showsHotkey (h.hotkey (hm.running hs)) hs
  case armed =>
    intro hs
    exact isArmedBy_step (h.armed (hm.running hs)) c hs
  case probe =>
    intro hs
    exact (hm.stopped_frame h.probe hs).1

/-- What a run showed is true at its end. -/
theorem Unused.tells_run {d : Daemon σ} (hd : d.Unused) (cs : List Choice) :
    (d.run w crashReason cs).1.Tells (events (d.run w crashReason cs).2)
      (d.handled w crashReason cs) := by
  induction cs using List.reverseRecOn with
  | nil => exact hd.tells
  | append_singleton cs c ih =>
    rw [run_concat, events_append, handled, history_concat]
    exact ih.step c

/-- A run shows every trigger together with what came of it. -/
theorem reacted_run (d : Daemon σ) (cs : List Choice) :
    Event.Reacted (events (d.run w crashReason cs).2) := by
  induction cs using List.reverseRecOn with
  | nil => exact Event.reacted_of_not_mem nofun
  | append_singleton cs c ih =>
    rw [run_concat, events_append]
    exact ih.append (moves w crashReason _ c).reacted

/-! ## Status answers -/

/-- A daemon that runs gives a true account of itself. -/
theorem Tells.isTrue {d : Daemon σ} {es : List Event} {cs : List Command} (h : d.Tells es cs)
    (hs : d.running = true) (available : Bool) :
    (d.dispatcher.snapshot available).IsTrue es cs where
  typing_iff := by
    obtain ⟨o, hf, hb⟩ := h.flight hs
    show d.dispatcher.state = .typing ↔ _
    constructor
    · intro ht
      cases hf with
      | grounded hi =>
        rw [hi.state] at ht
        cases ht
      | typing => exact ⟨_, hb⟩
      | reported => exact ⟨_, hb⟩
    · rintro ⟨n, hn⟩
      cases hf with
      | grounded => cases hb.unique hn
      | typing ht => exact ht
      | reported ht => exact ht
  hotkey_iff := h.hotkey hs
  armed_iff := h.armed hs

/-- Whether a status command is seen to be answered. -/
def Output.isStatus : Output → Bool
  | .answered _ (.status _) => true
  | _ => false

/-- No decision answers a status command. -/
theorem isStatus_starts {d d' : Dispatcher σ} {entry : Entry} {template : Option String}
    {ticket : Option Ticket} {es : List Effect} (h : d.Starts entry template ticket d' es) :
    (Effect.outputs es).any Output.isStatus = false := by
  cases h with
  | started => rfl
  | _ => cases ticket <;> rfl

theorem isStatus_notices {d d' : Dispatcher σ} {n : Notice} {es : List Effect}
    (h : d.Notices n d' es) : (Effect.outputs es).any Output.isStatus = false := by
  cases h with
  | armed _ hstarts =>
    have h := isStatus_starts hstarts
    exact h
  | _ => rfl

theorem isStatus_commands {d d' : Dispatcher σ} {t : Ticket} {c : Command} {es : List Effect}
    (h : d.Commands w t c d' es) : (Effect.outputs es).any Output.isStatus = false := by
  cases h with
  | typed _ hstarts => exact isStatus_starts hstarts
  | unregistrable => split <;> rfl
  | _ => rfl

theorem isStatus_onReport (d : Dispatcher σ) (r : Report) (elapsedMs : UInt64) :
    (Effect.outputs (d.onReport r elapsedMs).2).any Output.isStatus = false := by
  unfold Dispatcher.onReport
  cases r.result <;> cases r.ticket <;> rfl

theorem isStatus_refuse (ts : List Ticket) : (refuse ts).any Output.isStatus = false := by
  induction ts with
  | nil => rfl
  | cons t ts ih => exact ih

/-- Only a dispatcher that has looked answers a status command, and it answers what it is then. -/
theorem Moves.status {d : Daemon σ} {c : Choice} {s : Daemon σ × List Output}
    {es : List Effect} {rs : List Report} (hm : d.Moves w crashReason c s es rs) {t : Ticket}
    {status : Snapshot} (h : .answered t (.status status) ∈ s.2) :
    d.probe ≠ none ∧ ∃ available, status = d.dispatcher.snapshot available := by
  have hany : s.2.any Output.isStatus = true := List.any_eq_true.mpr ⟨_, h, rfl⟩
  cases hm with
  | noticed _ _ hn =>
    rw [snd_apply, isStatus_notices hn] at hany
    cases hany
  | commanded _ _ _ hc =>
    rw [snd_apply, isStatus_commands hc] at hany
    cases hany
  | reported ms =>
    rw [snd_apply, isStatus_onReport] at hany
    cases hany
  | unheard =>
    rw [isStatus_refuse] at hany
    cases hany
  | stopped =>
    rw [halt, List.any_append, isStatus_refuse, isStatus_refuse] at hany
    cases hany
  | @knew _ _ available hp =>
    obtain ⟨rfl, hs⟩ : t = _ ∧ status = d.dispatcher.snapshot available := by simpa using h
    exact ⟨by simp [hp], available, hs⟩
  | late =>
    rw [isStatus_refuse] at hany
    cases hany
  | _ => cases hany

/-- A status command that the dispatcher takes is answered in the next two steps of its own. -/
theorem status_answered {d : Daemon σ} (ht : d.isTaking = true) {t : Ticket}
    {rest : List (Ticket × Command)} (hc : d.commands = (t, .status) :: rest) :
    (d.run w crashReason [.takeCommand, .lookOn, .lookOn]).2 =
      [.answered t (.status (d.dispatcher.snapshot (d.dispatcher.engine.isAvailable w.trusted)))] := by
  have htake : d.takeCommand w =
      ({ d with commands := rest, probe := some (t, .wanting) }, []) := by
    simp [takeCommand, ht, hc, Dispatcher.onCommand, apply]
  -- where the injector is taken, the first look is answer enough
  cases htaken : d.dispatcher.engine.taken <;>
    simp [run, step, htake, lookOn, Probe.advance, htaken, Engine.isAvailable,
      Dispatcher.snapshot, Dispatcher.hotkey?]

variable (w crashReason) in
/-- Events and status answers are true: in every run, sequences show as blocks, every trigger
comes with what came of it, and whatever a status command is answered says what the events and the
commands before it say. A status command that is taken is answered. -/
theorem events_faithful {d : Daemon σ} (hd : d.Unused) (cs : List Choice) :
    let s := d.run w crashReason cs
    (∃ o, Event.Blocks none (events s.2) o) ∧ Event.Reacted (events s.2) ∧
      (∀ c t status, .answered t (.status status) ∈ (s.1.step w crashReason c).2 →
        status.IsTrue (events s.2) (d.handled w crashReason cs)) ∧
      ∀ t rest, s.1.isTaking = true → s.1.commands = (t, .status) :: rest →
        ∃ status, (s.1.run w crashReason [.takeCommand, .lookOn, .lookOn]).2 =
            [.answered t (.status status)] ∧
          status.IsTrue (events s.2) (d.handled w crashReason cs) := by
  intro s
  have htells : s.1.Tells (events s.2) (d.handled w crashReason cs) := hd.tells_run cs
  refine ⟨htells.blocks, reacted_run d cs, ?_, ?_⟩
  · intro c t status h
    obtain ⟨hp, available, rfl⟩ := (s.1.moves w crashReason c).status h
    have hrun : s.1.running = true := by
      cases hr : s.1.running with
      | true => rfl
      | false => exact absurd (htells.probe hr) hp
    exact htells.isTrue hrun available
  · intro t rest ht hc
    exact ⟨_, status_answered ht hc, htells.isTrue (running_of_isTaking ht) _⟩

/-- A client registers a chord, arms an entry, has it typed, and asks for the status. -/
def asking : List Choice :=
  [.send ⟨0⟩ (.register (some ⟨.named .f2, { control := true }, rfl⟩)), .takeCommand,
    .send ⟨1⟩ (.arm {} (some "a")), .takeCommand, .send ⟨2⟩ (.autoType none none), .takeCommand,
    .send ⟨3⟩ .status]

/-- What comes of that until the question waits. -/
def asked : Daemon Unit × List Output := (fresh .macAnsi).run (permissive .macAnsi) "" asking

/-- The status that the client learns is true. -/
theorem events_faithful_of_asking :
    (fresh .macAnsi).Unused ∧
      events asked.2 = [.hotkeyRegistered "Ctrl+F2", .sequenceStarted 1] ∧
      (asked.1.run (permissive .macAnsi) "" [.takeCommand, .lookOn, .lookOn]).2 =
        [.answered ⟨3⟩ (.status ⟨.typing, some "Ctrl+F2", true, true⟩)] ∧
      Snapshot.IsTrue ⟨.typing, some "Ctrl+F2", true, true⟩ (events asked.2)
        ((fresh .macAnsi).handled (permissive .macAnsi) "" asking) := by
  have htaking : asked.1.isTaking = true := by cbv
  have hcommands : asked.1.commands = [(⟨3⟩, .status)] := by cbv
  have hanswer : (asked.1.run (permissive .macAnsi) "" [.takeCommand, .lookOn, .lookOn]).2 =
      [.answered ⟨3⟩ (.status ⟨.typing, some "Ctrl+F2", true, true⟩)] := by cbv
  refine ⟨unused_fresh _, by cbv, hanswer, ?_⟩
  obtain ⟨-, -, -, hanswered⟩ := events_faithful (permissive .macAnsi) "" (unused_fresh _) asking
  obtain ⟨told, htold, htrue⟩ := hanswered ⟨3⟩ [] htaking hcommands
  obtain rfl : told = ⟨.typing, some "Ctrl+F2", true, true⟩ := by
    rw [← asked, hanswer] at htold
    simpa using htold.symm
  exact htrue

end Daemon

end Typist

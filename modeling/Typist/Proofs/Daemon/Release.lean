import Mathlib
import Typist.Layout.MacAnsi
import Typist.Proofs.Daemon.Step

/-!
# The released hotkey

A release stops the listener, and from then on nothing is posted. What was posted before still
waits, and the dispatcher takes it without a look at the registration: after a release the hotkey
is silent exactly if no trigger was waiting at that moment.
-/

namespace Typist

/-! ## What is counted -/

/-- Whether the hotkey is seen to be pressed. -/
def Daemon.Output.isTrigger : Daemon.Output → Bool
  | .emitted .hotkeyTriggered => true
  | _ => false

/-- Whether a registration is seen to succeed. -/
def Daemon.Output.isRegistration : Daemon.Output → Bool
  | .answered _ (.registered _) => true
  | _ => false

/-- Whether the hotkey is seen to be released: it was unregistered, or another one could not be
registered in its place. -/
def Daemon.Output.isRelease : Daemon.Output → Bool
  | .answered _ .unregistered => true
  | .answered _ (.refused (.registration _)) => true
  | _ => false

/-- How often the hotkey is seen to be pressed. -/
def Daemon.triggers (out : List Daemon.Output) : Nat := out.countP Daemon.Output.isTrigger

/-- How many assignments were handed out for the hotkey. -/
def Daemon.hotkeyStarts (as : List Assignment) : Nat := as.countP fun a ↦ a.ticket.isNone

/-- How many triggers wait. -/
def NoticeQueue.triggers (q : NoticeQueue) : Nat := q.waiting.count .triggered

/-- Showing the hotkey pressed counts once. -/
theorem Daemon.triggers_cons (es : List Effect) :
    triggers (Effect.outputs (.emit .hotkeyTriggered :: es)) =
      triggers (Effect.outputs es) + 1 :=
  List.countP_cons_of_pos rfl

/-- A registration that fails leaves no chord registered. -/
theorem Monitor.isRegistered_of_register_error {σ : Type} {p : Platform σ} {m m' : Monitor σ}
    {chord : Option Chord} {e : RegistrationError} (h : m.register p chord = (m', .error e)) :
    m'.isRegistered = false := by
  rw [isRegistered, chord?, registration_of_register_error h]
  rfl

/-- Nor does a release. -/
theorem Monitor.isRegistered_unregister {σ : Type} (p : Platform σ) (m : Monitor σ) :
    (m.unregister p).isRegistered = false := by
  rw [isRegistered, chord?, registration_unregister]
  rfl

/-! ## Decisions -/

namespace Dispatcher

open Daemon

variable {σ : Type}

/-- Whether effects neither show the hotkey pressed nor hand out an assignment for it. -/
structure Silent (es : List Effect) : Prop where
  triggers : triggers (Effect.outputs es) = 0
  hotkeyStarts : hotkeyStarts (Effect.assignments es) = 0

/-- Starting a sequence leaves the registration alone. -/
theorem Starts.monitor {d d' : Dispatcher σ} {entry : Entry} {template : Option String}
    {ticket : Option Ticket} {es : List Effect} (h : d.Starts entry template ticket d' es) :
    d'.monitor = d.monitor := by
  cases h <;> rfl

/-- Starting a sequence tells nothing of the hotkey. -/
theorem Starts.outputs {d d' : Dispatcher σ} {entry : Entry} {template : Option String}
    {ticket : Option Ticket} {es : List Effect} (h : d.Starts entry template ticket d' es) :
    triggers (Effect.outputs es) = 0 ∧
      (Effect.outputs es).any Output.isRegistration = false ∧
      (Effect.outputs es).any Output.isRelease = false := by
  cases h with
  | busy => cases ticket <;> exact ⟨rfl, rfl, rfl⟩
  | rejected => cases ticket <;> exact ⟨rfl, rfl, rfl⟩
  | started => exact ⟨rfl, rfl, rfl⟩

/-- A sequence that is started answers whom it was started for, and there is one at most. -/
theorem Starts.hotkeyStarts_le {d d' : Dispatcher σ} {entry : Entry} {template : Option String}
    {ticket : Option Ticket} {es : List Effect} (h : d.Starts entry template ticket d' es) :
    hotkeyStarts (Effect.assignments es) ≤ if ticket.isNone then 1 else 0 := by
  cases h with
  | busy => cases ticket <;> exact Nat.zero_le _
  | rejected => cases ticket <;> exact Nat.zero_le _
  | started => cases ticket <;> exact Nat.le_refl _

/-- A notice leaves the registration alone. -/
theorem Notices.monitor {d d' : Dispatcher σ} {n : Notice} {es : List Effect}
    (h : d.Notices n d' es) : d'.monitor = d.monitor := by
  cases h with
  | armed _ hstarts => exact hstarts.monitor
  | _ => rfl

/-- The hotkey is seen to be pressed once for every trigger that is taken. -/
theorem Notices.triggers_eq {d d' : Dispatcher σ} {n : Notice} {es : List Effect}
    (h : d.Notices n d' es) : triggers (Effect.outputs es) = [n].count .triggered := by
  cases h with
  | armed _ hstarts =>
    rw [triggers_cons, hstarts.outputs.1]
    rfl
  | _ => rfl

/-- A notice starts a sequence only if it shows the hotkey pressed. -/
theorem Notices.hotkeyStarts_le {d d' : Dispatcher σ} {n : Notice} {es : List Effect}
    (h : d.Notices n d' es) : hotkeyStarts (Effect.assignments es) ≤ [n].count .triggered := by
  cases h with
  | armed _ hstarts => exact hstarts.hotkeyStarts_le
  | _ => exact Nat.zero_le _

/-- Taking a trigger shows the hotkey pressed, and answers no registration. -/
theorem Notices.shows {d d' : Dispatcher σ} {es : List Effect} (h : d.Notices .triggered d' es) :
    (Effect.outputs es).any Output.isRegistration = false ∧
      (Effect.outputs es).any Output.isTrigger = true := by
  cases h with
  | armed _ hstarts => exact ⟨hstarts.outputs.2.1, rfl⟩
  | unarmed => exact ⟨rfl, rfl⟩

/-- No command shows the hotkey pressed or starts a sequence for it. -/
theorem Commands.silent {w : Surroundings σ} {d d' : Dispatcher σ} {t : Ticket} {c : Command}
    {es : List Effect} (h : d.Commands w t c d' es) : Silent es := by
  cases h with
  | typed _ hstarts => exact ⟨hstarts.outputs.1, Nat.le_zero.mp hstarts.hotkeyStarts_le⟩
  | unregistrable => split <;> exact ⟨rfl, rfl⟩
  | _ => exact ⟨rfl, rfl⟩

/-- A chord is newly registered only where that is answered. -/
theorem Commands.registered_of {w : Surroundings σ} {d d' : Dispatcher σ} {t : Ticket}
    {c : Command} {es : List Effect} (h : d.Commands w t c d' es)
    (hd : d.monitor.isRegistered = false)
    (hno : (Effect.outputs es).any Output.isRegistration = false) :
    d'.monitor.isRegistered = false := by
  cases h with
  | typed _ hstarts =>
    rw [hstarts.monitor]
    exact hd
  | registered => cases hno
  | unregistrable hm => exact Monitor.isRegistered_of_register_error hm
  | unregistered hm =>
    rw [hd] at hm
    cases hm
  | _ => exact hd

/-- A command that is answered as a release leaves no chord registered, and nothing to look up. -/
theorem Commands.released {w : Surroundings σ} {d d' : Dispatcher σ} {t : Ticket} {c : Command}
    {es : List Effect} (h : d.Commands w t c d' es)
    (hr : (Effect.outputs es).any Output.isRelease = true) :
    d'.monitor.isRegistered = false ∧ Effect.probes es = [] := by
  cases h with
  | typed _ hstarts =>
    rw [hstarts.outputs.2.2] at hr
    cases hr
  | unregistrable hm =>
    refine ⟨Monitor.isRegistered_of_register_error hm, ?_⟩
    split <;> rfl
  | unregistered => exact ⟨Monitor.isRegistered_unregister .., rfl⟩
  | unheard hm => exact ⟨hm, rfl⟩
  | _ => cases hr

/-- No report shows the hotkey pressed or starts a sequence for it. -/
theorem silent_onReport (d : Dispatcher σ) (r : Report) (elapsedMs : UInt64) :
    Silent (d.onReport r elapsedMs).2 := by
  unfold onReport
  cases r.result <;> cases r.ticket <;> exact ⟨rfl, rfl⟩

end Dispatcher

/-! ## Steps -/

namespace Daemon

variable {σ : Type}

theorem triggers_append (out rest : List Output) :
    triggers (out ++ rest) = triggers out + triggers rest :=
  List.countP_append

theorem hotkeyStarts_append (as bs : List Assignment) :
    hotkeyStarts (as ++ bs) = hotkeyStarts as + hotkeyStarts bs :=
  List.countP_append

@[simp] theorem triggers_refuse (ts : List Ticket) : triggers (refuse ts) = 0 := by
  induction ts with
  | nil => rfl
  | cons t ts ih => exact ih

/-- What becomes of the triggers of a queue while no chord is registered: those that are shown, and
those that still wait, were in the queue, and each starts one sequence at most. -/
structure Drains (q : NoticeQueue) (d : Daemon σ) (out : List Output) (as : List Assignment) :
    Prop where
  registered : d.dispatcher.monitor.isRegistered = false
  triggers : triggers out + d.notices.triggers ≤ q.triggers
  hotkeyStarts : hotkeyStarts as ≤ Daemon.triggers out

/-- What shows nothing and changes neither the registration nor what waits drains nothing. -/
theorem Drains.still {q : NoticeQueue} {d : Daemon σ} {out : List Output}
    (hr : d.dispatcher.monitor.isRegistered = false) (hn : d.notices = q)
    (ho : Daemon.triggers out = 0) : Drains q d out [] where
  registered := hr
  triggers := Nat.le_of_eq (by rw [ho, hn, Nat.zero_add])
  hotkeyStarts := Nat.zero_le _

variable (w : Surroundings σ) (crashReason : String)

/-- The dispatcher stops: what waits is gone. -/
theorem drains_halt (q : NoticeQueue) (d : Daemon σ) :
    Drains q (d.halt w).1 (d.halt w).2 [] where
  registered := Monitor.isRegistered_unregister ..
  triggers := by
    simp [halt, triggers_append, NoticeQueue.triggers, NoticeQueue.cleared]
  hotkeyStarts := Nat.zero_le _

variable {w crashReason} in
/-- A step of a daemon without a registered chord drains the triggers that wait, unless a
registration succeeds in it. -/
theorem Moves.drains {d : Daemon σ} {c : Choice} {s : Daemon σ × List Output} {es : List Effect}
    {rs : List Report} (hm : d.Moves w crashReason c s es rs)
    (hr : d.dispatcher.monitor.isRegistered = false)
    (hno : s.2.any Output.isRegistration = false) :
    Drains d.notices s.1 s.2 (Effect.assignments es) := by
  cases hm with
  | posted n h =>
    rw [hr] at h
    cases h
  | unheard t c ts => exact .still hr rfl (triggers_refuse ts)
  | @noticed n ns _ _ _ hn h =>
    have hcount : d.notices.triggers = [n].count .triggered + ns.count .triggered := by
      rw [NoticeQueue.triggers, hn, ← List.count_append]
      rfl
    constructor
    · rw [dispatcher_apply, h.monitor]
      exact hr
    · rw [snd_apply, notices_apply, h.triggers_eq, hcount]
      exact Nat.le_refl _
    · rw [snd_apply, h.triggers_eq]
      exact h.hotkeyStarts_le
  | commanded _ _ _ h =>
    rw [snd_apply] at hno
    constructor
    · rw [dispatcher_apply]
      exact h.registered_of hr hno
    · rw [snd_apply, notices_apply, h.silent.triggers]
      exact Nat.le_of_eq (Nat.zero_add _)
    · rw [h.silent.hotkeyStarts]
      exact Nat.zero_le _
  | @reported r _ ms =>
    have hsilent := d.dispatcher.silent_onReport r ms
    constructor
    · rw [dispatcher_apply]
      exact hr
    · rw [snd_apply, notices_apply, hsilent.triggers]
      exact Nat.le_of_eq (Nat.zero_add _)
    · rw [hsilent.hotkeyStarts]
      exact Nat.zero_le _
  | stopped => exact drains_halt w _ _
  | late => exact .still hr rfl (triggers_refuse _)
  | _ => exact .still hr rfl rfl

/-- A run of a daemon without a registered chord drains the triggers that wait, unless a
registration succeeds in it. -/
theorem drains_run {d : Daemon σ} (hr : d.dispatcher.monitor.isRegistered = false)
    (cs : List Choice) (hno : (d.run w crashReason cs).2.any Output.isRegistration = false) :
    Drains d.notices (d.run w crashReason cs).1 (d.run w crashReason cs).2
      (d.started w crashReason cs) := by
  induction cs generalizing d with
  | nil => exact .still hr rfl rfl
  | cons c cs ih =>
    simp only [run, List.any_append, Bool.or_eq_false_iff] at hno
    have hstep := (d.moves w crashReason c).drains hr hno.1
    have hrun := ih hstep.registered hno.2
    have h₁ := hstep.triggers
    have h₂ := hrun.triggers
    have h₃ := hstep.hotkeyStarts
    have h₄ := hrun.hotkeyStarts
    constructor
    · exact hrun.registered
    · simp only [run, triggers_append]
      omega
    · simp only [run, started, starts, triggers_append, hotkeyStarts_append]
      omega

/-! ## Releases -/

private theorem isRelease_refuse (ts : List Ticket) : (refuse ts).any Output.isRelease = false := by
  induction ts with
  | nil => rfl
  | cons t ts ih => exact ih

variable {w crashReason} in
/-- After a release the dispatcher goes on, no chord is registered, and the same notices wait. -/
theorem Moves.released {d : Daemon σ} {s : Daemon σ × List Output} {es : List Effect}
    {rs : List Report} (hm : d.Moves w crashReason .takeCommand s es rs)
    (h : s.2.any Output.isRelease = true) :
    s.1.isTaking = true ∧ s.1.dispatcher.monitor.isRegistered = false ∧
      s.1.notices = d.notices := by
  cases hm with
  | still => cases h
  | stopped => simp [halt, isRelease_refuse] at h
  | commanded ht _ _ hc =>
    rw [snd_apply] at h
    obtain ⟨hr, hp⟩ := hc.released h
    refine ⟨?_, ?_, ?_⟩
    · rw [isTaking, running_apply, probe_apply _ _ hp]
      exact ht
    · rw [dispatcher_apply]
      exact hr
    · rw [notices_apply]

/-- A trigger that waits can be taken whenever the dispatcher takes something. -/
theorem exists_trigger {d : Daemon σ} (ht : d.isTaking = true)
    (hn : Notice.triggered ∈ d.notices.waiting) :
    ∃ cs, (d.run w crashReason cs).2.any Output.isRegistration = false ∧
      (d.run w crashReason cs).2.any Output.isTrigger = true := by
  induction hq : d.notices.waiting generalizing d with
  | nil =>
    rw [hq] at hn
    cases hn
  | cons n ns ih =>
    have hstep : d.step w crashReason .takeNotice =
        { d with
          notices := { d.notices with waiting := ns }
          dispatcher := (d.dispatcher.onNotice n).1 }.apply (d.dispatcher.onNotice n).2 := by
      simp only [step, takeNotice, ht, NoticeQueue.take?, hq, if_true]
    cases n with
    | triggered =>
      refine ⟨[.takeNotice], ?_⟩
      simp only [run, hstep, snd_apply, List.append_nil]
      exact (d.dispatcher.notices .triggered).shows
    | restarted =>
      -- the notice in front is no trigger: take it, and go on with the rest
      rw [hq] at hn
      obtain ⟨cs, hno, htrigger⟩ := ih (d := (d.step w crashReason .takeNotice).1)
        (by rw [hstep]; exact ht) (by rw [hstep]; simpa using hn) (by rw [hstep]; rfl)
      refine ⟨.takeNotice :: cs, ?_, ?_⟩
      · rw [run, List.any_append, hno, hstep]
        rfl
      · rw [run, List.any_append, htrigger, Bool.or_true]

/-- After a release the hotkey stays silent, whatever happens until a registration succeeds, exactly
if no trigger waited when it was released. -/
theorem silent_after_release_iff {d : Daemon σ}
    (h : (d.takeCommand w).2.any Output.isRelease = true) :
    (∀ cs, ((d.takeCommand w).1.run w crashReason cs).2.any Output.isRegistration = false →
        ((d.takeCommand w).1.run w crashReason cs).2.any Output.isTrigger = false ∧
          ∀ a ∈ (d.takeCommand w).1.started w crashReason cs, a.ticket.isSome = true) ↔
      Notice.triggered ∉ d.notices.waiting := by
  have hafter : (d.takeCommand w).1.isTaking = true ∧
      (d.takeCommand w).1.dispatcher.monitor.isRegistered = false ∧
      (d.takeCommand w).1.notices = d.notices :=
    (d.moves w crashReason .takeCommand).released h
  obtain ⟨ht, hr, hn⟩ := hafter
  constructor
  · intro hsilent hwaits
    rw [← hn] at hwaits
    obtain ⟨cs, hno, htrigger⟩ := exists_trigger w crashReason ht hwaits
    rw [(hsilent cs hno).1] at htrigger
    cases htrigger
  · intro hnone cs hno
    have hdrains := drains_run w crashReason hr cs hno
    have hzero : (d.takeCommand w).1.notices.triggers = 0 := by
      rw [hn]
      exact List.count_eq_zero.mpr hnone
    have hshown : triggers ((d.takeCommand w).1.run w crashReason cs).2 = 0 := by
      have := hdrains.triggers
      omega
    have hstarts : hotkeyStarts ((d.takeCommand w).1.started w crashReason cs) = 0 := by
      have := hdrains.hotkeyStarts
      omega
    constructor
    · rw [List.any_eq_false]
      exact List.countP_eq_zero.mp hshown
    · intro a ha
      have := List.countP_eq_zero.mp hstarts a ha
      simpa [Option.isSome_iff_ne_none] using this

/-- A client registers a chord and arms an entry, notices are posted, and the client unregisters
the chord: what the dispatcher sees before it takes the last command. -/
def releasing (posted : List Notice) : Daemon Unit :=
  ((fresh .macAnsi).run (permissive .macAnsi) ""
    ([.send ⟨0⟩ (.register (some ⟨.named .f1, { control := true }, rfl⟩)), .takeCommand,
      .send ⟨1⟩ (.arm {} (some "a")), .takeCommand] ++ posted.map .notice ++
      [.send ⟨2⟩ .unregister])).1

/-- Where nothing was posted, the hotkey stays silent. -/
theorem silent_after_release_of_none_posted :
    ((releasing []).takeCommand (permissive .macAnsi)).2.any Output.isRelease = true ∧ ∀ cs,
      (((releasing []).takeCommand (permissive .macAnsi)).1.run (permissive .macAnsi) "" cs).2.any
        Output.isRegistration = false →
      (((releasing []).takeCommand (permissive .macAnsi)).1.run (permissive .macAnsi) "" cs).2.any
        Output.isTrigger = false := by
  have hrelease : ((releasing []).takeCommand (permissive .macAnsi)).2.any Output.isRelease =
      true := by cbv
  have hwaiting : (releasing []).notices.waiting = [] := by cbv
  have hnone : Notice.triggered ∉ (releasing []).notices.waiting := by
    rw [hwaiting]
    exact List.not_mem_nil
  refine ⟨hrelease, ?_⟩
  intro cs hno
  exact ((silent_after_release_iff (permissive .macAnsi) "" hrelease).mpr hnone cs hno).1

/-- Where the hotkey was pressed before the release, it types after the release was answered. -/
theorem types_after_release :
    ((releasing [.triggered]).takeCommand (permissive .macAnsi)).2 =
        [.emitted .hotkeyUnregistered, .answered ⟨2⟩ .unregistered] ∧
      (((releasing [.triggered]).takeCommand (permissive .macAnsi)).1.run (permissive .macAnsi) ""
        [.takeNotice]).2 = [.emitted .hotkeyTriggered, .emitted (.sequenceStarted 1)] ∧
      hotkeyStarts (((releasing [.triggered]).takeCommand (permissive .macAnsi)).1.started
        (permissive .macAnsi) "" [.takeNotice]) = 1 := by
  refine ⟨?_, ?_, ?_⟩
  · cbv
  · cbv
  · cbv

end Daemon

end Typist

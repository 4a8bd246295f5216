import Typist.Proofs.Wire.Fitting
import Typist.Proofs.Wire.Subscribers
import Typist.Startup

/-!
# Hotkeys that clients register

A client knows its hotkey by a text only: the one that its request is answered with, that every
subscriber is told, and that the status shows from then on. They are the same text, and it is read
as the chord that the client asked for, so registering it again comes to the same.
-/

namespace Typist

/-! ## The daemon -/

/-- A chord that is registered is told by its text, to whoever asked and to everyone. -/
theorem Dispatcher.Commands.registers {σ : Type} {w : Surroundings σ} {d d' : Dispatcher σ}
    {t u : Ticket} {chord : Chord} {es : List Effect}
    (h : d.Commands w t (.register (some chord)) d' es) {shown : String}
    (ha : .answered u (.registered shown) ∈ Effect.outputs es) :
    d'.hotkey? = some chord.text ∧
      es = [.emit (.hotkeyRegistered chord.text), .answer t (.registered chord.text)] := by
  cases h with
  | @registered _ monitor hm =>
    obtain ⟨c, hc, hchord⟩ := Monitor.chord?_of_register_ok hm
    cases hc
    have hhotkey : hotkey? { d with monitor } = some chord.text := by
      rw [hotkey?, hchord, Option.map_some]
    rw [hhotkey]
    exact ⟨rfl, rfl⟩
  | unregistrable => split at ha <;> simp [Effect.outputs, Effect.output?] at ha

namespace Daemon

variable {σ : Type} {w : Surroundings σ} {crashReason : String} {d : Daemon σ} {text : String}

/-- Whether a daemon, as long as it can tell its status, tells this hotkey. -/
structure ReportsHotkey (d : Daemon σ) (text : String) : Prop where
  hotkey : d.running = true → d.dispatcher.hotkey? = some text
  probe : d.running = false → d.probe = none

/-- Until an event tells of a hotkey again, the hotkey stays. -/
theorem ReportsHotkey.step (h : d.ReportsHotkey text) {c : Choice}
    (hc : ∀ e ∈ events (d.step w crashReason c).2, e.isOfHotkey = false) :
    (d.step w crashReason c).1.ReportsHotkey text where
  hotkey hrunning := by
    have hm := d.moves w crashReason c
    -- the hotkey is shown as if its event had been the only one so far
    have hbefore : d.dispatcher.ShowsHotkey ([] ++ [.hotkeyRegistered text]) :=
      .registered (h.hotkey (hm.running hrunning))
    refine (hm.showsHotkey hbefore hrunning text).mpr (latest_append.mpr (.inr ⟨?_, ?_⟩))
    · exact latest_singleton.mpr rfl
    · intro e he
      rw [hc e he]
      exact Bool.false_ne_true
  probe hstopped := ((d.moves w crashReason c).stopped_frame h.probe hstopped).1

theorem ReportsHotkey.run (h : d.ReportsHotkey text) {cs : List Choice}
    (hcs : ∀ e ∈ events (d.run w crashReason cs).2, e.isOfHotkey = false) :
    (d.run w crashReason cs).1.ReportsHotkey text := by
  induction cs generalizing d with
  | nil => exact h
  | cons c cs ih =>
    rw [Daemon.run, events_append, List.forall_mem_append] at hcs
    exact ih (h.step hcs.1) hcs.2

/-- A status is told by a daemon that runs. -/
theorem ReportsHotkey.status (h : d.ReportsHotkey text) {c : Choice} {t : Ticket} {s : Snapshot}
    (hs : .answered t (.status s) ∈ (d.step w crashReason c).2) : s.hotkey = some text := by
  obtain ⟨hprobe, available, rfl⟩ := (d.moves w crashReason c).status hs
  cases hrunning : d.running with
  | true => exact h.hotkey hrunning
  | false => exact absurd (h.probe hrunning) hprobe

/-- What a step comes to that registers the chord of a command. -/
structure Registers (w : Surroundings σ) (crashReason : String) (d : Daemon σ) (t : Ticket)
    (chord : Chord) : Prop where
  waiting : (t, .register (some chord)) ∈ d.commands
  outputs : (d.step w crashReason .takeCommand).2 =
    [.emitted (.hotkeyRegistered chord.text), .answered t (.registered chord.text)]
  reports : (d.step w crashReason .takeCommand).1.ReportsHotkey chord.text

/-- Only such a step answers that a chord is registered. -/
theorem registers_of_answered {c : Choice} {t : Ticket} {shown : String}
    (h : .answered t (.registered shown) ∈ (d.step w crashReason c).2) :
    c = .takeCommand ∧ ∃ chord, shown = chord.text ∧ d.Registers w crashReason t chord := by
  obtain ⟨-, hstopped⟩ | ⟨rfl, htaking, b, rest, _, hcommands, -, hc, hout⟩ |
      ⟨_, r, _, -, -, -, -, hanswer⟩ | ⟨_, _, -, hstatus⟩ :=
    (d.moves w crashReason c).answered_cases h
  · cases hstopped
  · have hregister := hc.answer hout
    cases hregister with
    | registered chord =>
      have hstep : d.step w crashReason .takeCommand =
          { d with
            commands := rest
            dispatcher := (d.dispatcher.onCommand w t (.register (some chord))).1 }.apply
            (d.dispatcher.onCommand w t (.register (some chord))).2 := by
        simp [step, takeCommand, htaking, hcommands]
      have hcommand := d.dispatcher.commands w t (.register (some chord))
      rw [hstep, snd_apply] at h
      obtain ⟨hhotkey, heffects⟩ := (d.dispatcher.commands w t (.register (some chord))).registers h
      rw [heffects] at hstep
      refine ⟨rfl, chord, rfl, hcommands ▸ List.mem_cons_self, by rw [hstep]; rfl, ?_⟩
      rw [hstep]
      refine ⟨fun _ ↦ hhotkey, fun hstopped ↦ ?_⟩
      cases hstopped.symm.trans (running_of_isTaking htaking)
  · unfold Report.answer at hanswer
    split at hanswer <;> cases hanswer
  · cases hstatus

end Daemon

/-! ## Responses -/

/-- What is responded without the daemon. -/
inductive Response.IsPrompt : Response → Prop
  | pong : IsPrompt .pong
  | subscribed : IsPrompt .subscribed
  | error (code message : String) : IsPrompt (.error code message)

namespace Connection

variable {capacity : Nat} {c : Connection} {r : Response}

theorem eq_of_mem_send {m m' : Sent} (h : m ∈ (c.send m').2) : m = m' := by
  unfold send at h
  split at h
  · exact List.mem_singleton.mp h
  · cases h

/-- Only who awaits an answer is given it. -/
theorem of_mem_answer {t : Ticket} {m : Sent} (h : m ∈ (c.answer t r).2) :
    c.Awaits t ∧ m = .response r := by
  unfold answer at h
  split at h
  · next hawaits =>
    rw [Bool.and_eq_true, beq_iff_eq] at hawaits
    exact ⟨hawaits, eq_of_mem_send h⟩
  · cases h

/-- A response is given without the daemon, or is the answer that is awaited. -/
theorem response_of_act {a : Act} (h : .response r ∈ (c.act capacity a).2) :
    r.IsPrompt ∨ ∃ uptimeSecs t b, a = .pass uptimeSecs (.answered t b) ∧ c.Awaits t ∧
      r = .ofAnswer uptimeSecs b := by
  cases a with
  | take t =>
    simp only [act] at h
    left
    obtain ⟨htake, -⟩ | ⟨-, -, htake, -⟩ | ⟨m, rest, -, -, htake, -⟩ := c.takeFrame_cases t
    · rw [htake] at h
      cases h
    · rw [htake] at h
      cases h
    · rw [htake] at h
      unfold receive at h
      split at h
      · next q hq =>
        cases eq_of_mem_send h
        obtain rfl | ⟨code, message, rfl⟩ := Reception.eq_of_ofFrame hq
        · exact .pong
        · exact .error code message
      · cases eq_of_mem_send h
        exact .subscribed
      · cases h
  | notify =>
    simp only [act, notify] at h
    split at h
    · split at h
      · cases eq_of_mem_send h
      · cases h
    · cases h
  | pass uptimeSecs o =>
    cases o with
    | emitted e => cases h
    | answered t b =>
      obtain ⟨hawaits, hr⟩ := of_mem_answer h
      cases hr
      exact .inr ⟨uptimeSecs, t, b, rfl, hawaits, rfl⟩
  | _ => cases h

theorem response_of_acts {as : List Act} (h : .response r ∈ (c.acts capacity as).2) :
    r.IsPrompt ∨ ∃ before uptimeSecs t b after,
      as = before ++ .pass uptimeSecs (.answered t b) :: after ∧
        (c.acts capacity before).1.Awaits t ∧ r = .ofAnswer uptimeSecs b := by
  induction as generalizing c with
  | nil => cases h
  | cons a as ih =>
    rcases List.mem_append.mp h with h | h
    · obtain hprompt | ⟨uptimeSecs, t, b, rfl, hawaits, hr⟩ := response_of_act h
      · exact .inl hprompt
      · exact .inr ⟨[], uptimeSecs, t, b, as, rfl, hawaits, hr⟩
    · obtain hprompt | ⟨before, uptimeSecs, t, b, after, rfl, hawaits, hr⟩ := ih h
      · exact .inl hprompt
      · exact .inr ⟨a :: before, uptimeSecs, t, b, after, rfl, hawaits, hr⟩

end Connection

/-- Whether a frame asks to register a chord. -/
theorem Reception.ofFrame_eq_register_iff {m : List UInt8} {chord : Chord} :
    ofFrame m = .ask (.register (some chord)) ↔
      ∃ hotkey, Request.ofBytes m = .ok (.registerHotkey hotkey) ∧
        Chord.parse hotkey = .ok chord := by
  constructor
  · intro h
    unfold ofFrame at h
    split at h
    · next q hq =>
      cases q with
      | registerHotkey hotkey =>
        simp only [Request.reception] at h
        split at h
        · next hparse =>
          cases h
          exact ⟨hotkey, hq, hparse⟩
        · cases h
      | _ => cases h
    · cases h
  · rintro ⟨hotkey, hm, hparse⟩
    simp only [ofFrame, hm, Request.reception, hparse]

/-- Whether a chord survives being shown: its text is read as the chord, and a request to register
the text asks for the same native code under the same modifiers, whatever the layout. -/
structure Chord.Survives (chord : Chord) : Prop where
  parse : Chord.parse chord.text = .ok chord
  again : ∀ m, Request.ofBytes m = .ok (.registerHotkey chord.text) → ∃ chord' : Chord,
    Reception.ofFrame m = .ask (.register (some chord')) ∧
      ∀ l : Layout, chord'.target? l = chord.target? l

theorem Chord.survives {text : String} {chord : Chord} (h : Chord.parse text = .ok chord) :
    chord.Survives where
  parse := Chord.parse_text h
  again _ hm :=
    ⟨chord, Reception.ofFrame_eq_register_iff.mpr ⟨_, hm, Chord.parse_text h⟩, fun _ ↦ rfl⟩

/-! ## The server -/

namespace Server

open Connection (Act)
open Daemon (sends)

variable {σ : Type} {w : Surroundings σ} {crashReason : String} {s : Server σ}

/-- The daemon makes at most one move in a step. -/
theorem exists_of_mem_daemonOutputs {choice : Choice} {o : Daemon.Output}
    (h : o ∈ s.daemonOutputs w crashReason choice) :
    ∃ c, s.daemonMoves choice = [c] ∧ o ∈ (s.daemon.step w crashReason c).2 := by
  have hlength : (s.daemonMoves choice).length ≤ 1 := by
    cases choice with
    | daemon c => cases c <;> simp [daemonMoves]
    | _ => simpa only [daemonMoves, List.length_map] using Option.length_toList_le
  rw [daemonOutputs] at h
  cases hmoves : s.daemonMoves choice with
  | nil =>
    rw [hmoves] at h
    cases h
  | cons c rest =>
    obtain rfl : rest = [] := by
      rw [hmoves, List.length_cons] at hlength
      exact List.eq_nil_of_length_eq_zero (by omega)
    rw [hmoves] at h
    simp only [Daemon.run, List.append_nil] at h
    exact ⟨c, rfl, h⟩

theorem eq_daemon_of_daemonMoves {choice : Choice} (h : s.daemonMoves choice = [.takeCommand]) :
    ∃ uptimeSecs, choice = .daemon .takeCommand uptimeSecs := by
  cases choice with
  | daemon c uptimeSecs =>
    cases c with
    | takeCommand => exact ⟨uptimeSecs, rfl⟩
    | _ => cases h
  | _ =>
    obtain ⟨_, -, hsend⟩ := List.map_eq_singleton_iff.mp h
    cases hsend

/-- A client is given a response without the daemon, or it is an answer of the daemon, which its
connection awaits unless it does something of its own in the step. -/
theorem answered_of_response {choice : Choice} {i : Nat} {r : Response}
    (h : .response r ∈ sentTo i (s.step w crashReason choice).2) :
    r.IsPrompt ∨ ∃ c uptimeSecs t b, s.connections[i]? = some c ∧
      .answered t b ∈ s.daemonOutputs w crashReason choice ∧ r = .ofAnswer uptimeSecs b ∧
      (s.ownActs i choice = [] → c.Awaits t) := by
  by_cases hchoice : choice = .connect
  · subst hchoice
    cases h
  · rw [(s.turns_step w crashReason hchoice).sent] at h
    cases hi : s.connections[i]? with
    | none => simp [moved, hi] at h
    | some c =>
      simp only [moved, hi, Option.map_some, Option.getD_some] at h
      obtain hprompt | ⟨before, uptimeSecs, t, b, after, hacts, hawaits, hr⟩ :=
        Connection.response_of_acts h
      · exact .inl hprompt
      · have hcause : .answered t b ∈ s.daemonOutputs w crashReason choice :=
          causes_of_mem_actsIn w crashReason
            (hacts ▸ List.mem_append_right _ List.mem_cons_self : Act.pass uptimeSecs _ ∈ _)
        refine .inr ⟨c, uptimeSecs, t, b, rfl, hcause, hr, fun hown ↦ ?_⟩
        -- only the daemon acts in the step, which never makes a connection await anything
        rw [actsIn, hown, List.nil_append, List.map_eq_append_iff] at hacts
        obtain ⟨os, _, -, rfl, -⟩ := hacts
        exact hawaits.of_passes.1

/-! ## Chords that are announced -/

variable (w crashReason) in
/-- What is told of a chord that is registered in a step: everyone who is told anything is told its
text, and so is everyone who asks for the status before the hotkey is changed again. -/
structure Announces (s : Server σ) (choice : Choice) (chord : Chord) : Prop where
  event : broadcast (s.step w crashReason choice).2 = [.hotkeyRegistered chord.text]
  response : ∀ i, ∀ m ∈ sentTo i (s.step w crashReason choice).2,
    m = .response (.hotkeyRegistered chord.text)
  status : ∀ later,
    (∀ e ∈ broadcast ((s.step w crashReason choice).1.run w crashReason later).2,
      e.isOfHotkey = false) →
    ∀ next i status, .response (.status status) ∈ sentTo i
        (((s.step w crashReason choice).1.run w crashReason later).1.step w crashReason next).2 →
      status.hotkey = some chord.text ∧ status.hotkeyRegistered = true

/-- As long as the daemon reports a hotkey, the status shows it. -/
theorem status_of_reportsHotkey {text : String} (h : s.daemon.ReportsHotkey text)
    {choice : Choice} {i : Nat} {status : Status}
    (hs : .response (.status status) ∈ sentTo i (s.step w crashReason choice).2) :
    status.hotkey = some text ∧ status.hotkeyRegistered = true := by
  obtain hprompt | ⟨_, uptimeSecs, t, b, -, hb, hr, -⟩ := answered_of_response hs
  · cases hprompt
  · cases b with
    | status snapshot =>
      cases hr
      obtain ⟨c, -, hc⟩ := exists_of_mem_daemonOutputs hb
      have hhotkey := h.status hc
      exact ⟨hhotkey, congrArg Option.isSome hhotkey⟩
    | _ => cases hr

/-- Where the daemon registers a chord, it is announced. -/
theorem announces_of_registers {t : Ticket} {chord : Chord}
    (h : s.daemon.Registers w crashReason t chord) (uptimeSecs : UInt64) :
    s.Announces w crashReason (.daemon .takeCommand uptimeSecs) chord := by
  have hturns := s.turns_step w crashReason (c := .daemon .takeCommand uptimeSecs) nofun
  have houtputs : s.daemonOutputs w crashReason (.daemon .takeCommand uptimeSecs) =
      [.emitted (.hotkeyRegistered chord.text), .answered t (.registered chord.text)] := by
    simp only [daemonOutputs, daemonMoves, Daemon.run, List.append_nil]
    exact h.outputs
  constructor
  case event =>
    rw [broadcast, hturns.daemon, houtputs]
    rfl
  case response =>
    intro i m hm
    rw [hturns.sent, actsIn, houtputs] at hm
    cases hi : (s.moved w crashReason (.daemon .takeCommand uptimeSecs)).connections[i]? with
    | none =>
      rw [hi] at hm
      cases hm
    | some c =>
      rw [hi] at hm
      simp only [ownActs, Option.map_some, Option.getD_some, List.nil_append, List.map_cons,
        List.map_nil, Connection.acts, Connection.act, List.append_nil] at hm
      exact (Connection.of_mem_answer hm).2
  case status =>
    intro later hlater next i status hstatus
    have hreports : (s.step w crashReason (.daemon .takeCommand uptimeSecs)).1.daemon.ReportsHotkey
        chord.text := by
      rw [(s.daemon_step w crashReason _).1]
      exact h.reports
    obtain ⟨hdaemon, hout⟩ :=
      (s.step w crashReason (.daemon .takeCommand uptimeSecs)).1.daemon_run w crashReason later
    rw [broadcast, hout] at hlater
    refine status_of_reportsHotkey ?_ hstatus
    rw [hdaemon]
    exact hreports.run hlater

/-! ## Where commands come from -/

/-- A server that no client has connected to yet. What its daemon has to do already was not asked
for under a ticket that is still to be given out. -/
structure Unopened (s : Server σ) : Prop where
  connections : s.connections = []
  probe : s.daemon.probe = none
  waiting : ∀ x ∈ s.daemon.commands, x.1.index < s.issued

theorem Unused.unopened (hs : s.Unused) : s.Unopened where
  connections := hs.connections
  probe := hs.daemon.probe
  waiting := by simp [hs.daemon.commands]

/-- So the server begins, whether the settings have it register a chord or not. -/
theorem unopened_startup (startup : Startup) (system : σ) (injector : Injector) :
    (startup.server system injector).Unopened where
  connections := rfl
  probe := rfl
  waiting := by
    intro x hx
    replace hx : x ∈ startup.commands := hx
    show x.1.index < startup.commands.length
    unfold Startup.commands at hx ⊢
    split at hx
    · rw [List.mem_singleton.mp hx]
      exact Nat.zero_lt_one
    · cases hx

/-- Tickets are given out in order. -/
theorem issued_le_of_mem_sends {cs : List Choice} {x : Ticket × Command}
    (hx : x ∈ sends (s.daemonRun w crashReason cs)) : s.issued ≤ x.1.index := by
  induction cs generalizing s with
  | nil => cases hx
  | cons c cs ih =>
    rw [daemonRun, history, Daemon.sends_append] at hx
    rcases List.mem_append.mp hx with hx | hx
    · rw [sends_daemonMoves] at hx
      obtain ⟨_, -, rfl⟩ := List.mem_map.mp hx
      exact Nat.le_refl _
    · have hlater := ih hx
      rw [issued_step] at hlater
      omega

/-- A command that waits is the one that its ticket was given out for. -/
theorem Unopened.eq_of_waiting (hs : s.Unopened) {cs : List Choice} {t : Ticket}
    {command command' : Command} (hsent : (t, command) ∈ sends (s.daemonRun w crashReason cs))
    (hwaits : (t, command') ∈ (s.run w crashReason cs).1.daemon.commands) : command' = command := by
  have hbegin : s.daemon.Sent s.daemon.commands := ⟨fun _ ↦ id, by simp [hs.probe]⟩
  have hrun := hbegin.run w crashReason (s.daemonRun w crashReason cs)
  rw [← (s.daemon_run w crashReason cs).1] at hrun
  -- what waited from the beginning has an older ticket, and no two commands were sent under one
  rcases List.mem_append.mp (hrun.commands _ hwaits) with hold | hnew
  · have hlt := hs.waiting _ hold
    have hle := issued_le_of_mem_sends hsent
    exact absurd (Nat.lt_of_lt_of_le hlt hle) (Nat.lt_irrefl _)
  · have hnodup := (s.tickets_run w crashReason cs).1
    exact congrArg Prod.snd (List.inj_on_of_nodup_map hnodup hnew hsent rfl)

/-- A connection awaits only what one of its frames asked for. -/
theorem Unopened.exists_taken_of_awaits (hs : s.Unopened) {cs : List Choice} {i : Nat}
    {c : Connection} (hc : (s.run w crashReason cs).1.connections[i]? = some c) {t : Ticket}
    (ht : c.Awaits t) :
    ∃ m command, (m, t) ∈ s.taken w crashReason i cs ∧ Reception.ofFrame m = .ask command := by
  induction cs using List.reverseRecOn generalizing c with
  | nil =>
    rw [run, hs.connections] at hc
    cases hc
  | append_singleton cs choice ih =>
    rw [run_concat] at hc
    have hbefore {c : Connection} (hc : (s.run w crashReason cs).1.connections[i]? = some c)
        (ht : c.Awaits t) : ∃ m command,
        (m, t) ∈ s.taken w crashReason i (cs ++ [choice]) ∧ Reception.ofFrame m = .ask command := by
      obtain ⟨m, command, htaken, hm⟩ := ih hc ht
      refine ⟨m, command, ?_, hm⟩
      rw [taken, history_concat]
      exact List.mem_append_left _ htaken
    by_cases hchoice : choice = .connect
    · subst hchoice
      obtain hold | rfl := getElem?_connect hc
      · exact hbefore hold ht
      · cases ht.2
    · rw [((s.run w crashReason cs).1.turns_step w crashReason hchoice).connection] at hc
      obtain ⟨before, hi, rfl⟩ := Option.map_eq_some_iff.mp hc
      obtain ⟨hold | ⟨-, m, command, htakes, hm⟩, -⟩ :=
        awaits_of_actsIn (s := (s.run w crashReason cs).1) hi ht
      · exact hbefore hi hold
      · refine ⟨m, command, ?_, hm⟩
        rw [taken, history_concat]
        exact List.mem_append_right _ htakes

/-- What is answered that a chord is registered is announced in that step. -/
theorem announces_of_answered {choice : Choice} {t : Ticket} {shown : String}
    (h : .answered t (.registered shown) ∈ s.daemonOutputs w crashReason choice) :
    ∃ chord uptimeSecs, shown = chord.text ∧ choice = .daemon .takeCommand uptimeSecs ∧
      (t, .register (some chord)) ∈ s.daemon.commands ∧
      s.Announces w crashReason choice chord := by
  obtain ⟨c, hmoves, hc⟩ := exists_of_mem_daemonOutputs h
  obtain ⟨rfl, chord, hshown, hregisters⟩ := Daemon.registers_of_answered hc
  obtain ⟨uptimeSecs, rfl⟩ := eq_daemon_of_daemonMoves hmoves
  exact ⟨chord, uptimeSecs, hshown, rfl, hregisters.waiting,
    announces_of_registers hregisters uptimeSecs⟩

variable (w crashReason) in
/-- The chord that a request asks for is the one that is announced when the request is answered. -/
theorem Unopened.announces (hs : s.Unopened) {cs : List Choice} {choice : Choice} {i : Nat}
    {m : List UInt8} {t : Ticket} {chord : Chord} {shown : String}
    (htaken : (m, t) ∈ s.taken w crashReason i cs)
    (hm : Reception.ofFrame m = .ask (.register (some chord)))
    (h : .answered t (.registered shown) ∈
      (s.run w crashReason cs).1.daemonOutputs w crashReason choice) :
    shown = chord.text ∧ (s.run w crashReason cs).1.Announces w crashReason choice chord := by
  obtain ⟨chord', _, hshown, -, hwaits, hannounces⟩ := announces_of_answered h
  cases hs.eq_of_waiting (sent_of_taken htaken hm) hwaits
  exact ⟨hshown, hannounces⟩

variable (w crashReason) in
/-- A client whose request is answered that a chord is registered has asked for it. -/
theorem Unopened.exists_request (hs : s.Unopened) {cs : List Choice} {choice : Choice} {i : Nat}
    {shown : String} (h : .response (.hotkeyRegistered shown) ∈
      sentTo i ((s.run w crashReason cs).1.step w crashReason choice).2) :
    ∃ m t chord, (m, t) ∈ s.taken w crashReason i cs ∧
      Reception.ofFrame m = .ask (.register (some chord)) ∧
      .answered t (.registered shown) ∈
        (s.run w crashReason cs).1.daemonOutputs w crashReason choice := by
  obtain hprompt | ⟨c, _, t, b, hc, hb, hr, hawaits⟩ := answered_of_response h
  · cases hprompt
  · cases b with
    | registered shown =>
      cases hr
      obtain ⟨chord, _, -, rfl, hwaits, -⟩ := announces_of_answered hb
      obtain ⟨m, command, htaken, hm⟩ := hs.exists_taken_of_awaits hc (hawaits rfl)
      cases hs.eq_of_waiting (sent_of_taken htaken hm) hwaits
      exact ⟨m, t, chord, htaken, hm, hb⟩
    | _ => cases hr

variable (w crashReason) in
/-- A chord survives being shown and written back, and is told from others by its text. The text
that answers a request to register it is the one that everyone is told with the event, and the one
that the status shows until the hotkey is changed. -/
theorem hotkeys_survive (hs : s.Unopened) (cs : List Choice) (choice : Choice) :
    (∀ text chord, Chord.parse text = .ok chord → chord.Survives) ∧
      (∀ text text' chord chord', Chord.parse text = .ok chord → Chord.parse text' = .ok chord' →
        chord ≠ chord' → chord.text ≠ chord'.text) ∧
      (∀ i m t hotkey chord shown, (m, t) ∈ s.taken w crashReason i cs →
        Request.ofBytes m = .ok (.registerHotkey hotkey) → Chord.parse hotkey = .ok chord →
        .answered t (.registered shown) ∈
          (s.run w crashReason cs).1.daemonOutputs w crashReason choice →
        shown = chord.text ∧ (s.run w crashReason cs).1.Announces w crashReason choice chord) ∧
      ∀ i shown, .response (.hotkeyRegistered shown) ∈
          sentTo i ((s.run w crashReason cs).1.step w crashReason choice).2 →
        ∃ m t hotkey chord, (m, t) ∈ s.taken w crashReason i cs ∧
          Request.ofBytes m = .ok (.registerHotkey hotkey) ∧ Chord.parse hotkey = .ok chord ∧
          shown = chord.text ∧ (s.run w crashReason cs).1.Announces w crashReason choice chord := by
  refine ⟨fun _ _ ↦ Chord.survives, ?_, ?_, ?_⟩
  · intro text text' chord chord' h h' hne htext
    exact hne (Chord.text_injective h h' htext)
  · intro i m t hotkey chord shown htaken hm hparse h
    exact hs.announces w crashReason htaken
      (Reception.ofFrame_eq_register_iff.mpr ⟨hotkey, hm, hparse⟩) h
  · intro i shown h
    obtain ⟨m, t, chord, htaken, hask, hanswered⟩ := hs.exists_request w crashReason h
    obtain ⟨hotkey, hm, hparse⟩ := Reception.ofFrame_eq_register_iff.mp hask
    obtain ⟨hshown, hannounces⟩ := hs.announces w crashReason htaken hask hanswered
    exact ⟨m, t, hotkey, chord, htaken, hm, hparse, hshown, hannounces⟩

/-- A client asks to register a chord in words of its own. -/
def registration (hotkey : String) : List Choice :=
  [.connect, .arrive 0 (Frame.encode (Request.registering hotkey).bytes), .takeFrame 0 0]

/-- The chord is shown in the words of the daemon, and these are what the status tells. -/
theorem hotkeys_survive_of_aliases :
    let s := fresh .macAnsi 4
    let w := Daemon.permissive .macAnsi
    let start := (s.run w "" (registration " opt + ctrl++")).1
    let chord : Chord := ⟨.char '+', { control := true, alt := true }, rfl⟩
    s.Unopened ∧ Chord.parse " opt + ctrl++" = .ok chord ∧ chord.text = "Ctrl+Alt++" ∧
      chord.Survives ∧
      sentTo 0 (start.step w "" (.daemon .takeCommand 0)).2 =
        [.response (.hotkeyRegistered "Ctrl+Alt++")] ∧
      start.Announces w "" (.daemon .takeCommand 0) chord := by
  intro s w start chord
  have hs : s.Unopened := (unused_fresh .macAnsi 4).unopened
  have hparse : Chord.parse " opt + ctrl++" = .ok chord := by decide +kernel
  have hsent : sentTo 0 (start.step w "" (.daemon .takeCommand 0)).2 =
      [.response (.hotkeyRegistered "Ctrl+Alt++")] := by
    decide +kernel
  obtain ⟨hsurvives, -, hannounces, -⟩ :=
    hotkeys_survive w "" hs (registration " opt + ctrl++") (.daemon .takeCommand 0)
  refine ⟨hs, hparse, by decide +kernel, hsurvives _ chord hparse, hsent, ?_⟩
  exact (hannounces 0 (Request.registering " opt + ctrl++").bytes ⟨0⟩ " opt + ctrl++" chord
    "Ctrl+Alt++" (by decide +kernel) (Request.ofBytes_registering _) hparse (by decide +kernel)).2

end Server

end Typist

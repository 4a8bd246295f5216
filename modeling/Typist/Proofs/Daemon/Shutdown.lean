import Mathlib
import Typist.Proofs.Daemon.Completion
import Typist.Proofs.Engine.Cancelled
import Typist.Proofs.Engine.Apart
import Typist.Proofs.Typing.Released

/-!
# What a dispatcher leaves behind

A dispatcher that has stopped, on a command to shut down or because nobody is left who could send
one, does nothing more, and cannot be set going again. What is in flight then is cancelled, the
chord is released, and whoever waits for an answer, or sends a command later, only learns that it
has stopped. Only whoever types is still there, begins no further action, and goes.
-/

namespace Typist

/-! ## Flags -/

namespace Cancellation

/-- Raising a flag takes no token back. -/
theorem Issued.cancel {c : Cancellation} {u : Token} (h : c.Issued u) (t : Token) :
    (c.cancel t).Issued u := by
  rw [Issued, Cancellation.cancel, List.length_set]
  exact h

theorem issued_fresh (c : Cancellation) : c.fresh.1.Issued c.fresh.2 := by
  rw [Issued, fresh, List.length_append]
  exact Nat.lt_succ_self _

end Cancellation

/-- A monitor that is released has the listener stopped that it held. -/
theorem Monitor.unregister_eq {σ : Type} (p : Platform σ) (m : Monitor σ) :
    m.unregister p = ⟨(m.listener?.elim id p.stop) m.system, .none⟩ := by
  unfold unregister listener?
  cases m.registration <;> rfl

namespace Dispatcher

variable {σ : Type} {w : Surroundings σ} {d d' : Dispatcher σ} {es : List Effect}

/-- Whether the token of the sequence in flight was given out, so that it can be cancelled. -/
def Stoppable (d : Dispatcher σ) : Prop := ∀ t, d.running = some t → d.engine.flags.Issued t

theorem Starts.stoppable {entry : Entry} {template : Option String} {ticket : Option Ticket}
    (h : d.Starts entry template ticket d' es) (hd : d.Stoppable) : d'.Stoppable := by
  cases h with
  | started =>
    rintro t ⟨⟩
    exact d.engine.flags.issued_fresh
  | _ => exact hd

theorem Notices.stoppable {n : Notice} (h : d.Notices n d' es) (hd : d.Stoppable) :
    d'.Stoppable := by
  cases h with
  | armed _ hstarts => exact hstarts.stoppable hd
  | _ => exact hd

theorem Commands.stoppable {t : Ticket} {c : Command} (h : d.Commands w t c d' es)
    (hd : d.Stoppable) : d'.Stoppable := by
  cases h with
  | typed _ hstarts => exact hstarts.stoppable hd
  | cancelled => exact fun t ht ↦ (hd t ht).cancel _
  | _ => exact hd

/-- A dispatcher that stops raises the flag of the sequence in flight. -/
theorem Stoppable.isCancelled_stop (h : d.Stoppable) {t : Token} (ht : d.running = some t) :
    (d.stop w).engine.flags.isCancelled t = true := by
  have hcancel := Cancellation.isCancelled_cancel (h t ht) t
  simp only [stop, ht, Engine.cancelToken, hcancel, decide_true, Bool.true_or]

theorem typesAs_stop (w : Surroundings σ) (d : Dispatcher σ) :
    (d.stop w).engine.TypesAs d.engine := by
  unfold stop
  cases d.running <;> exact ⟨rfl, rfl⟩

end Dispatcher

namespace Daemon

variable {σ : Type} {w : Surroundings σ} {crashReason : String}

theorem Moves.stoppable {d : Daemon σ} {c : Choice} {s : Daemon σ × List Output} {es : List Effect}
    {rs : List Report} (hm : d.Moves w crashReason c s es rs) (h : d.dispatcher.Stoppable) :
    s.1.dispatcher.Stoppable := by
  have hengine {e : Engine} (he : e.flags = d.dispatcher.engine.flags) :
      Dispatcher.Stoppable { d.dispatcher with engine := e } := fun t ht ↦ he ▸ h t ht
  cases hm with
  | noticed _ _ hn =>
    rw [dispatcher_apply]
    exact hn.stoppable h
  | commanded _ _ _ hc =>
    rw [dispatcher_apply]
    exact hc.stoppable h
  | reported =>
    rw [dispatcher_apply]
    exact nofun
  | stopped => exact nofun
  | looked => exact hengine (Probe.flags_advance ..)
  | knew => exact hengine (Probe.flags_advance ..)
  | worked => exact hengine (Job.flags_advance ..)
  | cancelled =>
    intro t ht
    unfold Engine.cancel
    split
    · exact (h t ht).cancel _
    · exact h t ht
  | _ => exact h

variable (w crashReason) in
/-- Whatever is in flight can be cancelled. -/
theorem Idle.stoppable {d : Daemon σ} (hd : d.Idle) (cs : List Choice) :
    (d.run w crashReason cs).1.dispatcher.Stoppable := by
  induction cs using List.reverseRecOn with
  | nil =>
    intro t ht
    rw [run, hd.running] at ht
    cases ht
  | append_singleton cs c ih =>
    rw [run_concat]
    exact (moves w crashReason _ c).stoppable ih

variable (w crashReason) in
/-- What is in flight is what was started and is not reported yet. -/
theorem Idle.flight_inFlight {d : Daemon σ} (hd : d.Idle) {cs : List Choice}
    (hs : (d.run w crashReason cs).1.running = true) :
    ∃ o, (d.run w crashReason cs).1.Flight o ∧ d.inFlight w crashReason cs = o.toList := by
  obtain ⟨o, done, hf, hof, he⟩ := (Flight.grounded hd).run w crashReason cs hs
  rw [Option.toList_none, List.nil_append] at he
  refine ⟨o, hf, ?_⟩
  rw [inFlight, he, hof.length_eq, List.drop_left]

/-- The dispatcher keeps the token of what is in flight. -/
theorem Flight.running_eq {d : Daemon σ} {a : Assignment} (h : d.Flight (some a)) :
    d.dispatcher.running = some a.token := by
  cases h with
  | typing _ hr => exact hr
  | reported _ hr => exact hr

/-! ## Stopping -/

theorem refuse_append (ts us : List Ticket) : refuse (ts ++ us) = refuse ts ++ refuse us :=
  List.map_append

/-- Only these two steps make a dispatcher stop. -/
theorem Moves.stops {d : Daemon σ} {c : Choice} {s : Daemon σ × List Output} {es : List Effect}
    {rs : List Report} (hm : d.Moves w crashReason c s es rs) (hd : d.running = true)
    (hs : s.1.running = false) :
    es = [] ∧ (c = .takeCommand ∨ c = .abandon) := by
  have hno {p : Prop} (hs : d.running = false) : p := by
    rw [hd] at hs
    cases hs
  cases hm with
  | stopped _ _ _ hc => exact ⟨rfl, hc⟩
  | noticed =>
    rw [running_apply] at hs
    exact hno hs
  | commanded =>
    rw [running_apply] at hs
    exact hno hs
  | reported =>
    rw [running_apply] at hs
    exact hno hs
  | _ => exact hno hs

/-- A dispatcher stops on a command to shut down, which may have others behind it, or once it has
taken every command and nobody is left who could send one. -/
inductive Leaves (d : Daemon σ) : Choice → List (Ticket × Command) → Prop
  | shutdown {t : Ticket} {commands : List (Ticket × Command)} :
      d.commands = (t, .shutdown) :: commands → Leaves d .takeCommand commands
  | abandoned : d.commands = [] → Leaves d .abandon []

theorem Leaves.sends_eq {d : Daemon σ} {c : Choice} {commands : List (Ticket × Command)}
    (h : d.Leaves c commands) : sends [c] = [] := by
  cases h <;> rfl

theorem exists_refuse_halt (d : Daemon σ) : ∃ ts, (d.halt w).2 = refuse ts :=
  ⟨_, (refuse_append _ _).symm⟩

variable (w crashReason) in
/-- A dispatcher that stops halts on what waits then. -/
theorem exists_halt {d : Daemon σ} {c : Choice} (hd : d.running = true)
    (hs : (d.step w crashReason c).1.running = false) :
    d.starts w c = [] ∧ ∃ commands, d.Leaves c commands ∧
      d.step w crashReason c = { d with commands }.halt w := by
  obtain ⟨hes, rfl | rfl⟩ := (d.moves w crashReason c).stops hd hs
  all_goals refine ⟨congrArg Effect.assignments hes, ?_⟩
  · rw [step] at hs ⊢
    obtain ⟨hsame, -⟩ | ⟨t, b, rest, -, -, -, htake⟩ | ⟨t, rest, -, hcs, htake⟩ :=
      d.takeCommand_cases w
    · rw [hsame] at hs
      exact Bool.noConfusion (hd.symm.trans hs)
    · rw [htake, running_apply] at hs
      exact Bool.noConfusion (hd.symm.trans hs)
    · exact ⟨rest, .shutdown hcs, htake⟩
  · rw [step, abandon] at hs ⊢
    split at hs
    · next hempty =>
      rw [Bool.and_eq_true, List.isEmpty_iff] at hempty
      refine ⟨[], .abandoned hempty.2, ?_⟩
      rw [if_pos (by simp [hempty])]
      simp [halt, hempty.2]
    · exact Bool.noConfusion (hd.symm.trans hs)

end Daemon

/-! ## Machines -/

/-- A daemon whose dispatcher is to be set going. -/
structure Machine (σ : Type) extends Daemon σ where
  /-- Whether it has the end of the queue at which reports are taken. The dispatcher gives it away
  when it is set going, and does not go without it. -/
  hasInbox : Bool := true

namespace Machine

open Daemon (Output refuse awaiting answered events)

variable {σ : Type}

/-- Sets the dispatcher going on queues of notices and commands. If it does not go, it lets go of
both. -/
def start (m : Machine σ) (notices : NoticeQueue) (commands : List (Ticket × Command)) :
    Machine σ × List Output :=
  if m.hasInbox then ({ m with notices, commands, running := true, hasInbox := false }, [])
  else (m, refuse (awaiting commands))

/-- What is done with a machine. -/
inductive Choice
  | start (notices : NoticeQueue) (commands : List (Ticket × Command))
  | step (c : Daemon.Choice)

variable (w : Surroundings σ) (crashReason : String)

/-- One step. -/
def step (m : Machine σ) : Choice → Machine σ × List Output
  | .start notices commands => m.start notices commands
  | .step c =>
    ({ m with toDaemon := (m.toDaemon.step w crashReason c).1 },
      (m.toDaemon.step w crashReason c).2)

/-- A run: what the outside saw, in order. -/
def run (m : Machine σ) : List Choice → Machine σ × List Output
  | [] => (m, [])
  | c :: cs =>
    let (m, out) := m.step w crashReason c
    let (m, later) := m.run cs
    (m, out ++ later)

/-- The commands that are sent, also those that a dispatcher is set going on. -/
def sends (cs : List Choice) : List (Ticket × Command) :=
  cs.flatMap fun
    | .start _ commands => commands
    | .step c => Daemon.sends [c]

theorem awaiting_sends_cons (c : Choice) (cs : List Choice) :
    awaiting (sends (c :: cs)) = awaiting (sends [c]) ++ awaiting (sends cs) := by
  rw [← Daemon.awaiting_append]
  simp [sends]

/-- The assignments that are handed out in a step. -/
def starts (m : Machine σ) : Choice → List Assignment
  | .start .. => []
  | .step c => m.toDaemon.starts w c

/-- What happens to sequences in a step. -/
def happens (m : Machine σ) : Choice → List Incident
  | .step (.work i) => (m.workers[i]?.map fun v ↦ v.job.glimpse m.dispatcher.engine).getD []
  | .step (.reply i r) => (m.workers[i]?.map fun v ↦ v.job.hearing r).getD []
  | _ => []

/-- What is done in the steps of a run, in order. -/
def history {α : Type} (f : Machine σ → Choice → List α) (m : Machine σ) : List Choice → List α
  | [] => []
  | c :: cs => f m c ++ (m.step w crashReason c).1.history f cs

/-! ## Once it has stopped -/

/-- Whether the dispatcher of a machine has stopped for good. -/
structure Stopped (m : Machine σ) : Prop extends Daemon.Moving m.toDaemon where
  hasInbox : m.hasInbox = false
  running : m.running = false
  registration : m.dispatcher.monitor.registration = .none

/-- What a step can do once the dispatcher has stopped: the machine and the outputs after it, and
what happens to the sequence that is still being typed. -/
inductive Lingers (m : Machine σ) : Choice → Machine σ × List Output → List Incident → Prop
  | still (c : Choice) : Lingers m c (m, refuse (awaiting (sends [c]))) []
  | worked {i : Nat} {v : Worker} : m.workers[i]? = some v →
      Lingers m (.step (.work i))
        ({ m with
            toDaemon := m.putJob i v (v.job.advance w.trusted m.dispatcher.engine).1
              (v.job.advance w.trusted m.dispatcher.engine).2 }, [])
        (v.job.glimpse m.dispatcher.engine)
  | replied {i : Nat} {v : Worker} (r : NativeReply) : m.workers[i]? = some v →
      Lingers m (.step (.reply i r))
        ({ m with toDaemon := m.putJob i v m.dispatcher.engine (v.job.answer r) }, [])
        (v.job.hearing r)
  | crashed {i : Nat} {v : Worker} : m.workers[i]? = some v →
      Lingers m (.step (.crash i))
        ({ m with toDaemon := m.putJob i v m.dispatcher.engine v.job.crash }, []) []
  | late {i : Nat} {v : Worker} : m.workers[i]? = some v →
      Lingers m (.step (.handIn i))
        ({ m with workers := m.workers.eraseIdx i }, refuse v.ticket.toList) []
  | cancelled :
      Lingers m (.step .cancelEngine)
        ({ m with dispatcher.engine := m.dispatcher.engine.cancel }, []) []

variable {m : Machine σ}

theorem Stopped.isTaking (h : m.Stopped) : m.isTaking = false := by
  rw [Daemon.isTaking, h.running]
  rfl

variable {w} in
/-- A step that does nothing but to refuse what is sent in it. -/
theorem lingers_of_still {c : Choice} {s : Machine σ × List Output} {is : List Incident}
    (hs : s = (m, refuse (awaiting (sends [c])))) (his : is = []) : m.Lingers w c s is := by
  rw [hs, his]
  exact .still c

/-- Every step does one of these then. -/
theorem Stopped.lingers (h : m.Stopped) (c : Choice) :
    m.Lingers w c (m.step w crashReason c) (m.happens c) := by
  obtain ⟨-, hprobe, -⟩ := h.stopped h.running
  have hstill {c : Daemon.Choice} (hc : Daemon.sends [c] = [])
      (hs : m.toDaemon.step w crashReason c = (m.toDaemon, [])) (hh : m.happens (.step c) = []) :
      m.Lingers w (.step c) (m.step w crashReason (.step c)) (m.happens (.step c)) := by
    refine lingers_of_still ?_ hh
    simp only [sends, List.flatMap_singleton, hc, step, hs]
    rfl
  cases c with
  | start notices commands =>
    refine lingers_of_still ?_ rfl
    simp [sends, step, start, h.hasInbox]
  | step c =>
    cases c with
    | notice n =>
      refine hstill rfl ?_ rfl
      simp [Daemon.step, Monitor.isRegistered, Monitor.chord?, h.registration]
    | send t b =>
      have hsend : m.toDaemon.send t b = (m.toDaemon, refuse (awaiting [(t, b)])) := by
        unfold Daemon.send
        rw [h.running]
        cases b <;> rfl
      refine lingers_of_still ?_ rfl
      simp only [sends, List.flatMap_singleton, step, Daemon.step, hsend]
      rfl
    | takeNotice => exact hstill rfl (by simp [Daemon.step, Daemon.takeNotice, h.isTaking]) rfl
    | takeCommand => exact hstill rfl (by simp [Daemon.step, Daemon.takeCommand, h.isTaking]) rfl
    | abandon => exact hstill rfl (by simp [Daemon.step, Daemon.abandon, h.isTaking]) rfl
    | takeReport ms => exact hstill rfl (by simp [Daemon.step, Daemon.takeReport, h.isTaking]) rfl
    | lookOn => exact hstill rfl (by simp [Daemon.step, Daemon.lookOn, hprobe]) rfl
    | work i =>
      cases hv : m.workers[i]? with
      | none => exact hstill rfl (by simp [Daemon.step, hv]) (by simp [happens, hv])
      | some v =>
        simp only [step, Daemon.step, happens, hv]
        exact .worked hv
    | reply i r =>
      cases hv : m.workers[i]? with
      | none => exact hstill rfl (by simp [Daemon.step, hv]) (by simp [happens, hv])
      | some v =>
        simp only [step, Daemon.step, happens, hv]
        exact .replied r hv
    | crash i =>
      cases hv : m.workers[i]? with
      | none => exact hstill rfl (by simp [Daemon.step, hv]) rfl
      | some v =>
        simp only [step, Daemon.step, happens, hv]
        exact .crashed hv
    | handIn i =>
      cases hv : m.workers[i]? with
      | none => exact hstill rfl (by simp [Daemon.step, Daemon.handIn, hv]) rfl
      | some v =>
        cases hr : v.report? crashReason with
        | none => exact hstill rfl (by simp [Daemon.step, Daemon.handIn, hv, hr]) rfl
        | some r =>
          have hlate : m.toDaemon.handIn crashReason i =
              ({ m.toDaemon with workers := m.workers.eraseIdx i }, refuse v.ticket.toList) := by
            simp [Daemon.handIn, hv, hr, h.running, Daemon.ticket_of_report? hr]
          rw [step, Daemon.step, hlate]
          exact .late hv
    | cancelEngine => exact .cancelled

variable {w} in
/-- Nothing goes out but refusals. -/
theorem Lingers.exists_refuse {c : Choice} {s : Machine σ × List Output} {is : List Incident}
    (h : m.Lingers w c s is) : ∃ ts, s.2 = refuse ts := by
  cases h with
  | still => exact ⟨_, rfl⟩
  | late => exact ⟨_, rfl⟩
  | _ => exact ⟨[], rfl⟩

variable {w} in
/-- The monitor is left alone, and no flag is lowered. -/
theorem Lingers.frame {c : Choice} {s : Machine σ × List Output} {is : List Incident}
    (h : m.Lingers w c s is) :
    s.1.hasInbox = m.hasInbox ∧ s.1.running = m.running ∧
      s.1.dispatcher.monitor = m.dispatcher.monitor ∧
      ∀ t, m.dispatcher.engine.flags.isCancelled t = true →
        s.1.dispatcher.engine.flags.isCancelled t = true := by
  cases h with
  | worked =>
    refine ⟨rfl, rfl, rfl, fun t ht ↦ ?_⟩
    rw [Daemon.putJob, Job.flags_advance]
    exact ht
  | cancelled => exact ⟨rfl, rfl, rfl, m.dispatcher.engine.keeps_cancel.flags⟩
  | _ => exact ⟨rfl, rfl, rfl, fun _ ht ↦ ht⟩

/-- It stays stopped. -/
theorem Stopped.step (h : m.Stopped) (c : Choice) : (m.step w crashReason c).1.Stopped := by
  obtain ⟨hinbox, hrunning, hmonitor, -⟩ := (h.lingers w crashReason c).frame
  refine ⟨?_, hinbox.trans h.hasInbox, hrunning.trans h.running, ?_⟩
  · cases c with
    | start notices commands =>
      rw [Machine.step, start, h.hasInbox]
      exact h.toMoving
    | step c => exact (m.toDaemon.moves w crashReason c).moving h.toMoving
  · rw [hmonitor]
    exact h.registration

theorem Stopped.starts_eq (h : m.Stopped) (c : Choice) : m.starts w c = [] := by
  cases c with
  | start notices commands => rfl
  | step c =>
    cases c with
    | takeNotice => simp [starts, Daemon.starts, Daemon.effects, h.isTaking, Effect.assignments]
    | takeCommand => simp [starts, Daemon.starts, Daemon.effects, h.isTaking, Effect.assignments]
    | takeReport => simp [starts, Daemon.starts, Daemon.effects, h.isTaking, Effect.assignments]
    | _ => rfl

/-- Only whoever types still owes an answer. -/
theorem Stopped.outstanding (h : m.Stopped) :
    m.outstanding = m.workers.filterMap (·.ticket) := by
  obtain ⟨hcommands, hprobe, hreports⟩ := h.stopped h.running
  simp [Daemon.outstanding, awaiting, hcommands, hprobe, hreports]

theorem Stopped.account_step (h : m.Stopped) (c : Choice) (t : Ticket) :
    (answered (m.step w crashReason c).2).count t +
        (m.step w crashReason c).1.outstanding.count t =
      m.outstanding.count t + (awaiting (sends [c])).count t := by
  cases c with
  | start notices commands =>
    have hsends : sends [.start notices commands] = commands := by simp [sends]
    rw [hsends, Machine.step, start, h.hasInbox, Nat.add_comm]
    simp
  | step c =>
    have hsends : sends [.step c] = Daemon.sends [c] := by simp [sends]
    rw [hsends]
    exact Daemon.account_step w crashReason m.toDaemon c t

/-- What stays as it is once the dispatcher of a machine has stopped, whatever is done then. -/
structure Remains (m : Machine σ) (cs : List Choice) : Prop where
  stopped : (m.run w crashReason cs).1.Stopped
  monitor : (m.run w crashReason cs).1.dispatcher.monitor = m.dispatcher.monitor
  flags : ∀ t, m.dispatcher.engine.flags.isCancelled t = true →
    (m.run w crashReason cs).1.dispatcher.engine.flags.isCancelled t = true
  refuses : ∃ ts, (m.run w crashReason cs).2 = refuse ts
  starts : m.history w crashReason (starts w) cs = []
  account : ∀ t, (answered (m.run w crashReason cs).2).count t +
      (m.run w crashReason cs).1.outstanding.count t =
    m.outstanding.count t + (awaiting (sends cs)).count t

theorem Stopped.remains (h : m.Stopped) (cs : List Choice) : m.Remains w crashReason cs := by
  induction cs generalizing m with
  | nil => exact ⟨h, rfl, fun _ ht ↦ ht, ⟨[], rfl⟩, rfl, fun t ↦ Nat.zero_add _⟩
  | cons c cs ih =>
    have hlingers := h.lingers w crashReason c
    obtain ⟨-, -, hmonitor, hflags⟩ := hlingers.frame
    obtain ⟨ts, hts⟩ := hlingers.exists_refuse
    have hrest := ih (h.step w crashReason c)
    obtain ⟨us, hus⟩ := hrest.refuses
    refine ⟨hrest.stopped, hrest.monitor.trans hmonitor, fun t ht ↦ hrest.flags t (hflags t ht),
      ⟨ts ++ us, ?_⟩, ?_, fun t ↦ ?_⟩
    · rw [Daemon.refuse_append, ← hts, ← hus]
      rfl
    · rw [history, h.starts_eq, List.nil_append]
      exact hrest.starts
    · have hstep := h.account_step w crashReason c t
      have hlater := hrest.account t
      rw [awaiting_sends_cons, List.count_append]
      simp only [run, Daemon.answered_append, List.count_append]
      omega

/-! ## Whoever still types -/

variable {w crashReason} {p : Script TypingResult} {before after : List Incident}

/-- Whether whoever still types, if anyone does, has come so far through a script, finds the
sequence cancelled at every look, and has found it so since the dispatcher stopped. -/
structure Ebbs (w : Surroundings σ) (p : Script TypingResult) (before after : List Incident)
    (m : Machine σ) : Prop where
  leads : ∃ s, p.Leads (before ++ after) s
  looked : ∀ b, .looked b ∈ after → b = true
  worker : m.workers = [] ∨ ∃ v, m.workers = [v] ∧ v.job.stage.Came p (before ++ after) ∧
    m.dispatcher.engine.flags.isCancelled v.job.token = true ∧
    m.dispatcher.engine.script w.trusted v.job.sequence = p

theorem Ebbs.of_worker (h : m.Ebbs w p before after) {i : Nat} {v : Worker}
    (hv : m.workers[i]? = some v) :
    i = 0 ∧ m.workers = [v] ∧ v.job.stage.Came p (before ++ after) ∧
      m.dispatcher.engine.flags.isCancelled v.job.token = true ∧
      m.dispatcher.engine.script w.trusted v.job.sequence = p := by
  obtain hw | ⟨u, hw, hu⟩ := h.worker
  · rw [hw] at hv
    cases hv
  · rw [hw] at hv
    cases i with
    | zero =>
      cases hv
      exact ⟨rfl, hw, hu⟩
    | succ i => cases hv

/-- Whoever types goes on, and sees nothing but that the sequence is cancelled. -/
theorem Ebbs.putJob (h : m.Ebbs w p before after) {i : Nat} {v : Worker}
    (hv : m.workers[i]? = some v) {engine : Engine} {job : Job} {is : List Incident}
    (hcame : job.stage.Came p (before ++ after ++ is)) (hlooked : ∀ b, .looked b ∈ is → b = true)
    (hframe : job.sequence = v.job.sequence ∧ job.token = v.job.token)
    (hflags : engine.flags = m.dispatcher.engine.flags)
    (htypes : engine.TypesAs m.dispatcher.engine) :
    Ebbs w p before (after ++ is) { m with toDaemon := m.putJob i v engine job } := by
  obtain ⟨rfl, hw, -, hflag, hscript⟩ := h.of_worker hv
  rw [List.append_assoc] at hcame
  refine ⟨hcame.exists_leads, fun b hb ↦ ?_, .inr ⟨{ v with job }, ?_, hcame, ?_, ?_⟩⟩
  · exact (List.mem_append.mp hb).elim (h.looked b) (hlooked b)
  · simp [Daemon.putJob, hw]
  · rw [hframe.2]
    exact hflags ▸ hflag
  · rw [hframe.1]
    exact (htypes.script ..).trans hscript

theorem Lingers.ebbs {c : Choice} {s : Machine σ × List Output} {is : List Incident}
    (h : m.Lingers w c s is) (hm : m.Ebbs w p before after) :
    s.1.Ebbs w p before (after ++ is) := by
  cases h with
  | still =>
    rw [List.append_nil]
    exact hm
  | @worked i v hv =>
    obtain ⟨-, -, hcame, hflag, hscript⟩ := hm.of_worker hv
    refine hm.putJob hv (Job.came_advance hcame fun _ ↦ hscript) ?_ (Job.advance_frame ..)
      (Job.flags_advance ..) (Job.typesAs_advance ..)
    intro b hb
    unfold Job.glimpse at hb
    split at hb
    · cases List.mem_singleton.mp hb
      exact hflag
    · cases hb
  | @replied i v r hv =>
    obtain ⟨-, -, hcame, -⟩ := hm.of_worker hv
    refine hm.putJob hv (Job.came_answer hcame r) ?_ (Job.answer_frame ..) rfl ⟨rfl, rfl⟩
    intro b hb
    unfold Job.hearing at hb
    cases hp : v.job.pending? <;> simp [hp] at hb
  | crashed hv =>
    obtain ⟨-, -, hcame, -⟩ := hm.of_worker hv
    refine hm.putJob hv ?_ nofun (Job.crash_frame _) rfl ⟨rfl, rfl⟩
    rw [List.append_nil]
    exact Job.came_crash hcame
  | late hv =>
    obtain ⟨rfl, hw, -⟩ := hm.of_worker hv
    rw [List.append_nil]
    refine ⟨hm.leads, hm.looked, .inl ?_⟩
    rw [hw]
    rfl
  | cancelled =>
    rw [List.append_nil]
    refine ⟨hm.leads, hm.looked, hm.worker.imp_right ?_⟩
    rintro ⟨v, hw, hcame, hflag, hscript⟩
    exact ⟨v, hw, hcame, m.dispatcher.engine.keeps_cancel.flags _ hflag,
      ((Engine.typesAs_cancel _).script ..).trans hscript⟩

variable (w crashReason) in
theorem Ebbs.run (h : m.Ebbs w p before after) (hm : m.Stopped) (cs : List Choice) :
    (m.run w crashReason cs).1.Ebbs w p before
      (after ++ m.history w crashReason happens cs) := by
  induction cs generalizing m after with
  | nil =>
    rw [history, List.append_nil]
    exact h
  | cons c cs ih =>
    have hrest := ih ((hm.lingers w crashReason c).ebbs h) (hm.step w crashReason c)
    rw [List.append_assoc] at hrest
    exact hrest

/-- A look since then finds the sequence cancelled, and is the last one. -/
theorem Ebbs.subsides {engine : Engine} {sequence : Sequence}
    (h : Ebbs w (engine.script w.trusted sequence) before after m) {pre post : List Incident}
    {b : Bool} (hafter : after = pre ++ .looked b :: post) :
    b = true ∧ (∀ b, .looked b ∉ post) ∧
      ∃ k, engine.injector.keyboard = some k ∧
        Incident.calls post <+: Script.releases k.layout := by
  obtain rfl := h.looked b (by rw [hafter]; simp)
  obtain ⟨s, hleads⟩ := h.leads
  rw [hafter, ← List.append_assoc] at hleads
  obtain ⟨k, hk, hcalls, hlooks⟩ := Engine.releases_of_looked hleads
  exact ⟨rfl, hlooks, k, hk, hcalls⟩

/-- No action is begun since then. -/
theorem Ebbs.begun_eq (h : m.Ebbs w p before after) : Incident.begun after = 0 := by
  refine List.countP_eq_zero.mpr fun i hi ↦ ?_
  cases i with
  | called => exact Bool.false_ne_true
  | looked b =>
    rw [h.looked b hi]
    exact Bool.false_ne_true

variable (w crashReason) in
/-- Whoever types when the dispatcher stops is cancelled. -/
theorem exists_ebbs {d : Daemon σ} (hd : d.Idle) {cs : List Daemon.Choice}
    (hs : (d.run w crashReason cs).1.running = true) (commands : List (Ticket × Command))
    (hasInbox : Bool) :
    ∃ s before, Ebbs w (d.dispatcher.engine.script w.trusted s) before []
      { toDaemon := ({ (d.run w crashReason cs).1 with commands }.halt w).1, hasInbox } := by
  obtain ⟨o, hf, hunder⟩ := hd.underway w crashReason cs hs
  have hgone (hw : (d.run w crashReason cs).1.workers = []) (s : Sequence) :
      Ebbs w (d.dispatcher.engine.script w.trusted s) [] []
        { toDaemon := ({ (d.run w crashReason cs).1 with commands }.halt w).1, hasInbox } :=
    ⟨⟨_, .stays _⟩, nofun, .inl hw⟩
  cases hf with
  | grounded hidle => exact ⟨.empty, [], hgone hidle.workers _⟩
  | @reported a _ _ _ hw => exact ⟨a.sequence, [], hgone hw _⟩
  | @typing a v _ hrunning hw _ htypes =>
    obtain ⟨xs, -, hcarries⟩ := hunder a rfl
    obtain ⟨before, hcame, -⟩ := Stage.has_iff.mp (hcarries.workers v (by simp [hw]))
    rw [← List.append_nil before] at hcame
    have hstop := Dispatcher.typesAs_stop w (d.run w crashReason cs).1.dispatcher
    have htypesAs := Daemon.typesAs_run w crashReason d cs hs
    refine ⟨a.sequence, before, hcame.exists_leads, nofun, .inr ⟨v, hw, hcame, ?_, ?_⟩⟩
    · rw [htypes.2.1]
      exact (hd.stoppable w crashReason cs).isCancelled_stop hrunning
    · rw [htypes.1]
      exact (hstop.script ..).trans (htypesAs.script ..)

/-! ## Lives -/

/-- What is done with a machine whose dispatcher comes to stop. -/
structure Life where
  /-- The queues that it is set going on. -/
  notices : NoticeQueue
  commands : List (Ticket × Command)
  /-- What is done until it stops. -/
  before : List Daemon.Choice
  /-- The step in which it stops. -/
  stop : Daemon.Choice
  after : List Choice

namespace Life

variable (w : Surroundings σ) (crashReason : String) (m : Machine σ) (l : Life)

/-- The daemon when it is set going. -/
def launched : Daemon σ := (m.start l.notices l.commands).1.toDaemon

/-- The machine before the dispatcher stops, and what the outside has seen. -/
def going : Machine σ × List Output :=
  m.run w crashReason (.start l.notices l.commands :: l.before.map .step)

/-- The machine once it has stopped, and what the outside sees of this step. -/
def stopped : Machine σ × List Output :=
  (l.going w crashReason m).1.step w crashReason (.step l.stop)

/-- The machine after all that is done then, and what the outside sees of it. -/
def ended : Machine σ × List Output :=
  (l.stopped w crashReason m).1.run w crashReason l.after

/-- What the outside sees from the step on in which the dispatcher stops. -/
def farewell : List Output := (l.stopped w crashReason m).2 ++ (l.ended w crashReason m).2

/-- What happens to sequences after it has stopped. -/
def aftermath : List Incident := (l.stopped w crashReason m).1.history w crashReason happens l.after

/-- Who sends a command that is to be answered. -/
def requests : List Ticket := awaiting (l.commands ++ Daemon.sends l.before ++ sends l.after)

end Life

/-- A machine that nothing has happened to yet. -/
structure Unused (m : Machine σ) : Prop extends Daemon.Unused m.toDaemon where
  hasInbox : m.hasInbox = true

variable (w crashReason) in
/-- Whether a dispatcher that stops leaves nothing running. -/
structure Ceases (m : Machine σ) (l : Life) : Prop where
  /-- It stops on a command to shut down, or because nobody is left who could send one. -/
  leaves : ∃ commands, (l.going w crashReason m).1.Leaves l.stop commands
  /-- The sequence in flight is cancelled and stays so, -/
  cancelled : ∀ a ∈ (l.launched m).inFlight w crashReason l.before,
    (l.ended w crashReason m).1.dispatcher.engine.flags.isCancelled a.token = true
  /-- no further action of it is begun, -/
  begun : Incident.begun (l.aftermath w crashReason m) = 0
  /-- the next look finds it cancelled, and is the last one: nothing is called behind it but the
  releases of the modifiers. -/
  subsides : ∀ pre b post, l.aftermath w crashReason m = pre ++ .looked b :: post →
    b = true ∧ (∀ b, .looked b ∉ post) ∧
      ∃ k, m.dispatcher.engine.injector.keyboard = some k ∧
        Incident.calls post <+: Script.releases k.layout
  /-- The chord is released, and the listener that was held for it is stopped. -/
  monitor : (l.ended w crashReason m).1.dispatcher.monitor =
    ⟨((l.going w crashReason m).1.dispatcher.monitor.listener?.elim id w.platform.stop)
      (l.going w crashReason m).1.dispatcher.monitor.system, .none⟩
  /-- No event is shown, and no sequence started. -/
  events : events (l.farewell w crashReason m) = []
  starts : (l.going w crashReason m).1.starts w (.step l.stop) ++
    (l.stopped w crashReason m).1.history w crashReason (starts w) l.after = []
  /-- Whoever is still answered learns that the dispatcher has stopped. -/
  answers : ∀ t a, .answered t a ∈ l.farewell w crashReason m → a = .refused .stopped
  /-- This is everybody who was not answered before, each once, except that whoever types may still
  owe an answer, -/
  account : ∀ t, (answered (l.going w crashReason m).2).count t +
      (answered (l.farewell w crashReason m)).count t +
      ((l.ended w crashReason m).1.workers.filterMap (·.ticket)).count t =
    (l.requests).count t
  /-- and can always come to give it. -/
  settles : ∃ ms, Daemon.sends ms = [] ∧
    ((l.ended w crashReason m).1.toDaemon.run w crashReason ms).1.outstanding = []
  /-- Setting it going again does nothing. -/
  again : ∀ notices commands,
    (l.ended w crashReason m).1.start notices commands =
      ((l.ended w crashReason m).1, refuse (awaiting commands))

theorem run_map_step (m : Machine σ) (cs : List Daemon.Choice) :
    m.run w crashReason (cs.map .step) =
      ({ m with toDaemon := (m.toDaemon.run w crashReason cs).1 },
        (m.toDaemon.run w crashReason cs).2) := by
  induction cs generalizing m with
  | nil => rfl
  | cons c cs ih =>
    simp only [List.map_cons, run, step, ih]
    rfl

/-- A machine that nothing has happened to goes. -/
theorem Unused.start_eq (hm : m.Unused) (notices : NoticeQueue)
    (commands : List (Ticket × Command)) :
    m.start notices commands =
      ({ m with notices, commands, running := true, hasInbox := false }, []) :=
  if_pos hm.hasInbox

theorem Unused.launched (hm : m.Unused) (l : Life) :
    (l.launched m).Idle ∧ (l.launched m).Moving ∧
      (l.launched m).outstanding = awaiting l.commands ∧
      (l.launched m).dispatcher = m.dispatcher := by
  rw [Life.launched, hm.start_eq]
  refine ⟨⟨hm.state, hm.running, hm.workers, hm.reports⟩, ⟨?_, nofun⟩, ?_, rfl⟩
  · simp [hm.workers]
  · simp [Daemon.outstanding, hm.probe, hm.workers, hm.reports]

theorem Unused.going_eq (hm : m.Unused) (l : Life) :
    l.going w crashReason m =
      ({ toDaemon := ((l.launched m).run w crashReason l.before).1, hasInbox := false },
        ((l.launched m).run w crashReason l.before).2) := by
  simp only [Life.going, run, step, run_map_step, Life.launched, hm.start_eq]
  rfl

theorem refuse_of_stopped {out : List Output} {ts : List Ticket} (h : out = refuse ts) :
    events out = [] ∧ ∀ t a, .answered t a ∈ out → a = .refused .stopped := by
  subst h
  exact ⟨Daemon.events_refuse ts, fun t a ↦ Daemon.eq_stopped_of_mem_refuse⟩

/-- A machine whose dispatcher stops has it stopped for good, with whoever types cancelled. -/
theorem Unused.stopped (hm : m.Unused) (l : Life)
    (hgoing : (l.going w crashReason m).1.running = true)
    (hstop : (l.stopped w crashReason m).1.running = false) :
    (l.stopped w crashReason m).1.Stopped ∧
      ∃ s before, (l.stopped w crashReason m).1.Ebbs w
        (m.dispatcher.engine.script w.trusted s) before [] := by
  obtain ⟨hidle, hmoving, -, hdispatcher⟩ := hm.launched l
  rw [Life.stopped, hm.going_eq] at hstop ⊢
  rw [hm.going_eq] at hgoing
  obtain ⟨-, commands, -, hhalt⟩ := Daemon.exists_halt w crashReason hgoing hstop
  have hmoved := (Daemon.moves w crashReason _ l.stop).moving
    (hmoving.run w crashReason l.before)
  constructor
  · refine ⟨hmoved, rfl, hstop, ?_⟩
    rw [step, hhalt]
    exact Monitor.registration_unregister ..
  · rw [step, hhalt, ← hdispatcher]
    exact exists_ebbs w crashReason hidle hgoing commands false

/-- Who was to be answered was answered before the dispatcher stopped, or is since then, or is owed
an answer by whoever types. -/
theorem Unused.account (hm : m.Unused) {l : Life} {commands : List (Ticket × Command)}
    (hleaves : (l.going w crashReason m).1.Leaves l.stop commands)
    (hremains : (l.stopped w crashReason m).1.Remains w crashReason l.after) (t : Ticket) :
    (answered (l.going w crashReason m).2).count t +
        (answered (l.farewell w crashReason m)).count t +
        ((l.ended w crashReason m).1.workers.filterMap (·.ticket)).count t =
      (l.requests).count t := by
  have hbefore : (answered (l.going w crashReason m).2).count t +
        (l.going w crashReason m).1.outstanding.count t =
      (awaiting l.commands).count t + (awaiting (Daemon.sends l.before)).count t := by
    obtain ⟨-, -, hlaunched, -⟩ := hm.launched l
    rw [hm.going_eq, ← hlaunched]
    exact Daemon.account_run w crashReason (l.launched m) l.before t
  have hstop : (answered (l.stopped w crashReason m).2).count t +
        (l.stopped w crashReason m).1.outstanding.count t =
      (l.going w crashReason m).1.outstanding.count t := by
    have hstep := Daemon.account_step w crashReason (l.going w crashReason m).1.toDaemon l.stop t
    rw [hleaves.sends_eq] at hstep
    exact hstep
  have hafter := hremains.account t
  rw [hremains.stopped.outstanding] at hafter
  simp only [Life.requests, Life.farewell, Life.ended, Daemon.answered_append,
    Daemon.awaiting_append, List.count_append]
  omega

variable (w crashReason) in
/-- A dispatcher that stops leaves nothing running, wherever it is then, and whatever is done with
it after that. -/
theorem nothing_left_running (hm : m.Unused) (l : Life)
    (hgoing : (l.going w crashReason m).1.running = true)
    (hstop : (l.stopped w crashReason m).1.running = false) : m.Ceases w crashReason l := by
  obtain ⟨hstopped, s, before, hebbs⟩ := hm.stopped l hgoing hstop
  obtain ⟨hidle, -⟩ := hm.launched l
  have hremains := hstopped.remains w crashReason l.after
  have hended := hebbs.run w crashReason hstopped l.after
  rw [List.nil_append] at hended
  -- the step in which it stops
  obtain ⟨hstarts, commands, hleaves, hhalt⟩ :=
    Daemon.exists_halt w crashReason hgoing hstop
  have hhalted : (l.stopped w crashReason m).2 =
      ({ (l.going w crashReason m).1.toDaemon with commands }.halt w).2 := congrArg Prod.snd hhalt
  obtain ⟨ts, hts⟩ := Daemon.exists_refuse_halt (w := w)
    { (l.going w crashReason m).1.toDaemon with commands }
  obtain ⟨us, hus⟩ := hremains.refuses
  have hfarewell : l.farewell w crashReason m = refuse (ts ++ us) := by
    rw [Life.farewell, Life.ended, hhalted, hts, hus, Daemon.refuse_append]
  obtain ⟨hevents, hanswers⟩ := refuse_of_stopped hfarewell
  have hdispatched : (l.stopped w crashReason m).1.dispatcher =
      (l.going w crashReason m).1.dispatcher.stop w :=
    congrArg (fun s ↦ s.1.dispatcher) hhalt
  refine ⟨⟨commands, hleaves⟩, ?_, ?_, ?_, ?_, hevents, ?_, hanswers, ?_, ?_, ?_⟩
  · intro a ha
    rw [hm.going_eq] at hgoing hdispatched
    obtain ⟨o, hf, ho⟩ := hidle.flight_inFlight w crashReason hgoing
    rw [ho, Option.mem_toList] at ha
    obtain rfl := ha
    apply hremains.flags
    rw [hdispatched]
    exact (hidle.stoppable w crashReason l.before).isCancelled_stop hf.running_eq
  · exact hended.begun_eq
  · exact fun pre b post ↦ hended.subsides
  · refine hremains.monitor.trans ?_
    rw [hdispatched]
    exact Monitor.unregister_eq ..
  · rw [hremains.starts, List.append_nil]
    exact hstarts
  · exact fun t ↦ hm.account hleaves hremains t
  · exact Daemon.exists_settled_of_stopped w crashReason hremains.stopped.toMoving
      hremains.stopped.running
  · intro notices commands
    exact if_neg (Bool.eq_false_iff.mp hremains.stopped.hasInbox)

/-- A machine with a keyboard to type on. -/
def fresh : Machine Unit := { toDaemon := { Daemon.fresh .macAnsi with running := false } }

/-- The dispatcher is to shut down before the only action of a sequence is begun, while a command
waits behind this one. It is set going again when everything is over. -/
def interrupted : Life where
  notices := ⟨32, []⟩
  commands := [(⟨0⟩, .autoType (some {}) (some "ab"))]
  before :=
    .takeCommand :: List.replicate 3 (.work 0) ++ List.replicate 2 (.reply 0 (.ok ())) ++
      [.send ⟨1⟩ .shutdown, .send ⟨2⟩ .status]
  stop := .takeCommand
  after :=
    List.replicate 2 (.step (.reply 0 (.ok ()))) ++ [.step (.work 0)] ++
      List.replicate 4 (.step (.reply 0 (.ok ()))) ++ List.replicate 5 (.step (.work 0)) ++
      [.step (.handIn 0), .step (.send ⟨3⟩ .disarm), .start ⟨32, []⟩ [(⟨4⟩, .status)]]

/-- The action is never begun, the modifiers are released to the end, and once more, and all who
wait learn that the dispatcher has stopped. -/
theorem nothing_left_running_of_interrupted :
    fresh.Unused ∧
      (interrupted.going (Daemon.permissive .macAnsi) "" fresh).1.running = true ∧
      (interrupted.stopped (Daemon.permissive .macAnsi) "" fresh).1.running = false ∧
      fresh.Ceases (Daemon.permissive .macAnsi) "" interrupted ∧
      Incident.calls (interrupted.aftermath (Daemon.permissive .macAnsi) "" fresh) =
        (Script.releases .macAnsi).drop 2 ++ Script.releases .macAnsi ∧
      interrupted.farewell (Daemon.permissive .macAnsi) "" fresh =
        refuse [⟨2⟩, ⟨0⟩, ⟨3⟩, ⟨4⟩] := by
  have hunused : fresh.Unused :=
    ⟨⟨⟨rfl, rfl, rfl, rfl⟩, rfl, rfl, rfl, rfl, rfl⟩, rfl⟩
  have hgoing : (interrupted.going (Daemon.permissive .macAnsi) "" fresh).1.running = true := by
    cbv
  have hstop : (interrupted.stopped (Daemon.permissive .macAnsi) "" fresh).1.running = false := by
    cbv
  have hceases := nothing_left_running _ _ hunused interrupted hgoing hstop
  refine ⟨hunused, hgoing, hstop, hceases, ?_, ?_⟩
  · decide +kernel
  · decide +kernel

end Machine

end Typist

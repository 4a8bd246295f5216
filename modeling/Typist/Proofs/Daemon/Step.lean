import Typist.Daemon
import Typist.Proofs.Daemon.Decisions

/-!
# Steps of the daemon

What one step does, part by part. Effects are carried out without a look at the state, so their
outcome is told by three filters: what goes out, what gets a worker, and what is looked up. A step
in which the dispatcher takes something carries out the effects it decides on, and the history of a
run is the history of these decisions.
-/

namespace Typist

/-! ## Effects -/

namespace Effect

/-- What the outside sees of an effect. -/
def output? : Effect → Option Daemon.Output
  | emit e => some (.emitted e)
  | answer t a => some (.answered t a)
  | _ => none

/-- The assignment that an effect hands out. -/
def assignment? : Effect → Option Assignment
  | start a => some a
  | _ => none

/-- The status command that an effect begins to carry out. -/
def probe? : Effect → Option Ticket
  | probe t => some t
  | _ => none

/-- What the outside sees of effects. -/
def outputs (es : List Effect) : List Daemon.Output := es.filterMap output?

/-- The assignments among effects. -/
def assignments (es : List Effect) : List Assignment := es.filterMap assignment?

/-- The status commands among effects. -/
def probes (es : List Effect) : List Ticket := es.filterMap probe?

/-- An answer to an owner hands out nothing. -/
@[simp] theorem assignments_toOwner (t : Option Ticket) (a : Answer) :
    assignments (toOwner t a) = [] := by
  cases t <;> rfl

end Effect

namespace Daemon

variable {σ : Type}

/-! ## Carrying out effects -/

section Apply

variable (d : Daemon σ) (es : List Effect)

/-- Carrying out effects leaves alone what the dispatcher takes from. -/
theorem apply_frame :
    (d.apply es).1.dispatcher = d.dispatcher ∧ (d.apply es).1.notices = d.notices ∧
      (d.apply es).1.commands = d.commands ∧ (d.apply es).1.reports = d.reports ∧
      (d.apply es).1.running = d.running := by
  induction es generalizing d with
  | nil => exact ⟨rfl, rfl, rfl, rfl, rfl⟩
  | cons e es ih => cases e <;> exact ih _

@[simp] theorem dispatcher_apply : (d.apply es).1.dispatcher = d.dispatcher := (d.apply_frame es).1

@[simp] theorem notices_apply : (d.apply es).1.notices = d.notices := (d.apply_frame es).2.1

@[simp] theorem commands_apply : (d.apply es).1.commands = d.commands := (d.apply_frame es).2.2.1

@[simp] theorem reports_apply : (d.apply es).1.reports = d.reports := (d.apply_frame es).2.2.2.1

@[simp] theorem running_apply : (d.apply es).1.running = d.running := (d.apply_frame es).2.2.2.2

/-- Every assignment gets a worker of its own, behind those that are there. -/
@[simp] theorem workers_apply :
    (d.apply es).1.workers =
      d.workers ++ (Effect.assignments es).map Worker.ofAssignment := by
  induction es generalizing d with
  | nil => exact (List.append_nil _).symm
  | cons e es ih =>
    cases e with
    | emit e => exact ih d
    | answer t a => exact ih d
    | probe t => exact ih _
    | start a =>
      rw [apply, ih, List.append_assoc]
      rfl

/-- Without a status command among the effects, nobody begins to look. -/
theorem probe_apply (h : Effect.probes es = []) : (d.apply es).1.probe = d.probe := by
  induction es generalizing d with
  | nil => rfl
  | cons e es ih =>
    cases e with
    | emit e => exact ih d h
    | answer t a => exact ih d h
    | start a => exact ih _ h
    | probe t => cases h

/-- Events and answers go out in the order of the effects. -/
@[simp] theorem snd_apply : (d.apply es).2 = Effect.outputs es := by
  induction es generalizing d with
  | nil => rfl
  | cons e es ih =>
    cases e with
    | emit e => exact congrArg (Output.emitted e :: ·) (ih d)
    | answer t a => exact congrArg (Output.answered t a :: ·) (ih d)
    | start a => exact ih _
    | probe t => exact ih _

end Apply

/-! ## Decisions -/

/-- The effects that the dispatcher decides on in a step. -/
def effects (w : Surroundings σ) (d : Daemon σ) : Choice → List Effect
  | .takeNotice =>
    match d.isTaking, d.notices.waiting with
    | true, n :: _ => (d.dispatcher.onNotice n).2
    | _, _ => []
  | .takeCommand =>
    match d.isTaking, d.commands with
    | true, (t, c) :: _ => (d.dispatcher.onCommand w t c).2
    | _, _ => []
  | .takeReport elapsedMs =>
    match d.isTaking, d.reports with
    | true, r :: _ => (d.dispatcher.onReport r elapsedMs).2
    | _, _ => []
  | _ => []

/-- The assignments that are handed out in a step. -/
def starts (w : Surroundings σ) (d : Daemon σ) (c : Choice) : List Assignment :=
  Effect.assignments (d.effects w c)

/-- The reports that the dispatcher takes in a step. -/
def closes (d : Daemon σ) : Choice → List Report
  | .takeReport _ => if d.isTaking then d.reports.head?.toList else []
  | _ => []

/-- The assignments that are handed out in a run, in order. -/
def started (w : Surroundings σ) (crashReason : String) (d : Daemon σ) :
    List Choice → List Assignment
  | [] => []
  | c :: cs => d.starts w c ++ (d.step w crashReason c).1.started w crashReason cs

/-- The reports that the dispatcher takes in a run, in order. -/
def closed (w : Surroundings σ) (crashReason : String) (d : Daemon σ) :
    List Choice → List Report
  | [] => []
  | c :: cs => d.closes c ++ (d.step w crashReason c).1.closed w crashReason cs

/-! ## Moves -/

variable (w : Surroundings σ) (crashReason : String)

/-- What a step can do: the daemon and the outputs after it, the effects that were decided on, and
the reports that were taken. -/
inductive Moves (d : Daemon σ) :
    Choice → Daemon σ × List Output → List Effect → List Report → Prop
  | still (c : Choice) : (∀ i, c = .work i → d.workers[i]? = none) → Moves d c (d, []) [] []
  | posted (n : Notice) : d.dispatcher.monitor.isRegistered = true →
      Moves d (.notice n) ({ d with notices := d.notices.post n }, []) [] []
  | sent (t : Ticket) (c : Command) : d.running = true →
      Moves d (.send t c) ({ d with commands := d.commands ++ [(t, c)] }, []) [] []
  | unheard (t : Ticket) (c : Command) (ts : List Ticket) : d.running = false →
      Moves d (.send t c) (d, refuse ts) [] []
  | noticed {n : Notice} {ns : List Notice} {dispatcher : Dispatcher σ} {es : List Effect} :
      d.isTaking = true → d.notices.waiting = n :: ns → d.dispatcher.Notices n dispatcher es →
      Moves d .takeNotice
        ({ d with notices := { d.notices with waiting := ns }, dispatcher }.apply es) es []
  | commanded {t : Ticket} {c : Command} {cs : List (Ticket × Command)}
      {dispatcher : Dispatcher σ} {es : List Effect} :
      d.isTaking = true → d.commands = (t, c) :: cs → c ≠ .shutdown →
      d.dispatcher.Commands w t c dispatcher es →
      Moves d .takeCommand ({ d with commands := cs, dispatcher }.apply es) es []
  | reported {r : Report} {rs : List Report} (elapsedMs : UInt64) : d.isTaking = true →
      d.reports = r :: rs →
      Moves d (.takeReport elapsedMs)
        ({ d with
            reports := rs
            dispatcher := (d.dispatcher.onReport r elapsedMs).1 }.apply
          (d.dispatcher.onReport r elapsedMs).2)
        (d.dispatcher.onReport r elapsedMs).2 [r]
  | stopped (c : Choice) (commands : List (Ticket × Command)) : d.isTaking = true →
      c = .takeCommand ∨ c = .abandon → Moves d c ({ d with commands }.halt w) [] []
  | looked {t : Ticket} {p : Probe} : d.probe = some (t, p) →
      Moves d .lookOn
        ({ d with
            dispatcher.engine := (p.advance w.trusted d.dispatcher.engine).1
            probe := some (t, (p.advance w.trusted d.dispatcher.engine).2) }, []) [] []
  | knew {t : Ticket} {p : Probe} {available : Bool} : d.probe = some (t, p) →
      (p.advance w.trusted d.dispatcher.engine).2 = .seen available →
      Moves d .lookOn
        ({ d with
            dispatcher.engine := (p.advance w.trusted d.dispatcher.engine).1
            probe := none }, [.answered t (.status (d.dispatcher.snapshot available))]) [] []
  | worked {i : Nat} {v : Worker} : d.workers[i]? = some v →
      Moves d (.work i)
        (d.putJob i v (v.job.advance w.trusted d.dispatcher.engine).1
          (v.job.advance w.trusted d.dispatcher.engine).2, []) [] []
  | replied {i : Nat} {v : Worker} (r : NativeReply) : d.workers[i]? = some v →
      Moves d (.reply i r) (d.putJob i v d.dispatcher.engine (v.job.answer r), []) [] []
  | crashed {i : Nat} {v : Worker} : d.workers[i]? = some v →
      Moves d (.crash i) (d.putJob i v d.dispatcher.engine v.job.crash, []) [] []
  | handedIn {i : Nat} {v : Worker} {r : Report} : d.workers[i]? = some v →
      v.report? crashReason = some r → d.running = true →
      Moves d (.handIn i)
        ({ d with workers := d.workers.eraseIdx i, reports := d.reports ++ [r] }, []) [] []
  | late {i : Nat} {v : Worker} {r : Report} : d.workers[i]? = some v →
      v.report? crashReason = some r → d.running = false →
      Moves d (.handIn i) ({ d with workers := d.workers.eraseIdx i }, refuse r.ticket.toList) [] []
  | cancelled :
      Moves d .cancelEngine ({ d with dispatcher.engine := d.dispatcher.engine.cancel }, []) [] []

/-- Every step is one of these moves. -/
theorem moves (d : Daemon σ) (c : Choice) :
    d.Moves w crashReason c (d.step w crashReason c) (d.effects w c) (d.closes c) := by
  cases c with
  | notice n =>
    simp only [step]
    split
    · next h => exact .posted n h
    · exact .still _ nofun
  | send t c =>
    simp only [step, send]
    split
    · next h => exact .sent t c h
    · next h =>
      have h := Bool.eq_false_iff.mpr h
      split
      · exact .unheard t _ [] h
      · exact .unheard t c [t] h
  | takeNotice =>
    cases ht : d.isTaking with
    | false =>
      simp only [step, takeNotice, effects, closes, ht]
      exact .still _ nofun
    | true =>
      cases hn : d.notices.waiting with
      | nil =>
        simp only [step, takeNotice, NoticeQueue.take?, effects, closes, ht, hn]
        exact .still _ nofun
      | cons n ns =>
        simp only [step, takeNotice, NoticeQueue.take?, effects, closes, ht, hn, if_true]
        exact .noticed ht hn (d.dispatcher.notices n)
  | takeCommand =>
    cases ht : d.isTaking with
    | false =>
      simp only [step, takeCommand, effects, closes, ht]
      exact .still _ nofun
    | true =>
      cases hc : d.commands with
      | nil =>
        simp only [step, takeCommand, effects, closes, ht, hc]
        exact .still _ nofun
      | cons tc cs =>
        obtain ⟨t, c⟩ := tc
        by_cases hstop : c = .shutdown
        · subst hstop
          simp only [step, takeCommand, effects, closes, ht, hc, if_true]
          exact .stopped _ cs ht (.inl rfl)
        · simp only [step, takeCommand, effects, closes, ht, hc, if_true]
          exact .commanded ht hc hstop (d.dispatcher.commands w t c)
  | abandon =>
    simp only [step, abandon]
    split
    · next h =>
      rw [Bool.and_eq_true] at h
      exact .stopped _ d.commands h.1 (.inr rfl)
    · exact .still _ nofun
  | takeReport elapsedMs =>
    cases ht : d.isTaking with
    | false =>
      simp only [step, takeReport, effects, closes, ht]
      exact .still _ nofun
    | true =>
      cases hr : d.reports with
      | nil =>
        simp only [step, takeReport, effects, closes, ht, hr]
        exact .still _ nofun
      | cons r rs =>
        simp only [step, takeReport, effects, closes, ht, hr, if_true]
        exact .reported elapsedMs ht hr
  | lookOn =>
    simp only [step, lookOn]
    split
    · exact .still _ nofun
    · next t p hp =>
      split
      · next available hs => exact .knew hp hs
      · exact .looked hp
  | work i =>
    simp only [step]
    split
    · next v hv => exact .worked hv
    · next hv =>
      refine .still _ ?_
      rintro _ ⟨⟩
      exact hv
  | reply i r =>
    simp only [step]
    split
    · next v hv => exact .replied r hv
    · exact .still _ nofun
  | crash i =>
    simp only [step]
    split
    · next v hv => exact .crashed hv
    · exact .still _ nofun
  | handIn i =>
    simp only [step, handIn]
    split
    · exact .still _ nofun
    · next v hv =>
      split
      · exact .still _ nofun
      · next r hr =>
        split
        · next h => exact .handedIn hv hr h
        · next h => exact .late hv hr (Bool.eq_false_iff.mpr h)
  | cancelEngine => exact .cancelled

/-! ## Stopping -/

/-- A dispatcher that takes something has not stopped. -/
theorem running_of_isTaking {d : Daemon σ} (h : d.isTaking = true) : d.running = true := by
  unfold isTaking at h
  rw [Bool.and_eq_true] at h
  exact h.1

variable {w crashReason} in
/-- A dispatcher that runs after a move ran before it. -/
theorem Moves.running {d : Daemon σ} {c : Choice} {s : Daemon σ × List Output}
    {es : List Effect} {rs : List Report}
    (h : d.Moves w crashReason c s es rs) (hs : s.1.running = true) : d.running = true := by
  cases h with
  | noticed ht => exact running_of_isTaking ht
  | commanded ht => exact running_of_isTaking ht
  | reported _ ht => exact running_of_isTaking ht
  | stopped _ _ ht => exact running_of_isTaking ht
  | _ => exact hs

/-- A dispatcher that runs after some steps ran before them. -/
theorem running_of_run {d : Daemon σ} {cs : List Choice}
    (h : (d.run w crashReason cs).1.running = true) : d.running = true := by
  induction cs generalizing d with
  | nil => exact h
  | cons c cs ih => exact (d.moves w crashReason c).running (ih h)

/-! ## A start -/

/-- Surroundings that install every listener and permit typing. -/
def permissive (l : Layout) : Surroundings Unit where
  platform :=
    { layout := l, permitted := fun _ ↦ true, install := fun _ s ↦ (s, .ok 0)
      stop := fun _ s ↦ s }
  trusted := true

/-- A daemon before its first step, with a keyboard to type on. -/
def fresh (l : Layout) : Daemon Unit where
  dispatcher := { monitor := ⟨(), .none⟩, engine := { injector := ⟨some ⟨l, noAccessHint⟩, none⟩ } }
  notices := ⟨32, []⟩

end Daemon

end Typist

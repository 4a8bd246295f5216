import Mathlib.Data.List.Basic
import Typist.Proofs.Daemon.Replies

/-!
# Nothing is stuck

Wherever a run of the daemon has come to, it can go on, without anybody sending a further command,
until nobody is owed an answer. Every job comes to its end once the system answers its calls, and
the commands that wait are taken one by one, each behind the job that it started.
-/

namespace Typist

/-! ## Jobs -/

namespace Job

/-- Whether steps of a job, and answers of the system, can bring it to its end. -/
inductive CanFinish (trusted : Bool) : Engine → Job → Prop
  | finished {e : Engine} {j : Job} : j.isFinished = true → CanFinish trusted e j
  | work {e : Engine} {j : Job} :
      CanFinish trusted (j.advance trusted e).1 (j.advance trusted e).2 → CanFinish trusted e j
  | answer {e : Engine} {j : Job} (r : NativeReply) : CanFinish trusted e (j.answer r) →
      CanFinish trusted e j

variable (trusted : Bool)

/-- A job that has typed withdraws what it has shown, and is over. -/
theorem canFinish_typed (e : Engine) (s : Sequence) (t : Token) (waits : Bool) (r : TypingResult) :
    CanFinish trusted e ⟨s, t, waits, .typed r⟩ :=
  .work (.work (.work (.work (.finished rfl))))

/-- A script is finite, so a job that types comes to its end. -/
theorem canFinish_typing (e : Engine) (s : Sequence) (t : Token) (waits : Bool)
    (script : Script TypingResult) : CanFinish trusted e ⟨s, t, waits, .typing script⟩ := by
  induction script generalizing e with
  | done r => exact .work (canFinish_typed trusted _ s t waits r)
  | call c next ih => exact .answer (.ok ()) (ih _ e)
  | look next ih => exact .work (ih _ e)
  | wait ms next ih => exact .work (ih e)

/-- A job that does not wait for the injector comes to its end. -/
theorem canFinish {j : Job} (h : j.waits = false) (e : Engine) : CanFinish trusted e j := by
  obtain ⟨s, t, waits, stage⟩ := j
  obtain rfl : waits = false := h
  cases stage with
  | wanting =>
    cases htaken : e.taken with
    | true =>
      apply CanFinish.work
      simp only [advance, htaken]
      exact .finished rfl
    | false =>
      apply CanFinish.work
      simp only [advance, htaken]
      exact .work (.work (canFinish_typing trusted _ s t false _))
  | entered => exact .work (.work (canFinish_typing trusted _ s t false _))
  | announced => exact .work (canFinish_typing trusted _ s t false _)
  | typing script => exact canFinish_typing trusted e s t false script
  | typed r => exact canFinish_typed trusted e s t false r
  | withdrawn r => exact .work (.work (.work (.finished rfl)))
  | reported o => exact .work (.work (.finished rfl))
  | quiet o => exact .work (.finished rfl)
  | finished o => exact .finished rfl

end Job

/-- A worker that is done has a report to hand in. -/
theorem Worker.exists_report {v : Worker} (crashReason : String) (h : v.job.isFinished = true) :
    ∃ r, v.report? crashReason = some r := by
  unfold Job.isFinished at h
  split at h
  · next o hst => exact ⟨_, by rw [Worker.report?, Job.outcome?, hst]; rfl⟩
  · cases h

namespace Daemon

variable {σ : Type} {w : Surroundings σ} {crashReason : String}

theorem run_cons (d : Daemon σ) (c : Choice) (cs : List Choice) :
    (d.run w crashReason (c :: cs)).1 = ((d.step w crashReason c).1.run w crashReason cs).1 := rfl

variable (w crashReason) in
/-- The first worker can come to its end, with everybody else as they were. -/
theorem exists_finished {d : Daemon σ} {v : Worker} {ws : List Worker} (hw : d.workers = v :: ws)
    (h : v.job.CanFinish w.trusted d.dispatcher.engine) :
    ∃ ms engine job, sends ms = [] ∧ job.isFinished = true ∧
      (d.run w crashReason ms).1 =
        { d with dispatcher.engine := engine, workers := { v with job } :: ws } := by
  obtain ⟨job, ticket⟩ := v
  generalize hengine : d.dispatcher.engine = e at h
  dsimp only at h
  induction h generalizing d with
  | @finished e j hj =>
    refine ⟨[], e, j, rfl, hj, ?_⟩
    rw [← hengine, ← hw]
    rfl
  | @work e j h ih =>
    have hstep : (d.step w crashReason (.work 0)).1 =
        { d with
          dispatcher.engine := (j.advance w.trusted e).1
          workers := ⟨(j.advance w.trusted e).2, ticket⟩ :: ws } := by
      rw [step, hw]
      simp only [List.getElem?_cons_zero, putJob, hw, List.set_cons_zero, hengine]
    obtain ⟨ms, engine, job, hms, hjob, hrun⟩ := ih (d := (d.step w crashReason (.work 0)).1)
      (by rw [hstep]) (by rw [hstep])
    refine ⟨.work 0 :: ms, engine, job, hms, hjob, ?_⟩
    rw [run_cons, hrun, hstep]
  | @answer e j r h ih =>
    have hstep : (d.step w crashReason (.reply 0 r)).1 =
        { d with dispatcher.engine := e, workers := ⟨j.answer r, ticket⟩ :: ws } := by
      rw [step, hw]
      simp only [List.getElem?_cons_zero, putJob, hw, List.set_cons_zero, hengine]
    obtain ⟨ms, engine, job, hms, hjob, hrun⟩ := ih (d := (d.step w crashReason (.reply 0 r)).1)
      (by rw [hstep]) (by rw [hstep])
    refine ⟨.reply 0 r :: ms, engine, job, hms, hjob, ?_⟩
    rw [run_cons, hrun, hstep]

/-! ## What a run keeps -/

/-- Whether no worker waits for the injector, and whether nothing waits for a dispatcher that has
stopped. -/
structure Moving (d : Daemon σ) : Prop where
  workers : ∀ v ∈ d.workers, v.job.waits = false
  stopped : d.running = false → d.commands = [] ∧ d.probe = none ∧ d.reports = []

theorem Unused.moving {d : Daemon σ} (h : d.Unused) : d.Moving where
  workers := by simp [h.workers]
  stopped _ := ⟨h.commands, h.probe, h.reports⟩

theorem Moving.apply {d : Daemon σ} (h : ∀ v ∈ d.workers, v.job.waits = false)
    (ht : d.running = true) (es : List Effect) : (d.apply es).1.Moving := by
  refine ⟨fun v hv ↦ ?_, fun hs ↦ ?_⟩
  · rw [workers_apply] at hv
    rcases List.mem_append.mp hv with hv | hv
    · exact h v hv
    · obtain ⟨a, -, rfl⟩ := List.mem_map.mp hv
      rfl
  · rw [running_apply, ht] at hs
    cases hs

theorem Moving.putJob {d : Daemon σ} (h : d.Moving) {i : Nat} {v : Worker}
    (hv : d.workers[i]? = some v) (engine : Engine) {job : Job} (hjob : job.waits = v.job.waits) :
    (d.putJob i v engine job).Moving := by
  refine ⟨fun u hu ↦ ?_, h.stopped⟩
  rcases List.mem_or_eq_of_mem_set hu with hu | rfl
  · exact h.workers u hu
  · exact hjob.trans (h.workers v (List.mem_of_getElem? hv))

theorem Moves.moving {d : Daemon σ} {c : Choice} {s : Daemon σ × List Output} {es : List Effect}
    {rs : List Report} (hm : d.Moves w crashReason c s es rs) (h : d.Moving) : s.1.Moving := by
  cases hm with
  | still => exact h
  | posted => exact ⟨h.workers, h.stopped⟩
  | sent _ _ hs => exact ⟨h.workers, fun hstop ↦ absurd (hs.symm.trans hstop) nofun⟩
  | unheard => exact h
  | @noticed _ ns dispatcher _ ht =>
    exact Moving.apply (d := { d with notices := { d.notices with waiting := ns }, dispatcher })
      h.workers (running_of_isTaking ht) es
  | @commanded _ _ cs dispatcher _ ht =>
    exact Moving.apply (d := { d with commands := cs, dispatcher }) h.workers
      (running_of_isTaking ht) es
  | @reported r rs ms ht =>
    exact Moving.apply
      (d := { d with reports := rs, dispatcher := (d.dispatcher.onReport r ms).1 }) h.workers
      (running_of_isTaking ht) _
  | stopped _ _ ht =>
    have hp := probe_of_isTaking ht
    exact ⟨h.workers, fun _ ↦ ⟨rfl, hp, rfl⟩⟩
  | looked hp =>
    refine ⟨h.workers, fun hs ↦ ?_⟩
    rw [(h.stopped hs).2.1] at hp
    cases hp
  | knew => exact ⟨h.workers, fun hs ↦ ⟨(h.stopped hs).1, rfl, (h.stopped hs).2.2⟩⟩
  | worked hv => exact h.putJob hv _ (Job.waits_advance _ _ _)
  | replied r hv => exact h.putJob hv _ (Job.waits_answer _ r)
  | crashed hv => exact h.putJob hv _ (Job.waits_crash _)
  | handedIn _ _ hs =>
    exact ⟨fun v hv ↦ h.workers v (List.mem_of_mem_eraseIdx hv),
      fun hstop ↦ absurd (hs.symm.trans hstop) nofun⟩
  | late => exact ⟨fun v hv ↦ h.workers v (List.mem_of_mem_eraseIdx hv), h.stopped⟩
  | cancelled => exact ⟨h.workers, h.stopped⟩

variable (w crashReason) in
theorem Moving.run {d : Daemon σ} (h : d.Moving) (cs : List Choice) :
    (d.run w crashReason cs).1.Moving := by
  induction cs generalizing d with
  | nil => exact h
  | cons c cs ih => exact ih ((moves w crashReason d c).moving h)

variable (w crashReason) in
theorem Unused.moving_run {d : Daemon σ} (hd : d.Unused) (cs : List Choice) :
    (d.run w crashReason cs).1.Moving :=
  hd.moving.run w crashReason cs

/-- What neither sends nor takes a command leaves those that wait, and the dispatcher going. -/
theorem Moves.waiting {d : Daemon σ} {c : Choice} {s : Daemon σ × List Output} {es : List Effect}
    {rs : List Report} (hm : d.Moves w crashReason c s es rs) (hsend : ∀ t a, c ≠ .send t a)
    (htake : c ≠ .takeCommand) (hleave : c ≠ .abandon) :
    s.1.commands = d.commands ∧ s.1.running = d.running := by
  cases hm with
  | sent => exact absurd rfl (hsend _ _)
  | unheard => exact absurd rfl (hsend _ _)
  | commanded => exact absurd rfl htake
  | stopped _ _ _ hc => exact absurd hc (by simp [htake, hleave])
  | noticed => exact ⟨commands_apply .., running_apply ..⟩
  | reported => exact ⟨commands_apply .., running_apply ..⟩
  | _ => exact ⟨rfl, rfl⟩

/-! ## To the end -/

variable (w crashReason) in
/-- Once the dispatcher has stopped, every worker can hand in its report. -/
theorem exists_settled_of_stopped {d : Daemon σ} (h : d.Moving) (hs : d.running = false) :
    ∃ ms, sends ms = [] ∧ (d.run w crashReason ms).1.outstanding = [] := by
  induction hn : d.workers generalizing d with
  | nil =>
    obtain ⟨hcommands, hprobe, hreports⟩ := h.stopped hs
    exact ⟨[], rfl, by simp [run, outstanding, awaiting, hcommands, hprobe, hreports, hn]⟩
  | cons v ws ih =>
    have hjob := Job.canFinish w.trusted (h.workers v (by simp [hn])) d.dispatcher.engine
    obtain ⟨ms, engine, job, hms, hdone, hrun⟩ := exists_finished w crashReason hn hjob
    obtain ⟨r, hr⟩ := Worker.exists_report (v := { v with job }) crashReason hdone
    have hlate : (d.run w crashReason (ms ++ [.handIn 0])).1 =
        { d with dispatcher.engine := engine, workers := ws } := by
      rw [run_append, hrun]
      simp [run, step, handIn, hr, hs]
    obtain ⟨ms', hms', hend⟩ := ih (d := (d.run w crashReason (ms ++ [.handIn 0])).1)
      (by
        rw [hlate]
        exact ⟨fun u hu ↦ h.workers u (by simp [hn, hu]), h.stopped⟩)
      (by rw [hlate]; exact hs) (by rw [hlate])
    refine ⟨ms ++ [.handIn 0] ++ ms', ?_, ?_⟩
    · rw [sends_append, sends_append, hms, hms']
      rfl
    · rw [run_append]
      exact hend

variable (w crashReason) in
/-- The job in flight can come to its end. -/
theorem Flight.exists_finished {d : Daemon σ} {o : Option Assignment} (hf : d.Flight o)
    (h : d.Moving) :
    ∃ ms, sends ms = [] ∧ (d.run w crashReason ms).1.commands = d.commands ∧
      (d.run w crashReason ms).1.running = d.running ∧
      ∀ v ∈ (d.run w crashReason ms).1.workers, v.job.isFinished = true := by
  cases hn : d.workers with
  | nil =>
    refine ⟨[], rfl, rfl, rfl, fun v hv ↦ ?_⟩
    rw [Daemon.run, hn] at hv
    cases hv
  | cons v ws =>
    have hws : ws = [] := by
      cases hf with
      | grounded hi => exact absurd (hn.symm.trans hi.workers) (List.cons_ne_nil _ _)
      | typing _ _ hw => exact (List.cons.inj (hn.symm.trans hw)).2
      | reported _ _ hw => exact absurd (hn.symm.trans hw) (List.cons_ne_nil _ _)
    have hjob := Job.canFinish w.trusted (h.workers v (by simp [hn])) d.dispatcher.engine
    obtain ⟨ms, engine, job, hms, hdone, hrun⟩ := Daemon.exists_finished w crashReason hn hjob
    refine ⟨ms, hms, by rw [hrun], by rw [hrun], fun u hu ↦ ?_⟩
    rw [hrun, hws, List.mem_singleton] at hu
    exact hu ▸ hdone

variable (w crashReason) in
/-- Taking the report of a sequence that is over neither sends nor takes a command. -/
theorem waiting_takeReport (d : Daemon σ) (elapsedMs : UInt64) :
    (d.run w crashReason [.lookOn, .lookOn, .handIn 0, .takeReport elapsedMs]).1.commands =
        d.commands ∧
      (d.run w crashReason [.lookOn, .lookOn, .handIn 0, .takeReport elapsedMs]).1.running =
        d.running := by
  have hlook (d : Daemon σ) := (moves w crashReason d .lookOn).waiting (fun _ _ ↦ nofun) nofun nofun
  have hhand (d : Daemon σ) :=
    (moves w crashReason d (.handIn 0)).waiting (fun _ _ ↦ nofun) nofun nofun
  have htake (d : Daemon σ) :=
    (moves w crashReason d (.takeReport elapsedMs)).waiting (fun _ _ ↦ nofun) nofun nofun
  simp only [run, htake, hhand, hlook, and_self]

variable (w crashReason) in
/-- A dispatcher that goes on comes to owe an answer only for the commands that wait. -/
theorem Unused.exists_caught_up {d : Daemon σ} (hd : d.Unused) (cs : List Choice)
    (hs : (d.run w crashReason cs).1.running = true) :
    ∃ ms, sends ms = [] ∧ (d.run w crashReason (cs ++ ms)).1.running = true ∧
      (d.run w crashReason (cs ++ ms)).1.commands = (d.run w crashReason cs).1.commands ∧
      (d.run w crashReason (cs ++ ms)).1.outstanding =
        awaiting (d.run w crashReason cs).1.commands := by
  obtain ⟨o, hf, -⟩ := hd.toIdle.underway w crashReason cs hs
  obtain ⟨ms, hms, hcommands, hrunning, hdone⟩ :=
    hf.exists_finished w crashReason (hd.moving_run w crashReason cs)
  have hfst : (d.run w crashReason (cs ++ ms)).1 =
      ((d.run w crashReason cs).1.run w crashReason ms).1 := by rw [run_append]
  rw [← hfst] at hcommands hrunning hdone
  have hs' := hrunning.trans hs
  obtain ⟨o', hf', -⟩ := hd.toIdle.underway w crashReason (cs ++ ms) hs'
  have hwaiting := waiting_takeReport w crashReason (d.run w crashReason (cs ++ ms)).1 0
  have hend := @Flight.outstanding_of_finished _ w crashReason _ _ hf' hs' hdone 0
  refine ⟨ms ++ [.lookOn, .lookOn, .handIn 0, .takeReport 0], ?_, ?_, ?_, ?_⟩
  · rw [sends_append, hms]
    rfl
  · rw [← List.append_assoc, run_append]
    exact hwaiting.2.trans hs'
  · rw [← List.append_assoc, run_append]
    exact hwaiting.1.trans hcommands
  · rw [← List.append_assoc, run_append]
    exact hend.trans (congrArg awaiting hcommands)

/-- A dispatcher that owes an answer for the commands that wait, and for nothing else, takes the
next one, or stops. -/
theorem takeCommand_of_caught_up {d : Daemon σ} (hs : d.running = true)
    (h : d.outstanding = awaiting d.commands) {t : Ticket} {c : Command}
    {commands : List (Ticket × Command)} (hc : d.commands = (t, c) :: commands) :
    (d.takeCommand w).1.running = false ∨ (d.takeCommand w).1.commands = commands := by
  have hprobe : d.probe = none := by
    have hlength := congrArg List.length h
    cases hp : d.probe with
    | none => rfl
    | some p =>
      simp only [outstanding, hp, List.length_append, Option.map_some, Option.toList_some,
        List.length_singleton] at hlength
      omega
  have htaking : d.isTaking = true := by simp [isTaking, hs, hprobe]
  rcases takeCommand_cases (w := w) d with ⟨-, hnone⟩ |
      ⟨t, c, cs, -, hcs, -, he⟩ | ⟨t, cs, -, -, he⟩
  · simp [handles, htaking, hc] at hnone
  · rw [he, commands_apply]
    exact .inr (List.cons.inj (hcs.symm.trans hc)).2
  · rw [he]
    exact .inl rfl

variable (w crashReason) in
/-- Wherever a run has come to, it can go on until nobody is owed an answer, without a further
command. -/
theorem Unused.exists_settled {d : Daemon σ} (hd : d.Unused) (cs : List Choice) :
    ∃ ms, sends ms = [] ∧ (d.run w crashReason (cs ++ ms)).1.outstanding = [] := by
  have hstopped (cs : List Choice) (hs : (d.run w crashReason cs).1.running = false) :
      ∃ ms, sends ms = [] ∧ (d.run w crashReason (cs ++ ms)).1.outstanding = [] := by
    obtain ⟨ms, hms, hend⟩ :=
      exists_settled_of_stopped w crashReason (hd.moving_run w crashReason cs) hs
    exact ⟨ms, hms, by rw [run_append]; exact hend⟩
  generalize hn : (d.run w crashReason cs).1.commands = commands
  induction commands generalizing cs with
  | nil =>
    cases hs : (d.run w crashReason cs).1.running with
    | false => exact hstopped cs hs
    | true =>
      obtain ⟨ms, hms, -, -, hend⟩ := hd.exists_caught_up w crashReason cs hs
      exact ⟨ms, hms, by rw [hend, hn]; rfl⟩
  | cons tc commands ih =>
    cases hs : (d.run w crashReason cs).1.running with
    | false => exact hstopped cs hs
    | true =>
      obtain ⟨ms, hms, hs', hcommands, hend⟩ := hd.exists_caught_up w crashReason cs hs
      have hnext : (d.run w crashReason (cs ++ ms ++ [.takeCommand])).1.running = false ∨
          (d.run w crashReason (cs ++ ms ++ [.takeCommand])).1.commands = commands := by
        rw [run_concat]
        rw [← hcommands] at hend hn
        exact takeCommand_of_caught_up hs' hend hn
      obtain ⟨ms', hms', hend'⟩ := hnext.elim (hstopped _) (ih _)
      refine ⟨ms ++ [.takeCommand] ++ ms', ?_, ?_⟩
      · rw [sends_append, sends_append, hms, hms']
        rfl
      · rw [← List.append_assoc, ← List.append_assoc]
        exact hend'

end Daemon

end Typist

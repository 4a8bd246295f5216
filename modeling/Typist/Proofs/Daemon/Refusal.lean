import Mathlib
import Typist.Layout.MacAnsi
import Typist.Proofs.Daemon.Flight
import Typist.Proofs.Engine.Holding

/-!
# Refused sequences

A sequence that was started can still be refused by the engine, and end as one that found another
in flight: not by another sequence, as there is none, but by a status command that looks at that
moment whether typing is possible. The refused sequences of a run are exactly those that tried to
take the injector at such a moment.
-/

namespace Typist

/-- Whether a worker was refused. -/
def Worker.isRefused (v : Worker) : Bool :=
  match v.job.outcome? with
  | some (.returned (.error .busy)) => true
  | _ => false

/-- Whether a report tells of a refusal. -/
def Report.isRefused (r : Report) : Bool :=
  match r.result with
  | .error .busy => true
  | _ => false

theorem Worker.isRefused_iff (v : Worker) :
    v.isRefused = true ↔ v.job.outcome? = some .refused := by
  unfold isRefused Outcome.refused
  split
  · next h => simp [h]
  · next h =>
    constructor
    · intro hf
      cases hf
    · intro ho
      exact (h ho).elim

/-- A worker that has something to report does not have the injector. -/
theorem Worker.isInside_of_report? {v : Worker} {crashReason : String} {r : Report}
    (h : v.report? crashReason = some r) : v.job.isInside = false := by
  obtain ⟨o, ho, -⟩ := Option.map_eq_some_iff.mp h
  exact Job.isInside_of_outcome? ho

/-- A worker's report tells of a refusal if the worker was refused. -/
theorem Worker.isRefused_report {v : Worker} {crashReason : String} {r : Report}
    (h : v.report? crashReason = some r) : r.isRefused = v.isRefused := by
  unfold Worker.report? at h
  unfold isRefused Report.isRefused
  cases ho : v.job.outcome? with
  | none =>
    rw [ho] at h
    cases h
  | some o =>
    rw [ho] at h
    cases h
    cases o with
    | crashed => rfl
    | returned result =>
      cases result with
      | ok _ => rfl
      | error e => cases e <;> rfl

namespace Dispatcher

variable {σ : Type}

/-- Starting a sequence leaves the injector where it is. -/
theorem Starts.taken {d d' : Dispatcher σ} {entry : Entry} {template : Option String}
    {ticket : Option Ticket} {es : List Effect} (h : d.Starts entry template ticket d' es) :
    d'.engine.taken = d.engine.taken := by
  cases h <;> rfl

theorem Notices.taken {d d' : Dispatcher σ} {n : Notice} {es : List Effect}
    (h : d.Notices n d' es) : d'.engine.taken = d.engine.taken := by
  cases h with
  | armed _ hstarts => exact hstarts.taken
  | _ => rfl

theorem Commands.taken {w : Surroundings σ} {d d' : Dispatcher σ} {t : Ticket} {c : Command}
    {es : List Effect} (h : d.Commands w t c d' es) : d'.engine.taken = d.engine.taken := by
  cases h with
  | typed _ hstarts => exact hstarts.taken
  | _ => rfl

end Dispatcher

namespace Daemon

variable {σ : Type}

/-- Whether a status command has the injector. -/
def isProbed (d : Daemon σ) : Bool :=
  match d.probe with
  | some (_, p) => p.isLooking
  | none => false

/-- Whether the mark of the injector counts those who have it, and no worker waits for it. -/
structure Locked (d : Daemon σ) : Prop where
  holders : d.workers.countP (·.job.isInside) + d.isProbed.toNat = d.dispatcher.engine.taken.toNat
  workers : ∀ v ∈ d.workers, v.job.IsProper ∧ v.job.waits = false

/-- How many sequences are refused and not closed yet. -/
def refusals (d : Daemon σ) : Nat :=
  d.workers.countP Worker.isRefused + d.reports.countP Report.isRefused

/-- Whether a step is that of a worker who wants the injector while a status command has it. -/
def collides (d : Daemon σ) : Choice → Bool
  | .work i => d.isProbed && d.workers[i]?.any (·.job.isWanting)
  | _ => false

/-- Effects that are carried out while nobody looks let nobody look yet. -/
theorem isProbed_apply {d : Daemon σ} (h : d.isProbed = false) (es : List Effect) :
    (d.apply es).1.isProbed = false := by
  induction es generalizing d with
  | nil => exact h
  | cons e es ih =>
    cases e with
    | emit e => exact ih h
    | answer t a => exact ih h
    | start a => exact ih (d := { d with workers := _ }) h
    | probe t => exact ih (d := { d with probe := _ }) rfl

/-- Somebody who has the injector has taken it. -/
theorem Locked.taken {d : Daemon σ} (h : d.Locked)
    (hpos : 0 < d.workers.countP (·.job.isInside) + d.isProbed.toNat) :
    d.dispatcher.engine.taken = true := by
  rw [h.holders] at hpos
  cases ht : d.dispatcher.engine.taken with
  | true => rfl
  | false =>
    rw [ht] at hpos
    cases hpos

theorem isProbed_of_isTaking {d : Daemon σ} (h : d.isTaking = true) : d.isProbed = false := by
  unfold isTaking at h
  rw [Bool.and_eq_true, Option.isNone_iff_eq_none] at h
  rw [isProbed, h.2]

private theorem countP_singleton' {α : Type} (p : α → Bool) (a : α) :
    [a].countP p = (p a).toNat := by
  cases h : p a <;> simp [h]

private theorem fresh_workers (as : List Assignment) :
    (as.map Worker.ofAssignment).countP (·.job.isInside) = 0 ∧
      (as.map Worker.ofAssignment).countP Worker.isRefused = 0 := by
  constructor
  · rw [List.countP_eq_zero]
    intro v hv
    obtain ⟨a, -, rfl⟩ := List.mem_map.mp hv
    exact Bool.false_ne_true
  · rw [List.countP_eq_zero]
    intro v hv
    obtain ⟨a, -, rfl⟩ := List.mem_map.mp hv
    exact Bool.false_ne_true

/-- Handing out assignments leaves the injector where it is, and refuses nobody. -/
theorem Locked.apply {d : Daemon σ} (h : d.Locked) (ht : d.isTaking = true)
    {dispatcher : Dispatcher σ} (hd : dispatcher.engine.taken = d.dispatcher.engine.taken)
    (notices : NoticeQueue) (commands : List (Ticket × Command)) (reports : List Report)
    (es : List Effect) :
    ({ d with dispatcher, notices, commands, reports }.apply es).1.Locked ∧
      ({ d with dispatcher, notices, commands, reports }.apply es).1.refusals =
        d.workers.countP Worker.isRefused + reports.countP Report.isRefused := by
  have hprobed := isProbed_of_isTaking ht
  obtain ⟨hinside, hrefused⟩ := fresh_workers (Effect.assignments es)
  have hholders := h.holders
  refine ⟨⟨?_, ?_⟩, ?_⟩
  · rw [isProbed_apply (d := { d with dispatcher, notices, commands, reports }) hprobed,
      workers_apply, dispatcher_apply, List.countP_append, hinside, hd]
    rw [hprobed] at hholders
    exact hholders
  · intro v hv
    rw [workers_apply, List.mem_append] at hv
    rcases hv with hv | hv
    · exact h.workers v hv
    · obtain ⟨a, -, rfl⟩ := List.mem_map.mp hv
      exact ⟨trivial, rfl⟩
  · rw [refusals, workers_apply, reports_apply, List.countP_append, hrefused, Nat.add_zero]

/-- The only worker moves, and the injector goes where it goes. -/
theorem Locked.putJob {d : Daemon σ} (h : d.Locked) {v : Worker} (hw : d.workers = [v])
    {e : Engine} {j : Job}
    (ht : e.taken.toNat + v.job.isInside.toNat =
      d.dispatcher.engine.taken.toNat + j.isInside.toNat)
    (hp : j.IsProper) (hj : j.waits = false) : (d.putJob 0 v e j).Locked := by
  have hholders := h.holders
  rw [hw, countP_singleton'] at hholders
  constructor
  · simp only [Daemon.putJob, hw, List.set_cons_zero, countP_singleton']
    simp only [isProbed] at hholders ⊢
    omega
  · intro u hu
    simp only [Daemon.putJob, hw, List.set_cons_zero, List.mem_singleton] at hu
    subst hu
    exact ⟨hp, hj⟩

/-- The refusals after a move of the only worker. -/
theorem refusals_putJob {d : Daemon σ} {v : Worker} (hw : d.workers = [v]) (e : Engine) {j : Job}
    {n : Bool} (hn : (Worker.isRefused { v with job := j }).toNat = v.isRefused.toNat + n.toNat) :
    (d.putJob 0 v e j).refusals = d.refusals + n.toNat := by
  simp only [refusals, Daemon.putJob, hw, List.set_cons_zero, countP_singleton', hn]
  omega

/-- What leaves the injector and the outcome where they are changes nothing else. -/
theorem Locked.putJob_same {d : Daemon σ} (h : d.Locked) {v : Worker} (hw : d.workers = [v])
    {j : Job} (hin : j.isInside = v.job.isInside) (hwaits : j.waits = v.job.waits)
    (ho : j.outcome? = v.job.outcome?) (hp : v.job.IsProper → j.IsProper) :
    (d.putJob 0 v d.dispatcher.engine j).Locked ∧
      (d.putJob 0 v d.dispatcher.engine j).refusals = d.refusals := by
  obtain ⟨hproper, hnot⟩ := h.workers v (by simp [hw])
  refine ⟨h.putJob hw (by rw [hin]) (hp hproper) (hwaits.trans hnot), ?_⟩
  refine refusals_putJob hw _ (n := false) ?_
  simp only [Worker.isRefused, ho]
  rfl

/-- A worker is refused in a step if it wants the injector while a status command has it. -/
theorem Locked.isRefused_advance {d : Daemon σ} (h : d.Locked) {v : Worker} (hw : d.workers = [v])
    (trusted : Bool) :
    (Worker.isRefused
        { v with job := (v.job.advance trusted d.dispatcher.engine).2 }).toNat =
      v.isRefused.toNat + (d.isProbed && v.job.isWanting).toNat := by
  obtain ⟨hproper, hwaits⟩ := h.workers v (by simp [hw])
  cases ho : v.job.outcome? with
  | some o =>
    rw [Job.advance_of_outcome? ho, Job.isWanting_of_outcome? ho, Bool.and_false]
    rfl
  | none =>
    have hnew := Worker.isRefused_iff
      { v with job := (v.job.advance trusted d.dispatcher.engine).2 }
    have hold : v.isRefused = false := by
      rw [Bool.eq_false_iff, Ne, Worker.isRefused_iff, ho]
      simp
    rw [Job.refused_advance_iff hproper ho] at hnew
    rw [hold, Bool.toNat_false, Nat.zero_add]
    congr 1
    rw [Bool.eq_iff_iff, hnew, Bool.and_eq_true]
    constructor
    · rintro ⟨hwant, -, ht⟩
      have hholders := h.holders
      rw [hw, countP_singleton', Job.isInside_of_isWanting hwant, ht] at hholders
      refine ⟨?_, hwant⟩
      cases hp : d.isProbed with
      | true => rfl
      | false =>
        rw [hp] at hholders
        cases hholders
    · rintro ⟨hp, hwant⟩
      refine ⟨hwant, hwaits, h.taken ?_⟩
      rw [hp]
      exact Nat.succ_pos _

/-- A status command that looks on takes the injector from where it is, and gives it back there. -/
theorem Locked.look {d : Daemon σ} (h : d.Locked) {t : Ticket} {p : Probe}
    (hp : d.probe = some (t, p)) (trusted : Bool) :
    d.workers.countP (·.job.isInside) +
        (p.advance trusted d.dispatcher.engine).2.isLooking.toNat =
      (p.advance trusted d.dispatcher.engine).1.taken.toNat := by
  have hprobed : d.isProbed = p.isLooking := by rw [isProbed, hp]
  have hholders := h.holders
  have hlook := Probe.isLooking_advance trusted (e := d.dispatcher.engine) (p := p) ?_
  · rw [hprobed] at hholders
    omega
  · intro hl
    refine h.taken ?_
    rw [hprobed, hl]
    exact Nat.succ_pos _

variable {w : Surroundings σ} {crashReason : String}

/-- What a step of a dispatcher that goes on does to the refusals: those whose reports are taken
are gone, and a collision brings one. -/
theorem Moves.refusals {d : Daemon σ} {c : Choice} {s : Daemon σ × List Output}
    {es : List Effect} {rs : List Report} (hm : d.Moves w crashReason c s es rs)
    {o : Option Assignment} (hf : d.Flight o) (hl : d.Locked) (hs : s.1.running = true) :
    s.1.Locked ∧
      rs.countP Report.isRefused + s.1.refusals = d.refusals + (d.collides c).toNat := by
  cases hm with
  | still c hc =>
    have hnone : d.collides c = false := by
      cases c with
      | work i => simp [collides, hc i rfl]
      | _ => rfl
    rw [hnone]
    exact ⟨hl, Nat.zero_add _⟩
  | posted => exact ⟨⟨hl.holders, hl.workers⟩, Nat.zero_add _⟩
  | sent => exact ⟨⟨hl.holders, hl.workers⟩, Nat.zero_add _⟩
  | unheard => exact ⟨hl, Nat.zero_add _⟩
  | noticed ht _ h =>
    obtain ⟨hlocked, hrefusals⟩ := hl.apply ht h.taken { d.notices with waiting := _ } d.commands
      d.reports es
    exact ⟨hlocked, (Nat.zero_add _).trans hrefusals⟩
  | commanded ht _ _ h =>
    obtain ⟨hlocked, hrefusals⟩ := hl.apply ht h.taken d.notices _ d.reports es
    exact ⟨hlocked, (Nat.zero_add _).trans hrefusals⟩
  | @reported r rs ms ht hr =>
    have htaken : (d.dispatcher.onReport r ms).1.engine.taken = d.dispatcher.engine.taken := rfl
    obtain ⟨hlocked, hrefusals⟩ := hl.apply ht htaken d.notices d.commands rs
      (d.dispatcher.onReport r ms).2
    refine ⟨hlocked, ?_⟩
    rw [hrefusals, Daemon.refusals, hr, countP_singleton', List.countP_cons]
    have : (if r.isRefused = true then 1 else 0) = r.isRefused.toNat := by
      cases r.isRefused <;> rfl
    simp only [collides, Bool.toNat_false]
    omega
  | stopped => cases hs
  | looked hp => exact ⟨⟨hl.look hp w.trusted, hl.workers⟩, Nat.zero_add _⟩
  | knew hp hseen =>
    have hlook := hl.look hp w.trusted
    rw [hseen] at hlook
    exact ⟨⟨hlook, hl.workers⟩, Nat.zero_add _⟩
  | worked hv =>
    obtain ⟨rfl, hw, -⟩ := hf.worker hv
    obtain ⟨hproper, hwaits⟩ := hl.workers _ (List.mem_of_getElem? hv)
    refine ⟨hl.putJob hw (Job.isInside_advance _ ?_) (hproper.advance _ _) ?_, ?_⟩
    · intro hin
      refine hl.taken ?_
      rw [hw, countP_singleton', hin]
      exact Nat.add_pos_left Nat.one_pos _
    · rw [Job.waits_advance]
      exact hwaits
    · rw [refusals_putJob hw _ (hl.isRefused_advance hw w.trusted), collides, hw]
      exact Nat.zero_add _
  | replied r hv =>
    obtain ⟨rfl, hw, -⟩ := hf.worker hv
    obtain ⟨hlocked, hrefusals⟩ := hl.putJob_same hw (Job.isInside_answer _ r)
      (Job.waits_answer _ r) (Job.outcome?_answer _ r) (fun hp ↦ hp.answer r)
    exact ⟨hlocked, (Nat.zero_add _).trans hrefusals⟩
  | crashed hv =>
    obtain ⟨rfl, hw, -⟩ := hf.worker hv
    obtain ⟨hlocked, hrefusals⟩ := hl.putJob_same hw (Job.isInside_crash _) (Job.waits_crash _)
      (Job.outcome?_crash _) (fun hp ↦ hp.crash)
    exact ⟨hlocked, (Nat.zero_add _).trans hrefusals⟩
  | @handedIn _ v r hv hr =>
    obtain ⟨rfl, hw, hp, -⟩ := hf.worker hv
    have hholders := hl.holders
    rw [hw, countP_singleton', Worker.isInside_of_report? hr] at hholders
    refine ⟨⟨?_, ?_⟩, ?_⟩
    · simp only [hw, List.eraseIdx_cons_zero, List.countP_nil]
      exact hholders
    · simp [hw]
    · simp only [Daemon.refusals, collides, hw, hp, List.eraseIdx_cons_zero, List.nil_append,
        countP_singleton', Worker.isRefused_report hr, List.countP_nil, Bool.toNat_false]
      omega
  | late _ _ hd =>
    rw [hd] at hs
    cases hs
  | cancelled =>
    have ht : d.dispatcher.engine.cancel.taken = d.dispatcher.engine.taken := by
      unfold Engine.cancel
      split <;> rfl
    exact ⟨⟨hl.holders.trans (congrArg Bool.toNat ht.symm), hl.workers⟩, Nat.zero_add _⟩

/-! ## Runs -/

variable (w crashReason)

/-- How often, in a run, a worker wants the injector while a status command has it. -/
def collisions (d : Daemon σ) : List Choice → Nat
  | [] => 0
  | c :: cs => (d.collides c).toNat + (d.step w crashReason c).1.collisions cs

/-- In a run of a dispatcher that goes on, every collision brings one refusal, whose report is
taken or still to be taken. -/
theorem refusals_run {d : Daemon σ} {o : Option Assignment} (hf : d.Flight o) (hl : d.Locked)
    (cs : List Choice) (hd : (d.run w crashReason cs).1.running = true) :
    (d.closed w crashReason cs).countP Report.isRefused + (d.run w crashReason cs).1.refusals =
      d.refusals + d.collisions w crashReason cs := by
  induction cs generalizing d o with
  | nil => exact Nat.zero_add _
  | cons c cs ih =>
    have hm := d.moves w crashReason c
    have hs : (d.step w crashReason c).1.running = true := running_of_run w crashReason hd
    obtain ⟨o', _, hf', -, -⟩ := hf.moves hm hs
    obtain ⟨hl', hstep⟩ := hm.refusals hf hl hs
    have hrest := ih hf' hl' hd
    simp only [closed, run, collisions, List.countP_append]
    omega

/-- Before anything was started nobody has the injector. -/
theorem Idle.locked {d : Daemon σ} (h : d.Idle) (ht : d.dispatcher.engine.taken = false)
    (hp : d.probe = none) : d.Locked where
  holders := by
    rw [h.workers, ht, isProbed, hp]
    rfl
  workers := by simp [h.workers]

/-- Busy means busy, but for those who look. Among any callers of one engine, whoever is refused
finds somebody else inside a run, unless somebody looks at that moment; and in every run of a
daemon the sequences that end as refused are just those whose worker wanted the injector while a
status command had it. -/
theorem refused_iff_probed :
    (∀ (e : Engine) (cs : List Crowd.Choice) (i : Nat) (trusted : Bool), e.taken = false →
      (Crowd.run ⟨e, []⟩ cs).1.Refuses i trusted →
        ((Crowd.run ⟨e, []⟩ cs).1.InRun i ↔ ¬ (Crowd.run ⟨e, []⟩ cs).1.Probed)) ∧
    ∀ (d : Daemon σ) (cs : List Choice), d.Idle → d.dispatcher.engine.taken = false →
      d.probe = none → (d.run w crashReason cs).1.running = true →
        (d.closed w crashReason cs).countP Report.isRefused +
            (d.run w crashReason cs).1.refusals = d.collisions w crashReason cs := by
  constructor
  · intro e cs i trusted he hr
    exact ((Crowd.exclusive_start he).run cs).inRun_iff_of_refuses hr
  · intro d cs hd ht hp hrun
    have hrefusals := refusals_run w crashReason (.grounded hd) (hd.locked ht hp) cs hrun
    have hzero : d.refusals = 0 := by
      rw [refusals, hd.workers, hd.reports]
      rfl
    omega

/-- A caller that has taken the injector, and one behind it that does not wait. -/
def crowded (first : EngineCall) : Crowd :=
  (Crowd.run ⟨(fresh .macAnsi).dispatcher.engine, []⟩
    [.call first, .call (.attempt .empty), .advance 0 true]).1

/-- A sequence is started, and its worker wants the injector when a status command has it. -/
def interleaved : List Choice :=
  [.send ⟨0⟩ (.autoType (some {}) (some "a")), .takeCommand, .send ⟨1⟩ .status, .takeCommand,
    .lookOn, .work 0, .lookOn, .handIn 0, .takeReport 0]

/-- Behind one who types the refusal is due to a run, and the one refused sequence of a daemon is
due to the one collision. -/
theorem refused_iff_probed_of_interleaved :
    (crowded (.perform .empty)).Refuses 1 true ∧
      ((crowded (.perform .empty)).InRun 1 ↔ ¬ (crowded (.perform .empty)).Probed) ∧
      ((fresh .macAnsi).closed (permissive .macAnsi) "" interleaved).countP Report.isRefused +
          ((fresh .macAnsi).run (permissive .macAnsi) "" interleaved).1.refusals =
        (fresh .macAnsi).collisions (permissive .macAnsi) "" interleaved := by
  have hrefuses : (crowded (.perform .empty)).Refuses 1 true := by
    constructor
    · cbv
    · cbv
  have hrun : ((fresh .macAnsi).run (permissive .macAnsi) "" interleaved).1.running = true := by
    cbv
  obtain ⟨hcrowd, hdaemon⟩ := refused_iff_probed (permissive .macAnsi) ""
  exact ⟨hrefuses, hcrowd _ _ 1 true rfl hrefuses,
    hdaemon _ interleaved ⟨rfl, rfl, rfl, rfl⟩ rfl rfl hrun⟩

/-- Behind one who looks a caller is refused while nobody is inside a run, and a sequence that was
started ends as refused. -/
theorem refused_without_run :
    (crowded .probe).Refuses 1 true ∧ ¬ (crowded .probe).InRun 1 ∧
      ((fresh .macAnsi).run (permissive .macAnsi) "" interleaved).2 =
        [.emitted (.sequenceStarted 1), .answered ⟨1⟩ (.status ⟨.typing, none, false, true⟩),
          .emitted (.sequenceFailed EngineError.busy.message),
          .answered ⟨0⟩ (.refused (.engine .busy))] := by
  refine ⟨⟨?_, ?_⟩, ?_, ?_⟩
  · cbv
  · cbv
  · have hexclusive : (crowded .probe).Exclusive := (Crowd.exclusive_start rfl).run _
    have hprobed : (crowded .probe).Probed := by
      refine ⟨0, ?_⟩
      cbv
    exact hexclusive.not_inRun_of_probed 1 hprobed
  · cbv

end Daemon

end Typist

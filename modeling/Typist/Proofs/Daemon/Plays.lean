import Typist.Proofs.Daemon.Step
import Typist.Proofs.Typing.Verdict

/-!
# Plays

A run as its surroundings see it, on a system that makes every keyboard event or refuses each: what
they choose and what goes out. Workers type in between, as far as they like, and nobody counts their
steps. A worker that nobody disturbs can be driven to the end of its script.
-/

namespace Typist.Daemon

variable {σ : Type}

/-- Whether a choice is none of the steps by which a worker types. -/
def Choice.IsOutward : Choice → Prop
  | .work _ | .reply .. | .crash _ => False
  | _ => True

variable (w : Surroundings σ) (crashReason : String) (m : Creation)

/-- Whether a daemon can come to another while the surroundings make such choices and see such
outputs. Native calls are answered by a poster, whatever it keeps. -/
inductive Plays : Daemon σ → List Choice → List Output → Daemon σ → Prop
  | rest (d : Daemon σ) : Plays d [] [] d
  | turn {d d' : Daemon σ} {c : Choice} {cs : List Choice} {out : List Output} : c.IsOutward →
      Plays (d.step w crashReason c).1 cs out d' →
      Plays d (c :: cs) ((d.step w crashReason c).2 ++ out) d'
  | work {d d' : Daemon σ} {cs : List Choice} {out : List Output} (i : Nat) :
      Plays (d.step w crashReason (.work i)).1 cs out d' → Plays d cs out d'
  | reply {d d' : Daemon σ} {cs : List Choice} {out : List Output} {i : Nat} {v : Worker}
      {c : NativeCall} (p : EventPoster) : d.workers[i]? = some v → v.job.pending? = some c →
      Plays (d.step w crashReason (.reply i (p.call (fun _ ↦ m) c).2.2)).1 cs out d' →
      Plays d cs out d'

variable {w crashReason m}

/-- One play after the other. -/
theorem Plays.trans {d d' d'' : Daemon σ} {cs cs' : List Choice} {out out' : List Output}
    (h : d.Plays w crashReason m cs out d') (h' : d'.Plays w crashReason m cs' out' d'') :
    d.Plays w crashReason m (cs ++ cs') (out ++ out') d'' := by
  induction h with
  | rest => exact h'
  | turn hc _ ih =>
    rw [List.append_assoc]
    exact .turn hc (ih h')
  | work i _ ih => exact .work i (ih h')
  | reply p hv hc _ ih => exact .reply p hv hc (ih h')

/-- Before the first choice only workers move, and nothing goes out. -/
theorem Plays.exists_of_cons {d d' : Daemon σ} {c : Choice} {cs : List Choice} {out : List Output}
    (h : d.Plays w crashReason m (c :: cs) out d') :
    ∃ before later, d.Plays w crashReason m [] [] before ∧
      out = (before.step w crashReason c).2 ++ later ∧
      (before.step w crashReason c).1.Plays w crashReason m cs later d' := by
  generalize hcs : c :: cs = all at h
  induction h with
  | rest => cases hcs
  | @turn d _ _ _ out _ h =>
    cases hcs
    exact ⟨d, out, .rest d, rfl, h⟩
  | work i _ ih =>
    obtain ⟨before, later, hbefore, hout, hlater⟩ := ih hcs
    exact ⟨before, later, .work i hbefore, hout, hlater⟩
  | reply p hv hc _ ih =>
    obtain ⟨before, later, hbefore, hout, hlater⟩ := ih hcs
    exact ⟨before, later, .reply p hv hc hbefore, hout, hlater⟩

/-- Whatever every step of a worker keeps is kept where the surroundings choose nothing, and nothing
goes out there. -/
theorem Plays.of_nil {P : Daemon σ → Prop}
    (hwork : ∀ d i, P d → P (d.step w crashReason (.work i)).1)
    (hreply : ∀ d i v c, P d → d.workers[i]? = some v → v.job.pending? = some c →
      P (d.step w crashReason (.reply i (EventPoster.answer m c))).1)
    {d d' : Daemon σ} {out : List Output} (h : d.Plays w crashReason m [] out d') (hd : P d) :
    out = [] ∧ P d' := by
  generalize hcs : ([] : List Choice) = cs at h
  induction h with
  | rest => exact ⟨rfl, hd⟩
  | turn => cases hcs
  | work i _ ih => exact ih (hwork _ i hd) hcs
  | reply p hv hc _ ih =>
    rw [EventPoster.reply_call] at ih
    exact ih (hreply _ _ _ _ hd hv hc) hcs

theorem Plays.out_eq_of_nil {d d' : Daemon σ} {out : List Output}
    (h : d.Plays w crashReason m [] out d') : out = [] :=
  (h.of_nil (P := fun _ ↦ True) (fun _ _ _ ↦ trivial) (fun _ _ _ _ _ _ _ ↦ trivial) trivial).1

/-- Without workers, nothing happens there at all. -/
theorem Plays.eq_of_nil {d d' : Daemon σ} {out : List Output} (hd : d.workers = [])
    (h : d.Plays w crashReason m [] out d') : out = [] ∧ d' = d := by
  refine h.of_nil (P := fun x ↦ x = d) ?_ ?_ rfl
  · rintro _ i rfl
    simp [step, hd]
  · rintro _ i v c rfl hv
    simp [hd] at hv

/-! ## Driving a worker -/

@[simp] theorem workers_putJob (d : Daemon σ) (i : Nat) (v : Worker) (engine : Engine) (job : Job) :
    (d.putJob i v engine job).workers = d.workers.set i { v with job } := rfl

/-- A worker that is put as it is changes nothing. -/
theorem putJob_self {d : Daemon σ} {i : Nat} {v : Worker} (hv : d.workers[i]? = some v) :
    d.putJob i v d.dispatcher.engine v.job = d := by
  obtain ⟨hi, rfl⟩ := List.getElem?_eq_some_iff.mp hv
  unfold putJob
  rw [List.set_getElem_self]

/-- Of two ways to put a worker, the later one counts. -/
theorem putJob_putJob (d : Daemon σ) (i : Nat) (v : Worker) (engine engine' : Engine)
    (job job' : Job) :
    (d.putJob i v engine job).putJob i { v with job } engine' job' = d.putJob i v engine' job' := by
  simp [putJob]

theorem getElem?_putJob {d : Daemon σ} {i : Nat} {v : Worker} (hv : d.workers[i]? = some v)
    (engine : Engine) (job : Job) :
    (d.putJob i v engine job).workers[i]? = some { v with job } := by
  obtain ⟨hi, -⟩ := List.getElem?_eq_some_iff.mp hv
  simp [hi]

/-- A worker moves by itself. -/
theorem plays_work {d : Daemon σ} {i : Nat} {v : Worker} (hv : d.workers[i]? = some v) :
    d.Plays w crashReason m [] []
      (d.putJob i v (v.job.advance w.trusted d.dispatcher.engine).1
        (v.job.advance w.trusted d.dispatcher.engine).2) := by
  refine .work i ?_
  simp only [step, hv]
  exact .rest _

/-- It makes as many moves as it likes. -/
theorem plays_advanceBy (n : Nat) {d : Daemon σ} {i : Nat} {v : Worker}
    (hv : d.workers[i]? = some v) :
    d.Plays w crashReason m [] []
      (d.putJob i v (Job.advanceBy w.trusted n (d.dispatcher.engine, v.job)).1
        (Job.advanceBy w.trusted n (d.dispatcher.engine, v.job)).2) := by
  induction n generalizing d v with
  | zero =>
    show d.Plays w crashReason m [] [] (d.putJob i v d.dispatcher.engine v.job)
    rw [putJob_self hv]
    exact .rest d
  | succ n ih =>
    have hrest := ih (getElem?_putJob hv (v.job.advance w.trusted d.dispatcher.engine).1
      (v.job.advance w.trusted d.dispatcher.engine).2)
    rw [putJob_putJob] at hrest
    exact (plays_work hv).trans hrest

/-- A worker types on to the end of its script, which comes to what it does if the run is cancelled
all that time or never. -/
theorem plays_typing {d : Daemon σ} {i : Nat} {v : Worker} (hv : d.workers[i]? = some v)
    {s : Script TypingResult} (hs : v.job.stage = .typing s) :
    d.Plays w crashReason m [] []
      (d.putJob i v d.dispatcher.engine
        { v.job with
          stage := .typing (.done (s.under (EventPoster.answer m)
            (d.dispatcher.engine.flags.isCancelled v.job.token))) }) := by
  -- a step that leaves the engine alone, and the rest of the script behind it
  have hstep {d : Daemon σ} {v : Worker} (hv : d.workers[i]? = some v)
      {t : Script TypingResult} {r : TypingResult}
      (hfirst : d.Plays w crashReason m [] []
        (d.putJob i v d.dispatcher.engine { v.job with stage := .typing t }))
      (hrest : (d.putJob i v d.dispatcher.engine { v.job with stage := .typing t }).Plays
        w crashReason m [] []
        ((d.putJob i v d.dispatcher.engine { v.job with stage := .typing t }).putJob i
          { v with job := { v.job with stage := .typing t } } d.dispatcher.engine
          { v.job with stage := .typing (.done r) })) :
      d.Plays w crashReason m [] []
        (d.putJob i v d.dispatcher.engine { v.job with stage := .typing (.done r) }) := by
    rw [putJob_putJob] at hrest
    exact hfirst.trans hrest
  induction s generalizing d v with
  | done r =>
    have hjob : { v.job with stage := .typing (.done r) } = v.job := by rw [← hs]
    show d.Plays w crashReason m [] []
      (d.putJob i v d.dispatcher.engine { v.job with stage := .typing (.done r) })
    rw [hjob, putJob_self hv]
    exact .rest d
  | call c next ih =>
    refine hstep (t := next (EventPoster.answer m c)) hv ?_ (ih _ (getElem?_putJob hv _ _) rfl)
    refine .reply {} hv (by rw [Job.pending?, hs]) ?_
    rw [EventPoster.reply_call]
    simp only [step, hv, Job.answer, hs]
    exact .rest _
  | look next ih =>
    refine hstep (t := next (d.dispatcher.engine.flags.isCancelled v.job.token)) hv ?_
      (ih _ (getElem?_putJob hv _ _) rfl)
    have hwork : d.Plays w crashReason m [] [] _ := plays_work hv
    simpa only [Job.advance, hs] using hwork
  | wait ms next ih =>
    refine hstep (t := next) hv ?_ (ih (getElem?_putJob hv _ _) rfl)
    have hwork : d.Plays w crashReason m [] [] _ := plays_work hv
    simpa only [Job.advance, hs] using hwork

end Typist.Daemon

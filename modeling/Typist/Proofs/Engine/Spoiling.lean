import Mathlib
import Typist.Proofs.Engine.Marks

/-!
# A lock that remembers crashes

The injector stands behind a lock. Whoever gives it back while coming down leaves the lock spoiled,
and from then on the lock says so to everybody whom it lets in. Here those who want the injector get
the answer of the lock, and it is for them to make something of it. They use the injector all the
same, so that nobody is kept out: what callers do with such a lock they also do without.
-/

namespace Typist

/-- What the lock answers to one who wants the injector. -/
inductive LockAnswer
  /-- Nobody has it. -/
  | granted
  /-- Nobody has it, but somebody came down who had it. -/
  | spoiled
  /-- Somebody has it. -/
  | blocked
  deriving DecidableEq

/-- What a lock answers that is spoiled, or is not. -/
def Engine.ask (e : Engine) (spoiled : Bool) : LockAnswer :=
  if e.taken then .blocked else if spoiled then .spoiled else .granted

/-! ## Callers -/

namespace Job

/-- What a request that wants the injector makes of an answer. -/
def told (e : Engine) (j : Job) : LockAnswer → Engine × Job
  | .granted | .spoiled => ({ e with taken := true }, { j with stage := .entered })
  | .blocked => (e, if j.waits then j else { j with stage := .finished .refused })

/-- Whether the request is about to give the injector back while it comes down. -/
def isFalling (j : Job) : Bool := match j.stage with | .quiet .crashed => true | _ => false

/-- Whether the request came down. -/
def isCrashed (j : Job) : Bool := match j.stage with | .finished .crashed => true | _ => false

/-- Whether the next step of the request publishes its token. -/
def isAnnounced (j : Job) : Bool := match j.stage with | .announced => true | _ => false

theorem stage_of_isAnnounced {j : Job} (h : j.isAnnounced = true) : j.stage = .announced := by
  unfold isAnnounced at h
  split at h
  · assumption
  · cases h

/-- The look whether the system permits typing brings the run down. It comes right after the token
is published. -/
def crashAtLook (e : Engine) (j : Job) : Engine × Job :=
  match j.stage with
  | .announced => ({ e with current := some j.token }, { j with stage := .reported .crashed })
  | _ => (e, j)

theorem stage_of_isWanting {j : Job} (h : j.isWanting = true) : j.stage = .wanting := by
  unfold isWanting at h
  split at h
  · assumption
  · cases h

/-- The answer of a spoiled lock is as good as that of a sound one. -/
theorem told_ask {j : Job} (h : j.isWanting = true) (trusted : Bool) (e : Engine) (spoiled : Bool) :
    j.told e (e.ask spoiled) = j.advance trusted e := by
  simp only [advance, stage_of_isWanting h, Engine.ask]
  cases e.taken with
  | true => cases hw : j.waits <;> simp [told, Outcome.refused, hw]
  | false => cases spoiled <;> simp [told]

/-- A request comes down by giving the injector back, and is then down for good. -/
theorem isCrashed_advance (trusted : Bool) (e : Engine) (j : Job) :
    (j.advance trusted e).2.isCrashed = (j.isCrashed || j.isFalling) := by
  cases hs : j.stage with
  | wanting =>
    simp only [advance, hs]
    split
    · simp [isCrashed, isFalling, hs]
    · split <;> simp [isCrashed, isFalling, hs]
  | typing s => cases s <;> simp [advance, isCrashed, isFalling, hs]
  | quiet o => cases o <;> simp [advance, isCrashed, isFalling, hs]
  | _ => simp [advance, isCrashed, isFalling, hs]

theorem isCrashed_answer (j : Job) (r : NativeReply) : (j.answer r).isCrashed = j.isCrashed := by
  unfold answer
  split
  · next hs => simp [isCrashed, hs]
  · rfl

theorem isCrashed_crash (j : Job) : j.crash.isCrashed = j.isCrashed := by
  unfold crash
  split
  · next hs => simp [isCrashed, hs]
  · rfl

end Job

/-- What one who looks makes of an answer. -/
def Probe.told (e : Engine) : LockAnswer → Engine × Probe
  | .granted | .spoiled => ({ e with taken := true }, .looking)
  | .blocked => (e, .seen true)

theorem Probe.told_ask (trusted : Bool) (e : Engine) (spoiled : Bool) :
    Probe.told e (e.ask spoiled) = Probe.wanting.advance trusted e := by
  simp only [advance, Engine.ask]
  cases e.taken with
  | true => simp [told]
  | false => cases spoiled <;> simp [told]

/-- One atomic step of a caller, which may need the answer of the lock. -/
def Caller.heed (answer : LockAnswer) (trusted : Bool) (e : Engine) (k : Caller) :
    Engine × Caller :=
  match k with
  | .typing j =>
    if j.isWanting then ((j.told e answer).1, .typing (j.told e answer).2)
    else k.advance trusted e
  | .probing .wanting => ((Probe.told e answer).1, .probing (Probe.told e answer).2)
  | _ => k.advance trusted e

/-- Whoever heeds the answer takes the same step as without. -/
theorem Caller.heed_ask (spoiled trusted : Bool) (e : Engine) (k : Caller) :
    k.heed (e.ask spoiled) trusted e = k.advance trusted e := by
  cases k with
  | typing j =>
    simp only [heed]
    split
    · next hw =>
      rw [Job.told_ask hw trusted]
      rfl
    · rfl
  | rejected fault => rfl
  | probing p =>
    cases p with
    | wanting =>
      simp only [heed, Probe.told_ask trusted]
      rfl
    | looking => rfl
    | seen available => rfl

/-! ## Crowds -/

/-- What is seen of a request, with the view of one that has done nothing where there is none, changes
only by a step of its own. -/
theorem Crowd.elim_job?_step (c : Crowd) {choice : Choice}
    (hne : ∀ i trusted, choice ≠ .advance i trusted) {α : Type} {a : α} {view : Job → α}
    (hwanting : ∀ j : Job, j.stage = .wanting → view j = a)
    (hanswer : ∀ j r, view (j.answer r) = view j) (hcrash : ∀ j, view j.crash = view j) (i : Nat) :
    ((c.step choice).1.job? i).elim a view = (c.job? i).elim a view := by
  have honJob (k : Nat) {f : Job → Job} (hf : ∀ j, view (f j) = view j) :
      ((c.onJob k f).1.job? i).elim a view = (c.job? i).elim a view := by
    unfold onJob
    split
    · next j hk =>
      rw [job?_set hk, Function.update_apply]
      split
      · next hik =>
        rw [hik, job?, hk]
        exact hf j
      · rfl
    · rfl
  cases choice with
  | call call =>
    have hconcat := c.job?_concat (c.engine.begin call).1 (c.engine.begin call).2
    have hbegins := (c.engine.keeps_begin call).2
    simp only [step]
    rw [hconcat, Function.update_apply]
    split
    · next hi =>
      rw [hi, job?_length]
      cases hj : (c.engine.begin call).2.job? with
      | none => rfl
      | some j => exact hwanting j (hbegins j hj)
    · rfl
  | advance k trusted => exact (hne k trusted rfl).elim
  | answer k r => exact honJob k fun j ↦ hanswer j r
  | crash k => exact honJob k hcrash
  | cancel => rfl
  | raise t => rfl

/-- So what holds of a request holds on, and nothing else comes to hold. -/
theorem Crowd.is_step_iff (c : Crowd) {choice : Choice}
    (hne : ∀ i trusted, choice ≠ .advance i trusted) {p : Job → Bool}
    (hwanting : ∀ j : Job, j.stage = .wanting → p j = false)
    (hanswer : ∀ j r, p (j.answer r) = p j) (hcrash : ∀ j, p j.crash = p j) (i : Nat) :
    (c.step choice).1.Is p i ↔ c.Is p i := by
  have helim (c : Crowd) : c.Is p i ↔ (c.job? i).elim false p = true := by
    cases hj : c.job? i <;> simp [Is, hj]
  rw [helim, helim, c.elim_job?_step hne hwanting hanswer hcrash]

/-- Requests come down by giving the injector back while they fall, and are then down for good. -/
theorem Crowd.exists_crashed_step (c : Crowd) (choice : Choice) :
    (∃ k, (c.step choice).1.Is Job.isCrashed k) ↔ (∃ k, c.Is Job.isCrashed k) ∨
      ∃ i trusted, choice = .advance i trusted ∧ c.Is Job.isFalling i := by
  by_cases hadv : ∃ i trusted, choice = .advance i trusted
  · obtain ⟨i, trusted, rfl⟩ := hadv
    cases hj : c.job? i with
    | none =>
      simp [is_congr (step_advance_of_none hj trusted).1, not_is hj]
    | some j =>
      have hk (k : Nat) : (c.step (.advance i trusted)).1.Is Job.isCrashed k ↔
          c.Is Job.isCrashed k ∨ k = i ∧ c.Is Job.isFalling i := by
        rw [is_update (step_advance_of_some hj trusted).2, Job.isCrashed_advance]
        split
        · next hki => simp [hki, is_iff hj]
        · next hki => simp [hki]
      simp [hk, exists_or]
  · have hne : ∀ i trusted, choice ≠ .advance i trusted := fun i trusted hi ↦ hadv ⟨i, trusted, hi⟩
    have hk (k : Nat) : (c.step choice).1.Is Job.isCrashed k ↔ c.Is Job.isCrashed k :=
      c.is_step_iff hne (fun j hs ↦ by rw [Job.isCrashed, hs]) (fun j r ↦ j.isCrashed_answer r)
        (fun j ↦ j.isCrashed_crash) k
    simp [hk, hne]

/-- A crowd, with what the lock remembers. -/
structure SpoilableCrowd extends Crowd where
  /-- Whether somebody gave the injector back while coming down. -/
  spoiled : Bool := false

namespace SpoilableCrowd

/-- What moves next. -/
inductive Choice
  | move (choice : Crowd.Choice)
  /-- The look whether the system permits typing brings the run of a caller down. -/
  | crashAtLook (i : Nat)

/-- A caller takes an atomic step. -/
def advance (s : SpoilableCrowd) (i : Nat) (trusted : Bool) : SpoilableCrowd :=
  match s.callers[i]? with
  | some k =>
    { engine := (k.heed (s.engine.ask s.spoiled) trusted s.engine).1
      callers := s.callers.set i (k.heed (s.engine.ask s.spoiled) trusted s.engine).2
      spoiled := s.spoiled || k.job?.any Job.isFalling }
  | none => s

/-- The run of a caller is brought down as soon as its token is published. -/
def crashAtLook (s : SpoilableCrowd) (i : Nat) : SpoilableCrowd :=
  match s.callers[i]? with
  | some (.typing j) =>
    { s with
      engine := (j.crashAtLook s.engine).1
      callers := s.callers.set i (.typing (j.crashAtLook s.engine).2) }
  | _ => s

/-- One step. -/
def step (s : SpoilableCrowd) : Choice → SpoilableCrowd
  | .move (.advance i trusted) => s.advance i trusted
  | .move choice => { s with toCrowd := (s.toCrowd.step choice).1 }
  | .crashAtLook i => s.crashAtLook i

/-- A run. -/
def run (s : SpoilableCrowd) (cs : List Choice) : SpoilableCrowd := cs.foldl step s

/-- An engine that nobody has called yet. -/
def start (e : Engine) : SpoilableCrowd := { toCrowd := ⟨e, []⟩ }

/-! ## What the lock remembers -/

/-- What moves in a crowd moves in the same way behind such a lock. -/
theorem toCrowd_move (s : SpoilableCrowd) (choice : Crowd.Choice) :
    (s.step (.move choice)).toCrowd = (s.toCrowd.step choice).1 := by
  cases choice with
  | advance i trusted =>
    simp only [step, advance, Crowd.step]
    cases s.callers[i]? with
    | none => rfl
    | some k => simp only [Caller.heed_ask]
  | _ => rfl

/-- What moves spoils the lock exactly if it is a step by which one who comes down gives the injector
back. -/
theorem spoiled_move (s : SpoilableCrowd) (choice : Crowd.Choice) :
    (s.step (.move choice)).spoiled = true ↔ s.spoiled = true ∨
      ∃ i trusted, choice = .advance i trusted ∧ s.Is Job.isFalling i := by
  cases choice with
  | advance i trusted =>
    simp only [step, advance, Crowd.Is, Crowd.job?]
    cases hk : s.callers[i]? with
    | none => simp [hk]
    | some k => cases hj : k.job? <;> simp [hk, hj]
  | _ => simp [step]

/-- Only a run that is about to publish its token comes down at its look. -/
theorem crashAtLook_eq_self {s : SpoilableCrowd} {i : Nat}
    (h : (s.job? i).any Job.isAnnounced = false) : s.crashAtLook i = s := by
  unfold crashAtLook
  split
  · next j hk =>
    have hsame : j.crashAtLook s.engine = (s.engine, j) := by
      unfold Job.crashAtLook
      split
      · next hs => simp [Crowd.job?, hk, Caller.job?, Job.isAnnounced, hs] at h
      · rfl
    obtain ⟨hi, hget⟩ := List.getElem?_eq_some_iff.mp hk
    rw [hsame, ← hget, List.set_getElem_self]
  · rfl

/-- It publishes the token, too. -/
theorem crashAtLook_of_isAnnounced {s : SpoilableCrowd} {i : Nat} {j : Job} (hj : s.job? i = some j)
    (ha : j.isAnnounced = true) :
    s.crashAtLook i =
      { s with
        engine := { s.engine with current := some j.token }
        callers := s.callers.set i (.typing { j with stage := .reported .crashed }) } := by
  simp only [crashAtLook, Crowd.callers_of_job? hj, Job.crashAtLook, Job.stage_of_isAnnounced ha]

end SpoilableCrowd

end Typist

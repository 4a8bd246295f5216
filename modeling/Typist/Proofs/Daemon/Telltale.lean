import Typist.Proofs.Daemon.Replies
import Typist.Proofs.Daemon.Twins
import Typist.Proofs.Engine.Moving

/-!
# What shows of an entry

What clients and observers see of a daemon while one entry is typed or another one that leaves the
same fields empty. Where the system makes every keyboard event, it is the same. Where it refuses
each, the first refusal ends the typing, and its wording goes out: with the code of the key it was
for. So it is the same exactly if the first keys are, and else it tells them apart.
-/

namespace Typist

/-! ## Entries and their sequences -/

/-- Whether two entries leave the same fields empty; of the notes, only the first line counts. -/
def Entry.EmptyAlike (e e' : Entry) : Prop := ∀ f, e.value f = "" ↔ e'.value f = ""

/-- Such entries fill a template's parts to as many actions. -/
theorem Entry.EmptyAlike.size_eq {e e' : Entry} (h : e.EmptyAlike e') (ps : List Template.Part) :
    (Sequence.ofActions (ps.map (Template.Part.fill e))).size =
      (Sequence.ofActions (ps.map (Template.Part.fill e'))).size := by
  have hvoid (p : Template.Part) : (p.fill e).isVoid = (p.fill e').isVoid := by
    cases p with
    | field f =>
      rw [Bool.eq_iff_iff]
      simpa [Template.Part.fill, Action.isVoid] using h f
    | _ => rfl
  rw [Sequence.size, Sequence.size, Sequence.actions_ofActions, Sequence.actions_ofActions,
    List.filter_map, List.filter_map, List.length_map, List.length_map]
  congr 2
  funext p
  exact congrArg (!·) (hvoid p)

namespace Swap

variable (x : Swap)

/-- Whether the sequences of the two entries end with the same verdict, where the template compiles
and the system lets this process type. -/
def EndsAlike : Prop :=
  ∀ s s', (Template.compile x.template (some x.entry)).result = .ok s →
    (Template.compile x.template (some x.entry')).result = .ok s' → x.trusted = true →
    EventPoster.verdict x.creation (s.firstKey? EventPoster.layout) =
      EventPoster.verdict x.creation (s'.firstKey? EventPoster.layout)

variable {x} in
/-- On the poster's keyboard, a script ends with the verdict on its first key, unless the process
may not type, or is cancelled before it begins. -/
theorem under_script {hint : String}
    (hk : x.engine.injector.keyboard = some ⟨EventPoster.layout, hint⟩) (cancelled : Bool)
    (s : Sequence) :
    (x.script s).under x.answer cancelled =
      if x.trusted = false then .error (.notPermitted hint)
      else if cancelled = true ∧ s.actions ≠ [] then .error .cancelled
      else EventPoster.verdict x.creation (s.firstKey? EventPoster.layout) := by
  rw [script, Engine.script, Injector.perform, hk]
  exact Keyboard.under_perform _ _ _ _ _ _

/-- The entries in each other's place. -/
def swapped : Swap := { x with entry := x.entry', entry' := x.entry }

variable {x}

theorem EndsAlike.swapped (h : x.EndsAlike) : x.swapped.EndsAlike :=
  fun s s' hs hs' ht ↦ (h s' s hs' hs ht).symm

/-- Sequences that end alike are typed alike. -/
theorem EndsAlike.compilesAlike (h : x.EndsAlike) {hint : String}
    (hk : x.engine.injector.keyboard = some ⟨EventPoster.layout, hint⟩)
    (hempty : x.entry.EmptyAlike x.entry') : x.CompilesAlike := by
  unfold CompilesAlike
  cases hfault : (Template.read x.template).fault with
  | some fault =>
    have hcompile (e : Entry) : (Template.compile x.template (some e)).result = .error fault := by
      simp only [Template.compile, hfault]
    rw [hcompile, hcompile]
    exact .error fault
  | none =>
    have hcompile (e : Entry) : (Template.compile x.template (some e)).result =
        .ok (.ofActions ((Template.read x.template).parts.map (Template.Part.fill e))) := by
      simp only [Template.compile, hfault]
    have hsize := hempty.size_eq (Template.read x.template).parts
    have hends := h _ _ (hcompile _) (hcompile _)
    rw [hcompile, hcompile]
    generalize Sequence.ofActions ((Template.read x.template).parts.map
      (Template.Part.fill x.entry)) = s at hsize hends
    generalize Sequence.ofActions ((Template.read x.template).parts.map
      (Template.Part.fill x.entry')) = s' at hsize hends
    refine .ok ⟨hsize, fun cancelled ↦ ?_, ?_⟩
    · have hnil : s.actions = [] ↔ s'.actions = [] := by
        rw [← List.length_eq_zero_iff, ← List.length_eq_zero_iff]
        exact Eq.congr_left hsize
      simp only [under_script hk, ne_eq, hnil]
      cases ht : x.trusted with
      | false => rfl
      | true => rw [hends ht]
    · rw [script, Engine.script, Injector.perform, hk]
      exact Keyboard.heeds_perform _ _ _ _ _

end Swap

namespace Daemon

variable {σ : Type} {w : Surroundings σ} {crashReason : String} {x : Swap}

/-- Whether the surroundings can see such outputs of a daemon while they make such choices. -/
def Shows (w : Surroundings σ) (crashReason : String) (m : Creation) (d : Daemon σ)
    (cs : List Choice) (out : List Output) : Prop :=
  ∃ d', d.Plays w crashReason m cs out d'

namespace Shows

variable {m : Creation} {d : Daemon σ} {cs : List Choice} {out : List Output}

/-- Workers may go on before anything is seen. -/
theorem after {d' : Daemon σ} (hplays : d.Plays w crashReason m [] [] d')
    (h : d'.Shows w crashReason m cs out) : d.Shows w crashReason m cs out := by
  obtain ⟨d₁, h⟩ := h
  exact ⟨d₁, hplays.trans h⟩

/-- What a step shows is seen before the rest. -/
theorem turn {c : Choice} {d' : Daemon σ} {shown : List Output}
    (hstep : d.step w crashReason c = (d', shown)) (hc : c.IsOutward)
    (h : d'.Shows w crashReason m cs out) : d.Shows w crashReason m (c :: cs) (shown ++ out) := by
  obtain ⟨d₁, h⟩ := h
  have hnext : (d.step w crashReason c).1.Plays w crashReason m cs out d₁ := by rwa [hstep]
  have hturn := Plays.turn hc hnext
  rw [hstep] at hturn
  exact ⟨d₁, hturn⟩

end Shows

/-- A daemon that nothing has happened to is its own twin. -/
theorem Unused.twins {d : Daemon σ} (hd : d.Unused) (he : d.dispatcher.engine = x.engine) :
    d.Twins x d where
  dispatcher :=
    { monitor := rfl
      engine := rfl
      state := rfl
      running := rfl
      armed := ⟨none, by simp, hd.armed, hd.armed⟩
      types := by
        rw [he]
        exact ⟨rfl, rfl⟩ }
  notices := rfl
  reports := rfl
  probe := rfl
  running := rfl
  commands := ⟨[], by simp, hd.commands, hd.commands⟩
  workers := by
    rw [hd.workers]
    exact .nil

/-- What can be seen with one entry can be seen with the other, if their sequences end alike. -/
theorem Unused.shows_of_endsAlike {d : Daemon σ} (hd : d.Unused)
    (he : d.dispatcher.engine = x.engine) (hw : w.trusted = x.trusted) {hint : String}
    (hk : x.engine.injector.keyboard = some ⟨EventPoster.layout, hint⟩)
    (hempty : x.entry.EmptyAlike x.entry') (h : x.EndsAlike) {cs : List Choice}
    (hmeans : ∀ c ∈ cs, c.Means x) {out : List Output}
    (hshows : d.Shows w crashReason x.creation (cs.map (Choice.withEntry x.entry)) out) :
    d.Shows w crashReason x.creation (cs.map (Choice.withEntry x.entry')) out := by
  obtain ⟨d₁, hplays⟩ := hshows
  obtain ⟨d₁', hplays', -⟩ :=
    (hd.twins he).plays (h.compilesAlike hk hempty) hw hmeans hplays
  exact ⟨d₁', hplays'⟩

end Daemon

/-! ## A request on its own -/

/-- Whether a request whose script this is can only end with a certain result, unless it is refused
or cancelled. -/
def Stage.Bound (p : Script TypingResult) (answer : NativeCall → NativeReply) (r : TypingResult) :
    Stage → Prop
  | .wanting | .entered | .announced => p.under answer false = r
  | .typing s => s.under answer false = r
  | .typed r' | .withdrawn r' => r' = r
  | .reported o | .quiet o | .finished o => o = .returned (r.mapError .injection)

namespace Job

variable {p : Script TypingResult} {answer : NativeCall → NativeReply} {r : TypingResult} {j : Job}

/-- It still is after a step of its own, which leaves it with the injector. -/
theorem bound_advance (h : j.stage.Bound p answer r) {trusted : Bool} {e : Engine}
    (hp : e.script trusted j.sequence = p) (hfree : j.isWanting = true → e.taken = false)
    (hflag : e.flags.isCancelled j.token = false) :
    (j.advance trusted e).2.stage.Bound p answer r ∧ (j.advance trusted e).2.isWanting = false := by
  subst hp
  cases hs : j.stage with
  | wanting =>
    rw [hs] at h
    simp only [advance, hs, hfree (by rw [isWanting, hs])]
    exact ⟨h, rfl⟩
  | typing s =>
    rw [hs] at h
    cases s with
    | look next =>
      simp only [advance, hs, hflag]
      exact ⟨h, rfl⟩
    | call c next =>
      simp only [advance, isWanting, hs]
      exact ⟨h, trivial⟩
    | _ =>
      simp only [advance, hs]
      exact ⟨h, rfl⟩
  | withdrawn r' =>
    rw [hs] at h
    obtain rfl := h
    simp only [advance, hs]
    exact ⟨rfl, rfl⟩
  | finished o =>
    rw [hs] at h
    simp only [advance, isWanting, hs]
    exact ⟨h, trivial⟩
  | _ =>
    rw [hs] at h
    simp only [advance, hs]
    exact ⟨h, rfl⟩

/-- And after an answer of the system. -/
theorem bound_answer (h : j.stage.Bound p answer r) {c : NativeCall} (hc : j.pending? = some c) :
    (j.answer (answer c)).stage.Bound p answer r ∧ (j.answer (answer c)).isWanting = false := by
  unfold pending? at hc
  unfold Job.answer
  split at hc
  · next hs =>
    cases hc
    rw [hs] at h
    exact ⟨h, rfl⟩
  · cases hc

end Job

/-- Three steps after it wanted the free injector, a request types. -/
theorem Job.exists_advanceBy_begins {j : Job} (hwants : j.stage = .wanting) {e : Engine}
    (hfree : e.taken = false) (trusted : Bool) :
    ∃ e', e'.flags = e.flags ∧ advanceBy trusted 3 (e, j) =
      (e', { j with stage := .typing (e.script trusted j.sequence) }) := by
  simp only [advanceBy, advance, hwants, hfree, Bool.not_false, if_true]
  refine ⟨_, ?_, rfl⟩
  rfl

/-- Five steps after it came to the end of its script, it is over. -/
theorem Job.exists_advanceBy_ends {j : Job} {r : TypingResult} (hdone : j.stage = .typing (.done r))
    (trusted : Bool) (e : Engine) :
    ∃ e', advanceBy trusted 5 (e, j) =
      (e', { j with stage := .finished (.returned (r.mapError .injection)) }) := by
  simp only [advanceBy, advance, hdone]
  exact ⟨_, rfl⟩

/-- Reports that are answered alike tell of the same result. -/
theorem Report.result_eq_of_answer {q q' : Report} (h : q.answer = q'.answer) :
    q.result = q'.result := by
  unfold answer at h
  cases hq : q.result with
  | ok _ => cases hq' : q'.result <;> simp_all
  | error e => cases hq' : q'.result <;> simp_all

/-- Injections that fail differently are different failures of the engine. -/
theorem TypingResult.eq_of_mapError {r r' : TypingResult}
    (h : r.mapError EngineError.injection = r'.mapError EngineError.injection) : r = r' := by
  cases r with
  | ok _ =>
    cases r' with
    | ok _ => rfl
    | error e => cases h
  | error e =>
    cases r' with
    | ok _ => cases h
    | error e' =>
      cases h
      rfl

namespace Daemon

variable {σ : Type} {w : Surroundings σ} {crashReason : String} {x : Swap}

/-- Whether the only request is bound to end with a certain result, and nothing was reported. -/
structure Awaits (x : Swap) (r : TypingResult) (d : Daemon σ) (v : Worker) : Prop where
  worker : d.workers = [v]
  reports : d.reports = []
  running : d.running = true
  bound : v.job.stage.Bound (x.script v.job.sequence) x.answer r
  free : v.job.isWanting = true → d.dispatcher.engine.taken = false
  flag : d.dispatcher.engine.flags.isCancelled v.job.token = false
  types : d.dispatcher.engine.TypesAs x.engine

namespace Awaits

variable {d : Daemon σ} {v : Worker} {r : TypingResult}

/-- There is no other worker. -/
theorem eq_of_getElem? (h : d.Awaits x r v) {i : Nat} {v' : Worker} (hi : d.workers[i]? = some v') :
    i = 0 ∧ v' = v := by
  rw [h.worker] at hi
  cases i with
  | zero => exact ⟨rfl, (Option.some.inj hi).symm⟩
  | succ i => cases hi

/-- The request goes on: it is still bound, and no longer wants the injector. -/
theorem next (h : d.Awaits x r v) {e : Engine} {job : Job}
    (hframe : job.sequence = v.job.sequence ∧ job.token = v.job.token)
    (hbound : job.stage.Bound (x.script v.job.sequence) x.answer r ∧ job.isWanting = false)
    (hflags : e.flags = d.dispatcher.engine.flags) (htypes : e.TypesAs d.dispatcher.engine) :
    (d.putJob 0 v e job).Awaits x r { v with job } where
  worker := by
    rw [workers_putJob, h.worker]
    rfl
  reports := h.reports
  running := h.running
  bound := by
    show job.stage.Bound (x.script job.sequence) x.answer r
    rw [hframe.1]
    exact hbound.1
  free := fun hwants ↦ by cases hbound.2.symm.trans hwants
  flag := by
    show e.flags.isCancelled job.token = false
    rw [hframe.2, hflags]
    exact h.flag
  types := ⟨htypes.1.trans h.types.1, htypes.2.trans h.types.2⟩

/-- A step of the request leaves it bound. -/
theorem work (h : d.Awaits x r v) (hw : w.trusted = x.trusted) (i : Nat) :
    ∃ v', (d.step w crashReason (.work i)).1.Awaits x r v' := by
  cases hi : d.workers[i]? with
  | none =>
    simp only [step, hi]
    exact ⟨v, h⟩
  | some v' =>
    obtain ⟨rfl, rfl⟩ := h.eq_of_getElem? hi
    have hbound := v'.job.bound_advance h.bound (x.script_eq h.types hw _) h.free h.flag
    simp only [step, hi]
    exact ⟨_, h.next (v'.job.advance_frame _ _) hbound (v'.job.flags_advance _ _)
      (v'.job.typesAs_advance _ _)⟩

/-- So does an answer to its native call. -/
theorem reply (h : d.Awaits x r v) {i : Nat} {v' : Worker} {c : NativeCall}
    (hi : d.workers[i]? = some v') (hc : v'.job.pending? = some c) :
    ∃ v', (d.step w crashReason (.reply i (x.answer c))).1.Awaits x r v' := by
  obtain ⟨rfl, rfl⟩ := h.eq_of_getElem? hi
  simp only [step, hi]
  exact ⟨_, h.next (v'.job.answer_frame _) (v'.job.bound_answer h.bound hc) rfl ⟨rfl, rfl⟩⟩

/-- While the surroundings choose nothing, the request stays bound. -/
theorem plays (h : d.Awaits x r v) (hw : w.trusted = x.trusted) {d' : Daemon σ} {out : List Output}
    (hplays : d.Plays w crashReason x.creation [] out d') : ∃ v', d'.Awaits x r v' :=
  (hplays.of_nil (P := fun d ↦ ∃ v, d.Awaits x r v) (fun _ i ⟨_, h⟩ ↦ h.work hw i)
    (fun _ _ _ _ ⟨_, h⟩ hv hc ↦ h.reply hv hc) ⟨v, h⟩).2

variable (w crashReason) in
/-- Its worker hands in a report of the result, or is not done yet. -/
theorem handIn (h : d.Awaits x r v) :
    (d.step w crashReason (.handIn 0)).2 = [] ∧
      ((d.step w crashReason (.handIn 0)).1 = d ∨
        (d.step w crashReason (.handIn 0)).1.workers = [] ∧
          ∃ q : Report, (d.step w crashReason (.handIn 0)).1.reports = [q] ∧
            q.result = r.mapError .injection) := by
  simp only [step, Daemon.handIn, h.worker, List.getElem?_cons_zero]
  cases hq : v.report? crashReason with
  | none => exact ⟨rfl, .inl rfl⟩
  | some q =>
    simp only [h.running, if_true, h.reports]
    refine ⟨trivial, .inr ⟨rfl, q, rfl, ?_⟩⟩
    have hbound := h.bound
    unfold Worker.report? Job.outcome? at hq
    cases hs : v.job.stage with
    | finished o =>
      rw [hs] at hq hbound
      obtain rfl := hbound
      cases hq
      rfl
    | _ =>
      rw [hs] at hq
      cases hq

/-- If its worker hands in a report and this is taken, then whoever is answered learns the
result. -/
theorem answered (h : d.Awaits x r v) (hw : w.trusted = x.trusted) {elapsedMs : UInt64}
    {d' : Daemon σ} {out : List Output}
    (hplays : d.Plays w crashReason x.creation [.handIn 0, .takeReport elapsedMs] out d')
    {t : Ticket} {a : Answer} (ha : .answered t a ∈ out) :
    ∃ q : Report, q.result = r.mapError .injection ∧ a = q.answer := by
  obtain ⟨before, later, hbefore, rfl, hlater⟩ := hplays.exists_of_cons
  obtain ⟨v', hv'⟩ := h.plays hw hbefore
  obtain ⟨hout, hnext⟩ := hv'.handIn w crashReason
  obtain ⟨before', last, hbefore', rfl, hlast⟩ := hlater.exists_of_cons
  obtain rfl := hlast.out_eq_of_nil
  -- whether or not there is a report yet, it can only be of the result
  have hreports : ∀ q ∈ before'.reports, q.result = r.mapError .injection := by
    rcases hnext with hsame | ⟨hworkers, q, hreports, hq⟩
    · rw [hsame] at hbefore'
      obtain ⟨v'', hv''⟩ := hv'.plays hw hbefore'
      simp [hv''.reports]
    · obtain ⟨-, rfl⟩ := hbefore'.eq_of_nil hworkers
      rw [hreports]
      simpa using hq
  rw [hout, List.nil_append, List.append_nil] at ha
  simp only [step, takeReport] at ha
  split at ha
  · split at ha
    · cases ha
    · next q rest hq =>
      rw [snd_apply, mem_outputs_onReport] at ha
      exact ⟨q, hreports q (hq ▸ List.mem_cons_self), ha.2⟩
  · cases ha

variable (crashReason) in
/-- It can come to its end while the surroundings choose nothing. -/
theorem exists_plays_finished (h : d.Awaits x r v) (hw : w.trusted = x.trusted)
    (hwants : v.job.stage = .wanting) :
    ∃ e, d.Plays w crashReason x.creation [] []
      (d.putJob 0 v e { v.job with stage := .finished (.returned (r.mapError .injection)) }) := by
  have hv : d.workers[0]? = some v := by rw [h.worker, List.getElem?_cons_zero]
  obtain ⟨e, hflags, hbegins⟩ := Job.exists_advanceBy_begins hwants
    (h.free (by rw [Job.isWanting, hwants])) w.trusted
  have hbegun : d.Plays w crashReason x.creation [] [] _ := plays_advanceBy 3 hv
  rw [hbegins, x.script_eq h.types hw] at hbegun
  have hends : (x.script v.job.sequence).under (EventPoster.answer x.creation)
      (e.flags.isCancelled v.job.token) = r := by
    have hbound := h.bound
    rw [hwants] at hbound
    rw [hflags, h.flag]
    exact hbound
  have hv₁ := getElem?_putJob hv e { v.job with stage := .typing (x.script v.job.sequence) }
  have htyped : Plays w crashReason x.creation _ [] [] (putJob _ 0 _ e
      { v.job with
        stage := .typing (.done ((x.script v.job.sequence).under (EventPoster.answer x.creation)
          (e.flags.isCancelled v.job.token))) }) := plays_typing hv₁ rfl
  rw [hends, putJob_putJob] at htyped
  obtain ⟨e', hover⟩ := Job.exists_advanceBy_ends
    (j := { v.job with stage := .typing (.done r) }) rfl w.trusted e
  have hended : Plays w crashReason x.creation _ [] [] (putJob _ 0 _
      (Job.advanceBy w.trusted 5 (e, { v.job with stage := .typing (.done r) })).1
      (Job.advanceBy w.trusted 5 (e, { v.job with stage := .typing (.done r) })).2) :=
    plays_advanceBy 5 (getElem?_putJob hv e { v.job with stage := .typing (.done r) })
  rw [hover, putJob_putJob] at hended
  exact ⟨e', hbegun.trans (htyped.trans hended)⟩

variable (crashReason) in
/-- So its end can be reported. -/
theorem shows_reported (h : d.Awaits x r v) (hw : w.trusted = x.trusted)
    (hwants : v.job.stage = .wanting) (hprobe : d.probe = none) (elapsedMs : UInt64) :
    d.Shows w crashReason x.creation [.handIn 0, .takeReport elapsedMs]
      (Effect.outputs (d.dispatcher.onReport
        ⟨.ofNat v.job.sequence.size, r.mapError .injection, v.ticket⟩ elapsedMs).2) := by
  obtain ⟨e, hfinished⟩ := h.exists_plays_finished crashReason hw hwants
  obtain ⟨d₁, hhanded, hreports, htaking, hdispatcher⟩ : ∃ d₁ : Daemon σ,
      (d.putJob 0 v e
        { v.job with stage := .finished (.returned (r.mapError .injection)) }).step w crashReason
          (.handIn 0) = (d₁, []) ∧
      d₁.reports = [⟨.ofNat v.job.sequence.size, r.mapError .injection, v.ticket⟩] ∧
      d₁.isTaking = true ∧ d₁.dispatcher = { d.dispatcher with engine := e } := by
    simp [step, Daemon.handIn, Daemon.putJob, Worker.report?, Job.outcome?, h.worker, h.reports,
      h.running, isTaking, hprobe]
  obtain ⟨d₂, hreported⟩ : ∃ d₂, d₁.step w crashReason (.takeReport elapsedMs) =
      (d₂, Effect.outputs (d.dispatcher.onReport
        ⟨.ofNat v.job.sequence.size, r.mapError .injection, v.ticket⟩ elapsedMs).2) := by
    simp only [step, takeReport, htaking, hreports, hdispatcher, if_true]
    exact ⟨_, Prod.ext rfl (snd_apply _ _)⟩
  have hshows := Shows.turn (m := x.creation) hreported trivial ⟨d₂, .rest d₂⟩
  rw [List.append_nil] at hshows
  exact .after hfinished (.turn hhanded trivial hshows)

end Awaits

/-! ## A plain course -/

/-- A client asks for an entry to be typed under a template, and nothing else is done until its
report has been taken, if there is one by then. -/
def request (t : Ticket) (e : Entry) (template : String) (elapsedMs : UInt64) : List Choice :=
  [.send t (.autoType (some e) (some template)), .takeCommand, .handIn 0, .takeReport elapsedMs]

namespace Unused

variable {d : Daemon σ}

variable (w crashReason) in
/-- At first, its sequence is started. -/
theorem starts (hd : d.Unused) (hrun : d.running = true) (he : d.dispatcher.engine = x.engine)
    {e : Entry} {s : Sequence} (hs : (Template.compile x.template (some e)).result = .ok s)
    (t : Ticket) :
    ∃ d₁ d₂ v, d.step w crashReason (.send t (.autoType (some e) (some x.template))) = (d₁, []) ∧
      d₁.workers = [] ∧
      d₁.step w crashReason .takeCommand =
        (d₂, [.emitted (.sequenceStarted (.ofNat s.size))]) ∧
      d₂.Awaits x ((x.script s).under x.answer false) v ∧ d₂.probe = none ∧
      v.job.stage = .wanting ∧ v.job.sequence = s ∧ v.ticket = some t := by
  obtain ⟨⟨monitor, engine, state, armed, running⟩, notices, commands, workers, reports, probe,
    running'⟩ := d
  obtain ⟨⟨rfl, rfl, rfl, rfl⟩, rfl, rfl, htaken, rfl, -⟩ := hd
  subst hrun he
  dsimp only at htaken
  obtain ⟨fresh, token, hfresh⟩ : ∃ fresh token, x.engine.freshToken = (fresh, token) := ⟨_, _, rfl⟩
  refine ⟨_, ⟨⟨monitor, fresh, .typing, none, some token⟩, notices, [],
    [.ofAssignment ⟨s, token, some t⟩], [], none, true⟩, .ofAssignment ⟨s, token, some t⟩, rfl, rfl,
    ?_, ?_, rfl, rfl, rfl, rfl⟩
  · have hbegun : Dispatcher.startSequence ⟨monitor, x.engine, .idle, none, none⟩ e
        (some x.template) (some t) = (⟨monitor, fresh, .typing, none, some token⟩,
          [.emit (.sequenceStarted (.ofNat s.size)), .start ⟨s, token, some t⟩]) := by
      simp only [Dispatcher.startSequence, Engine.compile, Option.getD_some, hs, hfresh]
    simp only [step, takeCommand, isTaking, List.nil_append, Option.isNone_none, Bool.and_self,
      if_true, Dispatcher.onCommand, Dispatcher.entryFor, hbegun]
    rfl
  · cases hfresh
    exact
      { worker := rfl
        reports := rfl
        running := rfl
        bound := rfl
        free := fun _ ↦ htaken
        flag := by simp [Cancellation.isCancelled, Worker.ofAssignment, Engine.tryingWith]
        types := ⟨rfl, rfl⟩ }

variable (w crashReason) in
/-- The client can see how typing its sequence ends. -/
theorem shows_request (hd : d.Unused) (hrun : d.running = true)
    (he : d.dispatcher.engine = x.engine) (hw : w.trusted = x.trusted) {e : Entry} {s : Sequence}
    (hs : (Template.compile x.template (some e)).result = .ok s) (t : Ticket)
    (elapsedMs : UInt64) :
    d.Shows w crashReason x.creation (request t e x.template elapsedMs)
      (.emitted (.sequenceStarted (.ofNat s.size)) ::
        Effect.outputs (d.dispatcher.onReport ⟨.ofNat s.size,
          ((x.script s).under x.answer false).mapError .injection, some t⟩ elapsedMs).2) := by
  obtain ⟨d₁, d₂, v, hsent, -, hstarted, hv, hprobe, hwants, rfl, hticket⟩ :=
    hd.starts w crashReason hrun he hs t
  have hshows := hv.shows_reported crashReason hw hwants hprobe elapsedMs
  rw [hticket] at hshows
  exact .turn hsent trivial (.turn hstarted trivial hshows)

/-- And cannot see anything else. -/
theorem answered_of_shows_request (hd : d.Unused) (hrun : d.running = true)
    (he : d.dispatcher.engine = x.engine) (hw : w.trusted = x.trusted) {e : Entry} {s : Sequence}
    (hs : (Template.compile x.template (some e)).result = .ok s) {t : Ticket}
    {elapsedMs : UInt64} {out : List Output}
    (hshows : d.Shows w crashReason x.creation (request t e x.template elapsedMs) out)
    {u : Ticket} {a : Answer} (ha : .answered u a ∈ out) :
    ∃ q : Report, q.result = ((x.script s).under x.answer false).mapError .injection ∧
      a = q.answer := by
  obtain ⟨d₁, d₂, v, hsent, hidle, hstarted, hv, -⟩ := hd.starts w crashReason hrun he hs t
  obtain ⟨d', hplays⟩ := hshows
  obtain ⟨before, later, hbefore, rfl, hlater⟩ := hplays.exists_of_cons
  obtain ⟨-, rfl⟩ := hbefore.eq_of_nil hd.workers
  rw [hsent] at hlater ha
  obtain ⟨before, last, hbefore, rfl, hlast⟩ := hlater.exists_of_cons
  obtain ⟨-, rfl⟩ := hbefore.eq_of_nil hidle
  rw [hstarted] at hlast ha
  refine hv.answered hw hlast (t := u) (a := a) ?_
  simpa using ha

variable (w crashReason) in
/-- Whoever can see no more than of the other entry sees that the sequences end alike. -/
theorem endsAlike_of_shows (hd : d.Unused) (hrun : d.running = true)
    (he : d.dispatcher.engine = x.engine) (hw : w.trusted = x.trusted) {hint : String}
    (hk : x.engine.injector.keyboard = some ⟨EventPoster.layout, hint⟩) (t : Ticket)
    (elapsedMs : UInt64)
    (h : ∀ out, d.Shows w crashReason x.creation (request t x.entry x.template elapsedMs) out →
      d.Shows w crashReason x.creation (request t x.entry' x.template elapsedMs) out) :
    x.EndsAlike := by
  intro s s' hs hs' ht
  have hunder (s : Sequence) : (x.script s).under x.answer false =
      EventPoster.verdict x.creation (s.firstKey? EventPoster.layout) := by
    rw [Swap.under_script hk, ht]
    rfl
  have hshows := h _ (hd.shows_request w crashReason hrun he hw hs t elapsedMs)
  obtain ⟨q, hq, ha⟩ := hd.answered_of_shows_request hrun he hw hs' hshows
    (List.mem_cons_of_mem _ (mem_outputs_onReport.mpr ⟨rfl, rfl⟩))
  have hresult := Report.result_eq_of_answer ha
  rw [hq] at hresult
  rw [← hunder, ← hunder]
  exact TypingResult.eq_of_mapError hresult

end Unused

/-- It does not matter in which order the entries stand. -/
theorem Choice.means_swapped {c : Choice} : c.Means x.swapped ↔ c.Means x := by
  cases c with
  | send t c => cases c <;> rfl
  | _ => rfl

/-- Nothing tells two entries apart that leave the same fields empty, exactly if their sequences end
alike: on a system that makes every keyboard event, always; on one that refuses each, if the process
may not type, or the template is at fault, or the first key events of both sequences are for the same
key. Whatever clients and the listener do with the one entry, and in whichever order everything goes
on, the same events and answers can come of it with the other. -/
theorem shows_alike_iff {d : Daemon σ} (hd : d.Unused) (hrun : d.running = true)
    (he : d.dispatcher.engine = x.engine) (hw : w.trusted = x.trusted) {hint : String}
    (hk : x.engine.injector.keyboard = some ⟨EventPoster.layout, hint⟩)
    (hempty : x.entry.EmptyAlike x.entry') :
    (∀ cs : List Choice, (∀ c ∈ cs, c.Means x) → ∀ out,
      d.Shows w crashReason x.creation (cs.map (Choice.withEntry x.entry)) out ↔
        d.Shows w crashReason x.creation (cs.map (Choice.withEntry x.entry')) out) ↔
      x.EndsAlike := by
  constructor
  · intro h
    refine hd.endsAlike_of_shows w crashReason hrun he hw hk ⟨0⟩ 0 fun out hshows ↦ ?_
    refine (h (request ⟨0⟩ x.entry x.template 0) ?_ out).mp hshows
    simp [request, Choice.Means, Command.Means, Swap.Means]
  · intro h cs hmeans out
    have hmeans' : ∀ c ∈ cs, c.Means x.swapped := fun c hc ↦ Choice.means_swapped.mpr (hmeans c hc)
    exact ⟨hd.shows_of_endsAlike he hw hk hempty h hmeans,
      hd.shows_of_endsAlike (x := x.swapped) he hw hk (fun f ↦ (hempty f).symm) h.swapped hmeans'⟩

/-- Where both sequences begin with the same key, nothing shows of what follows it. -/
theorem shows_alike_of_same_key :
    let x : Swap :=
      { entry := { username := "ab" }, entry' := { username := "aQ\n" }
        template := "\x7bUSERNAME\x7d", engine := (fresh EventPoster.layout).dispatcher.engine
        trusted := true, creation := .noEvent }
    (fresh EventPoster.layout).Unused ∧ (fresh EventPoster.layout).running = true ∧
      (permissive EventPoster.layout).trusted = x.trusted ∧
      x.engine.injector.keyboard = some ⟨EventPoster.layout, noAccessHint⟩ ∧
      x.entry.EmptyAlike x.entry' ∧
      ∀ cs : List Choice, (∀ c ∈ cs, c.Means x) → ∀ out,
        (fresh EventPoster.layout).Shows (permissive EventPoster.layout) "" x.creation
            (cs.map (Choice.withEntry x.entry)) out ↔
          (fresh EventPoster.layout).Shows (permissive EventPoster.layout) "" x.creation
            (cs.map (Choice.withEntry x.entry')) out := by
  intro x
  have hempty : x.entry.EmptyAlike x.entry' := by
    intro f
    cases f <;> decide
  have hends : x.EndsAlike := by
    intro s s' hs hs' _
    have hab : (Template.compile x.template (some x.entry)).result = .ok (.ofActions [.text "ab"]) := by
      cbv
    have haQ : (Template.compile x.template (some x.entry')).result =
        .ok (.ofActions [.text "aQ\n"]) := by
      cbv
    cases hab.symm.trans hs
    cases haQ.symm.trans hs'
    rfl
  exact ⟨unused_fresh _, rfl, rfl, rfl, hempty,
    (shows_alike_iff (unused_fresh _) rfl rfl rfl rfl hempty).mpr hends⟩

/-- A refusal shows which character came first: the code of its key goes out in an event and in the
answer, and they cannot come of the other entry. -/
theorem shows_apart_of_keys :
    let x : Swap :=
      { entry := { username := "a" }, entry' := { username := "b" }
        template := "\x7bUSERNAME\x7d", engine := (fresh EventPoster.layout).dispatcher.engine
        trusted := true, creation := .noEvent }
    let out : List Output :=
      [.emitted (.sequenceStarted 1),
        .emitted (.sequenceFailed
          "native input synthesis failed: failed to create key event for 0"),
        .answered ⟨0⟩ (.refused (.engine (.injection (.synthesisFailed
          "failed to create key event for 0"))))]
    x.entry.EmptyAlike x.entry' ∧
      (fresh EventPoster.layout).Shows (permissive EventPoster.layout) "" x.creation
        (request ⟨0⟩ x.entry x.template 0) out ∧
      ¬ (fresh EventPoster.layout).Shows (permissive EventPoster.layout) "" x.creation
        (request ⟨0⟩ x.entry' x.template 0) out := by
  intro x out
  have hempty : x.entry.EmptyAlike x.entry' := by
    intro f
    cases f <;> decide
  have ha : (Template.compile x.template (some x.entry)).result = .ok (.ofActions [.text "a"]) := by
    cbv
  have hb : (Template.compile x.template (some x.entry')).result =
      .ok (.ofActions [.text "b"]) := by
    cbv
  refine ⟨hempty, ?_, fun hshows ↦ ?_⟩
  · exact (unused_fresh _).shows_request (permissive EventPoster.layout) "" rfl rfl rfl ha ⟨0⟩ 0
  · obtain ⟨q, hq, hanswer⟩ :=
      (unused_fresh _).answered_of_shows_request rfl rfl rfl hb hshows
        (List.mem_cons_of_mem _ (List.mem_cons_of_mem _ List.mem_cons_self))
    have hresult : q.result = .error (.injection (.synthesisFailed
        "failed to create key event for 11")) := hq.trans (by rfl)
    rw [Report.answer, hresult] at hanswer
    simp at hanswer

end Daemon

end Typist

import Mathlib
import Typist.Proofs.Daemon.History
import Typist.Proofs.Engine.Performing

/-!
# The passage of a sequence

What was done for the sequence in flight since it was started: it was started in one step of the
run, every call since then was made for it and answered to it, and the way from its worker to its
report keeps what its script came to.
-/

namespace Typist

/-! ## The script of a sequence -/

namespace Dispatcher

variable {σ : Type}

theorem Starts.typesAs {d d' : Dispatcher σ} {entry : Entry} {template : Option String}
    {ticket : Option Ticket} {es : List Effect} (h : d.Starts entry template ticket d' es) :
    d'.engine.TypesAs d.engine := by
  cases h <;> exact ⟨rfl, rfl⟩

theorem Notices.typesAs {d d' : Dispatcher σ} {n : Notice} {es : List Effect}
    (h : d.Notices n d' es) : d'.engine.TypesAs d.engine := by
  cases h with
  | armed _ hstarts => exact hstarts.typesAs
  | _ => exact ⟨rfl, rfl⟩

theorem Commands.typesAs {w : Surroundings σ} {d d' : Dispatcher σ} {t : Ticket} {c : Command}
    {es : List Effect} (h : d.Commands w t c d' es) : d'.engine.TypesAs d.engine := by
  cases h with
  | typed _ hstarts => exact hstarts.typesAs
  | _ => exact ⟨rfl, rfl⟩

end Dispatcher

/-- What a report tells of the end of a request. -/
def Outcome.result (crashReason : String) : Outcome → Except EngineError Unit
  | .returned r => r
  | .crashed => .error (.injection (.synthesisFailed ("typing worker failed: " ++ crashReason)))

namespace Daemon

variable {σ : Type} {w : Surroundings σ} {crashReason : String}

/-- A dispatcher that goes on types as before. -/
theorem Moves.typesAs {d : Daemon σ} {c : Choice} {s : Daemon σ × List Output}
    {es : List Effect} {rs : List Report} (hm : d.Moves w crashReason c s es rs)
    (hs : s.1.running = true) : s.1.dispatcher.engine.TypesAs d.dispatcher.engine := by
  cases hm with
  | noticed _ _ hn =>
    rw [dispatcher_apply]
    exact hn.typesAs
  | commanded _ _ _ hc =>
    rw [dispatcher_apply]
    exact hc.typesAs
  | reported =>
    rw [dispatcher_apply]
    exact ⟨rfl, rfl⟩
  | stopped => cases hs
  | looked => exact Probe.typesAs_advance ..
  | knew => exact Probe.typesAs_advance ..
  | worked => exact Job.typesAs_advance ..
  | cancelled => exact Engine.typesAs_cancel _
  | _ => exact ⟨rfl, rfl⟩

variable (w crashReason) in
/-- A dispatcher that runs types as it did at first. -/
theorem typesAs_run (d : Daemon σ) (cs : List Choice)
    (hs : (d.run w crashReason cs).1.running = true) :
    (d.run w crashReason cs).1.dispatcher.engine.TypesAs d.dispatcher.engine := by
  refine run_induction w crashReason
    (P := fun _ d' ↦ d'.dispatcher.engine.TypesAs d.dispatcher.engine) ⟨rfl, rfl⟩ ?_ cs hs
  intro cs c _ ih hs
  obtain ⟨hk, ho⟩ := (moves w crashReason (d.run w crashReason cs).1 c).typesAs hs
  exact ⟨hk.trans ih.1, ho.trans ih.2⟩

/-! ## What is done for the sequence in flight -/

/-- The calls that are answered in a step. -/
def exchanges (d : Daemon σ) : Choice → List Exchange
  | .reply i r => (d.workers[i]?.map fun v ↦ v.job.exchange r).getD []
  | _ => []

variable (w crashReason) in
/-- The calls that are answered in a run, in order. -/
def exchanged (d : Daemon σ) (cs : List Choice) : List Exchange :=
  d.history w crashReason exchanges cs

variable (crashReason) in
/-- Whether such exchanges were made for whatever is in flight under a script. -/
structure Carries (d : Daemon σ) (p : Script TypingResult) (xs : List Exchange) : Prop where
  workers : ∀ v ∈ d.workers, v.job.stage.Has p xs
  reports : ∀ r ∈ d.reports, ∃ o, p.Comes xs o ∧ r.result = o.result crashReason

/-- Nothing was done yet for a sequence that was just started. -/
theorem Flight.carries_of_started {d : Daemon σ} {o : Option Assignment} (hf : d.Flight o)
    {ws : List Worker} {as : List Assignment} (hw : d.workers = ws ++ as.map Worker.ofAssignment)
    (has : as ≠ []) (p : Script TypingResult) : d.Carries crashReason p [] := by
  have hmap : as.map Worker.ofAssignment ≠ [] := fun h ↦ has (List.map_eq_nil_iff.mp h)
  cases hf with
  | grounded h =>
    rw [h.workers] at hw
    exact absurd (List.append_eq_nil_iff.mp hw.symm).2 hmap
  | reported _ _ h =>
    rw [h] at hw
    exact absurd (List.append_eq_nil_iff.mp hw.symm).2 hmap
  | @typing a v _ _ h hr =>
    rw [h, List.singleton_eq_append_iff] at hw
    obtain ⟨-, hnew⟩ | ⟨-, hnil⟩ := hw
    · constructor
      · intro u hu
        rw [h, ← hnew] at hu
        obtain ⟨b, -, rfl⟩ := List.mem_map.mp hu
        rfl
      · rw [hr]
        exact List.forall_mem_nil _
    · exact absurd hnil hmap

/-- Carrying out effects that start nothing does nothing for what is in flight. -/
theorem Carries.apply {d : Daemon σ} {p : Script TypingResult} {xs : List Exchange}
    (h : d.Carries crashReason p xs) {es : List Effect} (hes : Effect.assignments es = []) :
    (d.apply es).1.Carries crashReason p xs := by
  constructor
  · rw [workers_apply, hes, List.map_nil, List.append_nil]
    exact h.workers
  · rw [reports_apply]
    exact h.reports

/-- The only worker goes on. -/
theorem carries_putJob {d : Daemon σ} {v : Worker} (hw : d.workers = [v]) (hr : d.reports = [])
    {p : Script TypingResult} {xs : List Exchange} {job : Job} (hj : job.stage.Has p xs)
    (engine : Engine) : (d.putJob 0 v engine job).Carries crashReason p xs := by
  constructor
  · intro u hu
    simp only [putJob, hw, List.set_cons_zero, List.mem_singleton] at hu
    rw [hu]
    exact hj
  · simp only [putJob, hr]
    exact List.forall_mem_nil _

theorem Moves.carries_of_started {d : Daemon σ} {c : Choice} {s : Daemon σ × List Output}
    {es : List Effect} {rs : List Report} (hm : d.Moves w crashReason c s es rs)
    {o : Option Assignment} (hf : s.1.Flight o) (hes : Effect.assignments es ≠ [])
    (p : Script TypingResult) : s.1.Carries crashReason p [] := by
  cases hm with
  | noticed => exact hf.carries_of_started (workers_apply ..) hes p
  | commanded => exact hf.carries_of_started (workers_apply ..) hes p
  | reported => exact absurd (Dispatcher.assignments_onReport ..) hes
  | _ => exact absurd rfl hes

/-- Where nothing is started and no call is answered, what is in flight goes on with what was
done for it. -/
theorem Moves.carries {d : Daemon σ} {c : Choice} {s : Daemon σ × List Output}
    {es : List Effect} {rs : List Report} (hm : d.Moves w crashReason c s es rs)
    {p : Script TypingResult} {xs : List Exchange} (h : d.Carries crashReason p xs)
    {o : Option Assignment} (hf : d.Flight o)
    (hp : ∀ a, o = some a → d.dispatcher.engine.script w.trusted a.sequence = p)
    (hs : s.1.running = true) (hes : Effect.assignments es = []) (hc : ∀ i r, c ≠ .reply i r) :
    s.1.Carries crashReason p xs := by
  have hworkers {v : Worker} (hw : d.workers = [v]) : v.job.stage.Has p xs :=
    h.workers v (by simp [hw])
  cases hm with
  | noticed =>
    apply Carries.apply ?_ hes
    exact ⟨h.workers, h.reports⟩
  | commanded =>
    apply Carries.apply ?_ hes
    exact ⟨h.workers, h.reports⟩
  | reported _ _ hr =>
    apply Carries.apply ?_ hes
    refine ⟨h.workers, ?_⟩
    intro r hmem
    exact h.reports r (hr ▸ List.mem_cons_of_mem _ hmem)
  | stopped => cases hs
  | worked hv =>
    obtain ⟨rfl, hw, hr, -, a, ha, -, htypes⟩ := hf.worker hv
    apply carries_putJob hw hr
    apply Job.has_advance (hworkers hw)
    rw [htypes.1]
    exact hp a ha
  | replied r => exact absurd rfl (hc _ r)
  | crashed hv =>
    obtain ⟨rfl, hw, hr, -⟩ := hf.worker hv
    exact carries_putJob hw hr (Job.has_crash (hworkers hw)) _
  | @handedIn i v r hv hr =>
    constructor
    · intro u hu
      exact h.workers u (List.mem_of_mem_eraseIdx hu)
    · intro r' hr'
      rcases List.mem_append.mp hr' with hr' | hr'
      · exact h.reports r' hr'
      · obtain rfl := List.mem_singleton.mp hr'
        obtain ⟨o, ho, rfl⟩ := Option.map_eq_some_iff.mp hr
        refine ⟨o, Job.comes_of_outcome? (h.workers v (List.mem_of_getElem? hv)) ho, ?_⟩
        cases o <;> rfl
  | late _ _ hd =>
    rw [hd] at hs
    cases hs
  | _ => exact ⟨h.workers, h.reports⟩

/-- What is in flight goes on, and the calls that are answered are its own. -/
theorem Carries.step {d : Daemon σ} {p : Script TypingResult} {xs : List Exchange}
    (h : d.Carries crashReason p xs) {o : Option Assignment} (hf : d.Flight o)
    (hp : ∀ a, o = some a → d.dispatcher.engine.script w.trusted a.sequence = p) (c : Choice)
    (hs : (d.step w crashReason c).1.running = true) (hnone : d.starts w c = []) :
    (d.step w crashReason c).1.Carries crashReason p (xs ++ d.exchanges c) := by
  by_cases hc : ∃ i r, c = .reply i r
  · obtain ⟨i, r, rfl⟩ := hc
    rw [exchanges, Daemon.step]
    cases hv : d.workers[i]? with
    | none =>
      rw [Option.map_none, Option.getD_none, List.append_nil]
      exact h
    | some v =>
      obtain ⟨rfl, hw, hr, -⟩ := hf.worker hv
      exact carries_putJob hw hr (Job.has_answer (h.workers v (by simp [hw])) r) _
  · have hnot : ∀ i r, c ≠ .reply i r := fun i r he ↦ hc ⟨i, r, he⟩
    have hnil : d.exchanges c = [] := by
      cases c with
      | reply i r => exact absurd rfl (hnot i r)
      | _ => rfl
    rw [hnil, List.append_nil]
    exact (d.moves w crashReason c).carries h hf hp hs hnone hnot

variable (w crashReason) in
/-- Whether a sequence was started in some step of a run, and such exchanges were made in the steps
after it. -/
def Began (d : Daemon σ) (cs : List Choice) (a : Assignment) (xs : List Exchange) : Prop :=
  ∃ first c mid, cs = first ++ c :: mid ∧ a ∈ (d.run w crashReason first).1.starts w c ∧
    xs = ((d.run w crashReason first).1.step w crashReason c).1.exchanged w crashReason mid

variable (w crashReason) in
/-- What is in flight at the end of a run was started in it, and all calls since then were answered
for it. -/
theorem Idle.underway {d : Daemon σ} (hd : d.Idle) (cs : List Choice)
    (hs : (d.run w crashReason cs).1.running = true) :
    ∃ o, (d.run w crashReason cs).1.Flight o ∧ ∀ a, o = some a →
      ∃ xs, d.Began w crashReason cs a xs ∧ (d.run w crashReason cs).1.Carries crashReason
        (d.dispatcher.engine.script w.trusted a.sequence) xs := by
  refine run_induction w crashReason (P := fun cs d' ↦ ∃ o, d'.Flight o ∧ ∀ a, o = some a →
    ∃ xs, d.Began w crashReason cs a xs ∧
      d'.Carries crashReason (d.dispatcher.engine.script w.trusted a.sequence) xs)
    ⟨none, .grounded hd, nofun⟩ ?_ cs hs
  intro cs c hbefore ⟨o, hf, hway⟩ hs
  have hm := moves w crashReason (d.run w crashReason cs).1 c
  obtain ⟨o', done, hf', -, ho⟩ := hf.moves hm hs
  refine ⟨o', hf', ?_⟩
  rintro a rfl
  have ho : o.toList ++ (d.run w crashReason cs).1.starts w c = done ++ [a] := ho
  by_cases hnone : (d.run w crashReason cs).1.starts w c = []
  · -- the sequence was in flight before
    have hsame : o = some a := by
      rw [hnone, List.append_nil] at ho
      cases o with
      | none => simp at ho
      | some b =>
        have hb : [] ++ [b] = done ++ [a] := ho
        rw [List.singleton_inj.mp (List.append_inj' hb rfl).2]
    obtain ⟨xs, ⟨first, c₀, mid, hcs, ha, rfl⟩, hcarries⟩ := hway a hsame
    refine ⟨_, ⟨first, c₀, mid ++ [c], by simp [hcs], ha, rfl⟩, ?_⟩
    have hend : (d.run w crashReason cs).1 =
        (((d.run w crashReason first).1.step w crashReason c₀).1.run w crashReason mid).1 := by
      rw [hcs, run_append]
      rfl
    rw [exchanged, history_concat, ← hend]
    apply hcarries.step hf ?_ c hs hnone
    intro b hb
    obtain rfl : a = b := Option.some.inj (hsame.symm.trans hb)
    exact (typesAs_run w crashReason d cs hbefore).script w.trusted a.sequence
  · refine ⟨[], ⟨cs, c, [], rfl, ?_, rfl⟩, hm.carries_of_started hf' hnone _⟩
    obtain hnil | ⟨l, b, hl⟩ := List.eq_nil_or_concat ((d.run w crashReason cs).1.starts w c)
    · exact absurd hnil hnone
    · rw [hl, List.concat_eq_append] at ho ⊢
      rw [← List.append_assoc] at ho
      rw [List.singleton_inj.mp (List.append_inj' ho rfl).2]
      exact List.mem_append_right l (List.mem_singleton_self a)

end Daemon

end Typist

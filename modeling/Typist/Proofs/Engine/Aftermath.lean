import Mathlib
import Typist.Proofs.Engine.Apart
import Typist.Proofs.Engine.Spoiling

/-!
# What a run leaves

When a run is over the engine no longer shows that it is busy, and the injector is there for the next
request, whether the run ended well or was brought down. The published token is withdrawn by a step
of the run itself, though, and a run that is brought down does not come to that step: its token stays
published until the next run publishes its own.
-/

namespace Typist

/-! ## Requests -/

namespace Job

/-- Whether the request has published its token and has not withdrawn it. One that was brought down
never will. -/
def isOut (j : Job) : Bool := j.isPublished || j.isDown

/-- The token that a request leaves published, if no other one publishes its own. -/
def leaves? (j : Job) : Option Token := if j.isOut then some j.token else none

/-- Whether the request is inside its run, and has published its token there. -/
def isInsideOut (j : Job) : Bool := j.isInside && j.isOut

theorem isOut_answer (j : Job) (r : NativeReply) : (j.answer r).isOut = j.isOut := by
  rw [isOut, isOut, j.isPublished_answer r, j.isDown_answer r]

/-- A request that is brought down leaves its token published. -/
theorem isOut_crash (j : Job) : j.crash.isOut = j.isOut := by
  unfold crash
  split
  · next hs => simp [isOut, isPublished, isDown, hs]
  · rfl

theorem isShown_crash (j : Job) : j.crash.isShown = j.isShown := by
  unfold crash
  split
  · next hs => simp [isShown, hs]
  · rfl

theorem isOut_of_stage {j : Job} (h : j.stage = .wanting) : j.isOut = false := by
  simp [isOut, isPublished, isDown, h]

theorem isShown_of_isPublished {j : Job} (h : j.isPublished = true) : j.isShown = true := by
  unfold isPublished at h
  unfold isShown
  split at h
  case h_3 => cases h
  all_goals
    next hs => rw [hs]

theorem isCrashed_iff (j : Job) : j.isCrashed = true ↔ j.outcome? = some .crashed := by
  cases hs : j.stage with
  | finished o => cases o <;> simp [isCrashed, outcome?, hs]
  | _ => simp [isCrashed, outcome?, hs]

/-- Outside of its run a request leaves its token published exactly if it came down. -/
theorem leaves?_of_not_inside {j : Job} (h : j.isInside = false) (t : Token) :
    j.leaves? = some t ↔ j.outcome? = some .crashed ∧ j.token = t := by
  have hout : j.isOut = true ↔ j.outcome? = some .crashed := by
    cases hs : j.stage with
    | wanting => simp [isOut, isPublished, isDown, outcome?, hs]
    | finished o => cases o <;> simp [isOut, isPublished, isDown, outcome?, hs]
    | _ => simp [isInside, hs] at h
  rw [leaves?, ← hout]
  split
  · next ho => simp [ho]
  · next ho => simp [ho]

/-- Only a request that writes publishes its token or withdraws it. -/
theorem isPublished_advance (trusted : Bool) (e : Engine) {j : Job} (h : j.isWriting = false) :
    (j.advance trusted e).2.isPublished = j.isPublished := by
  cases hs : j.stage with
  | wanting =>
    simp only [advance, hs]
    split
    · simp [isPublished, hs]
    · split <;> simp [isPublished, hs]
  | announced => simp [isWriting, hs] at h
  | typed r => simp [isWriting, hs] at h
  | typing s => cases s <;> simp [advance, isPublished, hs]
  | _ => simp [advance, isPublished, hs]

/-- A step publishes the token, or withdraws it, or leaves it as it is. -/
theorem current_advance_cases (trusted : Bool) (e : Engine) (j : Job) :
    (j.isAnnounced = true ∧ (j.advance trusted e).1.current = some j.token ∧
        (j.advance trusted e).2.isInsideOut = true) ∨
      (j.isAnnounced = false ∧ j.isInsideOut = true ∧ (j.advance trusted e).1.current = none ∧
        (j.advance trusted e).2.isOut = false) ∨
      j.isAnnounced = false ∧ (j.advance trusted e).1.current = e.current ∧
        (j.advance trusted e).2.isOut = j.isOut := by
  cases hs : j.stage with
  | announced =>
    left
    simp [advance, isAnnounced, isInsideOut, isInside, isOut, isPublished, hs]
  | typed r =>
    right
    left
    simp [advance, isAnnounced, isInsideOut, isInside, isOut, isPublished, isDown, hs]
  | _ =>
    right
    right
    have hwriting : j.isWriting = false := by rw [isWriting, hs]
    refine ⟨by rw [isAnnounced, hs], current_advance trusted e hwriting, ?_⟩
    rw [isOut, isOut, isDown_advance, isPublished_advance trusted e hwriting]

/-- A step that leaves the token published takes nobody in. -/
theorem isInsideOut_of_advance {j : Job} (h : j.IsProper) {trusted : Bool} {e : Engine}
    (hsame : (j.advance trusted e).2.isOut = j.isOut)
    (hio : (j.advance trusted e).2.isInsideOut = true) : j.isInsideOut = true := by
  obtain ⟨hin, hout⟩ := Bool.and_eq_true_iff.mp hio
  rw [hsame] at hout
  obtain ⟨hw, -, -⟩ | ⟨-, hback⟩ := begins_advance h trusted e
  · rw [isOut_of_stage (stage_of_isWanting hw)] at hout
    cases hout
  · rw [isInsideOut, hback hin, hout]
    rfl

/-- A step leaves the busy mark as it is, or one who is inside sets it right. -/
theorem busy_advance_cases (trusted : Bool) (e : Engine) (j : Job) :
    ((j.advance trusted e).1.busy = e.busy ∧ (j.advance trusted e).2.isShown = j.isShown) ∨
      j.isInside = true ∧ (j.advance trusted e).1.busy = (j.advance trusted e).2.isShown := by
  cases hs : j.stage with
  | wanting =>
    left
    simp only [advance, hs]
    split
    · simp [isShown, hs]
    · split <;> simp [isShown, hs]
  | typing s => cases s <;> simp [advance, isShown, isInside, hs]
  | _ => simp [advance, isShown, isInside, hs]

end Job

/-! ## Nobody else is inside -/

namespace Crowd

theorem Exclusive.eq_of_isInside {c : Crowd} (h : c.Exclusive) {i k : Nat}
    (hi : c.Is Job.isInside i) (hk : c.Is Job.isInside k) : i = k := by
  obtain ⟨j, hj, hin⟩ := hi
  obtain ⟨j', hj', hin'⟩ := hk
  exact h.eq_of_holds (callers_of_job? hj) hin (callers_of_job? hj') hin'

/-- Whether nobody is inside a run. -/
def AtRest (c : Crowd) : Prop := ∀ i, ¬ c.Is Job.isInside i

/-- The injector is free exactly while nobody is inside a run and nobody looks. -/
theorem Exclusive.free_iff {c : Crowd} (h : c.Exclusive) :
    c.engine.taken = false ↔ c.AtRest ∧ ¬ c.Probed := by
  constructor
  · intro hfree
    refine ⟨h.not_inside hfree, ?_⟩
    rintro ⟨k, hk⟩
    have htaken := h.taken (List.mem_of_getElem? hk) rfl
    rw [hfree] at htaken
    cases htaken
  · rintro ⟨hrest, hlook⟩
    by_contra htaken
    have hpos : 0 < c.callers.countP Caller.holds := by
      rw [h.holders, Bool.eq_true_of_not_eq_false htaken]
      exact Nat.one_pos
    obtain ⟨k, hk, hholds⟩ := List.countP_pos_iff.mp hpos
    obtain ⟨i, hi⟩ := List.getElem?_of_mem hk
    cases k with
    | typing j => exact hrest i ⟨j, by rw [job?, hi]; rfl, hholds⟩
    | rejected fault => cases hholds
    | probing p =>
      cases p with
      | looking => exact hlook ⟨i, hi⟩
      | wanting => cases hholds
      | seen available => cases hholds

/-! ## Marks -/

/-- Whether the engine shows that it is busy exactly if a request shows so. -/
def ShowsBusy (c : Crowd) : Prop := c.engine.busy = true ↔ ∃ i, c.Is Job.isShown i

/-- Whether the published token is what the last request left that published its own. -/
structure Traced (last : Option Nat) (c : Crowd) : Prop where
  current : c.engine.current = (last.bind c.job?).bind Job.leaves?
  /-- Nobody else is inside whose token is published. -/
  out : ∀ i, c.Is Job.isInsideOut i → last = some i

theorem inside_of_insideOut {c : Crowd} {i : Nat} (h : c.Is Job.isInsideOut i) :
    c.Is Job.isInside i := by
  obtain ⟨j, hj, hio⟩ := h
  exact ⟨j, hj, (Bool.and_eq_true_iff.mp hio).1⟩

theorem inside_of_shown {c : Crowd} {i : Nat} (h : c.Is Job.isShown i) : c.Is Job.isInside i := by
  obtain ⟨j, hj, hshown⟩ := h
  exact ⟨j, hj, Job.isInside_of_isShown hshown⟩

section Update

variable {last : Option Nat} {c c' : Crowd} {i : Nat} {j j' : Job}

/-- What others show stays, as they show nothing while the one who moves is inside. -/
theorem ShowsBusy.update (h : c.ShowsBusy) (hx : c.Exclusive) (hj : c.job? i = some j)
    (hjob : c'.job? = Function.update c.job? i (some j'))
    (hbusy : (c'.engine.busy = c.engine.busy ∧ j'.isShown = j.isShown) ∨
      j.isInside = true ∧ c'.engine.busy = j'.isShown) : c'.ShowsBusy := by
  unfold ShowsBusy at h ⊢
  obtain ⟨hsame, hshown⟩ | ⟨hin, hright⟩ := hbusy
  · rw [hsame, h]
    refine exists_congr fun k ↦ ?_
    rw [is_update hjob]
    split
    · next hk => rw [hk, is_iff hj, hshown]
    · rfl
  · rw [hright]
    constructor
    · intro hshown
      exact ⟨i, (is_update hjob _ i).mpr (by rwa [if_pos rfl])⟩
    · rintro ⟨k, hk⟩
      rw [is_update hjob] at hk
      split at hk
      · exact hk
      · next hne => exact (hne (hx.eq_of_isInside (inside_of_shown hk) ⟨j, hj, hin⟩)).elim

/-- Whoever publishes its token is the only one inside. -/
theorem traced_of_publish (hx : c'.Exclusive)
    (hjob : c'.job? = Function.update c.job? i (some j')) (hout : j'.isInsideOut = true)
    (hcurrent : c'.engine.current = some j'.token) : Traced (some i) c' where
  current := by
    have hj' : c'.job? i = some j' := hjob ▸ Function.update_self ..
    rw [hcurrent, Option.bind_some, hj', Option.bind_some, Job.leaves?,
      if_pos (Bool.and_eq_true_iff.mp hout).2]
  out k hk := by
    have hi : c'.Is Job.isInsideOut i := (is_update hjob _ i).mpr (by rwa [if_pos rfl])
    rw [hx.eq_of_isInside (inside_of_insideOut hk) (inside_of_insideOut hi)]

/-- Whoever withdraws its token was the last to publish one. -/
theorem Traced.withdraw (h : Traced last c) (hj : c.job? i = some j)
    (hjob : c'.job? = Function.update c.job? i (some j')) (hout : j.isInsideOut = true)
    (hnot : j'.isOut = false) (hcurrent : c'.engine.current = none) : Traced last c' where
  current := by
    rw [hcurrent, h.out i ⟨j, hj, hout⟩, Option.bind_some, hjob, Function.update_self,
      Option.bind_some, Job.leaves?, hnot]
    rfl
  out k hk := by
    rw [is_update hjob] at hk
    split at hk
    · simp [Job.isInsideOut, hnot] at hk
    · exact h.out k hk

/-- A step that leaves all tokens where they are. -/
theorem Traced.keep (h : Traced last c) (hcurrent : c'.engine.current = c.engine.current)
    (hleaves : ∀ k, (c'.job? k).bind Job.leaves? = (c.job? k).bind Job.leaves?)
    (hout : ∀ k, c'.Is Job.isInsideOut k → c.Is Job.isInsideOut k) : Traced last c' where
  current := by
    rw [hcurrent, h.current]
    cases last with
    | none => rfl
    | some k => exact (hleaves k).symm
  out k hk := h.out k (hout k hk)

end Update

section Others

variable {c : Crowd} {choice : Choice} (hne : ∀ i trusted, choice ≠ .advance i trusted)
include hne

/-- Only a request of which a step is taken changes what is shown. -/
theorem ShowsBusy.step_of_ne (h : c.ShowsBusy) : (c.step choice).1.ShowsBusy := by
  have hbusy : (c.step choice).1.engine.busy = c.engine.busy := by
    cases choice with
    | call call => exact (c.engine.keeps_begin call).1.busy
    | advance i trusted => exact (hne i trusted rfl).elim
    | answer i r =>
      simp only [step, onJob]
      split <;> rfl
    | crash i =>
      simp only [step, onJob]
      split <;> rfl
    | cancel => exact c.engine.keeps_cancel.busy
    | raise t => rfl
  unfold ShowsBusy at h ⊢
  rw [hbusy, h]
  refine exists_congr fun k ↦ (c.is_step_iff hne (fun j hs ↦ ?_) (fun j r ↦ ?_) (fun j ↦ ?_) k).symm
  · rw [Job.isShown, hs]
  · exact j.isShown_answer r
  · exact j.isShown_crash

/-- Nor does anything else change which tokens are published. -/
theorem Traced.step_of_ne {last : Option Nat} (h : Traced last c) :
    Traced last (c.step choice).1 := by
  have hleaves {j j' : Job} (ht : j'.token = j.token) (ho : j'.isOut = j.isOut) :
      j'.leaves? = j.leaves? := by
    rw [Job.leaves?, Job.leaves?, ht, ho]
  have hbind {c : Crowd} {k : Nat} :
      (c.job? k).bind Job.leaves? = (c.job? k).elim none Job.leaves? := by
    cases c.job? k <;> rfl
  apply h.keep
  · exact c.current_step fun i trusted hi ↦ (hne i trusted hi).elim
  · intro k
    rw [hbind, hbind]
    refine c.elim_job?_step hne (fun j hs ↦ ?_) (fun j r ↦ ?_) (fun j ↦ ?_) k
    · rw [Job.leaves?, Job.isOut_of_stage hs]
      rfl
    · exact hleaves (j.answer_frame r).2 (j.isOut_answer r)
    · exact hleaves j.crash_frame.2 j.isOut_crash
  · refine fun k ↦ (c.is_step_iff hne (fun j hs ↦ ?_) (fun j r ↦ ?_) (fun j ↦ ?_) k).mp
    · rw [Job.isInsideOut, Job.isOut_of_stage hs, Bool.and_false]
    · rw [Job.isInsideOut, Job.isInsideOut, j.isInside_answer r, j.isOut_answer r]
    · rw [Job.isInsideOut, Job.isInsideOut, j.isInside_crash, j.isOut_crash]

end Others

/-- A step of a request: the last to publish is now this one, if the step publishes its token. -/
theorem Traced.advance {last : Option Nat} {c : Crowd} (h : Traced last c) (hx : c.Exclusive)
    {i : Nat} {j : Job} (hj : c.job? i = some j) (trusted : Bool) :
    Traced (if j.isAnnounced then some i else last) (c.step (.advance i trusted)).1 := by
  obtain ⟨hengine, hjob⟩ := step_advance_of_some hj trusted
  have htoken := (j.advance_frame trusted c.engine).2
  obtain ⟨ha, hcurrent, hout⟩ | ⟨ha, hio, hcurrent, hnot⟩ | ⟨ha, hcurrent, hsame⟩ :=
    j.current_advance_cases trusted c.engine
  · rw [ha, if_pos rfl]
    exact traced_of_publish (hx.step _) hjob hout (by rw [hengine, htoken, hcurrent])
  · rw [ha, if_neg Bool.false_ne_true]
    exact h.withdraw hj hjob hio hnot (by rw [hengine, hcurrent])
  · rw [ha, if_neg Bool.false_ne_true]
    refine h.keep (by rw [hengine, hcurrent]) (fun k ↦ ?_) fun k hk ↦ ?_
    · rw [hjob, Function.update_apply]
      split
      · next hki =>
        rw [hki, hj, Option.bind_some, Option.bind_some, Job.leaves?, Job.leaves?, htoken, hsame]
      · rfl
    · rw [is_update hjob] at hk
      split at hk
      · next hki =>
        rw [hki]
        exact ⟨j, hj, Job.isInsideOut_of_advance (hx.isProper hj) hsame hk⟩
      · exact hk

theorem ShowsBusy.step {c : Crowd} (h : c.ShowsBusy) (hx : c.Exclusive) (choice : Choice) :
    (c.step choice).1.ShowsBusy := by
  by_cases hadv : ∃ i trusted, choice = .advance i trusted
  · obtain ⟨i, trusted, rfl⟩ := hadv
    cases hj : c.job? i with
    | none =>
      obtain ⟨hjob, hkeeps⟩ := step_advance_of_none hj trusted
      unfold ShowsBusy at h ⊢
      rw [hkeeps.busy, h, exists_congr fun k ↦ is_congr hjob _ k]
    | some j =>
      obtain ⟨hengine, hjob⟩ := step_advance_of_some hj trusted
      exact h.update hx hj hjob (hengine ▸ j.busy_advance_cases trusted c.engine)
  · exact h.step_of_ne fun i trusted hi ↦ hadv ⟨i, trusted, hi⟩

theorem typesAs_step (c : Crowd) (choice : Choice) :
    (c.step choice).1.engine.TypesAs c.engine := by
  by_cases hcrash : ∃ i, choice = .crash i
  · obtain ⟨i, rfl⟩ := hcrash
    simp only [step, onJob]
    split <;> exact ⟨rfl, rfl⟩
  · exact (c.moves_step fun i hi ↦ hcrash ⟨i, hi⟩).typesAs

end Crowd

/-! ## Runs -/

namespace SpoilableCrowd

/-- The caller whose token a step publishes. -/
def publisher? (s : SpoilableCrowd) : Choice → Option Nat
  | .move (.advance i _) | .crashAtLook i =>
    if (s.job? i).any Job.isAnnounced then some i else none
  | _ => none

/-- The last caller in a run that published its token, or the one who was so before. -/
def lastToPublish (s : SpoilableCrowd) (last : Option Nat) : List Choice → Option Nat
  | [] => last
  | choice :: rest => (s.step choice).lastToPublish ((s.publisher? choice).or last) rest

/-- What every run keeps to. -/
structure Sound (e : Engine) (last : Option Nat) (s : SpoilableCrowd) : Prop where
  exclusive : s.toCrowd.Exclusive
  showsBusy : s.toCrowd.ShowsBusy
  traced : s.toCrowd.Traced last
  typesAs : s.engine.TypesAs e
  spoiled : s.spoiled = true ↔ ∃ i, s.Is Job.isCrashed i

theorem sound_start {e : Engine} (h : e.Unused) : Sound e none (start e) := by
  have hnone (p : Job → Bool) (i : Nat) : ¬ Crowd.Is ⟨e, []⟩ p i := Crowd.not_is rfl p
  constructor
  · exact Crowd.exclusive_start h.taken
  · simp [Crowd.ShowsBusy, start, h.busy, hnone]
  · exact ⟨h.current, fun i hi ↦ (hnone _ i hi).elim⟩
  · exact ⟨rfl, rfl⟩
  · simp [start, hnone]

variable {e : Engine} {last : Option Nat} {s : SpoilableCrowd}

theorem Sound.traced_move (h : Sound e last s) (choice : Crowd.Choice) :
    (s.toCrowd.step choice).1.Traced ((s.publisher? (.move choice)).or last) := by
  by_cases hadv : ∃ i trusted, choice = .advance i trusted
  · obtain ⟨i, trusted, rfl⟩ := hadv
    cases hj : s.job? i with
    | none =>
      obtain ⟨hjob, hkeeps⟩ := Crowd.step_advance_of_none hj trusted
      simp only [publisher?, hj, Option.any_none]
      exact h.traced.keep hkeeps.current (fun k ↦ by rw [hjob])
        fun k ↦ (Crowd.is_congr hjob _ k).mp
    | some j =>
      have hstep := h.traced.advance h.exclusive hj trusted
      simp only [publisher?, hj, Option.any_some]
      split
      · next ha => rwa [if_pos ha] at hstep
      · next ha => rwa [if_neg ha] at hstep
  · have hne : ∀ i trusted, choice ≠ .advance i trusted := fun i trusted hi ↦ hadv ⟨i, trusted, hi⟩
    have hnone : s.publisher? (.move choice) = none := by
      cases choice with
      | advance i trusted => exact (hne i trusted rfl).elim
      | _ => rfl
    rw [hnone, Option.none_or]
    exact h.traced.step_of_ne hne

/-- A run that comes down at its look has published its token, and shows on that it is busy. -/
theorem Sound.crashAtLook (h : Sound e last s) (i : Nat) :
    Sound e ((s.publisher? (.crashAtLook i)).or last) (s.crashAtLook i) := by
  cases ha : (s.job? i).any Job.isAnnounced with
  | false =>
    rw [crashAtLook_eq_self ha, publisher?, ha]
    exact h
  | true =>
    rw [publisher?, if_pos ha, Option.some_or]
    obtain ⟨j, hj, ha⟩ := (Option.any_eq_true _ _).mp ha
    rw [crashAtLook_of_isAnnounced hj ha]
    have hs := Job.stage_of_isAnnounced ha
    have hk := Crowd.callers_of_job? hj
    have hjob := Crowd.job?_set hk { s.engine with current := some j.token }
      (.typing { j with stage := .reported .crashed })
    have hx : Crowd.Exclusive ⟨{ s.engine with current := some j.token },
        s.callers.set i (.typing { j with stage := .reported .crashed })⟩ := by
      apply h.exclusive.set hk
      · simp [Caller.holds, Job.isInside, hs]
      · simp [Caller.IsProper, Job.IsProper, Outcome.refused]
    constructor
    · exact hx
    · exact h.showsBusy.update h.exclusive hj hjob (.inl ⟨rfl, by simp [Job.isShown, hs]⟩)
    · exact Crowd.traced_of_publish hx hjob rfl rfl
    · exact h.typesAs
    · rw [h.spoiled]
      refine exists_congr fun k ↦ ?_
      rw [Crowd.is_update hjob]
      split
      · next hki => simp [hki, Crowd.is_iff hj, Job.isCrashed, hs]
      · rfl

theorem Sound.step (h : Sound e last s) (choice : Choice) :
    Sound e ((s.publisher? choice).or last) (s.step choice) := by
  cases choice with
  | move choice =>
    have hcrowd := s.toCrowd_move choice
    have htypes := s.typesAs_step choice
    constructor
    · rw [hcrowd]
      exact h.exclusive.step choice
    · rw [hcrowd]
      exact h.showsBusy.step h.exclusive choice
    · rw [hcrowd]
      exact h.traced_move choice
    · rw [hcrowd]
      exact ⟨htypes.1.trans h.typesAs.1, htypes.2.trans h.typesAs.2⟩
    · rw [spoiled_move, hcrowd, Crowd.exists_crashed_step, h.spoiled]
  | crashAtLook i => exact h.crashAtLook i

theorem Sound.run (h : Sound e last s) (cs : List Choice) :
    Sound e (s.lastToPublish last cs) (s.run cs) := by
  induction cs generalizing last s with
  | nil => exact h
  | cons choice cs ih => exact ih (h.step choice)

end SpoilableCrowd

/-! ## The next request -/

namespace Engine

/-- The sequence that a call asks to be typed, if it asks for one and its template is accepted. -/
def asked? (e : Engine) : EngineCall → Option Sequence
  | .perform q | .attempt q | .attemptWith q _ => some q
  | .typeEntry template entry => (e.compile template entry).result.toOption
  | .probe => none

/-- Whether a token is the one that a call brings along, or else was not given out before. -/
def Hands (e : Engine) (t : Token) : EngineCall → Prop
  | .attemptWith _ u => t = u
  | _ => ¬ e.flags.Issued t

theorem begin_of_asked {e : Engine} {call : EngineCall} {q : Sequence} (h : e.asked? call = some q) :
    ∃ j, (e.begin call).2 = .typing j ∧ j.stage = .wanting ∧ j.sequence = q ∧ e.Hands j.token call := by
  have hfresh := e.flags.not_issued_fresh
  cases call with
  | perform q' =>
    cases h
    exact ⟨_, rfl, rfl, rfl, hfresh⟩
  | attempt q' =>
    cases h
    exact ⟨_, rfl, rfl, rfl, hfresh⟩
  | attemptWith q' t =>
    cases h
    exact ⟨_, rfl, rfl, rfl, rfl⟩
  | typeEntry template entry =>
    simp only [asked?] at h
    cases hr : (e.compile template entry).result with
    | error fault =>
      rw [hr] at h
      cases h
    | ok q' =>
      rw [hr] at h
      cases h
      simp only [begin, hr]
      exact ⟨_, rfl, rfl, rfl, hfresh⟩
  | probe => cases h

end Engine

/-- A request that finds the injector free is three steps away from typing. -/
theorem Job.advanceBy_three {j : Job} (hs : j.stage = .wanting) {e : Engine} (hfree : e.taken = false)
    (trusted : Bool) :
    advanceBy trusted 3 (e, j) =
      ({ e with taken := true, busy := true, current := some j.token },
        { j with stage := .typing (e.script trusted j.sequence) }) := by
  simp [advanceBy, advance, hs, hfree, Engine.script]

namespace SpoilableCrowd

/-- Steps of one request, without another one in between. -/
theorem run_replicate_advance {s : SpoilableCrowd} {i : Nat} {j : Job} (hj : s.job? i = some j)
    (trusted : Bool) (n : Nat) :
    (s.run (List.replicate n (.move (.advance i trusted)))).engine =
        (Job.advanceBy trusted n (s.engine, j)).1 ∧
      (s.run (List.replicate n (.move (.advance i trusted)))).job? i =
        some (Job.advanceBy trusted n (s.engine, j)).2 := by
  induction n generalizing s j with
  | zero => exact ⟨rfl, hj⟩
  | succ n ih =>
    obtain ⟨hengine, hjob⟩ := Crowd.step_advance_of_some hj trusted
    rw [← s.toCrowd_move] at hengine hjob
    have hrest := ih (s := s.step (.move (.advance i trusted)))
      ((congrFun hjob i).trans (Function.update_self ..))
    rw [hengine] at hrest
    exact hrest

/-- Somebody calls, and takes three steps. -/
def request (s : SpoilableCrowd) (call : EngineCall) (trusted : Bool) : SpoilableCrowd :=
  (s.step (.move (.call call))).run (List.replicate 3 (.move (.advance s.callers.length trusted)))

/-- What runs leave of themselves on an engine, when `last` was the last to publish its token. -/
structure Aftermath (e : Engine) (last : Option Nat) (s : SpoilableCrowd) : Prop where
  /-- Whoever types is shown to, under its own token. -/
  typing : ∀ i j, s.job? i = some j → j.isPublished = true →
    s.engine.busy = true ∧ s.engine.current = some j.token
  idle : s.AtRest → s.engine.busy = false
  /-- At rest a token is published exactly if the last run was brought down, and it is the token of
  that run. -/
  left : s.AtRest → ∀ t, s.engine.current = some t ↔
    ∃ i j, last = some i ∧ s.job? i = some j ∧ j.outcome? = some .crashed ∧ j.token = t
  /-- The lock is spoiled exactly if some run was brought down. -/
  spoiled : s.spoiled = true ↔ ∃ i j, s.job? i = some j ∧ j.outcome? = some .crashed
  /-- Still, whoever wants the injector gets it, unless somebody looks. -/
  enters : s.AtRest → ¬ s.Probed → ∀ i trusted, s.Is Job.isWanting i →
    (s.step (.move (.advance i trusted))).Is Job.isInside i
  /-- So the next request types what it was asked to, and under a token of its own. -/
  next : s.AtRest → ¬ s.Probed → ∀ call q trusted, s.engine.asked? call = some q →
    ∃ j, (s.request call trusted).job? s.callers.length = some j ∧
      j.stage = .typing (e.script trusted q) ∧ s.engine.Hands j.token call ∧
      (s.request call trusted).engine.busy = true ∧
      (s.request call trusted).engine.current = some j.token

variable {e : Engine} {last : Option Nat} {s : SpoilableCrowd}

theorem Sound.next (h : Sound e last s) (hfree : s.engine.taken = false) {call : EngineCall}
    {q : Sequence} (hq : s.engine.asked? call = some q) (trusted : Bool) :
    ∃ j, (s.request call trusted).job? s.callers.length = some j ∧
      j.stage = .typing (e.script trusted q) ∧ s.engine.Hands j.token call ∧
      (s.request call trusted).engine.busy = true ∧
      (s.request call trusted).engine.current = some j.token := by
  obtain ⟨j, hj, hs, rfl, hhands⟩ := Engine.begin_of_asked hq
  have hfree' : (s.engine.begin call).1.taken = false :=
    (Caller.begin_frame s.engine call).1.trans hfree
  have htypes := (s.engine.keeps_begin call).1.typesAs
  have hscript (t : Bool) (q : Sequence) : (s.engine.begin call).1.script t q = e.script t q :=
    (htypes.script t q).trans (h.typesAs.script t q)
  have hcome : (s.step (.move (.call call))).job? s.callers.length = some j := by
    have hconcat := s.job?_concat (s.engine.begin call).1 (s.engine.begin call).2
    refine (congrFun hconcat _).trans ?_
    rw [Function.update_self, hj]
    rfl
  obtain ⟨hengine, hjob⟩ := run_replicate_advance hcome trusted 3
  have hthree := Job.advanceBy_three hs hfree' trusted
  rw [hscript] at hthree
  have hsame : (s.step (.move (.call call))).engine = (s.engine.begin call).1 := rfl
  rw [hsame, hthree] at hengine hjob
  exact ⟨_, hjob, rfl, hhands, by rw [request, hengine], by rw [request, hengine]⟩

theorem Sound.aftermath (h : Sound e last s) : Aftermath e last s := by
  have hcrashed (i : Nat) :
      s.Is Job.isCrashed i ↔ ∃ j, s.job? i = some j ∧ j.outcome? = some .crashed :=
    exists_congr fun j ↦ and_congr_right fun _ ↦ j.isCrashed_iff
  constructor
  · intro i j hj hp
    have hio : j.isInsideOut = true := by
      rw [Job.isInsideOut, Job.isInside_of_isPublished hp, Job.isOut, hp]
      rfl
    refine ⟨h.showsBusy.mpr ⟨i, j, hj, Job.isShown_of_isPublished hp⟩, ?_⟩
    rw [h.traced.current, h.traced.out i ⟨j, hj, hio⟩, Option.bind_some, hj, Option.bind_some,
      Job.leaves?, Job.isOut, hp]
    rfl
  · intro hrest
    by_contra hbusy
    obtain ⟨i, hi⟩ := h.showsBusy.mp (Bool.eq_true_of_not_eq_false hbusy)
    exact hrest i (Crowd.inside_of_shown hi)
  · intro hrest t
    have hleft (i : Nat) (j : Job) (hj : s.job? i = some j) :
        j.leaves? = some t ↔ j.outcome? = some .crashed ∧ j.token = t :=
      j.leaves?_of_not_inside (Bool.eq_false_iff.mpr fun hin ↦ hrest i ⟨j, hj, hin⟩) t
    simp only [h.traced.current, Option.bind_eq_some_iff]
    constructor
    · rintro ⟨j, ⟨i, hi, hj⟩, hleaves⟩
      exact ⟨i, j, hi, hj, (hleft i j hj).mp hleaves⟩
    · rintro ⟨i, j, hi, hj, hdown⟩
      exact ⟨j, ⟨i, hi, hj⟩, (hleft i j hj).mpr hdown⟩
  · rw [h.spoiled, exists_congr hcrashed]
  · intro hrest hlook i trusted ⟨j, hj, hw⟩
    have hfree := h.exclusive.free_iff.mpr ⟨hrest, hlook⟩
    have hjob := (Crowd.step_advance_of_some hj trusted).2
    rw [← s.toCrowd_move] at hjob
    rw [Crowd.is_update hjob, if_pos rfl]
    simp [Job.advance, Job.stage_of_isWanting hw, hfree, Job.isInside]
  · intro hrest hlook call q trusted hq
    exact h.next (h.exclusive.free_iff.mpr ⟨hrest, hlook⟩) hq trusted

/-- What runs leave of themselves, in whatever order the steps of those who share the engine come, and
whichever runs are brought down. -/
theorem aftermath_run (h : e.Unused) (cs : List Choice) :
    Aftermath e ((start e).lastToPublish none cs) ((start e).run cs) :=
  ((sound_start h).run cs).aftermath

/-- A keyboard with one key, and a token that somebody already has. -/
def handedOut : Engine :=
  { GuardedCrowd.oneKey with flags := Cancellation.empty.fresh.1 }

/-- Somebody strikes the key under that token. -/
def strike : EngineCall := .attemptWith ⟨[.press .tab], by decide⟩ ⟨0⟩

/-- The first native call brings the run down. -/
def broughtDown : List Choice :=
  List.flatten
    [[.move (.call strike)], List.replicate 4 (.move (.advance 0 true)), [.move (.crash 0)],
      List.replicate 2 (.move (.advance 0 true))]

/-- Somebody cancels, and then the key is to be struck once more. -/
def retried : List Choice :=
  [.move .cancel, .move (.call strike)] ++ List.replicate 11 (.move (.advance 1 true))

/-- The lock is spoiled then, and yet the next request types, and under a new token. -/
theorem aftermath_of_broughtDown :
    let s := (start handedOut).run broughtDown
    handedOut.Unused ∧ s.spoiled = true ∧
      (start handedOut).lastToPublish none broughtDown = some 0 ∧ s.AtRest ∧ ¬ s.Probed ∧
      ∃ j, (s.request (.perform ⟨[.press .tab], by decide⟩) true).job? 1 = some j ∧
        ¬ s.engine.flags.Issued j.token := by
  intro s
  have hunused : handedOut.Unused := ⟨rfl, rfl, rfl⟩
  have haftermath := aftermath_run hunused broughtDown
  have hfree : s.engine.taken = false := by decide +kernel
  obtain ⟨hrest, hlook⟩ := ((sound_start hunused).run broughtDown).exclusive.free_iff.mp hfree
  obtain ⟨j, hj, -, hnew, -, -⟩ := haftermath.next hrest hlook (.perform _) _ true rfl
  exact ⟨hunused, by decide +kernel, by decide +kernel, hrest, hlook, j, hj, hnew⟩

/-- Nobody is inside a run any more, nor shown to be, and yet the token of the run that was brought
down is published: whoever cancels now stops the next run under the same token. -/
theorem token_left_by_crash :
    let s := (start handedOut).run broughtDown
    s.AtRest ∧ s.engine.busy = false ∧ s.engine.current = some ⟨0⟩ ∧
      ((s.run retried).job? 1).any Job.isFinished = true ∧
      (s.run retried).engine.lastError = some InjectionError.cancelled.message := by
  intro s
  have hfree : s.engine.taken = false := by decide +kernel
  have hunused : handedOut.Unused := ⟨rfl, rfl, rfl⟩
  obtain ⟨hrest, -⟩ := ((sound_start hunused).run broughtDown).exclusive.free_iff.mp hfree
  refine ⟨hrest, ?_, ?_, ?_, ?_⟩
  all_goals decide +kernel

end SpoilableCrowd

end Typist

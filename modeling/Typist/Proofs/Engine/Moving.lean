import Mathlib
import Typist.Proofs.Engine.Performing

/-!
# What a step of a crowd does

A step concerns no request, or one comes, or one of them takes a step or is answered. A request keeps
its token, and once it has begun its run it has begun it.
-/

namespace Typist

/-! ## Requests -/

namespace Job

/-- Whether the request has, or has had, the injector. -/
def hasBegun (j : Job) : Bool :=
  match j.stage with
  | .wanting => false
  | .finished (.returned (.error .busy)) => false
  | _ => true

/-- Whether the token of the request is published. -/
def isPublished (j : Job) : Bool :=
  match j.stage with
  | .typing _ | .typed _ => true
  | _ => false

/-- A step of a request raises no flag. -/
theorem flags_advance (trusted : Bool) (e : Engine) (j : Job) :
    (j.advance trusted e).1.flags = e.flags := by
  unfold advance
  split
  case h_1 =>
    split
    · rfl
    · split <;> rfl
  all_goals rfl

/-- A request that is inside its run has begun it, and one that types is inside. -/
theorem hasBegun_of_isInside {j : Job} (h : j.isInside = true) : j.hasBegun = true := by
  unfold isInside at h
  unfold hasBegun
  cases hs : j.stage with
  | wanting =>
    rw [hs] at h
    cases h
  | finished o =>
    rw [hs] at h
    cases h
  | _ => rfl

theorem isInside_of_isPublished {j : Job} (h : j.isPublished = true) : j.isInside = true := by
  unfold isPublished at h
  unfold isInside
  split at h
  case h_3 => cases h
  all_goals
    next hs => rw [hs]

theorem hasBegun_of_isWanting {j : Job} (h : j.isWanting = true) : j.hasBegun = false := by
  unfold isWanting at h
  split at h
  · next hs => rw [hasBegun, hs]
  · cases h

/-- A request types while it waits for an answer. -/
theorem isPublished_of_pending? {j : Job} {call : NativeCall} (h : j.pending? = some call) :
    j.isPublished = true := by
  unfold pending? at h
  split at h
  · next hs => rw [isPublished, hs]
  · cases h

/-- A run begins by finding the injector free; else a step neither begins one nor goes back in. -/
theorem begins_advance {j : Job} (h : j.IsProper) (trusted : Bool) (e : Engine) :
    (j.isWanting = true ∧ e.taken = false ∧ (j.advance trusted e).2.isInside = true) ∨
      (j.advance trusted e).2.hasBegun = j.hasBegun ∧
        ((j.advance trusted e).2.isInside = true → j.isInside = true) := by
  cases hs : j.stage with
  | wanting =>
    simp only [advance, hs]
    cases ht : e.taken with
    | false => exact .inl ⟨by rw [isWanting, hs], rfl, rfl⟩
    | true =>
      right
      cases hw : j.waits <;> simp [hasBegun, isInside, hs]
  | typing s => cases s <;> simp [advance, hasBegun, isInside, hs]
  | quiet o =>
    rw [IsProper, hs] at h
    right
    simp only [advance, hs, hasBegun, isInside]
    split
    · contradiction
    · next ho => exact (h (Stage.finished.inj ho)).elim
    · simp
  | _ => simp [advance, hasBegun, isInside, hs]

end Job

/-! ## Moves -/

/-- The request of a caller, if its call has come to one. -/
def Caller.job? : Caller → Option Job
  | .typing j => some j
  | .rejected _ => none
  | .probing _ => none

/-- Whether an engine shows what another one shows, and no flag was lowered in between. -/
structure Engine.Keeps (e' e : Engine) : Prop where
  typesAs : e'.TypesAs e
  busy : e'.busy = e.busy
  current : e'.current = e.current
  flags : ∀ t, e.flags.isCancelled t = true → e'.flags.isCancelled t = true

namespace Engine

theorem Keeps.rfl {e : Engine} : e.Keeps e := ⟨⟨.refl _, .refl _⟩, .refl _, .refl _, fun _ h ↦ h⟩

theorem keeps_cancelToken (e : Engine) (t : Token) : (e.cancelToken t).Keeps e :=
  ⟨⟨.refl _, .refl _⟩, .refl _, .refl _, fun _ h ↦ Cancellation.isCancelled_cancel_of _ _ _ h⟩

theorem keeps_cancel (e : Engine) : e.cancel.Keeps e := by
  unfold cancel
  split
  · exact e.keeps_cancelToken _
  · exact .rfl

theorem keeps_freshToken (e : Engine) : e.freshToken.1.Keeps e where
  typesAs := ⟨.refl _, .refl _⟩
  busy := .refl _
  current := .refl _
  flags t h := (Cancellation.isCancelled_fresh e.flags t).trans h

/-- A call shows nothing yet when it begins. -/
theorem keeps_begin (e : Engine) (call : EngineCall) :
    (e.begin call).1.Keeps e ∧ ∀ j, (e.begin call).2.job? = some j → j.stage = .wanting := by
  cases call with
  | perform s => exact ⟨e.keeps_freshToken, by rintro _ ⟨⟩; rfl⟩
  | attempt s => exact ⟨e.keeps_freshToken, by rintro _ ⟨⟩; rfl⟩
  | attemptWith s t => exact ⟨.rfl, by rintro _ ⟨⟩; rfl⟩
  | typeEntry template entry =>
    simp only [begin]
    split
    · exact ⟨⟨⟨.refl _, .refl _⟩, .refl _, .refl _, fun _ h ↦ h⟩, by rintro _ ⟨⟩⟩
    · exact ⟨e.keeps_freshToken, by rintro _ ⟨⟩; rfl⟩
  | probe => exact ⟨.rfl, by rintro _ ⟨⟩⟩

end Engine

theorem Probe.keeps_advance (trusted : Bool) (e : Engine) (p : Probe) :
    (p.advance trusted e).1.Keeps e := by
  cases p with
  | wanting =>
    rw [advance]
    split
    · exact .rfl
    · exact ⟨⟨rfl, rfl⟩, rfl, rfl, fun _ h ↦ h⟩
  | _ => exact ⟨⟨rfl, rfl⟩, rfl, rfl, fun _ h ↦ h⟩

namespace Crowd

/-- The request of a caller, if there is one. -/
def job? (c : Crowd) (i : Nat) : Option Job := c.callers[i]?.bind Caller.job?

/-- The tokens of all requests. -/
def tokens (c : Crowd) : List Token := c.callers.filterMap fun k ↦ k.job?.map Job.token

theorem job?_set {c : Crowd} {i : Nat} {k : Caller} (hk : c.callers[i]? = some k) (e : Engine)
    (k' : Caller) :
    job? ⟨e, c.callers.set i k'⟩ = Function.update c.job? i k'.job? := by
  ext1 m
  by_cases hm : m = i
  · subst hm
    have hlt := (List.getElem?_eq_some_iff.mp hk).1
    rw [Function.update_self, job?, List.getElem?_set_self hlt, Option.bind_some]
  · rw [Function.update_of_ne hm, job?, job?, List.getElem?_set_ne (Ne.symm hm)]

theorem job?_concat (c : Crowd) (e : Engine) (k : Caller) :
    job? ⟨e, c.callers ++ [k]⟩ = Function.update c.job? c.callers.length k.job? := by
  ext1 m
  by_cases hm : m = c.callers.length
  · subst hm
    rw [Function.update_self, job?, List.getElem?_concat_length, Option.bind_some]
  · rw [Function.update_of_ne hm, job?, job?, List.getElem?_append]
    split
    · rfl
    · next hlt =>
      rw [List.getElem?_eq_none (by simp only [List.length_singleton]; omega),
        List.getElem?_eq_none (by omega)]

theorem job?_length (c : Crowd) : c.job? c.callers.length = none := by
  rw [job?, List.getElem?_eq_none (Nat.le_refl _), Option.bind_none]

theorem callers_of_job? {c : Crowd} {i : Nat} {j : Job} (h : c.job? i = some j) :
    c.callers[i]? = some (.typing j) := by
  obtain ⟨k, hk, hjob⟩ := Option.bind_eq_some_iff.mp h
  cases k with
  | typing j' =>
    cases hjob
    exact hk
  | rejected fault => cases hjob
  | probing p => cases hjob

/-- A step of a caller that makes no request is seen by no request. -/
theorem step_advance_of_none {c : Crowd} {i : Nat} (hj : c.job? i = none) (trusted : Bool) :
    (c.step (.advance i trusted)).1.job? = c.job? ∧
      (c.step (.advance i trusted)).1.engine.Keeps c.engine := by
  simp only [step]
  cases hk : c.callers[i]? with
  | none => exact ⟨rfl, .rfl⟩
  | some k =>
    have hset := job?_set hk (k.advance trusted c.engine).1 (k.advance trusted c.engine).2
    have hsame (k' : Caller) (h : k'.job? = none) : Function.update c.job? i k'.job? = c.job? := by
      rw [h, ← hj, Function.update_eq_self]
    cases k with
    | typing j => simp [job?, hk, Caller.job?] at hj
    | rejected fault => exact ⟨hset.trans (hsame _ rfl), .rfl⟩
    | probing p => exact ⟨hset.trans (hsame _ rfl), p.keeps_advance trusted c.engine⟩

/-- A step of a request changes that request. -/
theorem step_advance_of_some {c : Crowd} {i : Nat} {j : Job} (hj : c.job? i = some j)
    (trusted : Bool) :
    (c.step (.advance i trusted)).1.engine = (j.advance trusted c.engine).1 ∧
      (c.step (.advance i trusted)).1.job? =
        Function.update c.job? i (some (j.advance trusted c.engine).2) := by
  have hk := callers_of_job? hj
  simp only [step, hk]
  exact ⟨rfl, job?_set hk _ _⟩

/-- What a step does that brings no run down: it concerns no request, a request comes, or it is a
step of one request, or an answer to it. -/
inductive Moves (c c' : Crowd) : List Deed → Prop
  | aside : c'.job? = c.job? → c'.engine.Keeps c.engine → Moves c c' []
  | comes {i : Nat} {j : Job} : c.job? i = none → j.stage = .wanting →
      c'.job? = Function.update c.job? i (some j) → c'.engine.Keeps c.engine → Moves c c' []
  | advances {i : Nat} {j : Job} {trusted : Bool} : c.job? i = some j →
      c'.job? = Function.update c.job? i (some (j.advance trusted c.engine).2) →
      c'.engine = (j.advance trusted c.engine).1 → Moves c c' []
  | answered {i : Nat} {j : Job} {call : NativeCall} {r : NativeReply} : c.job? i = some j →
      j.pending? = some call → c'.job? = Function.update c.job? i (some (j.answer r)) →
      c'.engine = c.engine → Moves c c' [⟨i, call⟩]

/-- Every step but a crash is such a move. -/
theorem moves_step (c : Crowd) {choice : Choice} (hcrash : ∀ i, choice ≠ .crash i) :
    Moves c (c.step choice).1 (c.step choice).2 := by
  cases choice with
  | call call =>
    obtain ⟨hkeeps, hstage⟩ := c.engine.keeps_begin call
    have hconcat := c.job?_concat (c.engine.begin call).1 (c.engine.begin call).2
    cases hj : (c.engine.begin call).2.job? with
    | none =>
      refine .aside ?_ hkeeps
      show job? ⟨(c.engine.begin call).1, c.callers ++ [(c.engine.begin call).2]⟩ = c.job?
      rw [hconcat, hj, ← c.job?_length, Function.update_eq_self]
    | some j => exact .comes c.job?_length (hstage j hj) (hconcat.trans (by rw [hj])) hkeeps
  | advance i trusted =>
    have hdeeds : (c.step (.advance i trusted)).2 = [] := by
      simp only [step]
      split <;> rfl
    rw [hdeeds]
    cases hj : c.job? i with
    | none =>
      obtain ⟨hjob, hkeeps⟩ := step_advance_of_none hj trusted
      exact .aside hjob hkeeps
    | some j =>
      obtain ⟨hengine, hjob⟩ := step_advance_of_some hj trusted
      exact .advances hj hjob hengine
  | answer i r =>
    cases hk : c.callers[i]? with
    | none =>
      simp only [step, onJob, hk]
      exact .aside rfl .rfl
    | some k =>
      have hjob : c.job? i = k.job? := by rw [job?, hk, Option.bind_some]
      cases k with
      | typing j =>
        have hset := job?_set hk c.engine (.typing (j.answer r))
        cases hp : j.pending? with
        | some call =>
          simp only [step, onJob, hk, hp]
          exact .answered hjob hp hset rfl
        | none =>
          have hsame : j.answer r = j := by
            unfold Job.answer
            split
            · next hs =>
              rw [Job.pending?, hs] at hp
              cases hp
            · rfl
          simp only [step, onJob, hk, hp]
          refine .aside (hset.trans ?_) .rfl
          rw [hsame]
          exact Function.update_eq_self_iff.mpr hjob.symm
      | _ =>
        simp only [step, onJob, hk]
        exact .aside rfl .rfl
  | crash i => exact (hcrash i rfl).elim
  | cancel => exact .aside rfl c.engine.keeps_cancel
  | raise t => exact .aside rfl (c.engine.keeps_cancelToken t)

/-- Whether the request of a caller is so. -/
def Is (c : Crowd) (p : Job → Bool) (i : Nat) : Prop := ∃ j, c.job? i = some j ∧ p j = true

theorem is_iff {c : Crowd} {i : Nat} {j : Job} (h : c.job? i = some j) (p : Job → Bool) :
    c.Is p i ↔ p j = true := by
  simp [Is, h]

theorem not_is {c : Crowd} {i : Nat} (h : c.job? i = none) (p : Job → Bool) : ¬ c.Is p i := by
  simp [Is, h]

theorem is_congr {c c' : Crowd} (h : c'.job? = c.job?) (p : Job → Bool) (i : Nat) :
    c'.Is p i ↔ c.Is p i := by
  rw [Is, Is, h]

/-- One request changes, and the others are as they were. -/
theorem is_update {c c' : Crowd} {i : Nat} {j : Job}
    (h : c'.job? = Function.update c.job? i (some j)) (p : Job → Bool) (k : Nat) :
    c'.Is p k ↔ if k = i then p j = true else c.Is p k := by
  by_cases hk : k = i
  · subst hk
    rw [if_pos rfl]
    exact is_iff (h ▸ Function.update_self ..) p
  · rw [if_neg hk, Is, Is, h, Function.update_of_ne hk]

/-- What holds of a request holds on, if it does of the one that changes. -/
theorem is_of_update {c c' : Crowd} {k : Nat} {j j' : Job} (hk : c.job? k = some j)
    (h : c'.job? = Function.update c.job? k (some j')) {p : Job → Bool}
    (hp : p j = true → p j' = true) {i : Nat} (hi : c.Is p i) : c'.Is p i := by
  rw [is_update h]
  split
  · next hik =>
    subst hik
    exact hp ((is_iff hk p).mp hi)
  · exact hi

theorem Exclusive.isProper {c : Crowd} (h : c.Exclusive) {i : Nat} {j : Job}
    (hj : c.job? i = some j) : j.IsProper :=
  h.proper _ (List.mem_of_getElem? (callers_of_job? hj))

/-- While the injector is free, no request is inside. -/
theorem Exclusive.not_inside {c : Crowd} (h : c.Exclusive) (ht : c.engine.taken = false) (i : Nat) :
    ¬ c.Is Job.isInside i := by
  rintro ⟨j, hj, hin⟩
  have htaken := h.taken (List.mem_of_getElem? (callers_of_job? hj)) hin
  rw [ht] at htaken
  cases htaken

/-- A request stays with its token, and what was begun stays begun. -/
theorem Moves.persists {c c' : Crowd} {new : List Deed} (h : Moves c c' new) (hx : c.Exclusive)
    {i : Nat} {j : Job} (hj : c.job? i = some j) :
    ∃ j', c'.job? i = some j' ∧ j'.token = j.token ∧
      (j.hasBegun = true → j'.hasBegun = true) := by
  have hother {k : Nat} {j' : Job} (hne : i ≠ k)
      (hjob : c'.job? = Function.update c.job? k (some j')) : c'.job? i = some j := by
    rw [hjob, Function.update_of_ne hne, hj]
  cases h with
  | aside hjob _ => exact ⟨j, by rw [hjob, hj], rfl, id⟩
  | @comes k j₀ hk _ hjob _ =>
    have hne : i ≠ k := by
      rintro rfl
      rw [hj] at hk
      cases hk
    exact ⟨j, hother hne hjob, rfl, id⟩
  | @advances k j₀ trusted hk hjob _ =>
    by_cases hi : i = k
    · subst hi
      obtain rfl : j = j₀ := Option.some.inj (hj.symm.trans hk)
      refine ⟨_, by rw [hjob, Function.update_self], (j.advance_frame ..).2, fun hbegun ↦ ?_⟩
      obtain ⟨-, -, hin⟩ | ⟨hsame, -⟩ := Job.begins_advance (hx.isProper hj) trusted c.engine
      · exact Job.hasBegun_of_isInside hin
      · rwa [hsame]
    · exact ⟨j, hother hi hjob, rfl, id⟩
  | @answered k j₀ call r hk hp hjob _ =>
    by_cases hi : i = k
    · subst hi
      obtain rfl : j = j₀ := Option.some.inj (hj.symm.trans hk)
      refine ⟨_, by rw [hjob, Function.update_self], (j.answer_frame r).2, fun hbegun ↦ ?_⟩
      apply Job.hasBegun_of_isInside
      rw [Job.isInside_answer]
      exact Job.isInside_of_isPublished (Job.isPublished_of_pending? hp)
    · exact ⟨j, hother hi hjob, rfl, id⟩

end Crowd

end Typist

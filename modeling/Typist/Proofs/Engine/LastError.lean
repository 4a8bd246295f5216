import Mathlib
import Typist.Proofs.Engine.Moving

/-!
# What is told of the last request

An engine remembers the failure of a run in two places, and that of a template in one. Where calls
are made one after the other, what it remembers between two of them is the failure of the last
request, or none if that went well. A request that is refused leaves no word, and nothing else of
it stays, whatever others do meanwhile.
-/

namespace Typist

/-- The wording of the failure in which a request ended, if it did. -/
def Outcome.failure? : Outcome → Option String
  | .returned (.error e) => some e.message
  | _ => none

/-- The wording of the failure in which typing ended, if it did. -/
def TypingResult.failure? : TypingResult → Option String
  | .error e => some e.message
  | .ok _ => none

/-- A request that has typed fails as its typing did. -/
theorem Outcome.failure?_mapError (r : TypingResult) :
    Outcome.failure? (.returned (r.mapError .injection)) = TypingResult.failure? r := by
  cases r <;> rfl

/-- A request that is over is in its last stage. -/
theorem Job.exists_of_isFinished {j : Job} (h : j.isFinished = true) :
    ∃ o, j.stage = .finished o := by
  unfold isFinished at h
  split at h
  · next o hs => exact ⟨o, hs⟩
  · cases h

/-! ## Calls -/

namespace Caller

/-- Whether a call is over. -/
def isOver : Caller → Bool
  | .typing j => j.isFinished
  | .rejected _ => true
  | .probing (.seen _) => true
  | .probing _ => false

/-- How the last of several requests failed, as far as they are over. -/
def lastFailure? (ks : List Caller) : Option String :=
  (ks.filterMap outcome?).getLast?.bind Outcome.failure?

/-- A call that is over takes no step. -/
theorem advance_of_isOver {k : Caller} (h : k.isOver = true) (trusted : Bool) (e : Engine) :
    k.advance trusted e = (e, k) := by
  cases k with
  | typing j =>
    obtain ⟨o, hs⟩ := Job.exists_of_isFinished h
    simp [advance, Job.advance, hs]
  | rejected fault => rfl
  | probing p =>
    cases p with
    | seen available => rfl
    | _ => cases h

/-- A request that is over waits for no answer. -/
theorem answer_of_isOver {j : Job} (h : isOver (.typing j) = true) (r : NativeReply) :
    j.answer r = j := by
  obtain ⟨o, hs⟩ := Job.exists_of_isFinished h
  simp [Job.answer, hs]

/-- A call that is over does not have the injector. -/
theorem holds_of_isOver {k : Caller} (h : k.isOver = true) : k.holds = false := by
  cases k with
  | typing j =>
    obtain ⟨o, hs⟩ := Job.exists_of_isFinished h
    simp [holds, Job.isInside, hs]
  | rejected fault => rfl
  | probing p =>
    cases p with
    | seen available => rfl
    | _ => cases h

/-- What a call has left in the engine so far, behind the failure of the requests before it: a run
that has typed its failure with the injector, and from its report on with the engine. -/
def Leaves (past : Option String) (e : Engine) : Caller → Prop
  | .typing j =>
    match j.stage with
    | .typed r | .withdrawn r => e.injector.lastError = TypingResult.failure? r
    | .reported o | .quiet o | .finished o => e.lastError = o.failure?
    | _ => True
  | .rejected fault => e.lastError = some fault.message
  | .probing _ => e.lastError = past

variable {past : Option String} {e e' : Engine} {k : Caller}

theorem Leaves.congr (h : k.Leaves past e) (herror : e'.lastError = e.lastError)
    (hinjector : e'.injector = e.injector) : k.Leaves past e' := by
  unfold Leaves at h ⊢
  rw [herror, hinjector]
  exact h

/-- A call that begins leaves the failure of a rejected template, and else nothing yet. -/
theorem leaves_begin (e : Engine) (call : EngineCall) :
    (e.begin call).2.Leaves e.lastError (e.begin call).1 := by
  cases call with
  | typeEntry template entry =>
    simp only [Engine.begin]
    split
    · exact rfl
    · trivial
  | probe => exact rfl
  | _ => trivial

/-- Every step of a call goes on with this, where a request finds the injector free. -/
theorem Leaves.advance (h : k.Leaves past e) (hfree : k.holds = false → e.taken = false)
    (trusted : Bool) : (k.advance trusted e).2.Leaves past (k.advance trusted e).1 := by
  cases k with
  | rejected fault => exact h
  | probing p =>
    cases p with
    | wanting =>
      simp only [Caller.advance, Probe.advance]
      split <;> exact h
    | _ => exact h
  | typing j =>
    unfold Leaves at h
    cases hs : j.stage with
    | wanting =>
      have ht : e.taken = false := hfree (by simp [holds, Job.isInside, hs])
      simp [Caller.advance, Job.advance, hs, ht, Leaves]
    | typing s =>
      cases s with
      | done r =>
        simp only [Caller.advance, Job.advance, hs, Leaves]
        cases r <;> rfl
      | _ => simp [Caller.advance, Job.advance, hs, Leaves]
    | withdrawn r =>
      simp only [hs] at h
      simp only [Caller.advance, Job.advance, hs, Leaves, h]
      exact (Outcome.failure?_mapError r).symm
    | _ => simp_all [Caller.advance, Job.advance, Leaves]

/-- An answer changes the request alone, and only while it types. -/
theorem Leaves.answer {j : Job} (h : Leaves past e (.typing j)) (r : NativeReply) :
    Leaves past e (.typing (j.answer r)) := by
  unfold Job.answer
  split
  · trivial
  · exact h

/-- Once a call is over, what is left is the failure of the last request. -/
theorem Leaves.lastError_eq {ks : List Caller} (h : k.Leaves (lastFailure? ks) e)
    (hover : k.isOver = true) : e.lastError = lastFailure? (ks ++ [k]) := by
  have hlast {o : Outcome} (ho : k.outcome? = some o) :
      lastFailure? (ks ++ [k]) = o.failure? := by
    unfold lastFailure?
    rw [List.filterMap_append, List.filterMap_cons_some ho, List.filterMap_nil,
      List.getLast?_concat, Option.bind_some]
  cases k with
  | rejected fault => exact Eq.trans h (hlast rfl).symm
  | probing p =>
    have hsame : lastFailure? (ks ++ [.probing p]) = lastFailure? ks := by
      simp [lastFailure?, outcome?]
    exact Eq.trans h hsame.symm
  | typing j =>
    obtain ⟨o, hs⟩ := Job.exists_of_isFinished hover
    simp only [Leaves, hs] at h
    exact h.trans (hlast (by simp [outcome?, Job.outcome?, hs])).symm

end Caller

namespace Crowd

/-! ## One call after the other -/

/-- Whether every call is over. -/
def Settled (c : Crowd) : Prop := ∀ k ∈ c.callers, k.isOver = true

instance (c : Crowd) : Decidable c.Settled :=
  inferInstanceAs (Decidable (∀ k ∈ c.callers, k.isOver = true))

/-- Whether a choice is that somebody makes a call. -/
def Choice.isCall : Choice → Bool
  | .call _ => true
  | _ => false

/-- Whether no call is made before all earlier ones are over. -/
def Successive (c : Crowd) : List Choice → Prop
  | [] => True
  | choice :: rest =>
    (choice.isCall = true → c.Settled) ∧ (c.step choice).1.Successive rest

instance decidableSuccessive (c : Crowd) : ∀ cs, Decidable (c.Successive cs)
  | [] => .isTrue trivial
  | choice :: rest =>
    have := decidableSuccessive (c.step choice).1 rest
    inferInstanceAs (Decidable ((choice.isCall = true → c.Settled) ∧ _))

/-- Whether all calls but the last one are over, and what was left so far is right. -/
def Telling (c : Crowd) : Prop :=
  (c.callers = [] ∧ c.engine.lastError = none) ∨
    ∃ before k, c.callers = before ++ [k] ∧ (∀ k ∈ before, k.isOver = true) ∧
      k.Leaves (Caller.lastFailure? before) c.engine

/-- When all calls are over, the engine tells how the last request failed. -/
theorem Telling.lastError_eq {c : Crowd} (h : c.Telling) (hsettled : c.Settled) :
    c.engine.lastError = Caller.lastFailure? c.callers := by
  obtain ⟨hnil, hnone⟩ | ⟨before, k, hcallers, -, hleaves⟩ := h
  · rw [hnil, hnone]
    rfl
  · have hover : k.isOver = true := hsettled k (by simp [hcallers])
    rw [hcallers]
    exact hleaves.lastError_eq hover

/-- Where all others are over and one is not inside, the injector is free. -/
theorem Exclusive.free {c : Crowd} (h : c.Exclusive) {before : List Caller} {k : Caller}
    (hcallers : c.callers = before ++ [k]) (hover : ∀ k ∈ before, k.isOver = true)
    (hk : k.holds = false) : c.engine.taken = false := by
  have hnone : c.callers.countP Caller.holds = 0 := by
    rw [List.countP_eq_zero, hcallers]
    intro k' hk'
    rcases List.mem_append.mp hk' with hk' | hk'
    · simp [Caller.holds_of_isOver (hover k' hk')]
    · simp [List.mem_singleton.mp hk', hk]
  have hholders := h.holders
  rw [hnone] at hholders
  cases ht : c.engine.taken with
  | false => rfl
  | true => simp [ht] at hholders

/-- A call that is over stays as it is, and the one that is not may go on. -/
theorem Telling.set {c : Crowd} (h : c.Telling) (hx : c.Exclusive) {i : Nat} {k k' : Caller}
    {e : Engine} (hk : c.callers[i]? = some k)
    (hstill : k.isOver = true → e = c.engine ∧ k' = k)
    (hmove : (k.holds = false → c.engine.taken = false) →
      ∀ past, k.Leaves past c.engine → k'.Leaves past e) :
    Telling ⟨e, c.callers.set i k'⟩ := by
  obtain ⟨hi, hget⟩ := List.getElem?_eq_some_iff.mp hk
  by_cases hover : k.isOver = true
  · obtain ⟨rfl, rfl⟩ := hstill hover
    rw [← hget, List.set_getElem_self]
    exact h
  · obtain ⟨hnil, -⟩ | ⟨before, last, hcallers, hbefore, hleaves⟩ := h
    · simp [hnil] at hk
    · rw [hcallers] at hk
      rcases Nat.lt_or_ge i before.length with hlt | hge
      · rw [List.getElem?_append_left hlt] at hk
        exact (hover (hbefore k (List.mem_of_getElem? hk))).elim
      · have hi' : i = before.length := by
          rw [hcallers, List.length_append, List.length_singleton] at hi
          omega
        subst hi'
        rw [List.getElem?_concat_length] at hk
        obtain rfl := Option.some.inj hk
        refine .inr ⟨before, k', by simp [hcallers], hbefore, ?_⟩
        exact hmove (hx.free hcallers hbefore) _ hleaves

/-- A call comes when all others are over. -/
theorem Telling.concat {c : Crowd} (h : c.Telling) (hsettled : c.Settled) (call : EngineCall) :
    (c.step (.call call)).1.Telling := by
  refine .inr ⟨c.callers, _, rfl, hsettled, ?_⟩
  rw [← h.lastError_eq hsettled]
  exact Caller.leaves_begin c.engine call

/-- A raised flag is no word. -/
theorem Telling.congr {c : Crowd} (h : c.Telling) {e : Engine}
    (herror : e.lastError = c.engine.lastError) (hinjector : e.injector = c.engine.injector) :
    Telling { c with engine := e } := by
  obtain ⟨hnil, hnone⟩ | ⟨before, k, hcallers, hover, hleaves⟩ := h
  · exact .inl ⟨hnil, herror.trans hnone⟩
  · exact .inr ⟨before, k, hcallers, hover, hleaves.congr herror hinjector⟩

/-- Every step goes on with this that brings no run down. -/
theorem Telling.step {c : Crowd} (h : c.Telling) (hx : c.Exclusive) {choice : Choice}
    (hcall : choice.isCall = true → c.Settled) (hcrash : ∀ i, choice ≠ .crash i) :
    (c.step choice).1.Telling := by
  cases choice with
  | call call => exact h.concat (hcall rfl) call
  | advance i trusted =>
    simp only [Crowd.step]
    split
    · next k hk =>
      refine h.set hx hk (fun hover ↦ ?_) fun hfree past hleaves ↦ hleaves.advance hfree trusted
      rw [Caller.advance_of_isOver hover]
      exact ⟨rfl, rfl⟩
    · exact h
  | answer i r =>
    simp only [Crowd.step, onJob]
    split
    · next j hj =>
      refine h.set hx hj (fun hover ↦ ⟨rfl, ?_⟩) fun _ past hleaves ↦ hleaves.answer r
      rw [Caller.answer_of_isOver hover]
    · exact h
  | crash i => exact (hcrash i rfl).elim
  | cancel =>
    refine h.congr ?_ ?_ <;>
    · unfold Engine.cancel
      split <;> rfl
  | raise t => exact h.congr rfl rfl

/-- So the engine tells of the last request whenever all calls are over, however long the history. -/
theorem Telling.run {c : Crowd} (h : c.Telling) (hx : c.Exclusive) {cs : List Choice}
    (hcrash : ∀ i, .crash i ∉ cs) (hcs : c.Successive cs) : (c.run cs).1.Telling := by
  induction cs generalizing c with
  | nil => exact h
  | cons choice rest ih =>
    obtain ⟨hcall, hrest⟩ := hcs
    have hfirst : ∀ i, choice ≠ .crash i := by
      rintro i rfl
      exact hcrash i List.mem_cons_self
    exact ih (h.step hx hcall hfirst) (hx.step choice)
      (fun i hi ↦ hcrash i (List.mem_cons_of_mem _ hi)) hrest

end Crowd

/-! ## Refused calls -/

/-- Whether an engine is as another one, but for tokens that were given out in between and name flags
that are not raised. -/
def Engine.IsStill (e' e : Engine) : Prop :=
  e' = { e with flags := e'.flags } ∧ ∀ t, e'.flags.isCancelled t = e.flags.isCancelled t

theorem Engine.IsStill.rfl {e : Engine} : e.IsStill e := ⟨.refl _, fun _ ↦ .refl _⟩

theorem Engine.isStill_freshToken (e : Engine) : e.freshToken.1.IsStill e :=
  ⟨.refl _, Cancellation.isCancelled_fresh e.flags⟩

/-- A request that has not begun its run after a step has changed nothing in it. -/
theorem Job.advance_of_not_begun {j : Job} (hj : j.IsProper) {trusted : Bool} {e : Engine}
    (h : (j.advance trusted e).2.hasBegun = false) : (j.advance trusted e).1 = e := by
  cases hs : j.stage with
  | wanting =>
    simp only [advance, hs] at h ⊢
    cases ht : e.taken with
    | false => simp [ht, hasBegun] at h
    | true => cases hw : j.waits <;> rfl
  | typing s => cases s <;> simp [advance, hasBegun, hs] at h ⊢
  | quiet o =>
    rw [IsProper, hs] at hj
    simp only [advance, hs, hasBegun] at h
    split at h
    · contradiction
    · next ho => exact (hj (Stage.finished.inj ho)).elim
    · cases h
  | finished o => simp only [advance, hs]
  | _ => simp [advance, hasBegun, hs] at h

namespace Caller

/-- Whether a call can no longer be refused. -/
def isSpared : Caller → Bool
  | .typing j => j.hasBegun
  | .rejected _ => true
  | .probing _ => true

theorem outcome?_ne_of_isSpared {k : Caller} (h : k.isSpared = true) :
    k.outcome? ≠ some .refused := by
  intro ho
  cases k with
  | typing j =>
    replace ho : j.outcome? = some .refused := ho
    rw [isSpared, Job.hasBegun] at h
    unfold Job.outcome? at ho
    split at ho
    · next o hs =>
      obtain rfl := Option.some.inj ho
      rw [hs] at h
      cases h
    · cases ho
  | rejected fault => cases ho
  | probing p => cases ho

/-- What can no longer be refused cannot be so later. -/
theorem isSpared_advance {k : Caller} (hk : k.IsProper) (h : k.isSpared = true) (trusted : Bool)
    (e : Engine) : (k.advance trusted e).2.isSpared = true := by
  cases k with
  | typing j =>
    obtain ⟨-, -, hin⟩ | ⟨hsame, -⟩ := Job.begins_advance hk trusted e
    · exact Job.hasBegun_of_isInside hin
    · exact hsame.trans h
  | rejected fault => rfl
  | probing p => rfl

/-- A step after which a call can still be refused has changed nothing in the engine. -/
theorem advance_of_not_isSpared {k : Caller} (hk : k.IsProper) {trusted : Bool} {e : Engine}
    (h : (k.advance trusted e).2.isSpared = false) : (k.advance trusted e).1 = e := by
  cases k with
  | typing j => exact Job.advance_of_not_begun hk h
  | rejected fault => rfl
  | probing p => cases h

/-- A call that can be refused leaves the engine alone as it begins. -/
theorem isStill_begin {e : Engine} {call : EngineCall}
    (h : (e.begin call).2.isSpared = false) : (e.begin call).1.IsStill e := by
  cases call with
  | perform s => exact e.isStill_freshToken
  | attempt s => exact e.isStill_freshToken
  | attemptWith s t => exact .rfl
  | typeEntry template entry =>
    simp only [Engine.begin] at h ⊢
    split at h
    · cases h
    · exact e.isStill_freshToken
  | probe => exact .rfl

end Caller

namespace Crowd

/-- Whether a choice is one of a caller: that it comes, or something it does. -/
def Choice.IsOf (c : Crowd) (i : Nat) : Choice → Prop
  | .call _ => i = c.callers.length
  | .advance k _ | .answer k _ | .crash k => i = k
  | .cancel | .raise _ => False

variable {c : Crowd} {i : Nat}

/-- What a request does on its own leaves the engine still. -/
theorem isStill_onJob (c : Crowd) (m : Nat) (f : Job → Job) :
    (c.onJob m f).1.engine.IsStill c.engine := by
  unfold onJob
  split <;> exact .rfl

/-- What a request does on its own does not bring it back to where it could be refused. -/
theorem isSpared_onJob {k : Caller} (hk : c.callers[i]? = some k) (h : k.isSpared = true) (m : Nat)
    {f : Job → Job} (hf : ∀ j : Job, j.hasBegun = true → (f j).hasBegun = true) :
    ∃ k', (c.onJob m f).1.callers[i]? = some k' ∧ k'.isSpared = true := by
  unfold onJob
  split
  · next j hj =>
    by_cases him : i = m
    · subst him
      obtain rfl := Option.some.inj (hk.symm.trans hj)
      exact ⟨_, List.getElem?_set_self (List.getElem?_eq_some_iff.mp hj).1, hf j h⟩
    · exact ⟨k, (List.getElem?_set_ne (Ne.symm him)).trans hk, h⟩
  · exact ⟨k, hk, h⟩

/-- Whoever can no longer be refused stays so with every step. -/
theorem Exclusive.isSpared_step (hx : c.Exclusive) {k : Caller} (hk : c.callers[i]? = some k)
    (h : k.isSpared = true) (choice : Choice) :
    ∃ k', (c.step choice).1.callers[i]? = some k' ∧ k'.isSpared = true := by
  cases choice with
  | call call =>
    exact ⟨k, (List.getElem?_append_left (List.getElem?_eq_some_iff.mp hk).1).trans hk, h⟩
  | advance m trusted =>
    simp only [Crowd.step]
    split
    · next k' hk' =>
      by_cases him : i = m
      · subst him
        obtain rfl := Option.some.inj (hk.symm.trans hk')
        exact ⟨_, List.getElem?_set_self (List.getElem?_eq_some_iff.mp hk).1,
          Caller.isSpared_advance (hx.proper k (List.mem_of_getElem? hk)) h trusted c.engine⟩
      · exact ⟨k, (List.getElem?_set_ne (Ne.symm him)).trans hk, h⟩
    · exact ⟨k, hk, h⟩
  | answer m r =>
    refine isSpared_onJob hk h m fun j hj ↦ ?_
    unfold Job.answer
    split
    · rfl
    · exact hj
  | crash m =>
    refine isSpared_onJob hk h m fun j hj ↦ ?_
    unfold Job.crash
    split
    · rfl
    · exact hj
  | cancel => exact ⟨k, hk, h⟩
  | raise t => exact ⟨k, hk, h⟩

/-- So a caller who can no longer be refused is not refused in the end. -/
theorem Exclusive.not_refused (hx : c.Exclusive) {k : Caller} (hk : c.callers[i]? = some k)
    (h : k.isSpared = true) (cs : List Choice) :
    (c.run cs).1.callers[i]?.bind Caller.outcome? ≠ some .refused := by
  induction cs generalizing c k with
  | nil =>
    show c.callers[i]?.bind Caller.outcome? ≠ some .refused
    rw [hk, Option.bind_some]
    exact Caller.outcome?_ne_of_isSpared h
  | cons choice rest ih =>
    obtain ⟨k', hk', h'⟩ := hx.isSpared_step hk h choice
    exact ih (hx.step choice) hk' h'

/-- A step of a caller leaves the engine still, unless the caller can no longer be refused after it. -/
theorem Exclusive.isStill_step (hx : c.Exclusive) {choice : Choice} (hof : choice.IsOf c i)
    (h : ∀ k, (c.step choice).1.callers[i]? = some k → k.isSpared = false) :
    (c.step choice).1.engine.IsStill c.engine := by
  cases choice with
  | call call =>
    obtain rfl : i = c.callers.length := hof
    exact Caller.isStill_begin (h _ List.getElem?_concat_length)
  | advance m trusted =>
    obtain rfl : i = m := hof
    simp only [Crowd.step] at h ⊢
    split
    · next k hk =>
      rw [hk] at h
      have hspared := h _ (List.getElem?_set_self (List.getElem?_eq_some_iff.mp hk).1)
      show (k.advance trusted c.engine).1.IsStill c.engine
      rw [Caller.advance_of_not_isSpared (hx.proper k (List.mem_of_getElem? hk)) hspared]
      exact .rfl
    · exact .rfl
  | answer m r => exact isStill_onJob c m _
  | crash m => exact isStill_onJob c m _
  | cancel => exact hof.elim
  | raise t => exact hof.elim

/-- An engine tells how the last request failed, or that it did not: after every history in which one
call comes after the other and no native call brings its run down, whatever the requests, the trust
and the answers of the system are and whatever is cancelled in between. And no step of a request that
is refused as busy changes anything of the engine, whatever others do in between. -/
theorem lastError_tells {e : Engine} (hfree : e.taken = false) (hnone : e.lastError = none)
    (cs : List Choice) :
    ((∀ i, .crash i ∉ cs) → Successive ⟨e, []⟩ cs → (run ⟨e, []⟩ cs).1.Settled →
      (run ⟨e, []⟩ cs).1.engine.lastError = Caller.lastFailure? (run ⟨e, []⟩ cs).1.callers) ∧
    ∀ before choice after, cs = before ++ choice :: after →
      ∀ i, choice.IsOf (run ⟨e, []⟩ before).1 i →
        (run ⟨e, []⟩ cs).1.callers[i]?.bind Caller.outcome? = some .refused →
        ((run ⟨e, []⟩ before).1.step choice).1.engine.IsStill (run ⟨e, []⟩ before).1.engine := by
  have hx : Exclusive ⟨e, []⟩ := exclusive_start hfree
  refine ⟨fun hcrash hcs hsettled ↦ ?_, ?_⟩
  · have hstart : Telling ⟨e, []⟩ := .inl ⟨rfl, hnone⟩
    exact (hstart.run hx hcrash hcs).lastError_eq hsettled
  · rintro before choice after rfl i hof hrefused
    have hx' := hx.run before
    refine hx'.isStill_step hof fun k hk ↦ Bool.eq_false_iff.mpr fun hspared ↦ ?_
    rw [run_append] at hrefused
    exact (hx'.step choice).not_refused hk hspared after hrefused

/-- A keyboard with one key. -/
def enterOnly : Engine where
  injector := ⟨some ⟨⟨"enter only", [(.enter, 36)], []⟩, ""⟩, none⟩

/-- The template of one request is rejected, and then the one key is to be struck and fails. -/
def failedTwice : List Choice :=
  List.flatten
    [[.call (.typeEntry (some "\x7bNOPE\x7d") {}), .call (.perform ⟨[.press .enter], by decide⟩)],
      List.replicate 4 (.advance 1 true), [.answer 1 (.error "the session is locked")],
      List.replicate 5 (.advance 1 true)]

/-- The key is to be struck once more while it is being struck. -/
def struckTwice : List Choice :=
  List.flatten
    [[.call (.perform ⟨[.press .enter], by decide⟩)], List.replicate 4 (.advance 0 true),
      [.call (.attempt ⟨[.press .enter], by decide⟩)]]

/-- The engine tells of the second failure, and the refused request has left it as it was. -/
theorem lastError_tells_of_failedTwice :
    enterOnly.taken = false ∧ enterOnly.lastError = none ∧ (∀ i, .crash i ∉ failedTwice) ∧
      Successive ⟨enterOnly, []⟩ failedTwice ∧ (run ⟨enterOnly, []⟩ failedTwice).1.Settled ∧
      (run ⟨enterOnly, []⟩ failedTwice).1.engine.lastError =
        some "native input synthesis failed: the session is locked" ∧
      (run ⟨enterOnly, []⟩ (struckTwice ++ [.advance 1 true])).1.callers[1]?.bind Caller.outcome? =
        some .refused ∧
      ((run ⟨enterOnly, []⟩ struckTwice).1.step (.advance 1 true)).1.engine.IsStill
        (run ⟨enterOnly, []⟩ struckTwice).1.engine := by
  have hcrash : ∀ i, .crash i ∉ failedTwice := by simp [failedTwice]
  have hsuccessive : Successive ⟨enterOnly, []⟩ failedTwice := by decide +kernel
  have hsettled : (run ⟨enterOnly, []⟩ failedTwice).1.Settled := by decide +kernel
  have htold : (run ⟨enterOnly, []⟩ failedTwice).1.engine.lastError =
      Caller.lastFailure? (run ⟨enterOnly, []⟩ failedTwice).1.callers :=
    (lastError_tells rfl rfl failedTwice).1 hcrash hsuccessive hsettled
  have hrefused : (run ⟨enterOnly, []⟩ (struckTwice ++ [.advance 1 true])).1.callers[1]?.bind
      Caller.outcome? = some .refused := by rfl
  have hstill := (lastError_tells rfl rfl _).2 struckTwice (.advance 1 true) [] rfl 1 rfl hrefused
  exact ⟨rfl, rfl, hcrash, hsuccessive, hsettled, htold.trans (by decide +kernel), hrefused, hstill⟩

end Crowd

end Typist

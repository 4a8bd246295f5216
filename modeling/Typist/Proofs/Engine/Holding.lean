import Mathlib
import Typist.Engine.Callers

/-!
# Who has the injector

The injector is one thing, and every step that takes it or gives it back is a step of whoever has
it. So its mark and those who have it always agree: nobody or one. A request that does not wait is
refused when somebody else has the injector, which is a sequence being typed, or one who looks.
-/

namespace Typist

/-- The outcome of a refused request. -/
def Outcome.refused : Outcome := .returned (.error .busy)

/-! ## Requests -/

namespace Job

/-- Whether the request has the injector. From then on until it is over it is inside its run. -/
def isInside (j : Job) : Bool :=
  match j.stage with
  | .wanting => false
  | .finished _ => false
  | _ => true

/-- Whether the request still wants the injector. -/
def isWanting (j : Job) : Bool := match j.stage with | .wanting => true | _ => false

/-- Whether the request is not ending in a refusal although it had the injector. -/
def IsProper (j : Job) : Prop :=
  match j.stage with
  | .reported o => o ≠ .refused
  | .quiet o => o ≠ .refused
  | _ => True

/-- A step takes the injector from where it is, and gives it back there. -/
theorem isInside_advance (trusted : Bool) {e : Engine} {j : Job}
    (h : j.isInside = true → e.taken = true) :
    (j.advance trusted e).1.taken.toNat + j.isInside.toNat =
      e.taken.toNat + (j.advance trusted e).2.isInside.toNat := by
  unfold advance
  split
  case h_1 hs =>
    cases ht : e.taken with
    | false => simp [isInside, hs]
    | true =>
      cases hw : j.waits <;> simp [isInside, hs, ht]
  case h_11 hs =>
    have ht : e.taken = true := h (by simp [isInside, hs])
    simp [isInside, hs, ht]
  all_goals next hs => simp [isInside, hs]

/-- An answer of the system leaves the injector where it is. -/
theorem isInside_answer (j : Job) (r : NativeReply) : (j.answer r).isInside = j.isInside := by
  unfold answer
  split
  · next hs => simp [isInside, hs]
  · rfl

/-- So does a crash. -/
theorem isInside_crash (j : Job) : j.crash.isInside = j.isInside := by
  unfold crash
  split
  · next hs => simp [isInside, hs]
  · rfl

/-- A run never ends in a refusal. -/
theorem IsProper.advance {j : Job} (h : j.IsProper) (trusted : Bool) (e : Engine) :
    (j.advance trusted e).2.IsProper := by
  unfold Job.advance
  split
  case h_1 hs =>
    split
    · trivial
    · split
      · exact h
      · trivial
  case h_9 r hs =>
    cases r <;> simp [IsProper, Outcome.refused, Except.mapError]
  case h_10 hs =>
    rw [IsProper, hs] at h
    exact h
  all_goals trivial

theorem IsProper.answer {j : Job} (h : j.IsProper) (r : NativeReply) : (j.answer r).IsProper := by
  unfold Job.answer
  split
  · trivial
  · exact h

theorem IsProper.crash {j : Job} (h : j.IsProper) : j.crash.IsProper := by
  unfold Job.crash
  split
  · simp [IsProper, Outcome.refused]
  · exact h

/-- A step of a request changes neither its sequence nor its token. -/
theorem advance_frame (trusted : Bool) (e : Engine) (j : Job) :
    (j.advance trusted e).2.sequence = j.sequence ∧ (j.advance trusted e).2.token = j.token := by
  unfold advance
  split
  case h_1 =>
    split
    · exact ⟨rfl, rfl⟩
    · split <;> exact ⟨rfl, rfl⟩
  all_goals exact ⟨rfl, rfl⟩

/-- Nor does an answer of the system. -/
theorem answer_frame (j : Job) (r : NativeReply) :
    (j.answer r).sequence = j.sequence ∧ (j.answer r).token = j.token := by
  unfold answer
  split <;> exact ⟨rfl, rfl⟩

/-- Nor does a crash. -/
theorem crash_frame (j : Job) : j.crash.sequence = j.sequence ∧ j.crash.token = j.token := by
  unfold crash
  split <;> exact ⟨rfl, rfl⟩

/-- A request does not change its mind about waiting. -/
theorem waits_advance (trusted : Bool) (e : Engine) (j : Job) :
    (j.advance trusted e).2.waits = j.waits := by
  unfold advance
  split
  case h_1 =>
    split
    · rfl
    · split <;> rfl
  all_goals rfl

theorem waits_answer (j : Job) (r : NativeReply) : (j.answer r).waits = j.waits := by
  unfold answer
  split <;> rfl

theorem waits_crash (j : Job) : j.crash.waits = j.waits := by
  unfold crash
  split <;> rfl

/-- Only a step of its own ends a request. -/
theorem outcome?_answer (j : Job) (r : NativeReply) : (j.answer r).outcome? = j.outcome? := by
  unfold answer
  split
  · next hs => simp [outcome?, hs]
  · rfl

theorem outcome?_crash (j : Job) : j.crash.outcome? = j.outcome? := by
  unfold crash
  split
  · next hs => simp [outcome?, hs]
  · rfl

/-- A request that is over takes no step. -/
theorem advance_of_outcome? {j : Job} {o : Outcome} (h : j.outcome? = some o) (trusted : Bool)
    (e : Engine) : j.advance trusted e = (e, j) := by
  unfold outcome? at h
  split at h
  · next hs => simp [advance, hs]
  · cases h

/-- One that is over, or still wants the injector, does not have it. -/
theorem isInside_of_outcome? {j : Job} {o : Outcome} (h : j.outcome? = some o) :
    j.isInside = false := by
  unfold outcome? at h
  split at h
  · next hs => simp [isInside, hs]
  · cases h

theorem isInside_of_isWanting {j : Job} (h : j.isWanting = true) : j.isInside = false := by
  unfold isWanting at h
  split at h
  · next hs => simp [isInside, hs]
  · cases h

theorem isWanting_of_outcome? {j : Job} {o : Outcome} (h : j.outcome? = some o) :
    j.isWanting = false := by
  unfold outcome? at h
  split at h
  · next hs => simp [isWanting, hs]
  · cases h

/-- A request is refused at the one step at which it finds the injector taken, and does not wait. -/
theorem refused_advance_iff {j : Job} (h : j.IsProper) (ho : j.outcome? = none) (trusted : Bool)
    (e : Engine) :
    (j.advance trusted e).2.outcome? = some .refused ↔
      j.isWanting = true ∧ j.waits = false ∧ e.taken = true := by
  unfold Job.advance
  split
  case h_1 hs =>
    cases ht : e.taken with
    | false => simp [outcome?]
    | true => cases hw : j.waits <;> simp [outcome?, isWanting, Outcome.refused, hs]
  case h_11 o hs =>
    rw [IsProper, hs] at h
    simpa [outcome?, isWanting, hs] using h
  case h_12 o hs =>
    rw [outcome?, hs] at ho
    cases ho
  all_goals next hs => simp [outcome?, isWanting, hs]

end Job

/-! ## Callers -/

namespace Probe

/-- Whether one who looks has the injector. -/
def isLooking : Probe → Bool
  | .looking => true
  | _ => false

/-- A step takes the injector from where it is, and gives it back there. -/
theorem isLooking_advance (trusted : Bool) {e : Engine} {p : Probe}
    (h : p.isLooking = true → e.taken = true) :
    (p.advance trusted e).1.taken.toNat + p.isLooking.toNat =
      e.taken.toNat + (p.advance trusted e).2.isLooking.toNat := by
  cases p with
  | wanting => cases ht : e.taken <;> simp [Probe.advance, isLooking, ht]
  | looking =>
    rw [h rfl]
    rfl
  | seen available => rfl

end Probe

namespace Caller

/-- Whether a caller has the injector. -/
def holds : Caller → Bool
  | .typing j => j.isInside
  | .rejected _ => false
  | .probing p => p.isLooking

/-- Whether a caller does not end in a refusal although it had the injector. -/
def IsProper : Caller → Prop
  | .typing j => j.IsProper
  | _ => True

/-- A step takes the injector from where it is, and gives it back there. -/
theorem holds_advance (trusted : Bool) {e : Engine} {c : Caller}
    (h : c.holds = true → e.taken = true) :
    (c.advance trusted e).1.taken.toNat + c.holds.toNat =
      e.taken.toNat + (c.advance trusted e).2.holds.toNat := by
  cases c with
  | typing j => exact Job.isInside_advance trusted h
  | rejected fault => rfl
  | probing p => exact Probe.isLooking_advance trusted h

theorem IsProper.advance {c : Caller} (h : c.IsProper) (trusted : Bool) (e : Engine) :
    (c.advance trusted e).2.IsProper := by
  cases c with
  | typing j => exact Job.IsProper.advance h trusted e
  | rejected fault => trivial
  | probing p => trivial

/-- A call that begins has nothing, and takes nothing. -/
theorem begin_frame (e : Engine) (call : EngineCall) :
    (e.begin call).1.taken = e.taken ∧ (e.begin call).2.holds = false ∧
      (e.begin call).2.IsProper := by
  cases call with
  | typeEntry template entry =>
    simp only [Engine.begin]
    split <;> exact ⟨rfl, rfl, trivial⟩
  | _ => exact ⟨rfl, rfl, trivial⟩

end Caller

/-! ## Crowds -/

namespace Crowd

/-- Whether the mark of the injector counts those who have it, and nobody ends wrong. -/
structure Exclusive (c : Crowd) : Prop where
  holders : c.callers.countP Caller.holds = c.engine.taken.toNat
  proper : ∀ k ∈ c.callers, k.IsProper

/-- Whoever has the injector has taken it. -/
theorem Exclusive.taken {c : Crowd} (h : c.Exclusive) {k : Caller} (hk : k ∈ c.callers)
    (hh : k.holds = true) : c.engine.taken = true := by
  have hpos := List.countP_pos_iff.mpr ⟨k, hk, hh⟩
  have hholders := h.holders
  cases ht : c.engine.taken with
  | true => rfl
  | false =>
    rw [ht] at hholders
    simp only [Bool.toNat_false] at hholders
    omega

/-- Setting one element of a list changes a count by that element. -/
theorem countP_set_add {α : Type} {p : α → Bool} {l : List α} {i : Nat} {a b : α}
    (h : l[i]? = some a) : (l.set i b).countP p + (p a).toNat = l.countP p + (p b).toNat := by
  obtain ⟨hi, rfl⟩ := List.getElem?_eq_some_iff.mp h
  have hle := List.boole_getElem_le_countP (p := p) hi
  rw [List.countP_set hi]
  cases ha : p l[i] <;> cases hb : p b <;>
    simp only [ha, if_true, if_false, Bool.false_eq_true, Bool.toNat_true, Bool.toNat_false]
      at hle ⊢ <;> omega

/-- At most one caller has the injector. -/
theorem Exclusive.eq_of_holds {c : Crowd} (h : c.Exclusive) {i m : Nat} {k k' : Caller}
    (hk : c.callers[i]? = some k) (hholds : k.holds = true) (hm : c.callers[m]? = some k')
    (hholds' : k'.holds = true) : i = m := by
  by_contra hne
  -- without one of the two there is still the other one
  have hset := countP_set_add (p := Caller.holds) (b := .rejected .noEntry) hk
  have hleft : 0 < (c.callers.set i (.rejected .noEntry)).countP Caller.holds := by
    refine List.countP_pos_iff.mpr ⟨k', ?_, hholds'⟩
    refine List.mem_of_getElem? (i := m) ?_
    rw [List.getElem?_set_ne hne]
    exact hm
  have hholders := h.holders
  have hone := Bool.toNat_le c.engine.taken
  rw [hholds] at hset
  simp only [Caller.holds, Bool.toNat_true, Bool.toNat_false] at hset hleft hholders
  omega

/-- One caller moves, and the injector goes where it goes. -/
theorem Exclusive.set {c : Crowd} (h : c.Exclusive) {i : Nat} {k k' : Caller} {e : Engine}
    (hk : c.callers[i]? = some k)
    (ht : e.taken.toNat + k.holds.toNat = c.engine.taken.toNat + k'.holds.toNat)
    (hp : k'.IsProper) : Exclusive ⟨e, c.callers.set i k'⟩ where
  holders := by
    have hset := countP_set_add (p := Caller.holds) (b := k') hk
    have hholders := h.holders
    simp only
    omega
  proper := by
    intro k₀ hk₀
    rcases List.mem_or_eq_of_mem_set hk₀ with hmem | rfl
    · exact h.proper k₀ hmem
    · exact hp

/-- The job of a caller does something that leaves the injector where it is. -/
theorem Exclusive.onJob {c : Crowd} (h : c.Exclusive) (i : Nat) {f : Job → Job}
    (hf : ∀ j, (f j).isInside = j.isInside) (hp : ∀ j : Job, j.IsProper → (f j).IsProper) :
    (c.onJob i f).1.Exclusive := by
  unfold Crowd.onJob
  split
  · next j hj =>
    refine h.set hj ?_ (hp j (h.proper _ (List.mem_of_getElem? hj)))
    rw [Caller.holds, Caller.holds, hf]
  · exact h

/-- Every step keeps the mark right. -/
theorem Exclusive.step {c : Crowd} (h : c.Exclusive) (choice : Choice) :
    (c.step choice).1.Exclusive := by
  cases choice with
  | call call =>
    obtain ⟨ht, hh, hp⟩ := Caller.begin_frame c.engine call
    constructor
    · simp only [Crowd.step, List.countP_append, h.holders, List.countP_singleton, hh, ht]
      rfl
    · intro k hk
      rcases List.mem_append.mp hk with hk | hk
      · exact h.proper k hk
      · rw [List.mem_singleton.mp hk]
        exact hp
  | advance i trusted =>
    simp only [Crowd.step]
    split
    · next k hk =>
      have hmem := List.mem_of_getElem? hk
      exact h.set hk (Caller.holds_advance trusted (h.taken hmem))
        ((h.proper k hmem).advance trusted _)
    · exact h
  | answer i r => exact h.onJob i (fun j ↦ j.isInside_answer r) (fun j hj ↦ hj.answer r)
  | crash i => exact h.onJob i (fun j ↦ j.isInside_crash) (fun j hj ↦ hj.crash)
  | cancel =>
    have ht : c.engine.cancel.taken = c.engine.taken := by
      unfold Engine.cancel
      split <;> rfl
    exact ⟨h.holders.trans (congrArg Bool.toNat ht.symm), h.proper⟩
  | raise t => exact ⟨h.holders, h.proper⟩

/-- Every run keeps the mark right. -/
theorem Exclusive.run {c : Crowd} (h : c.Exclusive) (cs : List Choice) :
    (c.run cs).1.Exclusive := by
  induction cs generalizing c with
  | nil => exact h
  | cons choice cs ih => exact ih (h.step choice)

/-- An engine that nobody has called yet. -/
theorem exclusive_start {e : Engine} (h : e.taken = false) : Exclusive ⟨e, []⟩ where
  holders := by
    rw [h]
    rfl
  proper := by
    intro k hk
    cases hk

/-! ## Refusals -/

/-- Whether a step of a caller ends its call in a refusal. -/
def Refuses (c : Crowd) (i : Nat) (trusted : Bool) : Prop :=
  c.callers[i]?.bind Caller.outcome? = none ∧
    (c.step (.advance i trusted)).1.callers[i]?.bind Caller.outcome? = some .refused

/-- Whether somebody else than a caller is inside a run. -/
def InRun (c : Crowd) (i : Nat) : Prop :=
  ∃ k j, k ≠ i ∧ c.callers[k]? = some (.typing j) ∧ j.isInside = true

/-- Whether somebody who looks has the injector. -/
def Probed (c : Crowd) : Prop := ∃ k : Nat, c.callers[k]? = some (.probing .looking)

private theorem wanting_of_refuses {c : Crowd} (h : c.Exclusive) {i : Nat} {trusted : Bool}
    (hr : c.Refuses i trusted) :
    ∃ j, c.callers[i]? = some (.typing j) ∧ j.isWanting = true ∧ c.engine.taken = true := by
  obtain ⟨hbefore, hafter⟩ := hr
  cases hk : c.callers[i]? with
  | none =>
    simp only [step, hk, Option.bind_none] at hafter
    cases hafter
  | some k =>
    have hi := (List.getElem?_eq_some_iff.mp hk).1
    simp only [step, hk, List.getElem?_set_self hi, Option.bind_some] at hbefore hafter
    cases k with
    | rejected fault => cases hbefore
    | probing p => cases hafter
    | typing j =>
      have hproper := h.proper _ (List.mem_of_getElem? hk)
      obtain ⟨hw, -, ht⟩ := (Job.refused_advance_iff hproper hbefore trusted c.engine).mp hafter
      exact ⟨j, rfl, hw, ht⟩

/-- A run and one who looks never have the injector at once. -/
theorem Exclusive.not_inRun_of_probed {c : Crowd} (h : c.Exclusive) (i : Nat) (hp : c.Probed) :
    ¬ c.InRun i := by
  rintro ⟨k, j, -, hk, hj⟩
  obtain ⟨m, hm⟩ := hp
  obtain rfl : k = m := h.eq_of_holds hk hj hm rfl
  rw [hk] at hm
  cases hm

/-- At a refusal somebody else is inside a run, or else somebody looks. -/
theorem Exclusive.inRun_iff_of_refuses {c : Crowd} (h : c.Exclusive) {i : Nat} {trusted : Bool}
    (hr : c.Refuses i trusted) : c.InRun i ↔ ¬ c.Probed := by
  constructor
  · intro hrun hp
    exact h.not_inRun_of_probed i hp hrun
  · intro hnp
    obtain ⟨j, hi, hw, ht⟩ := wanting_of_refuses h hr
    have hpos : 0 < c.callers.countP Caller.holds := by
      rw [h.holders, ht]
      exact Nat.one_pos
    obtain ⟨k, hk, hholds⟩ := List.countP_pos_iff.mp hpos
    obtain ⟨m, hm⟩ := List.getElem?_of_mem hk
    cases k with
    | rejected fault => cases hholds
    | probing p =>
      cases p with
      | looking => exact (hnp ⟨m, hm⟩).elim
      | wanting => cases hholds
      | seen available => cases hholds
    | typing j' =>
      refine ⟨m, j', ?_, hm, hholds⟩
      rintro rfl
      rw [hi] at hm
      cases hm
      rw [Caller.holds, Job.isInside_of_isWanting hw] at hholds
      cases hholds

end Crowd

end Typist

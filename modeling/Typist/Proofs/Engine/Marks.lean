import Mathlib
import Typist.Proofs.Engine.Turns

/-!
# Marks

The marks by which a request is known to others, that typing goes on and which token stops it, stand
only while that request has the injector. With the turns this is what a crowd keeps to in which no
run is brought down.
-/

namespace Typist

/-- Whether nobody uses an engine. -/
structure Engine.Unused (e : Engine) : Prop where
  taken : e.taken = false
  busy : e.busy = false
  current : e.current = none

namespace Job

/-- Whether the request shows that it is busy. -/
def isShown (j : Job) : Bool :=
  match j.stage with
  | .announced | .typing _ | .typed _ | .withdrawn _ | .reported _ => true
  | _ => false

/-- Whether the token of the request is this one, and is published. -/
def publishes (t : Token) (j : Job) : Bool := j.isPublished && decide (j.token = t)

/-- An answer of the system leaves all marks as they are. -/
theorem isShown_answer (j : Job) (r : NativeReply) : (j.answer r).isShown = j.isShown := by
  unfold answer
  split
  · next hs => simp [isShown, hs]
  · rfl

theorem isPublished_answer (j : Job) (r : NativeReply) :
    (j.answer r).isPublished = j.isPublished := by
  unfold answer
  split
  · next hs => simp [isPublished, hs]
  · rfl

theorem isInside_of_isShown {j : Job} (h : j.isShown = true) : j.isInside = true := by
  unfold isShown at h
  unfold isInside
  split at h
  case h_6 => cases h
  all_goals
    next hs => rw [hs]

/-- The busy mark stands for as long as the request shows that it is busy. -/
theorem shown_of_busy {trusted : Bool} {e : Engine} {j : Job}
    (h : (j.advance trusted e).1.busy = true) :
    (j.advance trusted e).2.isShown = true ∨ e.busy = true ∧ j.isShown = false := by
  cases hs : j.stage with
  | wanting =>
    simp only [advance, hs] at h ⊢
    right
    split at h
    · exact ⟨h, by rw [isShown, hs]⟩
    · split at h <;> exact ⟨h, by rw [isShown, hs]⟩
  | typing s => cases s <;> simp [advance, isShown, hs]
  | reported o => simp [advance, hs] at h
  | _ => simp_all [advance, isShown]

/-- A published token is that of a request for as long as it types. -/
theorem published_of_current {trusted : Bool} {e : Engine} {j : Job} {t : Token}
    (h : (j.advance trusted e).1.current = some t) :
    (j.advance trusted e).2.publishes t = true ∨
      e.current = some t ∧ (j.publishes t = true → (j.advance trusted e).2.publishes t = true) := by
  have htoken := (j.advance_frame trusted e).2
  unfold publishes
  rw [htoken]
  cases hs : j.stage with
  | wanting =>
    simp only [advance, hs] at h ⊢
    right
    split at h
    · exact ⟨h, by simp [isPublished, hs]⟩
    · split at h <;> exact ⟨h, by simp [isPublished, hs]⟩
  | typing s => cases s <;> simp_all [advance, isPublished]
  | typed r => simp [advance, hs] at h
  | _ => simp_all [advance, isPublished]

end Job

namespace Crowd

/-- Whether the marks that stand are those of requests: somebody shows that it is busy, and the
published token is that of somebody who types. -/
structure Marked (c : Crowd) : Prop where
  busy : c.engine.busy = true → ∃ i, c.Is Job.isShown i
  current : ∀ t, c.engine.current = some t → ∃ i, c.Is (Job.publishes t) i

/-- The same marks stand, for the same requests. -/
theorem Marked.congr {c c' : Crowd} (h : c.Marked) (hbusy : c'.engine.busy = c.engine.busy)
    (hcurrent : c'.engine.current = c.engine.current)
    (hshown : ∀ i, c.Is Job.isShown i → c'.Is Job.isShown i)
    (hpublished : ∀ t i, c.Is (Job.publishes t) i → c'.Is (Job.publishes t) i) : c'.Marked where
  busy hb := (h.busy (hbusy ▸ hb)).imp hshown
  current t ht := (h.current t (hcurrent ▸ ht)).imp (hpublished t)

/-- Every move leaves the marks right. -/
theorem Marked.moves {c c' : Crowd} {new : List Deed} (h : c.Marked) (hm : Moves c c' new) :
    c'.Marked := by
  cases hm with
  | aside hjob hkeeps =>
    exact h.congr hkeeps.busy hkeeps.current (fun i ↦ (is_congr hjob _ i).mpr)
      fun t i ↦ (is_congr hjob _ i).mpr
  | @comes k j hk _ hjob hkeeps =>
    have hsame {p : Job → Bool} {i : Nat} (hi : c.Is p i) : c'.Is p i := by
      rw [is_update hjob, if_neg]
      · exact hi
      · rintro rfl
        exact not_is hk p hi
    exact h.congr hkeeps.busy hkeeps.current (fun i ↦ hsame) fun t i ↦ hsame
  | @advances k j trusted hk hjob hengine =>
    constructor
    · intro hb
      obtain hshown | ⟨hbefore, hnot⟩ := Job.shown_of_busy (hengine ▸ hb)
      · exact ⟨k, (is_update hjob _ k).mpr (by rwa [if_pos rfl])⟩
      · exact (h.busy hbefore).imp fun i ↦ is_of_update hk hjob (by simp [hnot])
    · intro t ht
      obtain hpublished | ⟨hbefore, hp⟩ := Job.published_of_current (hengine ▸ ht)
      · exact ⟨k, (is_update hjob _ k).mpr (by rwa [if_pos rfl])⟩
      · exact (h.current t hbefore).imp fun i ↦ is_of_update hk hjob hp
  | @answered k j call r hk _ hjob hengine =>
    have hpublishes (t : Token) : (j.answer r).publishes t = j.publishes t := by
      rw [Job.publishes, Job.publishes, j.isPublished_answer r, (j.answer_frame r).2]
    apply h.congr (congrArg Engine.busy hengine) (congrArg Engine.current hengine)
    · intro i
      exact is_of_update hk hjob (j.isShown_answer r).trans
    · intro t i
      exact is_of_update hk hjob (hpublishes t).trans

/-! ## Runs -/

/-- What a crowd keeps to in which no run is brought down. -/
structure Orderly (e : Engine) (ds : List Deed) (c : Crowd) : Prop where
  exclusive : c.Exclusive
  typesAs : c.engine.TypesAs e
  turns : ∃ turns, Turns turns ds c
  accounts : Accounts e ds c
  marked : c.Marked

theorem Moves.typesAs {c c' : Crowd} {new : List Deed} (h : Moves c c' new) :
    c'.engine.TypesAs c.engine := by
  cases h with
  | aside _ hkeeps => exact hkeeps.typesAs
  | comes _ _ _ hkeeps => exact hkeeps.typesAs
  | advances _ _ hengine =>
    rw [hengine]
    exact Job.typesAs_advance ..
  | answered _ _ _ hengine =>
    rw [hengine]
    exact ⟨rfl, rfl⟩

/-- An engine that nobody has called yet. -/
theorem orderly_start {e : Engine} (h : e.Unused) : Orderly e [] ⟨e, []⟩ where
  exclusive := exclusive_start h.taken
  typesAs := ⟨rfl, rfl⟩
  turns := by
    have hnone (p : Job → Bool) (i : Nat) : ¬ Is ⟨e, []⟩ p i := not_is rfl p
    exact ⟨[], .nil, rfl, fun i ↦ ⟨nofun, fun hi ↦ (hnone _ i hi).elim⟩,
      fun i hi ↦ (hnone _ i hi).elim⟩
  accounts := nofun
  marked := by
    constructor
    · intro hb
      rw [h.busy] at hb
      cases hb
    · intro t ht
      rw [h.current] at ht
      cases ht

theorem Orderly.step {e : Engine} {ds : List Deed} {c : Crowd} (h : Orderly e ds c)
    {choice : Choice} (hcrash : ∀ i, choice ≠ .crash i) :
    Orderly e (ds ++ (c.step choice).2) (c.step choice).1 := by
  have hmoves := c.moves_step hcrash
  have htypes := hmoves.typesAs
  obtain ⟨turns, hturns⟩ := h.turns
  exact ⟨h.exclusive.step choice, ⟨htypes.1.trans h.typesAs.1, htypes.2.trans h.typesAs.2⟩,
    hturns.moves h.exclusive hmoves, h.accounts.moves h.typesAs hturns hmoves,
    h.marked.moves hmoves⟩

theorem Orderly.run {e : Engine} {ds : List Deed} {c : Crowd} (h : Orderly e ds c)
    {cs : List Choice} (hcrash : ∀ i, .crash i ∉ cs) :
    Orderly e (ds ++ (c.run cs).2) (c.run cs).1 := by
  induction cs generalizing ds c with
  | nil =>
    rw [Crowd.run, List.append_nil]
    exact h
  | cons choice cs ih =>
    have hstep : Orderly e (ds ++ (c.step choice).2) (c.step choice).1 :=
      h.step fun i hi ↦ hcrash i (hi ▸ List.mem_cons_self)
    have hrest := ih hstep fun i hi ↦ hcrash i (List.mem_cons_of_mem _ hi)
    rwa [List.append_assoc] at hrest

/-- A request stays through a run, with its token, and what was begun stays begun. -/
theorem Exclusive.persists {c : Crowd} (h : c.Exclusive) {cs : List Choice}
    (hcrash : ∀ i, .crash i ∉ cs) {i : Nat} {j : Job} (hj : c.job? i = some j) :
    ∃ j', (c.run cs).1.job? i = some j' ∧ j'.token = j.token ∧
      (j.hasBegun = true → j'.hasBegun = true) := by
  induction cs generalizing c j with
  | nil => exact ⟨j, hj, rfl, id⟩
  | cons choice cs ih =>
    have hmoves := c.moves_step fun i hi ↦ hcrash i (hi ▸ List.mem_cons_self)
    obtain ⟨j₁, hj₁, htoken₁, hbegun₁⟩ := hmoves.persists h hj
    obtain ⟨j₂, hj₂, htoken₂, hbegun₂⟩ :=
      ih (h.step choice) (fun i hi ↦ hcrash i (List.mem_cons_of_mem _ hi)) hj₁
    exact ⟨j₂, hj₂, htoken₂.trans htoken₁, hbegun₂ ∘ hbegun₁⟩

/-- The deeds are those of whole runs, one after the other; the last one may still be on its way. -/
theorem Orderly.exists_turns {e : Engine} {ds : List Deed} {c : Crowd} (h : Orderly e ds c) :
    ∃ turns : List Nat, turns.Nodup ∧ ds = turns.flatMap (Deed.onBehalf ds) ∧
      ∀ i ∈ turns, ∃ j trusted is, c.job? i = some j ∧
        Incident.calls is = (Deed.onBehalf ds i).map Deed.call ∧
        j.Fares (e.script trusted j.sequence) is ∧
        (j.isInside = true → turns.getLast? = some i) := by
  obtain ⟨turns, hturns⟩ := h.turns
  refine ⟨turns, hturns.nodup, hturns.grouped, fun i hi ↦ ?_⟩
  obtain ⟨j, hj, hbegun⟩ := (hturns.begun i).mp hi
  obtain ⟨trusted, is, hcame, hdown, hcalls, -⟩ := h.accounts i j hj
  exact ⟨j, trusted, is, hj, hcalls, Job.fares_of_came hcame hdown hbegun,
    fun hin ↦ hturns.last i ⟨j, hj, hin⟩⟩

end Crowd

end Typist

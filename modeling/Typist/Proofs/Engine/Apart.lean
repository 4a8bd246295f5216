import Mathlib
import Typist.Proofs.Engine.TokenLock

/-!
# Runs apart

Requests that share an engine do not meet. Their calls are those of whole runs, one after the other,
and whoever cancels raises the flag of the one run that is on its way, or none: between reading the
token and raising its flag nobody can begin a run or end one, as the token would have to be written.
-/

namespace Typist

/-- Only a request that writes changes which token is published. -/
theorem Job.current_advance (trusted : Bool) (e : Engine) {j : Job} (h : j.isWriting = false) :
    (j.advance trusted e).1.current = e.current := by
  unfold advance
  split
  case h_1 =>
    split
    · rfl
    · split <;> rfl
  case h_3 hs =>
    rw [isWriting, hs] at h
    cases h
  case h_8 hs =>
    rw [isWriting, hs] at h
    cases h
  all_goals rfl

theorem Probe.flags_advance (trusted : Bool) (e : Engine) (p : Probe) :
    (p.advance trusted e).1.flags = e.flags := by
  cases p with
  | wanting =>
    rw [advance]
    split <;> rfl
  | _ => rfl

theorem Crowd.current_step (c : Crowd) {choice : Choice}
    (h : ∀ i trusted, choice = .advance i trusted → (c.job? i).any Job.isWriting = false) :
    (c.step choice).1.engine.current = c.engine.current := by
  cases choice with
  | call call => exact (c.engine.keeps_begin call).1.current
  | advance i trusted =>
    have hany := h i trusted rfl
    simp only [step]
    cases hk : c.callers[i]? with
    | none => rfl
    | some k =>
      cases k with
      | rejected fault => rfl
      | probing p => exact (p.keeps_advance trusted c.engine).current
      | typing j =>
        have hj : c.job? i = some j := by rw [job?, hk]; rfl
        rw [hj, Option.any_some] at hany
        exact Job.current_advance trusted c.engine hany
  | answer i r =>
    simp only [step, onJob]
    split <;> rfl
  | crash i =>
    simp only [step, onJob]
    split <;> rfl
  | cancel => exact c.engine.keeps_cancel.current
  | raise t => rfl

namespace Cancellation

/-- Raising a flag raises no other one. -/
theorem eq_of_isCancelled_cancel {c : Cancellation} {t u : Token}
    (h : (c.cancel t).isCancelled u = true) : c.isCancelled u = true ∨ u = t := by
  by_cases hu : u = t
  · exact .inr hu
  · left
    have hne : t.index ≠ u.index := by
      intro he
      apply hu
      cases t
      cases u
      exact congrArg Token.mk he.symm
    rwa [cancel, isCancelled, List.getD_eq_getElem?_getD, List.getElem?_set_ne hne,
      ← List.getD_eq_getElem?_getD] at h

end Cancellation

theorem Engine.isCancelled_begin (e : Engine) (call : EngineCall) (t : Token) :
    (e.begin call).1.flags.isCancelled t = e.flags.isCancelled t := by
  cases call with
  | typeEntry template entry =>
    simp only [begin]
    split
    · rfl
    · exact e.flags.isCancelled_fresh t
  | attemptWith s u => rfl
  | probe => rfl
  | _ => exact e.flags.isCancelled_fresh t

/-- Apart from those who cancel whatever is being typed, only whoever raises a token raises its
flag. -/
theorem Crowd.isCancelled_step {c : Crowd} {choice : Choice} {t : Token} (hne : choice ≠ .cancel)
    (h : (c.step choice).1.engine.flags.isCancelled t = true) :
    c.engine.flags.isCancelled t = true ∨ choice = .raise t := by
  cases choice with
  | call call => exact .inl ((c.engine.isCancelled_begin call t).symm.trans h)
  | advance i trusted =>
    left
    simp only [step] at h
    split at h
    · next k hk =>
      cases k with
      | typing j => rwa [← j.flags_advance trusted c.engine]
      | rejected fault => exact h
      | probing p => rwa [← p.flags_advance trusted c.engine]
    · exact h
  | answer i r =>
    left
    simp only [step, onJob] at h
    split at h <;> exact h
  | crash i =>
    left
    simp only [step, onJob] at h
    split at h <;> exact h
  | cancel => exact (hne rfl).elim
  | raise u =>
    obtain h | rfl := Cancellation.eq_of_isCancelled_cancel h
    · exact .inl h
    · exact .inr rfl

/-- Different tokens belong to different requests. -/
theorem Crowd.eq_of_token {c : Crowd} (h : c.tokens.Nodup) {i k : Nat} {j j' : Job}
    (hi : c.job? i = some j) (hk : c.job? k = some j') (ht : j.token = j'.token) : i = k := by
  by_contra hne
  rw [tokens, List.Nodup, List.pairwise_filterMap, List.pairwise_iff_getElem] at h
  have hget {m : Nat} {j : Job} (hm : c.job? m = some j) :
      ∃ hlt : m < c.callers.length, c.callers[m] = .typing j :=
    List.getElem?_eq_some_iff.mp (callers_of_job? hm)
  obtain ⟨hi', hci⟩ := hget hi
  obtain ⟨hk', hck⟩ := hget hk
  rcases Nat.lt_or_gt_of_ne hne with hlt | hlt
  · exact h i k hi' hk' hlt _ (by rw [hci]; rfl) _ (by rw [hck]; rfl) ht
  · exact h k i hk' hi' hlt _ (by rw [hck]; rfl) _ (by rw [hci]; rfl) ht.symm

namespace GuardedCrowd

/-! ## Cancellers -/

/-- Whether those who cancel have the lock while they are inside, and the token that they have read
is the one that is published. -/
structure Latched (g : GuardedCrowd) : Prop where
  keeper : ∀ (n : Nat) (k : Canceller), g.cancellers[n]? = some k → k.isInside = true →
    g.keeper = some (.canceller n)
  reading : ∀ (n : Nat) (t : Option Token), g.cancellers[n]? = some (.reading t) →
    g.engine.current = t

/-- A step in the crowd, which does not write the token or is that of the caller with the lock. -/
theorem Latched.moving {g : GuardedCrowd} (h : g.Latched) {choice : Crowd.Choice}
    (hwrites : ∀ i trusted, choice = .advance i trusted → g.needs i = g.keeps i) :
    (g.moving choice).1.Latched where
  keeper := h.keeper
  reading := by
    intro n t hn
    have hcurrent := h.reading n t hn
    refine (g.toCrowd.current_step fun i trusted hi ↦ ?_).trans hcurrent
    have hkeeper := h.keeper n _ hn rfl
    refine (hwrites i trusted hi).trans ?_
    simp [keeps, hkeeper]

/-- One who cancels goes on, keeping the lock while inside, and takes it from nobody. -/
theorem Latched.set {g g' : GuardedCrowd} (h : g.Latched) {n : Nat} {k : Canceller}
    (hcancellers : g'.cancellers = g.cancellers.set n k)
    (hcurrent : g'.engine.current = g.engine.current)
    (hkeeper : k.isInside = true → g'.keeper = some (.canceller n))
    (hothers : ∀ m, m ≠ n → g.keeper = some (.canceller m) → g'.keeper = some (.canceller m))
    (hreading : ∀ t, k = .reading t → g.engine.current = t) : g'.Latched := by
  have hcases {m : Nat} {k' : Canceller} (hm : g'.cancellers[m]? = some k') :
      m = n ∧ k' = k ∨ m ≠ n ∧ g.cancellers[m]? = some k' := by
    rw [hcancellers, List.getElem?_set] at hm
    split at hm
    · next hmn =>
      split at hm
      · exact .inl ⟨hmn.symm, (Option.some.inj hm).symm⟩
      · cases hm
    · next hmn => exact .inr ⟨Ne.symm hmn, hm⟩
  constructor
  · intro m k' hm hin
    obtain ⟨rfl, rfl⟩ | ⟨hmn, hm⟩ := hcases hm
    · exact hkeeper hin
    · exact hothers m hmn (h.keeper m k' hm hin)
  · intro m t hm
    rw [hcurrent]
    obtain ⟨-, hk⟩ | ⟨-, hm⟩ := hcases hm
    · exact hreading t hk.symm
    · exact h.reading m t hm

/-- While nobody who cancels has the lock, anybody may take it or give it back. -/
theorem Latched.hand {g : GuardedCrowd} (h : g.Latched)
    (hkeeper : ∀ n, g.keeper ≠ some (.canceller n)) (k : Option Keeper) :
    Latched { g with keeper := k } where
  keeper := fun n k' hn hin ↦ (hkeeper n (h.keeper n k' hn hin)).elim
  reading := h.reading

theorem Latched.advanceCanceller {g : GuardedCrowd} (h : g.Latched) (n : Nat) :
    (g.advanceCanceller n).Latched := by
  unfold GuardedCrowd.advanceCanceller
  split
  · split
    · next hfree =>
      refine h.set rfl rfl (fun _ ↦ rfl) (fun m _ hm ↦ ?_) nofun
      rw [hfree] at hm
      cases hm
    · exact h
  · next hn =>
    refine h.set rfl rfl (fun _ ↦ h.keeper n _ hn rfl) (fun _ _ hm ↦ hm) ?_
    rintro t ⟨⟩
    rfl
  · next t hn =>
    refine h.set rfl ?_ (fun _ ↦ h.keeper n _ hn rfl) (fun _ _ hm ↦ hm) nofun
    cases t <;> rfl
  · next hn =>
    refine h.set rfl rfl nofun (fun m hmn hm ↦ ?_) nofun
    -- the lock that is given back is that of this one
    rw [h.keeper n _ hn rfl] at hm
    cases hm
    exact (hmn rfl).elim
  · exact h
  · exact h

theorem Latched.step {g : GuardedCrowd} (h : g.Latched) (choice : Choice) :
    (g.step choice).1.Latched := by
  have hother {m : Crowd.Choice} (hm : ∀ i trusted, m ≠ .advance i trusted) :
      (g.moving m).1.Latched := h.moving fun i trusted hi ↦ (hm i trusted hi).elim
  cases choice with
  | canceller n => exact h.advanceCanceller n
  | move m =>
    cases m with
    | call call => exact hother (by simp)
    | advance i trusted =>
      simp only [GuardedCrowd.step, GuardedCrowd.advance]
      split
      · next heq =>
        apply h.moving
        rintro _ _ ⟨⟩
        exact heq
      · split
        · next hkeeps =>
          refine h.hand (fun n hn ↦ ?_) none
          simp [keeps, hn] at hkeeps
        · split
          · next hfree => exact h.hand (fun n hn ↦ by rw [hfree] at hn; cases hn) _
          · exact h
    | answer i r =>
      simp only [GuardedCrowd.step]
      split
      · exact h
      · exact hother (by simp)
    | crash i =>
      simp only [GuardedCrowd.step]
      split
      · exact h
      · exact hother (by simp)
    | cancel =>
      have hcases {n : Nat} {k : Canceller} (hn : (g.cancellers ++ [.wanting])[n]? = some k) :
          k = .wanting ∨ g.cancellers[n]? = some k := by
        rw [List.getElem?_append] at hn
        split at hn
        · exact .inr hn
        · exact .inl (List.mem_singleton.mp (List.mem_of_getElem? hn))
      constructor
      · intro n k hn hin
        obtain rfl | hn := hcases hn
        · cases hin
        · exact h.keeper n k hn hin
      · intro n t hn
        obtain ht | hn := hcases hn
        · cases ht
        · exact h.reading n t hn
    | raise t => exact hother (by simp)

theorem Latched.run {g : GuardedCrowd} (h : g.Latched) (cs : List Choice) :
    (g.run cs).1.Latched := by
  induction cs generalizing g with
  | nil => exact h
  | cons choice cs ih => exact ih (h.step choice)

/-- Whoever has returned does nothing more. -/
theorem returned_step {g : GuardedCrowd} {n : Nat} (h : g.cancellers[n]? = some .returned)
    (choice : Choice) : (g.step choice).1.cancellers[n]? = some .returned := by
  cases choice with
  | canceller m =>
    have hset {k : Canceller} {k' : Canceller} (hk : g.cancellers[m]? = some k')
        (hne : k' ≠ .returned) : (g.cancellers.set m k)[n]? = some .returned := by
      rw [List.getElem?_set_ne]
      · exact h
      · rintro rfl
        exact hne (Option.some.inj (hk.symm.trans h))
    simp only [step, advanceCanceller]
    split
    · next hk =>
      split
      · exact hset hk (by simp)
      · exact h
    · next hk => exact hset hk (by simp)
    · next hk => exact hset hk (by simp)
    · next hk => exact hset hk (by simp)
    · exact h
    · exact h
  | move m =>
    cases m with
    | call call => exact h
    | advance i trusted =>
      simp only [step, advance]
      split
      · exact h
      · split
        · exact h
        · split <;> exact h
    | answer i r =>
      simp only [step]
      split <;> exact h
    | crash i =>
      simp only [step]
      split <;> exact h
    | cancel => exact (List.getElem?_append_left (List.getElem?_eq_some_iff.mp h).1).trans h
    | raise t => exact h

theorem returned_run {g : GuardedCrowd} {n : Nat} (h : g.cancellers[n]? = some .returned)
    (cs : List Choice) : (g.run cs).1.cancellers[n]? = some .returned := by
  induction cs generalizing g with
  | nil => exact h
  | cons choice cs ih => exact ih (returned_step h choice)

/-! ## Flags -/

/-- A flag is raised by whoever raises its token, or cancels and has read that it is published. -/
theorem isCancelled_step {g : GuardedCrowd} {choice : Choice} {t : Token}
    (h : (g.step choice).1.engine.flags.isCancelled t = true) :
    g.engine.flags.isCancelled t = true ∨ choice = .move (.raise t) ∨
      ∃ n, choice = .canceller n ∧ g.cancellers[n]? = some (.reading (some t)) := by
  obtain ⟨ms, hdoes, hstep⟩ := g.exists_does choice
  have hcrowd : (g.step choice).1.toCrowd = (g.toCrowd.run ms).1 := congrArg Prod.fst hstep
  rw [hcrowd] at h
  cases hdoes with
  | nothing => exact .inl h
  | @move m hne _ =>
    obtain h | rfl := Crowd.isCancelled_step hne h
    · exact .inl h
    · exact .inr (.inl rfl)
  | @raise n u hn =>
    obtain h | rfl := Cancellation.eq_of_isCancelled_cancel h
    · exact .inl h
    · exact .inr (.inr ⟨n, rfl, hn⟩)

theorem isCancelled_run {g : GuardedCrowd} {cs : List Choice} {t : Token}
    (h : (g.run cs).1.engine.flags.isCancelled t = true) :
    g.engine.flags.isCancelled t = true ∨ .move (.raise t) ∈ cs ∨
      ∃ n before after, cs = before ++ .canceller n :: after ∧
        (g.run before).1.cancellers[n]? = some (.reading (some t)) := by
  induction cs generalizing g with
  | nil => exact .inl h
  | cons choice cs ih =>
    obtain h | h | ⟨n, before, after, rfl, hn⟩ := ih h
    · obtain h | rfl | ⟨n, rfl, hn⟩ := isCancelled_step h
      · exact .inl h
      · exact .inr (.inl List.mem_cons_self)
      · exact .inr (.inr ⟨n, [], cs, rfl, hn⟩)
    · exact .inr (.inl (List.mem_cons_of_mem _ h))
    · exact .inr (.inr ⟨n, choice :: before, after, rfl, hn⟩)

/-! ## Runs -/

/-- Whether one who cancels is about to raise the flag of a caller, whose run is on its way. -/
def Hits (g : GuardedCrowd) (n i : Nat) : Prop :=
  ∃ j, g.job? i = some j ∧ j.isInside = true ∧ g.cancellers[n]? = some (.reading (some j.token))

/-- How runs of an engine keep apart, in whatever order the steps of those who share it come. -/
structure Apart (e : Engine) (cs : List Choice) (g : GuardedCrowd) (ds : List Crowd.Deed) : Prop where
  /-- The calls are those of whole runs, one after the other; the last one may be on its way. -/
  turns : ∃ turns : List Nat, turns.Nodup ∧ ds = turns.flatMap (Crowd.Deed.onBehalf ds) ∧
    ∀ i ∈ turns, ∃ j trusted is, g.job? i = some j ∧
      Incident.calls is = (Crowd.Deed.onBehalf ds i).map Crowd.Deed.call ∧
      j.Fares (e.script trusted j.sequence) is ∧ (j.isInside = true → turns.getLast? = some i)
  busy : g.engine.busy = true → ∃ i, g.Is Job.isInside i
  /-- Whoever cancels raises the flag of the one run that is on its way, or none. -/
  cancels : ∀ n,
    (∃ i j, g.job? i = some j ∧ j.isInside = true ∧
      g.cancellers[n]? = some (.reading (some j.token)) ∧
      (∀ k j', g.job? k = some j' → j'.token = j.token → k = i) ∧
      (g.step (.canceller n)).1.toCrowd =
        { g.toCrowd with engine := g.engine.cancelToken j.token }) ∨
    (∀ t, g.cancellers[n]? ≠ some (.reading (some t))) ∧
      (g.step (.canceller n)).1.toCrowd = g.toCrowd
  /-- A run that ends as cancelled has its flag raised. -/
  stopped : ∀ i j, g.job? i = some j →
    j.outcome? = some (.returned (.error (.injection .cancelled))) →
    g.engine.flags.isCancelled j.token = true
  /-- Unless somebody raised the token itself, one who cancels has raised the flag while the run was
  on its way: nobody who had returned before the run began. -/
  raised : ∀ i j, g.job? i = some j → g.engine.flags.isCancelled j.token = true →
    e.flags.isCancelled j.token = true ∨ .move (.raise j.token) ∈ cs ∨
      ∃ n before after, cs = before ++ .canceller n :: after ∧
        ((start e).run before).1.Hits n i ∧
        ∀ past, past <+: cs → ¬ ((start e).run past).1.Is Job.hasBegun i →
          ((start e).run past).1.cancellers[n]? ≠ some .returned

/-- Whoever has read a token is about to raise the flag of the run that it belongs to. -/
theorem Latched.exists_inside {g : GuardedCrowd} (h : g.Latched) (hm : g.toCrowd.Marked) {n : Nat}
    {t : Token} (hn : g.cancellers[n]? = some (.reading (some t))) :
    ∃ i j, g.job? i = some j ∧ j.isInside = true ∧ j.token = t := by
  obtain ⟨i, j, hj, hpublishes⟩ := hm.current t (h.reading n _ hn)
  rw [Job.publishes, Bool.and_eq_true, decide_eq_true_eq] at hpublishes
  exact ⟨i, j, hj, Job.isInside_of_isPublished hpublishes.1, hpublishes.2⟩

/-- A step of one who cancels raises the flag of the token that was read, and does nothing else. -/
theorem toCrowd_advanceCanceller (g : GuardedCrowd) (n : Nat) :
    (∃ t, g.cancellers[n]? = some (.reading (some t)) ∧
        (g.advanceCanceller n).toCrowd = { g.toCrowd with engine := g.engine.cancelToken t }) ∨
      (∀ t, g.cancellers[n]? ≠ some (.reading (some t))) ∧
        (g.advanceCanceller n).toCrowd = g.toCrowd := by
  unfold advanceCanceller
  split
  · next hn =>
    right
    split <;> exact ⟨by simp [hn], rfl⟩
  · next hn => exact .inr ⟨by simp [hn], rfl⟩
  · next t hn =>
    cases t with
    | none => exact .inr ⟨by simp [hn], rfl⟩
    | some t => exact .inl ⟨t, hn, rfl⟩
  all_goals next hn => exact .inr ⟨by simp [hn], rfl⟩

section Run

variable {e : Engine} {cs : List Choice}

theorem orderly_run (h : e.Unused) (hcrash : ∀ i, .move (.crash i) ∉ cs) :
    Crowd.Orderly e ((start e).run cs).2 ((start e).run cs).1.toCrowd := by
  obtain ⟨ms, hms, hrun⟩ := (start e).exists_run hcrash
  have horderly := (Crowd.orderly_start h).run hms
  rw [List.nil_append] at horderly
  have hcrowd : ((start e).run cs).1.toCrowd = (Crowd.run ⟨e, []⟩ ms).1 := congrArg Prod.fst hrun
  have hdeeds : ((start e).run cs).2 = (Crowd.run ⟨e, []⟩ ms).2 := congrArg Prod.snd hrun
  rw [hcrowd, hdeeds]
  exact horderly

/-- A request stays through a run, with its token, and what was begun stays begun. -/
theorem persists_run (h : e.Unused) {past rest : List Choice}
    (hcrash : ∀ i, .move (.crash i) ∉ past ++ rest) {i : Nat} {j : Job}
    (hj : ((start e).run past).1.job? i = some j) :
    ∃ j', ((start e).run (past ++ rest)).1.job? i = some j' ∧ j'.token = j.token ∧
      (j.hasBegun = true → j'.hasBegun = true) := by
  have hpast : ∀ i, .move (.crash i) ∉ past := fun i hi ↦ hcrash i (List.mem_append_left _ hi)
  have hrest : ∀ i, .move (.crash i) ∉ rest := fun i hi ↦ hcrash i (List.mem_append_right _ hi)
  obtain ⟨ms, hms, hrun⟩ := ((start e).run past).1.exists_run hrest
  have hcrowd : (((start e).run past).1.run rest).1.toCrowd =
      (((start e).run past).1.toCrowd.run ms).1 := congrArg Prod.fst hrun
  rw [run_append, hcrowd]
  exact (orderly_run h hpast).exclusive.persists hms hj

theorem latched_run (e : Engine) (cs : List Choice) : ((start e).run cs).1.Latched := by
  have hstart : (start e).Latched := by
    constructor
    · intro n k hn
      simp [start] at hn
    · intro n t hn
      simp [start] at hn
  exact hstart.run cs

/-- A flag that one who cancels raises is that of a run which is on its way then, and which had not
begun yet at any moment at which this one had returned. -/
theorem exists_hits (h : e.Unused) {before after : List Choice}
    (hcrash : ∀ i, .move (.crash i) ∉ before ++ after)
    (htokens : ((start e).run (before ++ after)).1.tokens.Nodup) {i n : Nat} {j : Job}
    (hj : ((start e).run (before ++ after)).1.job? i = some j)
    (hn : ((start e).run before).1.cancellers[n]? = some (.reading (some j.token))) :
    ((start e).run before).1.Hits n i ∧ ∀ past, past <+: before ++ after →
      ¬ ((start e).run past).1.Is Job.hasBegun i →
        ((start e).run past).1.cancellers[n]? ≠ some .returned := by
  have hmarked := (orderly_run h fun i hi ↦ hcrash i (List.mem_append_left _ hi)).marked
  obtain ⟨k, j₀, hk, hin, htoken⟩ := (latched_run e before).exists_inside hmarked hn
  -- no other request has the token that was read
  obtain ⟨j', hj', htoken', -⟩ := persists_run h hcrash hk
  have hki : k = i := Crowd.eq_of_token htokens hj' hj (htoken'.trans htoken)
  subst hki
  refine ⟨⟨j₀, hk, hin, htoken.symm ▸ hn⟩, fun past hpast hnot hreturned ↦ ?_⟩
  have hbefore : before <+: before ++ after := List.prefix_append before after
  rcases List.prefix_or_prefix_of_prefix hpast hbefore with ⟨rest, rfl⟩ | ⟨rest, rfl⟩
  · have hstill := returned_run hreturned rest
    rw [run_append] at hn
    rw [hn] at hstill
    cases hstill
  · obtain ⟨j₂, hj₂, -, hbegun⟩ := persists_run h (fun i hi ↦ hcrash i (hpast.subset hi)) hk
    exact hnot ⟨j₂, hj₂, hbegun (Job.hasBegun_of_isInside hin)⟩

/-- Runs keep apart, unless one is brought down or two calls are given the same token. -/
theorem runs_apart {g : GuardedCrowd} {ds : List Crowd.Deed} (hunused : e.Unused)
    (hcrash : ∀ i, .move (.crash i) ∉ cs) (hrun : (start e).run cs = (g, ds))
    (htokens : g.tokens.Nodup) : Apart e cs g ds := by
  obtain rfl : ((start e).run cs).1 = g := congrArg Prod.fst hrun
  obtain rfl : ((start e).run cs).2 = ds := congrArg Prod.snd hrun
  have horderly := orderly_run hunused hcrash
  constructor
  · exact horderly.exists_turns
  · intro hb
    obtain ⟨i, j, hj, hshown⟩ := horderly.marked.busy hb
    exact ⟨i, j, hj, Job.isInside_of_isShown hshown⟩
  · intro n
    obtain ⟨t, hn, hcrowd⟩ | hquiet := toCrowd_advanceCanceller ((start e).run cs).1 n
    · obtain ⟨i, j, hj, hin, rfl⟩ := (latched_run e cs).exists_inside horderly.marked hn
      exact .inl ⟨i, j, hj, hin, hn, fun k j' hk ht ↦ Crowd.eq_of_token htokens hk hj ht, hcrowd⟩
    · exact .inr hquiet
  · intro i j hj ho
    exact (horderly.accounts i j hj).isCancelled ho
  · intro i j hj hraised
    obtain h | h | ⟨n, before, after, rfl, hn⟩ := isCancelled_run hraised
    · exact .inl h
    · exact .inr (.inl h)
    · exact .inr (.inr ⟨n, before, after, rfl, exists_hits hunused hcrash htokens hj hn⟩)

end Run

/-- A keyboard with one key. -/
def oneKey : Engine where
  injector := ⟨some ⟨⟨"one key", [(.tab, 48)], []⟩, ""⟩, none⟩

/-- Two callers want to strike the key twice. While the first one is at it, it is cancelled, by one
who had to wait for the lock; the second one waits, and then is not cancelled. -/
def cancelledOnce : List Choice :=
  List.flatten
    [List.replicate 2 (.move (.call (.perform ⟨[.press .tab, .press .tab], by decide⟩))),
      List.replicate 4 (.move (.advance 0 true)), [.move (.advance 1 true)],
      [.move .cancel, .canceller 0], List.replicate 2 (.move (.advance 0 true)),
      List.replicate 2 (.canceller 0), [.move (.answer 0 (.ok ()))],
      List.replicate 2 (.canceller 0), [.move (.answer 0 (.ok ()))],
      List.replicate 10 (.move (.advance 0 true)),
      List.replicate 6 (.move (.advance 1 true)), List.replicate 2 (.move (.answer 1 (.ok ()))),
      List.replicate 2 (.move (.advance 1 true)), List.replicate 2 (.move (.answer 1 (.ok ()))),
      List.replicate 8 (.move (.advance 1 true))]

/-- The first caller strikes the key once, as its flag is raised, and then the second one strikes it
twice. -/
theorem runs_apart_of_cancelled :
    oneKey.Unused ∧ (∀ i, .move (.crash i) ∉ cancelledOnce) ∧
      ((start oneKey).run cancelledOnce).1.tokens = [⟨0⟩, ⟨1⟩] ∧
      ((start oneKey).run cancelledOnce).1.engine.flags = ⟨[true, false]⟩ ∧
      ((start oneKey).run cancelledOnce).2.map Crowd.Deed.caller = [0, 0, 1, 1, 1, 1] ∧
      Apart oneKey cancelledOnce ((start oneKey).run cancelledOnce).1
        ((start oneKey).run cancelledOnce).2 := by
  have hcrash : ∀ i, .move (.crash i) ∉ cancelledOnce := by simp [cancelledOnce]
  have htokens : ((start oneKey).run cancelledOnce).1.tokens = [⟨0⟩, ⟨1⟩] := by decide +kernel
  have hnodup : ((start oneKey).run cancelledOnce).1.tokens.Nodup := by
    rw [htokens]
    decide
  have hunused : oneKey.Unused := ⟨rfl, rfl, rfl⟩
  refine ⟨hunused, hcrash, htokens, ?_, ?_, runs_apart hunused hcrash (Prod.eta _).symm hnodup⟩
  · decide +kernel
  · decide +kernel

end GuardedCrowd

end Typist

import Mathlib
import Typist.Proofs.Engine.Moving
import Typist.Proofs.Typing.Transcript

/-!
# Turns

Whoever has the injector types, and nobody else does: the calls that are made on behalf of different
requests stand in turns, one request after the other, and each turn is what carrying out a script
makes.
-/

namespace Typist

namespace Crowd

/-! ## Turns -/

/-- The deeds on behalf of a caller. -/
def Deed.onBehalf (ds : List Deed) (i : Nat) : List Deed := ds.filter (·.caller = i)

theorem Deed.onBehalf_concat_self (ds : List Deed) (d : Deed) :
    onBehalf (ds ++ [d]) d.caller = onBehalf ds d.caller ++ [d] := by
  simp [onBehalf]

theorem Deed.onBehalf_concat_of_ne (ds : List Deed) {d : Deed} {i : Nat} (h : d.caller ≠ i) :
    onBehalf (ds ++ [d]) i = onBehalf ds i := by
  simp [onBehalf, h]

/-- Whether deeds stand in turns: those who have begun, each once, one after the other, and whoever is
inside is the last one. -/
structure Turns (turns : List Nat) (ds : List Deed) (c : Crowd) : Prop where
  nodup : turns.Nodup
  grouped : ds = turns.flatMap (Deed.onBehalf ds)
  begun : ∀ i, i ∈ turns ↔ c.Is Job.hasBegun i
  last : ∀ i, c.Is Job.isInside i → turns.getLast? = some i

/-- Whose turn has not come has done nothing. -/
theorem Turns.onBehalf_eq_nil {turns : List Nat} {ds : List Deed} {c : Crowd} (h : Turns turns ds c)
    {i : Nat} (hi : i ∉ turns) : Deed.onBehalf ds i = [] := by
  rw [Deed.onBehalf, List.filter_eq_nil_iff]
  intro d hd hcaller
  rw [h.grouped] at hd
  obtain ⟨k, hk, hdk⟩ := List.mem_flatMap.mp hd
  have hdk := (List.mem_filter.mp hdk).2
  simp only [decide_eq_true_eq] at hcaller hdk
  exact hi (hcaller ▸ hdk ▸ hk)

/-- The one whose turn it is does something. -/
theorem grouped_concat {turns : List Nat} {ds : List Deed} {d : Deed}
    (hnodup : (turns ++ [d.caller]).Nodup)
    (h : ds = (turns ++ [d.caller]).flatMap (Deed.onBehalf ds)) :
    ds ++ [d] = (turns ++ [d.caller]).flatMap (Deed.onBehalf (ds ++ [d])) := by
  have hothers : turns.flatMap (Deed.onBehalf (ds ++ [d])) = turns.flatMap (Deed.onBehalf ds) := by
    refine List.flatMap_congr fun k hk ↦ Deed.onBehalf_concat_of_ne ds ?_
    rintro rfl
    exact (List.nodup_append.mp hnodup).2.2 _ hk _ (List.mem_singleton_self _) rfl
  rw [List.flatMap_append, List.flatMap_singleton] at h ⊢
  rw [hothers, Deed.onBehalf_concat_self, ← List.append_assoc, ← h]

/-- The turn of a request comes while the injector is free, so that nobody else is inside. -/
theorem Turns.next {turns : List Nat} {ds : List Deed} {c c' : Crowd} (h : Turns turns ds c)
    (hx : c.Exclusive) (ht : c.engine.taken = false) {k : Nat} {j j' : Job}
    (hk : c.job? k = some j) (hw : j.isWanting = true)
    (hjob : c'.job? = Function.update c.job? k (some j')) (hin : j'.isInside = true) :
    Turns (turns ++ [k]) ds c' := by
  have hnot : k ∉ turns := by
    rw [h.begun, is_iff hk, Job.hasBegun_of_isWanting hw]
    exact Bool.false_ne_true
  constructor
  · rw [← List.concat_eq_append]
    exact h.nodup.concat hnot
  · rw [List.flatMap_append, List.flatMap_singleton, h.onBehalf_eq_nil hnot, List.append_nil]
    exact h.grouped
  · intro i
    rw [List.mem_append, List.mem_singleton, h.begun, is_update hjob]
    by_cases hik : i = k
    · simp [hik, Job.hasBegun_of_isInside hin]
    · simp [hik]
  · intro i hi
    rw [is_update hjob] at hi
    by_cases hik : i = k
    · rw [hik, List.getLast?_concat]
    · rw [if_neg hik] at hi
      exact (hx.not_inside ht i hi).elim

/-- The turns stay as they are while a request neither begins nor goes back in. -/
theorem Turns.stay {turns : List Nat} {ds : List Deed} {c c' : Crowd} (h : Turns turns ds c)
    {k : Nat} {j j' : Job} (hk : c.job? k = some j)
    (hjob : c'.job? = Function.update c.job? k (some j')) (hbegun : j'.hasBegun = j.hasBegun)
    (hin : j'.isInside = true → j.isInside = true) : Turns turns ds c' where
  nodup := h.nodup
  grouped := h.grouped
  begun := by
    intro i
    rw [h.begun, is_update hjob]
    by_cases hik : i = k
    · rw [if_pos hik, hik, is_iff hk, hbegun]
    · rw [if_neg hik]
  last := by
    intro i hi
    apply h.last
    rw [is_update hjob] at hi
    by_cases hik : i = k
    · rw [if_pos hik] at hi
      rw [hik, is_iff hk]
      exact hin hi
    · rwa [if_neg hik] at hi

/-- The one who is inside does something. -/
theorem Turns.concat {turns : List Nat} {ds : List Deed} {c : Crowd} (h : Turns turns ds c)
    {d : Deed} (hd : c.Is Job.isInside d.caller) : Turns turns (ds ++ [d]) c where
  nodup := h.nodup
  begun := h.begun
  last := h.last
  grouped := by
    obtain ⟨before, hbefore⟩ := List.getLast?_eq_some_iff.mp (h.last _ hd)
    have hnodup := h.nodup
    have hgrouped := h.grouped
    rw [hbefore] at hnodup hgrouped ⊢
    exact grouped_concat hnodup hgrouped

/-- Every move leaves the deeds in turns. -/
theorem Turns.moves {turns : List Nat} {ds new : List Deed} {c c' : Crowd} (h : Turns turns ds c)
    (hx : c.Exclusive) (hm : Moves c c' new) : ∃ turns', Turns turns' (ds ++ new) c' := by
  cases hm with
  | aside hjob _ =>
    rw [List.append_nil]
    exact ⟨turns, h.nodup, h.grouped, fun i ↦ (h.begun i).trans (is_congr hjob _ i).symm,
      fun i hi ↦ h.last i ((is_congr hjob _ i).mp hi)⟩
  | @comes k j hk hs hjob _ =>
    rw [List.append_nil]
    refine ⟨turns, h.nodup, h.grouped, fun i ↦ ?_, fun i hi ↦ ?_⟩
    · rw [h.begun, is_update hjob]
      by_cases hik : i = k
      · subst hik
        simp [not_is hk, Job.hasBegun, hs]
      · rw [if_neg hik]
    · rw [is_update hjob] at hi
      split at hi
      · simp [Job.isInside, hs] at hi
      · exact h.last i hi
  | @advances k j trusted hk hjob _ =>
    rw [List.append_nil]
    obtain ⟨hw, ht, hin⟩ | ⟨hbegun, hin⟩ :=
      Job.begins_advance (hx.isProper hk) trusted c.engine
    · exact ⟨turns ++ [k], h.next hx ht hk hw hjob hin⟩
    · exact ⟨turns, h.stay hk hjob hbegun hin⟩
  | @answered k j call r hk hp hjob _ =>
    have hin : j.isInside = true := Job.isInside_of_isPublished (Job.isPublished_of_pending? hp)
    have hin' : (j.answer r).isInside = true := (j.isInside_answer r).trans hin
    have hbegun : (j.answer r).hasBegun = j.hasBegun := by
      rw [Job.hasBegun_of_isInside hin, Job.hasBegun_of_isInside hin']
    have hstay := h.stay hk hjob hbegun fun _ ↦ hin
    refine ⟨turns, hstay.concat (d := ⟨k, call⟩) ?_⟩
    rw [is_update hjob, if_pos rfl]
    exact hin'

end Crowd

/-! ## What is done in a turn -/

/-- Only a sequence whose cancellation was seen ends as cancelled. -/
theorem Engine.looked_of_cancelled {e : Engine} {trusted : Bool} {s : Sequence}
    {is : List Incident} (h : (e.script trusted s).Ends is (.error .cancelled)) :
    .looked true ∈ is := by
  unfold Engine.script Injector.perform at h
  split at h
  · exact Keyboard.looked_of_cancelled h
  · obtain ⟨-, hr⟩ := Script.ends_pure.mp h
    cases hr

namespace Job

/-- Whether the request was brought down. -/
def isDown (j : Job) : Bool :=
  match j.stage with
  | .reported .crashed | .quiet .crashed | .finished .crashed => true
  | _ => false

theorem isDown_advance (trusted : Bool) (e : Engine) (j : Job) :
    (j.advance trusted e).2.isDown = j.isDown := by
  cases hs : j.stage with
  | wanting =>
    simp only [advance, hs]
    split
    · simp [isDown, hs]
    · split <;> simp [isDown, hs]
  | typing s => cases s <;> simp [advance, isDown, hs]
  | reported o => cases o <;> simp [advance, isDown, hs]
  | quiet o => cases o <;> simp [advance, isDown, hs]
  | _ => simp [advance, isDown, hs]

theorem isDown_answer (j : Job) (r : NativeReply) : (j.answer r).isDown = j.isDown := by
  unfold answer
  split
  · next hs => simp [isDown, hs]
  · rfl

/-- Whether a request has made these calls, by what its script makes happen: as far as it is, not
brought down, and if it has seen itself cancelled, its flag is raised. -/
def Did (e : Engine) (flags : Cancellation) (cs : List NativeCall) (j : Job) : Prop :=
  ∃ trusted is, j.stage.Came (e.script trusted j.sequence) is ∧ j.isDown = false ∧
    Incident.calls is = cs ∧ (.looked true ∈ is → flags.isCancelled j.token = true)

variable {e : Engine} {flags : Cancellation} {cs : List NativeCall} {j : Job}

theorem Did.mono (h : j.Did e flags cs) {flags' : Cancellation}
    (hflags : flags.isCancelled j.token = true → flags'.isCancelled j.token = true) :
    j.Did e flags' cs := by
  obtain ⟨trusted, is, hcame, hdown, hcalls, hlooked⟩ := h
  exact ⟨trusted, is, hcame, hdown, hcalls, fun hi ↦ hflags (hlooked hi)⟩

theorem did_wanting (e : Engine) (flags : Cancellation) (hs : j.stage = .wanting) :
    j.Did e flags [] :=
  ⟨false, [], by rw [hs]; exact rfl, by rw [isDown, hs], rfl, nofun⟩

/-- A step makes no call, and sees the flag as it is. -/
theorem Did.advance {e' : Engine} (h : j.Did e e'.flags cs) (ht : e'.TypesAs e) (trusted : Bool) :
    (j.advance trusted e').2.Did e e'.flags cs := by
  obtain ⟨trusted₀, is, hcame, hdown, hcalls, hlooked⟩ := h
  obtain ⟨hsequence, htoken⟩ := j.advance_frame trusted e'
  -- the script is made out with the trust of the step that publishes the token
  have hmade : ∃ t, j.stage.Came (e.script t j.sequence) is ∧
      (j.stage = .announced → e'.script trusted j.sequence = e.script t j.sequence) := by
    by_cases hs : j.stage = .announced
    · rw [hs] at hcame ⊢
      exact ⟨trusted, hcame, fun _ ↦ ht.script trusted j.sequence⟩
    · exact ⟨trusted₀, hcame, fun h ↦ (hs h).elim⟩
  obtain ⟨t, hcame, hp⟩ := hmade
  refine ⟨t, is ++ j.glimpse e', ?_, (j.isDown_advance trusted e').trans hdown, ?_, fun hi ↦ ?_⟩
  · rw [hsequence]
    exact came_advance hcame hp
  · have hglimpse : Incident.calls (j.glimpse e') = [] := by
      unfold glimpse
      split <;> rfl
    rw [Incident.calls_append, hglimpse, List.append_nil, hcalls]
  · rw [htoken]
    rcases List.mem_append.mp hi with hi | hi
    · exact hlooked hi
    · unfold glimpse at hi
      split at hi
      · simp only [List.mem_singleton, Incident.looked.injEq] at hi
        exact hi.symm
      · cases hi

/-- An answer is that to the pending call, which is made now. -/
theorem Did.answer (h : j.Did e flags cs) (r : NativeReply) :
    (j.answer r).Did e flags (cs ++ j.pending?.toList) := by
  obtain ⟨trusted, is, hcame, hdown, hcalls, hlooked⟩ := h
  obtain ⟨hsequence, htoken⟩ := j.answer_frame r
  refine ⟨trusted, is ++ j.hearing r, ?_, (j.isDown_answer r).trans hdown, ?_, fun hi ↦ ?_⟩
  · rw [hsequence]
    exact came_answer hcame r
  · rw [Incident.calls_append, hcalls, hearing]
    cases j.pending? <;> rfl
  · rw [htoken]
    apply hlooked
    rcases List.mem_append.mp hi with hi | hi
    · exact hi
    · unfold hearing at hi
      cases hp : j.pending? with
      | none =>
        rw [hp] at hi
        cases hi
      | some call =>
        rw [hp] at hi
        simp at hi

/-- Whether a request is over, and so ended its script while this happened, or else is inside its run,
and has come so far through its script. -/
def Fares (p : Script TypingResult) (is : List Incident) (j : Job) : Prop :=
  (∃ r, p.Ends is r ∧ j.outcome? = some (.returned (r.mapError .injection))) ∨
    j.isInside = true ∧ ∃ s, p.Leads is s

/-- A run that was begun is over, or on its way. -/
theorem fares_of_came {p : Script TypingResult} {is : List Incident} (h : j.stage.Came p is)
    (hdown : j.isDown = false) (hbegun : j.hasBegun = true) : j.Fares p is := by
  have hissues {o : Outcome} (ho : p.Issues is o) (hne : o ≠ .crashed) : ∃ s, p.Leads is s := by
    cases ho with
    | refused his => exact ⟨p, his ▸ .stays p⟩
    | ended hends => exact ⟨_, hends⟩
    | crashed => exact (hne rfl).elim
  unfold Fares isInside outcome?
  cases hs : j.stage with
  | wanting => simp [hasBegun, hs] at hbegun
  | entered =>
    rw [hs] at h
    obtain rfl : is = [] := h
    exact .inr ⟨rfl, p, .stays p⟩
  | announced =>
    rw [hs] at h
    obtain rfl : is = [] := h
    exact .inr ⟨rfl, p, .stays p⟩
  | reported o =>
    rw [hs] at h
    exact .inr ⟨rfl, hissues h (by rintro rfl; simp [isDown, hs] at hdown)⟩
  | quiet o =>
    rw [hs] at h
    exact .inr ⟨rfl, hissues h (by rintro rfl; simp [isDown, hs] at hdown)⟩
  | finished o =>
    rw [hs] at h
    cases h with
    | refused => simp [hasBegun, hs, Outcome.refused] at hbegun
    | ended hends => exact .inl ⟨_, hends, rfl⟩
    | crashed => simp [isDown, hs] at hdown
  | _ =>
    rw [hs] at h
    exact .inr ⟨rfl, _, h⟩

/-- A request that ends as cancelled has seen its flag raised. -/
theorem Did.isCancelled (h : j.Did e flags cs)
    (ho : j.outcome? = some (.returned (.error (.injection .cancelled)))) :
    flags.isCancelled j.token = true := by
  obtain ⟨trusted, is, hcame, -, -, hlooked⟩ := h
  apply hlooked
  unfold outcome? at ho
  split at ho
  · next o hs =>
    cases ho
    rw [hs] at hcame
    generalize hr : Outcome.returned (.error (.injection .cancelled)) = o at hcame
    cases hcame with
    | refused => cases hr
    | crashed => cases hr
    | @ended r hends =>
      have hcancelled : r = .error .cancelled := by
        cases r with
        | ok _ => cases hr
        | error fault =>
          cases hr
          rfl
      subst hcancelled
      exact Engine.looked_of_cancelled hends
  · cases ho

end Job

namespace Crowd

/-- Whether all requests have made the calls that are listed, by what their scripts make happen. -/
def Accounts (e : Engine) (ds : List Deed) (c : Crowd) : Prop :=
  ∀ i j, c.job? i = some j → j.Did e c.engine.flags ((Deed.onBehalf ds i).map Deed.call)

theorem Accounts.moves {e : Engine} {ds new : List Deed} {c c' : Crowd} (h : Accounts e ds c)
    (ht : c.engine.TypesAs e) {turns : List Nat} (hturns : Turns turns ds c)
    (hm : Moves c c' new) : Accounts e (ds ++ new) c' := by
  intro i j hj
  cases hm with
  | aside hjob hkeeps =>
    rw [List.append_nil]
    rw [hjob] at hj
    exact (h i j hj).mono (hkeeps.flags _)
  | @comes k j₀ hk hs hjob hkeeps =>
    rw [List.append_nil]
    rw [hjob, Function.update_apply] at hj
    split at hj
    · next hi =>
      cases hj
      have hnone : i ∉ turns := by
        rw [hturns.begun, hi]
        exact not_is hk _
      rw [hturns.onBehalf_eq_nil hnone]
      exact Job.did_wanting _ _ hs
    · exact (h i j hj).mono (hkeeps.flags _)
  | @advances k j₀ trusted hk hjob hengine =>
    have hflags : c'.engine.flags = c.engine.flags := by
      rw [hengine, Job.flags_advance]
    rw [List.append_nil, hflags]
    rw [hjob, Function.update_apply] at hj
    split at hj
    · next hi =>
      cases hj
      exact (h i j₀ (hi ▸ hk)).advance ht trusted
    · exact h i j hj
  | @answered k j₀ call r hk hp hjob hengine =>
    rw [hengine]
    rw [hjob, Function.update_apply] at hj
    split at hj
    · next hi =>
      subst hi
      cases hj
      have hdid := (h i j₀ hk).answer r
      rw [hp] at hdid
      have hself := Deed.onBehalf_concat_self ds ⟨i, call⟩
      rw [hself, List.map_append]
      exact hdid
    · next hi =>
      rw [Deed.onBehalf_concat_of_ne ds (Ne.symm hi)]
      exact h i j hj

end Crowd

end Typist

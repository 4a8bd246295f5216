import Typist.Proofs.Listener.Presses

/-!
# Typed keys at a hook

What a keyboard hook does with the messages of keys that programs type, among those of the keys that
are pressed. It lets them pass and forgets them, so that what it does with the others is what it
would do without them. And of the others it reports no key-down of its target until the target's key
has come up since the last that it reported.
-/

namespace Typist

namespace KeyMessage

/-- Whether a message is that the key of a code came up, and was not injected. -/
def IsRelease (m : KeyMessage) (code : KeyCode) : Prop := m.isUp = true ∧ m.IsPhysical code

instance (m : KeyMessage) (code : KeyCode) : Decidable (m.IsRelease code) :=
  inferInstanceAs (Decidable (_ ∧ _))

end KeyMessage

namespace HookContext

/-- A stream of messages, each with the verdict on it. -/
def course (c : HookContext) (ms : List (KeyMessage × Modifiers)) :
    List ((KeyMessage × Modifiers) × HookVerdict) :=
  ms.zip (c.callAll ms).2

theorem course_cons (c : HookContext) (m : KeyMessage × Modifiers)
    (ms : List (KeyMessage × Modifiers)) :
    c.course (m :: ms) = (m, (c.call m.1 m.2).2) :: (c.call m.1 m.2).1.course ms := rfl

/-- There is a verdict on every message. -/
theorem map_fst_course (c : HookContext) (ms : List (KeyMessage × Modifiers)) :
    (c.course ms).map Prod.fst = ms := by
  induction ms generalizing c with
  | nil => rfl
  | cons m ms ih => rw [course_cons, List.map_cons, ih]

/-! ## One message -/

/-- An injected message is let through, and leaves no trace. -/
theorem call_injected (c : HookContext) {m : KeyMessage} (h : m.injected = true)
    (held : Modifiers) : c.call m held = (c, ⟨false, []⟩) := by
  rw [call, h, Bool.not_true, Bool.and_false, if_neg Bool.false_ne_true]

/-- What a hook does with a message: it swallows a press of its target, which it reports unless it
knows of one, or its release, of which it forgets the press, or lets the message pass. -/
theorem call_cases (c : HookContext) (m : KeyMessage) (held : Modifiers) :
    c.call m held =
        ({ c with targetDown := true }, ⟨true, if c.targetDown then [] else [.triggered]⟩) ∨
      m.IsRelease c.target.code ∧ c.call m held = ({ c with targetDown := false }, ⟨true, []⟩) ∨
      c.call m held = (c, ⟨false, []⟩) := by
  unfold call handle
  split
  · next hphysical =>
    split
    · exact .inl rfl
    · split
      · next hrelease =>
        simp only [Bool.and_eq_true, decide_eq_true_eq, Bool.not_eq_true'] at hphysical hrelease
        exact .inr (.inl ⟨⟨hrelease.1.1, hrelease.1.2, hphysical.2, hphysical.1⟩, rfl⟩)
      · exact .inr (.inr rfl)
  · exact .inr (.inr rfl)

/-- At most one press is reported at a message. -/
theorem posted_call (c : HookContext) (m : KeyMessage) (held : Modifiers) :
    (c.call m held).2.posted = [] ∨ (c.call m held).2.posted = [.triggered] := by
  obtain h | ⟨-, h⟩ | h := c.call_cases m held
  · rw [h]
    cases c.targetDown with
    | false => exact .inr rfl
    | true => exact .inl rfl
  · rw [h]
    exact .inl rfl
  · rw [h]
    exact .inl rfl

/-- If one is, the hook knew of none, and knows of this one. -/
theorem targetDown_of_posted {c : HookContext} {m : KeyMessage} {held : Modifiers}
    (h : .triggered ∈ (c.call m held).2.posted) :
    c.targetDown = false ∧ (c.call m held).1.targetDown = true := by
  obtain hcall | ⟨-, hcall⟩ | hcall := c.call_cases m held
  · rw [hcall] at h ⊢
    cases hdown : c.targetDown with
    | false => exact ⟨rfl, rfl⟩
    | true =>
      rw [hdown] at h
      cases h
  · rw [hcall] at h
    cases h
  · rw [hcall] at h
    cases h

/-- Until the target's key comes up, the hook knows of its press. -/
theorem targetDown_call {c : HookContext} {m : KeyMessage} (hdown : c.targetDown = true)
    (h : ¬ m.IsRelease c.target.code) (held : Modifiers) :
    (c.call m held).1.targetDown = true := by
  obtain hcall | ⟨hrelease, -⟩ | hcall := c.call_cases m held
  · rw [hcall]
  · exact absurd hrelease h
  · rw [hcall]
    exact hdown

/-! ## Streams -/

variable {c : HookContext} {ms : List (KeyMessage × Modifiers)}

/-- A hook that knows of a press reports none until the target's key has come up. -/
theorem exists_release_of_posted (hdown : c.targetDown = true)
    {before after : List ((KeyMessage × Modifiers) × HookVerdict)} {m : KeyMessage × Modifiers}
    {v : HookVerdict} (h : c.course ms = before ++ (m, v) :: after)
    (hv : .triggered ∈ v.posted) : ∃ u ∈ before, u.1.1.IsRelease c.target.code := by
  induction ms generalizing c before with
  | nil => simp [course] at h
  | cons first ms ih =>
    rw [course_cons] at h
    cases before with
    | nil =>
      obtain ⟨hfirst, -⟩ := List.cons.inj h
      cases hfirst
      rw [(targetDown_of_posted hv).1] at hdown
      cases hdown
    | cons u before =>
      obtain ⟨rfl, hrest⟩ := List.cons.inj h
      by_cases hrelease : first.1.IsRelease c.target.code
      · exact ⟨_, List.mem_cons_self, hrelease⟩
      · obtain ⟨w, hw, hrelease⟩ := ih (targetDown_call hdown hrelease first.2) hrest
        rw [target_call] at hrelease
        exact ⟨w, List.mem_cons_of_mem _ hw, hrelease⟩

/-- Between two presses that are reported, the target's key comes up. -/
theorem exists_release_between
    {before between after : List ((KeyMessage × Modifiers) × HookVerdict)}
    {m m' : KeyMessage × Modifiers} {v v' : HookVerdict}
    (h : c.course ms = before ++ (m, v) :: (between ++ (m', v') :: after))
    (hv : .triggered ∈ v.posted) (hv' : .triggered ∈ v'.posted) :
    ∃ u ∈ between, u.1.1.IsRelease c.target.code := by
  induction ms generalizing c before with
  | nil => simp [course] at h
  | cons first ms ih =>
    rw [course_cons] at h
    cases before with
    | nil =>
      obtain ⟨hfirst, hrest⟩ := List.cons.inj h
      cases hfirst
      rw [← c.target_call]
      exact exists_release_of_posted (targetDown_of_posted hv).2 hrest hv'
    | cons u before =>
      obtain ⟨-, hrest⟩ := List.cons.inj h
      rw [← c.target_call first.1 first.2]
      exact ih hrest

/-- What a hook does with messages that were not injected is what it would do without the others. -/
theorem course_filter_injected (c : HookContext) (ms : List (KeyMessage × Modifiers)) :
    c.course (ms.filter fun m ↦ !m.1.injected) =
        (c.course ms).filter (fun x ↦ !x.1.1.injected) ∧
      (c.callAll (ms.filter fun m ↦ !m.1.injected)).1 = (c.callAll ms).1 := by
  induction ms generalizing c with
  | nil => exact ⟨rfl, rfl⟩
  | cons m ms ih =>
    obtain ⟨hcourse, hlast⟩ := ih (c.call m.1 m.2).1
    rw [course_cons]
    cases hm : m.1.injected with
    | false =>
      rw [List.filter_cons_of_pos (by simp [hm]), List.filter_cons_of_pos (by simp [hm]),
        course_cons, hcourse]
      exact ⟨rfl, hlast⟩
    | true =>
      rw [List.filter_cons_of_neg (by simp [hm]), List.filter_cons_of_neg (by simp [hm])]
      have hsame := congrArg Prod.fst (c.call_injected hm m.2)
      rw [hsame] at hcourse hlast ⊢
      refine ⟨hcourse, hlast.trans ?_⟩
      show _ = ((c.call m.1 m.2).1.callAll ms).1
      rw [hsame]

theorem forall_mem_course {P : (KeyMessage × Modifiers) × HookVerdict → Prop}
    (h : ∀ (c : HookContext) (m : KeyMessage × Modifiers), P (m, (c.call m.1 m.2).2))
    (c : HookContext) (ms : List (KeyMessage × Modifiers)) : ∀ x ∈ c.course ms, P x := by
  induction ms generalizing c with
  | nil => nofun
  | cons m ms ih => exact List.forall_mem_cons.mpr ⟨h c m, ih _⟩

/-- What a hook does with any stream of messages, of keys that are pressed and of keys that programs
type. It says something to each message, and reports one press at most. Between two that it reports,
the target's key comes up, and not by an injected message. Every injected message is let through,
and what is done with the others, and known in the end, is the same without them. -/
theorem one_report_per_press (t : Target) (ms : List (KeyMessage × Modifiers)) :
    let hook : HookContext := ⟨t, false⟩
    (hook.course ms).map Prod.fst = ms ∧
      (∀ x ∈ hook.course ms, x.2.posted = [] ∨ x.2.posted = [.triggered]) ∧
      (∀ before m v between m' v' after,
        hook.course ms = before ++ (m, v) :: (between ++ (m', v') :: after) →
        .triggered ∈ v.posted → .triggered ∈ v'.posted →
        ∃ u ∈ between, u.1.1.IsRelease t.code) ∧
      (∀ x ∈ hook.course ms, x.1.1.injected = true → x.2 = ⟨false, []⟩) ∧
      hook.course (ms.filter fun m ↦ !m.1.injected) =
        (hook.course ms).filter (fun x ↦ !x.1.1.injected) ∧
      (hook.callAll (ms.filter fun m ↦ !m.1.injected)).1 = (hook.callAll ms).1 := by
  intro hook
  refine ⟨hook.map_fst_course ms, ?_, ?_, ?_, hook.course_filter_injected ms⟩
  · exact forall_mem_course (fun c m ↦ c.posted_call m.1 m.2) hook ms
  · intro before m v between m' v' after h hv hv'
    exact exists_release_between h hv hv'
  · refine forall_mem_course (fun c m hm ↦ ?_) hook ms
    exact congrArg Prod.snd (c.call_injected hm m.2)

end HookContext

/-- A is pressed with Control and Alt, typed by a program, repeated, let go and pressed again. -/
def KeyMessage.typedBetween : List (KeyMessage × Modifiers) :=
  let held : Modifiers := { control := true, alt := true }
  [(⟨0x41, 256, false, true⟩, held), (⟨0x41, 256, true, true⟩, held),
    (⟨0x41, 257, true, true⟩, held), (⟨0x41, 256, false, true⟩, held),
    (⟨0x41, 257, false, true⟩, held), (⟨0x41, 256, false, true⟩, held)]

/-- Both presses are reported, and what is typed between them neither repeats nor ends the first. -/
theorem HookContext.one_report_per_press_of_typed :
    let hook : HookContext := ⟨⟨0x41, { control := true, alt := true }⟩, false⟩
    (hook.callAll KeyMessage.typedBetween).2.map HookVerdict.posted =
        [[.triggered], [], [], [], [], [.triggered]] ∧
      (∃ u ∈ ((hook.course KeyMessage.typedBetween).drop 1).take 4, u.1.1.IsRelease 0x41) ∧
      hook.course (KeyMessage.typedBetween.filter fun m ↦ !m.1.injected) =
        (hook.course KeyMessage.typedBetween).filter (fun x ↦ !x.1.1.injected) := by
  intro hook
  obtain ⟨-, -, hbetween, -, hpurged, -⟩ :=
    one_report_per_press ⟨0x41, { control := true, alt := true }⟩ KeyMessage.typedBetween
  refine ⟨by decide, ?_, hpurged⟩
  exact hbetween [] _ _ _ _ _ [] rfl (by decide) (by decide)

end Typist

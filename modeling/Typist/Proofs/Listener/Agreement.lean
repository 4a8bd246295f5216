import Mathlib.Data.List.Basic
import Mathlib.Logic.Equiv.Basic
import Typist.Listener.EventTap
import Typist.Proofs.Listener.Presses

/-!
# Two listeners at one keyboard

What an event tap and a keyboard hook with the same target report of the same strokes. A tap goes by
the repeat mark of a key-down, which the system sets while the key is down; a hook goes by the
key-downs that it has taken for its target since the key last came up. So they report the same
key-downs exactly if no press of the target's key comes under the target's modifiers late, after it
began under others.
-/

namespace Typist

/-- One half of a press of a key, with the modifiers that are held at that moment. -/
structure KeyStroke where
  code : KeyCode
  down : Bool
  held : Modifiers
  deriving DecidableEq, Repr

/-- Whether a stroke is a key-down of the target's key under the target's modifiers. -/
def Target.IsHitBy (t : Target) (s : KeyStroke) : Prop :=
  s.down = true ∧ t.accepts s.code s.held = true

/-- Whether a stroke lets the target's key come up. -/
def Target.IsLiftedBy (t : Target) (s : KeyStroke) : Prop :=
  s.down = false ∧ s.code = t.code

theorem Target.IsHitBy.code {t : Target} {s : KeyStroke} (h : t.IsHitBy s) : s.code = t.code := by
  rw [(t.accepts_iff s.code s.held).mp h.2]

instance (t : Target) (s : KeyStroke) : Decidable (t.IsHitBy s) :=
  inferInstanceAs (Decidable (_ ∧ _))

instance (t : Target) (s : KeyStroke) : Decidable (t.IsLiftedBy s) :=
  inferInstanceAs (Decidable (_ ∧ _))

/-- The keys that are down after a stroke. -/
def KeyStroke.after (keys : KeyCode → Bool) (s : KeyStroke) : KeyCode → Bool :=
  Function.update keys s.code s.down

/-- The keys that are down after strokes. -/
def KeyStroke.afterAll (keys : KeyCode → Bool) (ss : List KeyStroke) : KeyCode → Bool :=
  ss.foldl KeyStroke.after keys

/-! ## How listeners see strokes -/

/-- The codes that the systems of a tap and of a hook have for the keys of one keyboard. -/
structure KeyNaming where
  tap : KeyCode → KeyCode
  hook : KeyCode → KeyCode
  tap_injective : Function.Injective tap
  hook_injective : Function.Injective hook

/-- A target by the codes of the tap's system. -/
def KeyNaming.tapTarget (names : KeyNaming) (t : Target) : Target := ⟨names.tap t.code, t.modifiers⟩

/-- A target by the codes of the hook's system. -/
def KeyNaming.hookTarget (names : KeyNaming) (t : Target) : Target :=
  ⟨names.hook t.code, t.modifiers⟩

@[simp]
theorem KeyNaming.tapTarget_accepts (names : KeyNaming) (t : Target) (code : KeyCode)
    (held : Modifiers) : (names.tapTarget t).accepts (names.tap code) held = t.accepts code held :=
  congrArg (· && _) (decide_eq_decide.mpr names.tap_injective.eq_iff)

@[simp]
theorem KeyNaming.hookTarget_accepts (names : KeyNaming) (t : Target) (code : KeyCode)
    (held : Modifiers) :
    (names.hookTarget t).accepts (names.hook code) held = t.accepts code held :=
  congrArg (· && _) (decide_eq_decide.mpr names.hook_injective.eq_iff)

/-- Whether an event at a tap is a stroke of the keyboard. A key-down is marked as a repeated one
exactly if its key is down already; event flags may show more than modifiers. -/
structure TapEvent.IsStroke (names : KeyNaming) (e : TapEvent) (keys : KeyCode → Bool)
    (s : KeyStroke) : Prop where
  type : e.type = if s.down then .keyDown else .keyUp
  code : e.code = names.tap s.code
  held : EventTap.heldModifiers e.flags = s.held
  own : e.own = false
  autorepeat : s.down = true → (e.autorepeat ≠ 0 ↔ keys s.code = true)

/-- Whether a message to a hook, under the modifiers that it finds held, is a stroke of the
keyboard. -/
structure KeyMessage.IsStroke (names : KeyNaming) (m : KeyMessage × Modifiers) (s : KeyStroke) :
    Prop where
  down : m.1.isDown = s.down
  up : m.1.isUp = !s.down
  code : m.1.code = names.hook s.code
  held : m.2 = s.held
  injected : m.1.injected = false
  actionable : m.1.actionable = true

/-- Whether events at a tap and messages to a hook are the strokes of one keyboard, on which some
keys were down before. -/
inductive AreStrokes (names : KeyNaming) : (KeyCode → Bool) → List KeyStroke → List TapEvent →
    List (KeyMessage × Modifiers) → Prop
  | nil {keys : KeyCode → Bool} : AreStrokes names keys [] [] []
  | cons {keys : KeyCode → Bool} {s : KeyStroke} {e : TapEvent} {m : KeyMessage × Modifiers}
      {ss : List KeyStroke} {es : List TapEvent} {ms : List (KeyMessage × Modifiers)} :
      e.IsStroke names keys s → KeyMessage.IsStroke names m s →
      AreStrokes names (s.after keys) ss es ms →
      AreStrokes names keys (s :: ss) (e :: es) (m :: ms)

/-- What a tap posts at each event. -/
def EventTap.postings (tap : EventTap) : List TapEvent → List (List Notice)
  | [] => []
  | e :: es => (tap.handle e).2.2 :: (tap.handle e).1.postings es

/-- What a hook posts at each message. -/
def HookContext.postings (c : HookContext) (ms : List (KeyMessage × Modifiers)) :
    List (List Notice) :=
  (c.callAll ms).2.map HookVerdict.posted

theorem HookContext.postings_cons (c : HookContext) (m : KeyMessage × Modifiers)
    (ms : List (KeyMessage × Modifiers)) :
    c.postings (m :: ms) = (c.call m.1 m.2).2.posted :: (c.call m.1 m.2).1.postings ms := rfl

/-! ## Presses that come late -/

namespace Target

/-- Whether the target was hit, and its key has not come up since. -/
def WasHit (t : Target) (ss : List KeyStroke) : Prop :=
  ∃ before s after, ss = before ++ s :: after ∧ t.IsHitBy s ∧ ∀ u ∈ after, ¬ t.IsLiftedBy u

/-- Whether a press of the target's key comes under the target's modifiers late: a key-down hits the
target while the key is down already, and none has since the key last came up. -/
def IsHitLate (t : Target) (keys : KeyCode → Bool) (ss : List KeyStroke) : Prop :=
  ∃ before s after, ss = before ++ s :: after ∧ t.IsHitBy s ∧
    KeyStroke.afterAll keys before t.code = true ∧ ¬ t.WasHit before

theorem not_wasHit_nil (t : Target) : ¬ t.WasHit [] := by
  rintro ⟨before, s, after, h, -⟩
  simp at h

theorem wasHit_cons {t : Target} {s : KeyStroke} {ss : List KeyStroke} :
    t.WasHit (s :: ss) ↔ t.WasHit ss ∨ t.IsHitBy s ∧ ∀ u ∈ ss, ¬ t.IsLiftedBy u := by
  constructor
  · rintro ⟨before, s', after, h, hhit, hafter⟩
    cases before with
    | nil =>
      obtain ⟨rfl, rfl⟩ := List.cons.inj h
      exact .inr ⟨hhit, hafter⟩
    | cons b before =>
      obtain ⟨rfl, rfl⟩ := List.cons.inj h
      exact .inl ⟨before, s', after, rfl, hhit, hafter⟩
  · rintro (⟨before, s', after, rfl, hhit, hafter⟩ | ⟨hhit, hafter⟩)
    · exact ⟨s :: before, s', after, rfl, hhit, hafter⟩
    · exact ⟨[], s, ss, rfl, hhit, hafter⟩

end Target

/-! ## One stroke -/

section Stroke

variable {names : KeyNaming} {t : Target} {s : KeyStroke}

/-- A tap goes on as it was, and posts at the first key-down of a press if that hits its target. -/
theorem TapEvent.IsStroke.handle {keys : KeyCode → Bool} {e : TapEvent}
    (h : e.IsStroke names keys s) :
    ((⟨names.tapTarget t, true⟩ : EventTap).handle e).1 = ⟨names.tapTarget t, true⟩ ∧
      ((⟨names.tapTarget t, true⟩ : EventTap).handle e).2.2 =
        if t.IsHitBy s ∧ keys t.code = false then [.triggered] else [] := by
  cases hdown : s.down with
  | false =>
    have htype : e.type = .keyUp := by rw [h.type, hdown]; rfl
    have hmiss : ¬ t.IsHitBy s := fun hhit ↦ by simp [hhit.1] at hdown
    simp [EventTap.handle, htype, hmiss]
  | true =>
    have htype : e.type = .keyDown := by rw [h.type, hdown]; rfl
    have hrepeat := h.autorepeat hdown
    cases hacc : t.accepts s.code s.held with
    | false =>
      have hmiss : ¬ t.IsHitBy s := fun hhit ↦ by simp [hhit.2] at hacc
      simp [EventTap.handle, EventTap.classify, htype, h.own, h.code, h.held, hacc, hmiss]
    | true =>
      have hhit : t.IsHitBy s := ⟨hdown, hacc⟩
      rw [hhit.code] at hrepeat
      by_cases hkeys : keys t.code = true
      · simp [EventTap.handle, EventTap.classify, htype, h.own, h.code, h.held, hacc, hkeys,
          hrepeat.mpr hkeys]
      · have hfirst : e.autorepeat = 0 := by
          by_contra hne
          exact hkeys (hrepeat.mp hne)
        simp [EventTap.handle, EventTap.classify, htype, h.own, h.code, h.held, hacc, hkeys,
          hfirst, hhit]

/-- A hook posts at a key-down that hits its target if it knows of none before, and it knows of one
until the key comes up. -/
theorem KeyMessage.IsStroke.call {m : KeyMessage × Modifiers}
    (h : KeyMessage.IsStroke names m s) (d : Bool) :
    (HookContext.call ⟨names.hookTarget t, d⟩ m.1 m.2).1 =
        ⟨names.hookTarget t, decide (t.IsHitBy s ∨ d = true ∧ ¬ t.IsLiftedBy s)⟩ ∧
      (HookContext.call ⟨names.hookTarget t, d⟩ m.1 m.2).2.posted =
        if t.IsHitBy s ∧ d = false then [.triggered] else [] := by
  have hpass : (m.1.actionable && !m.1.injected) = true := by simp [h.actionable, h.injected]
  rw [HookContext.call, if_pos hpass, HookContext.handle, h.down, h.up, h.code, h.held]
  cases hdown : s.down with
  | false =>
    have hmiss : ¬ t.IsHitBy s := fun hhit ↦ by simp [hhit.1] at hdown
    have hlift : t.IsLiftedBy s ↔ s.code = t.code := by simp [Target.IsLiftedBy, hdown]
    have hcode :
        decide (names.hook s.code = (names.hookTarget t).code) = decide (s.code = t.code) :=
      decide_eq_decide.mpr names.hook_injective.eq_iff
    rw [hcode]
    by_cases hcode : s.code = t.code <;> cases d <;> simp [hmiss, hlift, hcode]
  | true =>
    have hlift : ¬ t.IsLiftedBy s := fun hlift ↦ by simp [hlift.1] at hdown
    have hhit : t.IsHitBy s ↔ t.accepts s.code s.held = true := by simp [Target.IsHitBy, hdown]
    cases hacc : t.accepts s.code s.held <;> cases d <;> simp [hhit, hlift, hacc]

end Stroke

/-! ## Streams -/

section Streams

variable {names : KeyNaming} {t : Target} {keys : KeyCode → Bool}
  {before after : List KeyStroke} {s : KeyStroke} {es : List TapEvent}
  {ms : List (KeyMessage × Modifiers)}

/-- Both post at every stroke, if only nothing. -/
theorem AreStrokes.length_postings {ss : List KeyStroke} (h : AreStrokes names keys ss es ms)
    (d : Bool) :
    ((⟨names.tapTarget t, true⟩ : EventTap).postings es).length = ss.length ∧
      ((⟨names.hookTarget t, d⟩ : HookContext).postings ms).length = ss.length := by
  induction h generalizing d with
  | nil => exact ⟨rfl, rfl⟩
  | @cons _ s _ _ _ _ _ he hm _ ih =>
    obtain ⟨htap, hhook⟩ := ih (decide (t.IsHitBy s ∨ d = true ∧ ¬ t.IsLiftedBy s))
    rw [EventTap.postings, he.handle.1, HookContext.postings_cons, (hm.call d).1]
    exact ⟨congrArg (· + 1) htap, congrArg (· + 1) hhook⟩

/-- A tap posts at a key-down that hits its target, unless the key is down already. -/
theorem AreStrokes.postings_tap (h : AreStrokes names keys (before ++ s :: after) es ms) :
    ((⟨names.tapTarget t, true⟩ : EventTap).postings es)[before.length]? =
      some (if t.IsHitBy s ∧ KeyStroke.afterAll keys before t.code = false
        then [.triggered] else []) := by
  induction before generalizing keys es ms with
  | nil =>
    cases h with
    | cons he _ _ => exact congrArg some he.handle.2
  | cons b before ih =>
    cases h with
    | cons he _ h =>
      rw [EventTap.postings, he.handle.1, List.length_cons, List.getElem?_cons_succ]
      exact ih h

/-- A hook posts at a key-down that hits its target, unless it knows that the target was hit and its
key has not come up since. -/
theorem AreStrokes.postings_hook (h : AreStrokes names keys (before ++ s :: after) es ms)
    (d : Bool) :
    ∃ known, (known = true ↔ t.WasHit before ∨ d = true ∧ ∀ u ∈ before, ¬ t.IsLiftedBy u) ∧
      ((⟨names.hookTarget t, d⟩ : HookContext).postings ms)[before.length]? =
        some (if t.IsHitBy s ∧ known = false then [.triggered] else []) := by
  induction before generalizing keys es ms d with
  | nil =>
    cases h with
    | cons _ hm _ =>
      refine ⟨d, by simp [t.not_wasHit_nil], ?_⟩
      exact congrArg some (hm.call d).2
  | cons b before ih =>
    cases h with
    | cons _ hm h =>
      obtain ⟨known, hknown, hposts⟩ := ih h (decide (t.IsHitBy b ∨ d = true ∧ ¬ t.IsLiftedBy b))
      refine ⟨known, ?_, ?_⟩
      · rw [hknown, Target.wasHit_cons, List.forall_mem_cons, decide_eq_true_iff]
        tauto
      · rw [HookContext.postings_cons, (hm.call d).1, List.length_cons, List.getElem?_cons_succ]
        exact hposts

/-- A key that is down stays down while no stroke lets it come up. -/
theorem KeyStroke.afterAll_of_not_lifted (hdown : keys t.code = true)
    (h : ∀ u ∈ after, ¬ t.IsLiftedBy u) : KeyStroke.afterAll keys after t.code = true := by
  induction after generalizing keys with
  | nil => exact hdown
  | cons u after ih =>
    obtain ⟨hu, h⟩ := List.forall_mem_cons.mp h
    refine ih ?_ h
    by_cases hcode : u.code = t.code
    · cases hd : u.down with
      | false => exact absurd ⟨hd, hcode⟩ hu
      | true => rw [KeyStroke.after, hcode, hd, Function.update_self]
    · rw [KeyStroke.after, Function.update_of_ne (Ne.symm hcode), hdown]

/-- A key-down that hits the target puts its key down, where it stays until it comes up. -/
theorem Target.WasHit.isDown (h : t.WasHit before) :
    KeyStroke.afterAll keys before t.code = true := by
  obtain ⟨earlier, s, later, rfl, hhit, hlater⟩ := h
  rw [KeyStroke.afterAll, List.foldl_append, List.foldl_cons]
  refine KeyStroke.afterAll_of_not_lifted ?_ hlater
  rw [KeyStroke.after, hhit.code, hhit.1, Function.update_self]

/-- At any one stroke, a tap and a hook that knows of no key-down post the same unless a press comes
late by it. -/
theorem AreStrokes.postings_agree_iff (h : AreStrokes names keys (before ++ s :: after) es ms) :
    ((⟨names.tapTarget t, true⟩ : EventTap).postings es)[before.length]? =
        ((⟨names.hookTarget t, false⟩ : HookContext).postings ms)[before.length]? ↔
      ¬ (t.IsHitBy s ∧ KeyStroke.afterAll keys before t.code = true ∧ ¬ t.WasHit before) := by
  obtain ⟨known, hknown, hhook⟩ := h.postings_hook (t := t) false
  have hknown : known = true ↔ t.WasHit before := by simpa using hknown
  rw [h.postings_tap, hhook, ← hknown]
  have hdown : known = true → KeyStroke.afterAll keys before t.code = true :=
    fun hk ↦ (hknown.mp hk).isDown
  by_cases hhit : t.IsHitBy s <;> cases known <;>
    cases hkeys : KeyStroke.afterAll keys before t.code <;> simp_all

end Streams

/-- On the strokes of one keyboard, a tap and a hook with the same target post at the same strokes
exactly if no press of the target's key comes under the target's modifiers late. At a key-down that
is repeated a tap never posts, and a hook does exactly if a press comes late by it. -/
theorem postings_eq_iff {names : KeyNaming} {t : Target} {keys : KeyCode → Bool}
    {ss : List KeyStroke} {es : List TapEvent} {ms : List (KeyMessage × Modifiers)}
    (h : AreStrokes names keys ss es ms) :
    ((⟨names.tapTarget t, true⟩ : EventTap).postings es =
        (⟨names.hookTarget t, false⟩ : HookContext).postings ms ↔
      ¬ t.IsHitLate keys ss) ∧
    ∀ before s after, ss = before ++ s :: after → s.down = true →
      KeyStroke.afterAll keys before s.code = true →
      ((⟨names.tapTarget t, true⟩ : EventTap).postings es)[before.length]? = some [] ∧
      (((⟨names.hookTarget t, false⟩ : HookContext).postings ms)[before.length]? =
          some [.triggered] ↔
        t.IsHitBy s ∧ ¬ t.WasHit before) := by
  obtain ⟨htap, hhook⟩ := h.length_postings (t := t) false
  refine ⟨⟨?_, fun hlate ↦ ?_⟩, ?_⟩
  · rintro heq ⟨before, s, after, rfl, hlate⟩
    exact h.postings_agree_iff.mp (congrArg (·[before.length]?) heq) hlate
  · refine List.ext_getElem? fun i ↦ ?_
    rcases Nat.lt_or_ge i ss.length with hi | hi
    · -- the stroke at the place is the one after those before it
      obtain ⟨before, s, after, rfl, rfl⟩ : ∃ before s after,
          ss = before ++ s :: after ∧ before.length = i :=
        ⟨ss.take i, ss[i], ss.drop (i + 1), by simp, by simp; omega⟩
      exact h.postings_agree_iff.mpr fun hs ↦ hlate ⟨before, s, after, rfl, hs⟩
    · rw [List.getElem?_eq_none (by omega), List.getElem?_eq_none (by omega)]
  · rintro before s after rfl - hrepeat
    obtain ⟨known, hknown, hposts⟩ := h.postings_hook (t := t) false
    have hknown : known = true ↔ t.WasHit before := by simpa using hknown
    rw [h.postings_tap, hposts, ← hknown]
    by_cases hhit : t.IsHitBy s
    · rw [hhit.code] at hrepeat
      cases known <;> simp [hhit, hrepeat]
    · simp [hhit]

/-- The code of A is 0 for a tap and 65 for a hook. -/
def KeyNaming.ofA : KeyNaming where
  tap := Equiv.swap 0x41 0
  hook := id
  tap_injective := Equiv.injective _
  hook_injective := Function.injective_id

/-- A is pressed with nothing held, and Control and Alt are put down while it repeats. -/
def KeyStroke.joined : List KeyStroke :=
  [⟨0x41, true, {}⟩, ⟨0x41, true, { control := true, alt := true }⟩,
    ⟨0x41, false, { control := true, alt := true }⟩]

/-- The press as a tap sees it; a hook sees the messages of `Press.joined`. -/
def TapEvent.joined : List TapEvent :=
  [⟨.keyDown, 0, 0, false, 0⟩, ⟨.keyDown, 0, 0xC0000, false, 1⟩, ⟨.keyUp, 0, 0xC0000, false, 0⟩]

theorem areStrokes_joined :
    AreStrokes .ofA (fun _ ↦ false) KeyStroke.joined TapEvent.joined Press.joined.messages :=
  .cons ⟨rfl, by decide, by decide, rfl, by decide⟩ ⟨rfl, rfl, rfl, rfl, rfl, rfl⟩ <|
    .cons ⟨rfl, by decide, by decide, rfl, by decide⟩ ⟨rfl, rfl, rfl, rfl, rfl, rfl⟩ <|
    .cons ⟨rfl, by decide, by decide, rfl, by decide⟩ ⟨rfl, rfl, rfl, rfl, rfl, rfl⟩ .nil

/-- If the target is A alone, the two agree on that press if it is not late, and the tap is silent
at the repeated key-down. -/
theorem postings_eq_iff_joined :
    ((⟨KeyNaming.ofA.tapTarget ⟨0x41, {}⟩, true⟩ : EventTap).postings TapEvent.joined =
        (⟨KeyNaming.ofA.hookTarget ⟨0x41, {}⟩, false⟩ : HookContext).postings
          Press.joined.messages ↔
      ¬ Target.IsHitLate ⟨0x41, {}⟩ (fun _ ↦ false) KeyStroke.joined) ∧
    ((⟨KeyNaming.ofA.tapTarget ⟨0x41, {}⟩, true⟩ : EventTap).postings TapEvent.joined)[1]? =
      some [] :=
  ⟨(postings_eq_iff areStrokes_joined).1,
    ((postings_eq_iff areStrokes_joined).2
      [⟨0x41, true, {}⟩] ⟨0x41, true, { control := true, alt := true }⟩ _ rfl rfl (by decide)).1⟩

/-- If the target is A with Control and Alt, the hook posts at the repeated key-down, and the tap
does not. -/
theorem postings_differ_joined :
    AreStrokes .ofA (fun _ ↦ false) KeyStroke.joined TapEvent.joined Press.joined.messages ∧
    (⟨KeyNaming.ofA.tapTarget ⟨0x41, { control := true, alt := true }⟩, true⟩ : EventTap).postings
      TapEvent.joined = [[], [], []] ∧
    (⟨KeyNaming.ofA.hookTarget ⟨0x41, { control := true, alt := true }⟩, false⟩ :
      HookContext).postings Press.joined.messages = [[], [.triggered], []] :=
  ⟨areStrokes_joined, by decide, by decide⟩

end Typist

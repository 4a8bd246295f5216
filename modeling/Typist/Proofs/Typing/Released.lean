import Mathlib
import Typist.Proofs.Typing.Held
import Typist.Proofs.Typing.Keyboard

/-!
# Keys that are put down

An action can be one half of a key press. The modifiers are released behind the last action, the
other keys are not: a keyboard is left released exactly if every other key that was put down was
lifted by a later action, be it a release, a press of the same key or a text that strikes it.
-/

namespace Typist

open Incident

/-! ## What lifts a key -/

namespace Incident

/-- Whether no call is refused. -/
def Granted (is : List Incident) : Prop := ∀ c r, called c r ∈ is → r = .ok ()

theorem Granted.mono {is js : List Incident} (h : Granted js) (hsub : is ⊆ js) : Granted is :=
  fun c r hi ↦ h c r (hsub hi)

theorem Granted.releasing {is : List Incident} (h : Granted is) : Releasing is :=
  fun code r hi ↦ h (.key code false) r hi

/-- How many actions were begun: before each there was a look that saw no cancellation. -/
def begun (is : List Incident) : Nat :=
  is.countP fun
    | looked false => true
    | _ => false

theorem begun_append (is js : List Incident) : begun (is ++ js) = begun is + begun js :=
  List.countP_append

theorem begun_looked (is : List Incident) : begun (looked false :: is) = begun is + 1 :=
  List.countP_cons_of_pos rfl

/-- Nothing is begun where nobody looks. -/
theorem begun_of_blind {α : Type} {s t : Script α} (hs : s.Blind) {is : List Incident}
    (h : s.Leads is t) : begun is = 0 := by
  refine List.countP_eq_zero.mpr fun i hi ↦ ?_
  obtain ⟨c, r, rfl⟩ := hs.exists_called h i hi
  exact Bool.false_ne_true

end Incident

/-- Whether a character is typed with a named key. -/
def Key.types (k : Key) (c : Char) : Bool :=
  Layout.controlKey? c == some k || (k == .space && c == ' ')

/-- Whether an action leaves a key up that may have been down. -/
def Action.lifts (k : Key) : Action → Bool
  | .text s => s.toList.any k.types
  | .press k' => k' == k
  | .up k' => k' == k
  | _ => false

/-- Whether some action puts a key down, and no later one lifts it. -/
def Key.LeftDown (k : Key) (as : List Action) : Prop :=
  ∃ before after, as = before ++ .down k :: after ∧ ∀ a ∈ after, a.lifts k = false

theorem Key.leftDown_cons {k : Key} {a : Action} {as : List Action} :
    k.LeftDown (a :: as) ↔
      (a = .down k ∧ ∀ b ∈ as, b.lifts k = false) ∨ k.LeftDown as := by
  constructor
  · rintro ⟨before, after, has, hafter⟩
    cases before with
    | nil =>
      obtain ⟨rfl, rfl⟩ := List.cons.inj has
      exact .inl ⟨rfl, hafter⟩
    | cons b before =>
      obtain ⟨rfl, rfl⟩ := List.cons.inj has
      exact .inr ⟨before, after, rfl, hafter⟩
  · rintro (⟨rfl, hafter⟩ | ⟨before, after, rfl, hafter⟩)
    · exact ⟨[], as, rfl, hafter⟩
    · exact ⟨a :: before, after, rfl, hafter⟩

@[simp] theorem Key.not_leftDown_nil (k : Key) : ¬ k.LeftDown [] := by
  rintro ⟨before, after, h, -⟩
  simp at h

namespace Layout

/-- A regular layout on which the blank is typed with its key, which yields nothing else. -/
structure Blank (l : Layout) : Prop extends Regular l where
  struck : l.stroke? ' ' = (l.code? .space).map fun code ↦ ⟨code, false⟩
  shifted : (l.code? .space).bind (fun code ↦ l.char? ⟨code, true⟩) = some ' '

theorem blank_macAnsi : Blank macAnsi :=
  { regular_macAnsi with struck := by decide, shifted := by decide }

theorem blank_windowsUs : Blank windowsUs :=
  { regular_windowsUs with struck := by decide, shifted := by decide }

namespace Blank

variable {l : Layout} (hl : Blank l) {k : Key} {code : KeyCode} (hcode : l.code? k = some code)

include hl hcode

/-- A code leads back to its key. -/
theorem key?_of_code? : l.key? code = some k := by
  have h := hl.key?_code? k
  rwa [hcode] at h

/-- No two named keys share a code. -/
theorem code?_eq_iff {k' : Key} : l.code? k' = some code ↔ k' = k := by
  constructor
  · intro h'
    have h := hl.key?_of_code? h'
    rw [hl.key?_of_code? hcode] at h
    exact (Option.some.inj h).symm
  · rintro rfl
    exact hcode

/-- A character is typed with a named key if it is struck at the key's code. -/
theorem types_iff {c : Char} :
    k.types c = true ↔ ∃ s, l.stroke? c = some s ∧ s.code = code := by
  unfold Key.types
  simp only [Bool.or_eq_true, Bool.and_eq_true, beq_iff_eq]
  constructor
  · rintro (hc | ⟨rfl, rfl⟩)
    · refine ⟨⟨code, false⟩, ?_, rfl⟩
      simp only [stroke?, hc, hcode, Option.map_some]
    · refine ⟨⟨code, false⟩, ?_, rfl⟩
      rw [hl.struck, hcode, Option.map_some]
  · rintro ⟨s, hs, rfl⟩
    cases hc : controlKey? c with
    | some k' =>
      simp only [stroke?, hc, Option.map_eq_some_iff] at hs
      obtain ⟨code', hcode', rfl⟩ := hs
      exact .inl (congrArg some ((hl.code?_eq_iff hcode).mp hcode'))
    | none =>
      simp only [stroke?, hc] at hs
      obtain ⟨e, he, hes⟩ := mem_of_stroke? hs
      have hkey := hl.apart e he
      rw [hes, hl.key?_of_code? hcode] at hkey
      obtain rfl : k = .space := by simpa using hkey
      have hchar := char?_of_stroke? hl.nodup hs
      have hplain := hl.blank
      have hshifted := hl.shifted
      rw [hcode, Option.bind_some] at hplain hshifted
      refine .inr ⟨rfl, ?_⟩
      obtain ⟨code', shift⟩ := s
      cases shift with
      | false => exact Option.some.inj (hchar.symm.trans hplain)
      | true => exact Option.some.inj (hchar.symm.trans hshifted)

end Blank

end Layout

namespace Typing

open Layout

/-- What typing does to one key on a system that grants everything: it leaves the key as it is, or
up. It ends well. -/
def Passes (code : KeyCode) (lifts : Bool) (t : Typing Unit) : Prop :=
  ∀ is r, t.run.Ends is r → Granted is →
    r = .ok () ∧ ∀ h, code ∈ held h is ↔ code ∈ h ∧ lifts = false

variable {code : KeyCode}

theorem passes_pure : Passes code false (pure ()) := by
  intro is r hends _
  obtain ⟨rfl, rfl⟩ := Script.ends_pure.mp hends
  simp

theorem Passes.bind {t u : Typing Unit} {b b' : Bool} (ht : Passes code b t)
    (hu : Passes code b' u) : Passes code (b || b') (t >>= fun _ ↦ u) := by
  intro is r hends hg
  obtain ⟨e, hfail, -⟩ | ⟨_, is₁, is₂, rfl, hends₁, hends₂⟩ := ends_bind.mp hends
  · cases (ht _ _ hfail hg).1
  · obtain ⟨-, h₁⟩ := ht _ _ hends₁ (hg.mono (List.subset_append_left ..))
    obtain ⟨hr, h₂⟩ := hu _ _ hends₂ (hg.mono (List.subset_append_right ..))
    refine ⟨hr, fun h ↦ ?_⟩
    rw [held_append, h₂, h₁, Bool.or_eq_false_iff, and_assoc]

theorem passes_unicode (c : Char) : Passes code false (unicode c) := by
  intro is r hends _
  obtain ⟨reply, rfl, rfl⟩ := ends_unicode.mp hends
  simp [Incident.hold]

theorem passes_press (c : KeyCode) : Passes code (c == code) (press c) := by
  intro is r hends hg
  obtain ⟨reason, rfl, -⟩ | ⟨reply, rfl, rfl⟩ := ends_press.mp hends
  · cases hg _ _ List.mem_cons_self
  · obtain rfl := hg (.key c false) reply (by simp)
    refine ⟨rfl, fun h ↦ ?_⟩
    simp only [held_cons, held_nil, Incident.hold, Finset.mem_erase, Finset.mem_insert,
      beq_eq_false_iff_ne]
    tauto

theorem Passes.holding {c : KeyCode} (hc : code ≠ c) {body : Typing Unit} {b : Bool}
    (hbody : Passes code b body) : Passes code b (Typing.holding c body) := by
  intro is r hends hg
  obtain ⟨reason, rfl, -⟩ | ⟨js, r', reply, rfl, hjs, rfl⟩ := ends_holding hends
  · cases hg _ _ List.mem_cons_self
  · obtain rfl := hg (.key c false) reply (by simp)
    obtain ⟨rfl, hinside⟩ := hbody _ _ hjs (hg.mono
      (List.Subset.trans (List.subset_append_left ..) (List.subset_cons_self ..)))
    refine ⟨rfl, fun h ↦ ?_⟩
    simp only [held_cons, held_append, held_nil, Incident.hold, Finset.mem_erase, hinside,
      Finset.mem_insert]
    tauto

theorem passes_pause (ms : Nat) : Passes code false (ExceptT.lift (Script.pause ms)) := by
  intro is r hends _
  obtain ⟨_, hpause, rfl⟩ := ends_lift.mp hends
  obtain rfl := Script.ends_pause.mp hpause
  simp

variable {l : Layout} (hl : Blank l) {k : Key} (hk : k.isModifier = false)
  (hcode : l.code? k = some code)

include hl hk hcode

/-- A character lifts the key with which it is typed, and leaves every other key as it is. -/
theorem passes_char (c : Char) : Passes code (k.types c) (char l c) := by
  cases hs : l.stroke? c with
  | none =>
    have hnot : k.types c = false := by
      rw [Bool.eq_false_iff, Ne, hl.types_iff hcode]
      rintro ⟨s, hs', -⟩
      rw [hs] at hs'
      cases hs'
    rw [hnot]
    simp only [char, hs]
    exact passes_unicode c
  | some s =>
    have htypes : k.types c = (s.code == code) := by
      rw [Bool.eq_iff_iff, hl.types_iff hcode, hs, beq_iff_eq]
      simp
    rw [htypes]
    simp only [char, hs]
    split
    · exact passes_press s.code
    · next shift hshift =>
      -- Shift is a modifier, so it is not the key in question
      have hne : code ≠ shift := by
        rintro rfl
        have hcode' : l.code? .shift = some code := by
          cases h : s.shift with
          | false => simp [h] at hshift
          | true => simpa [h] using hshift
        obtain rfl := (hl.code?_eq_iff hcode).mp hcode'
        cases hk
      exact (passes_press s.code).holding hne

theorem passes_text (s : String) : Passes code (s.toList.any k.types) (text l s) := by
  have hchars (cs : List Char) : Passes code (cs.any k.types) (cs.forM (char l)) := by
    induction cs with
    | nil => exact passes_pure
    | cons c cs ih => exact (passes_char hl hk hcode c).bind ih
  have hbreak : k.types '\n' = k.types '\r' := by simp [Key.types, controlKey?]
  rw [← any_typedChars hbreak]
  exact hchars _

/-- After an action a key is down if the action put it down, or if it was down and the action did
not lift it. -/
theorem mem_held_action {a : Action} {is : List Incident} {r : TypingResult}
    (h : (action l a).run.Ends is r) (hg : Granted is) :
    r = .ok () ∧ ∀ hs, code ∈ held hs is ↔ a = .down k ∨ (code ∈ hs ∧ a.lifts k = false) := by
  have hpasses {b : Bool} (hp : Passes code b (action l a)) (hb : a.lifts k = b)
      (hne : a ≠ .down k) : r = .ok () ∧
        ∀ hs, code ∈ held hs is ↔ a = .down k ∨ (code ∈ hs ∧ a.lifts k = false) := by
    obtain ⟨hr, hheld⟩ := hp is r h hg
    refine ⟨hr, fun hs ↦ ?_⟩
    rw [hheld, hb]
    simp [hne]
  have hother {k' : Key} {c : KeyCode} (hc : l.code? k' = some c) : (k' == k) = (c == code) := by
    rw [Bool.eq_iff_iff, beq_iff_eq, beq_iff_eq, ← hl.code?_eq_iff hcode, hc, Option.some.injEq]
  cases a with
  | text s => exact hpasses (passes_text hl hk hcode s) rfl nofun
  | delay ms => exact hpasses (passes_pause ms.toNat) rfl nofun
  | press k' =>
    obtain ⟨c, hc, -⟩ := hl.exists_code k'
    refine hpasses (b := c == code) ?_ (hother hc) nofun
    rw [action, withKey, hc]
    exact passes_press c
  | up k' =>
    obtain ⟨c, hc, -⟩ := hl.exists_code k'
    rw [action, withKey, hc] at h
    obtain ⟨reply, rfl, rfl⟩ := ends_keyEvent.mp h
    obtain rfl := hg (.key c false) reply (by simp)
    refine ⟨rfl, fun hs ↦ ?_⟩
    rw [Action.lifts, hother hc]
    simp only [held_cons, held_nil, Incident.hold, Finset.mem_erase, beq_eq_false_iff_ne]
    tauto
  | down k' =>
    obtain ⟨c, hc, -⟩ := hl.exists_code k'
    rw [action, withKey, hc] at h
    obtain ⟨reply, rfl, rfl⟩ := ends_keyEvent.mp h
    obtain rfl := hg (.key c true) reply (by simp)
    refine ⟨rfl, fun hs ↦ ?_⟩
    have hdown : Action.down k' = .down k ↔ code = c := by
      rw [Action.down.injEq, ← beq_iff_eq, hother hc, beq_iff_eq, eq_comm]
    simp only [held_cons, held_nil, Incident.hold, Finset.mem_insert, hdown, Action.lifts,
      and_true]

/-- After the course of actions a key is down if one that was begun left it down, or if it was down
before and none lifted it. -/
theorem Carries.mem_held {as : List Action} {parts : List (List Incident)} {r : TypingResult}
    (h : Carries l as parts r) (hg : Granted parts.flatten) (hs : Finset KeyCode) :
    code ∈ held hs parts.flatten ↔
      k.LeftDown (as.take (begun parts.flatten)) ∨
        (code ∈ hs ∧ ∀ a ∈ as.take (begun parts.flatten), a.lifts k = false) := by
  induction h generalizing hs with
  | nil => simp
  | cancelled a as => simp [Incident.hold, begun]
  | failed ha => cases (mem_held_action hl hk hcode ha (hg.mono (by simp))).1
  | @cons a as is parts r ha _ ih =>
    obtain ⟨-, hpart⟩ := mem_held_action hl hk hcode ha (hg.mono (by simp))
    have hrest := ih (hg.mono (by simp)) (held (Incident.hold hs (.looked false)) is)
    have hbegun : begun (List.flatten ((.looked false :: is) :: parts)) =
        begun parts.flatten + 1 := by
      rw [List.flatten_cons, List.cons_append, begun_looked, begun_append,
        begun_of_blind (blind_action l a) ha, Nat.zero_add]
    rw [hbegun, List.take_succ_cons, Key.leftDown_cons, List.flatten_cons, held_append, held_cons]
    refine hrest.trans ?_
    rw [hpart]
    simp only [Incident.hold, List.forall_mem_cons]
    tauto

omit hl hk hcode in
/-- An action leaves down what was down before, if anything, and the key that it names. -/
theorem held_action {a : Action} {is : List Incident} {r : TypingResult}
    (h : (action l a).run.Ends is r) (hup : Releasing is) {hs : Finset KeyCode}
    (hc : code ∈ held hs is) : code ∈ hs ∨ ∃ k, l.code? k = some code := by
  cases ha : a.isHalf with
  | false => exact .inl (closes_action l ha is r h hup hs hc)
  | true =>
    have hkey {k : Key} {down : Bool} (h : (withKey l k (keyEvent · down)).run.Ends is r) :
        code ∈ hs ∨ ∃ k, l.code? k = some code := by
      cases hk : l.code? k with
      | none =>
        rw [withKey, hk] at h
        obtain ⟨rfl, -⟩ := Script.ends_pure.mp h
        exact .inl hc
      | some c =>
        rw [withKey, hk] at h
        obtain ⟨reply, rfl, -⟩ := ends_keyEvent.mp h
        by_cases hne : code = c
        · exact .inr ⟨k, hne ▸ hk⟩
        · left
          cases down <;> cases reply <;> simpa [Incident.hold, hne] using hc
    cases a with
    | down k => exact hkey h
    | up k => exact hkey h
    | _ => cases ha

omit hl hk hcode in
/-- So nothing but named keys is held after the course of actions that was not held before. -/
theorem Carries.held_named {as : List Action} {parts : List (List Incident)} {r : TypingResult}
    (h : Carries l as parts r) (hup : Releasing parts.flatten) {hs : Finset KeyCode}
    (hc : code ∈ held hs parts.flatten) : code ∈ hs ∨ ∃ k, l.code? k = some code := by
  induction h generalizing hs with
  | nil => exact .inl hc
  | cancelled => exact .inl (by simpa [Incident.hold] using hc)
  | failed ha =>
    exact held_action ha (hup.mono (by simp)) (by simpa [Incident.hold] using hc)
  | cons ha _ ih =>
    rw [List.flatten_cons, List.cons_append, held_cons, held_append] at hc
    rcases ih (hup.mono (by simp)) hc with hpart | hkey
    · exact held_action ha (hup.mono (by simp)) hpart
    · exact .inr hkey

end Typing

/-- A keyboard is released by a run on which everything is granted exactly if every key but the
modifiers that an action has put down was lifted by a later one, among the actions that were begun
before the run was cancelled. -/
theorem Keyboard.released_iff {k : Keyboard} (hk : k.layout = .macAnsi ∨ k.layout = .windowsUs)
    (pauseMs : Nat) (s : Sequence) (o : Script.System)
    (hg : Granted ((k.perform true pauseMs s).courseOn o).2) :
    held ∅ ((k.perform true pauseMs s).courseOn o).2 = ∅ ↔
      ∀ key : Key, key.isModifier = false →
        ¬ key.LeftDown (s.actions.take (begun ((k.perform true pauseMs s).courseOn o).2)) := by
  have hl : k.layout.Blank := by
    rcases hk with hk | hk <;> rw [hk]
    · exact Layout.blank_macAnsi
    · exact Layout.blank_windowsUs
  obtain ⟨ht, -⟩ | ⟨-, lead, parts, trail, his, hlead, hparts, htrail⟩ :=
    Keyboard.ends_perform ((k.perform true pauseMs s).ends_courseOn o)
  · cases ht
  · rw [his] at hg ⊢
    have hgl : Granted lead := hg.mono (by simp)
    have hgp : Granted parts.flatten := hg.mono (by simp)
    have hgt : Granted trail := hg.mono (by simp)
    have hnone {is : List Incident} (h : (Script.releaseModifiers k.layout).Ends is ()) :
        begun is = 0 := begun_of_blind (Script.blind_releaseModifiers k.layout) h
    have hempty : held ∅ lead = ∅ := by
      ext code
      simp [Script.mem_held_releaseModifiers hlead hgl.releasing]
    have hmem (code : KeyCode) : code ∈ held ∅ (lead ++ parts.flatten ++ trail) ↔
        code ∈ held ∅ parts.flatten ∧ ∀ m ∈ Key.modifiers, k.layout.code? m ≠ some code := by
      rw [held_append, held_append, hempty,
        Script.mem_held_releaseModifiers htrail hgt.releasing]
    rw [begun_append, begun_append, hnone hlead, hnone htrail, Nat.zero_add, Nat.add_zero,
      Finset.eq_empty_iff_forall_notMem]
    constructor
    · intro hreleased key hkey hleft
      obtain ⟨code, hcode, -⟩ := hl.exists_code key
      refine hreleased code ((hmem code).mpr ⟨?_, fun m hm hm' ↦ ?_⟩)
      · exact (hparts.mem_held hl hkey hcode hgp ∅).mpr (.inl hleft)
      · obtain rfl := (hl.code?_eq_iff hcode).mp hm'
        rw [(Key.isModifier_iff m).mpr hm] at hkey
        cases hkey
    · intro hlifted code hc
      obtain ⟨hbody, hnot⟩ := (hmem code).mp hc
      obtain hc | ⟨key, hcode⟩ := hparts.held_named hgp.releasing hbody
      · simp at hc
      · have hkey : key.isModifier = false := by
          rw [Bool.eq_false_iff, Ne, Key.isModifier_iff]
          exact fun hm ↦ hnot key hm hcode
        obtain hleft | ⟨hc, -⟩ := (hparts.mem_held hl hkey hcode hgp ∅).mp hbody
        · exact hlifted key hkey hleft
        · simp at hc

/-- A system that grants everything, and cancels the run before the action of a number. -/
def Script.System.granting (cancelledAt : Nat) : Script.System where
  reply _ _ := .ok ()
  cancelled before := decide (cancelledAt ≤ begun before)

theorem Script.granted_courseOn {α : Type} (s : Script α) (cancelledAt : Nat) :
    Granted (s.courseOn (.granting cancelledAt)).2 := by
  intro c r hi
  obtain ⟨before, rfl⟩ := exists_reply hi
  rfl

/-- Control is lifted in the end, and a text with a tab lifts the Tab key. -/
theorem Keyboard.released_of_tab :
    Granted (((Keyboard.mk .macAnsi "").perform true 0
      (.ofActions [.down .control, .down .tab, .text "a\tb"])).courseOn (.granting 3)).2 ∧
    held ∅ (((Keyboard.mk .macAnsi "").perform true 0
      (.ofActions [.down .control, .down .tab, .text "a\tb"])).courseOn (.granting 3)).2 = ∅ := by
  have hg := ((Keyboard.mk .macAnsi "").perform true 0
    (.ofActions [.down .control, .down .tab, .text "a\tb"])).granted_courseOn 3
  refine ⟨hg, (Keyboard.released_iff (.inl rfl) 0 _ _ hg).mpr ?_⟩
  have hbegun : begun (((Keyboard.mk .macAnsi "").perform true 0
      (.ofActions [.down .control, .down .tab, .text "a\tb"])).courseOn (.granting 3)).2 = 3 := by
    cbv
  have hactions : (Sequence.ofActions [.down .control, .down .tab, .text "a\tb"]).actions.take 3 =
      [.down .control, .down .tab, .text "a\tb"] := by cbv
  rw [hbegun, hactions]
  intro key hkey hleft
  simp only [Key.leftDown_cons, Key.not_leftDown_nil, Action.down.injEq, or_false] at hleft
  rcases hleft with ⟨rfl, -⟩ | ⟨rfl, hlater⟩ | ⟨⟨⟩, -⟩
  · cases hkey
  · cases hlater (.text "a\tb") List.mem_cons_self

/-- A run that puts the Tab key down and does nothing more leaves it down. -/
theorem Keyboard.held_of_down_tab :
    Granted (((Keyboard.mk .windowsUs "").perform true 0
      (.ofActions [.down .tab])).courseOn (.granting 1)).2 ∧
    (((Keyboard.mk .windowsUs "").perform true 0
      (.ofActions [.down .tab])).courseOn (.granting 1)).1 = .ok () ∧
    held ∅ (((Keyboard.mk .windowsUs "").perform true 0
      (.ofActions [.down .tab])).courseOn (.granting 1)).2 = {0x09} := by
  refine ⟨Script.granted_courseOn _ 1, ?_, ?_⟩
  · cbv
  · cbv

end Typist

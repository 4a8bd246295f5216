import Mathlib
import Typist.Layout.MacAnsi
import Typist.Proofs.Typing.Course
import Typist.Template

/-!
# Keys that are held

Which keys are down is read off the calls that were carried out. Typing a character or pressing a
key closes every bracket that it opens, also where a call in it fails; so as long as releases are
granted, such actions leave nothing held at any moment between two of them.
-/

namespace Typist

namespace Incident

/-- The keys that are held after an incident: a call that was refused changes nothing. -/
def hold (h : Finset KeyCode) : Incident → Finset KeyCode
  | called (.key code true) (.ok _) => insert code h
  | called (.key code false) (.ok _) => h.erase code
  | _ => h

/-- The keys that are held after some incidents. -/
def held (h : Finset KeyCode) (is : List Incident) : Finset KeyCode := is.foldl hold h

/-- Whether no release of a key is refused. -/
def Releasing (is : List Incident) : Prop :=
  ∀ code r, called (.key code false) r ∈ is → r = .ok ()

@[simp] theorem held_nil (h : Finset KeyCode) : held h [] = h := rfl

@[simp] theorem held_cons (h : Finset KeyCode) (i : Incident) (is : List Incident) :
    held h (i :: is) = held (i.hold h) is := rfl

@[simp] theorem held_append (h : Finset KeyCode) (is js : List Incident) :
    held h (is ++ js) = held (held h is) js := List.foldl_append

theorem Releasing.mono {is js : List Incident} (h : Releasing js) (hsub : is ⊆ js) :
    Releasing is := fun code r hi ↦ h code r (hsub hi)

/-- A release that is granted lifts the key. -/
theorem Releasing.hold_up {is : List Incident} (h : Releasing is) {code : KeyCode}
    {r : NativeReply} (hi : called (.key code false) r ∈ is) (hs : Finset KeyCode) :
    hold hs (called (.key code false) r) = hs.erase code := by
  rw [h code r hi]
  rfl

end Incident

open Incident

/-! ## Typing that closes what it opens -/

/-- Whether an action is one half of a key press. -/
def Action.isHalf : Action → Bool
  | .down _ => true
  | .up _ => true
  | _ => false

/-- A template asks for no half of a key press. -/
theorem Template.isHalf_of_compile {template : String} {e : Entry} {s : Sequence}
    (h : (compile template (some e)).result = .ok s) : ∀ a ∈ s.actions, a.isHalf = false := by
  simp only [compile] at h
  cases hf : (read template).fault with
  | some fault => simp [hf] at h
  | none =>
    simp only [hf, Except.ok.injEq] at h
    rw [← h, Sequence.actions_ofActions]
    intro a ha
    obtain ⟨p, -, rfl⟩ := List.mem_map.mp (List.mem_of_mem_filter ha)
    cases p <;> rfl

namespace Typing

/-- Typing that leaves no key held that was not held before, as long as releases are granted. -/
def Closes (t : Typing Unit) : Prop :=
  ∀ is r, t.run.Ends is r → Releasing is → ∀ h, held h is ⊆ h

theorem closes_pure : Closes (pure ()) := by
  intro is r hends _ h
  obtain ⟨rfl, -⟩ := Script.ends_pure.mp hends
  exact subset_rfl

theorem Closes.bind {t u : Typing Unit} (ht : Closes t) (hu : Closes u) :
    Closes (t >>= fun _ ↦ u) := by
  intro is r hends hup h
  obtain ⟨e, hfail, -⟩ | ⟨_, is₁, is₂, rfl, hends₁, hends₂⟩ := ends_bind.mp hends
  · exact ht _ _ hfail hup h
  · rw [held_append]
    have h₁ := ht _ _ hends₁ (hup.mono (List.subset_append_left ..)) h
    have h₂ := hu _ _ hends₂ (hup.mono (List.subset_append_right ..)) (held h is₁)
    exact Finset.Subset.trans h₂ h₁

theorem closes_unicode (c : Char) : Closes (unicode c) := by
  intro is r hends _ h
  obtain ⟨reply, rfl, -⟩ := ends_unicode.mp hends
  exact subset_rfl

theorem closes_press (code : KeyCode) : Closes (press code) := by
  intro is r hends hup h
  obtain ⟨reason, rfl, -⟩ | ⟨reply, rfl, -⟩ := ends_press.mp hends
  · exact subset_rfl
  · rw [held_cons, held_cons, held_nil, hup.hold_up (by simp)]
    exact Finset.erase_insert_subset code h

/-- A bracket of a key that is released in the end closes if what is inside does. -/
theorem Closes.holding {code : KeyCode} {body : Typing Unit} (hbody : Closes body) :
    Closes (holding code body) := by
  intro is r hends hup h
  obtain ⟨reason, rfl, -⟩ | ⟨js, r', reply, rfl, hjs, -⟩ := ends_holding hends
  · exact subset_rfl
  · have hinside : held (insert code h) js ⊆ insert code h := by
      refine hbody _ _ hjs (hup.mono ?_) _
      exact List.Subset.trans (List.subset_append_left ..) (List.subset_cons_self ..)
    rw [held_cons, held_append, held_cons, held_nil, hup.hold_up (by simp)]
    exact Finset.Subset.trans (Finset.erase_subset_erase code hinside)
      (Finset.erase_insert_subset code h)

theorem closes_char (l : Layout) (c : Char) : Closes (char l c) := by
  unfold char
  split
  · exact closes_unicode c
  · split
    · exact closes_press _
    · exact (closes_press _).holding

theorem closes_text (l : Layout) (s : String) : Closes (text l s) := by
  unfold text
  induction typedChars s.toList with
  | nil => exact closes_pure
  | cons c cs ih => exact (closes_char l c).bind ih

theorem closes_pause (ms : Nat) : Closes (ExceptT.lift (Script.pause ms)) := by
  intro is r hends _ h
  obtain ⟨_, hpause, -⟩ := ends_lift.mp hends
  obtain rfl := Script.ends_pause.mp hpause
  exact subset_rfl

/-- Every action but half a key press closes what it opens. -/
theorem closes_action (l : Layout) {a : Action} (ha : a.isHalf = false) : Closes (action l a) := by
  cases a with
  | text s => exact closes_text l s
  | press k =>
    rw [action, withKey]
    split
    · exact closes_press _
    · exact closes_pure
  | down k => cases ha
  | up k => cases ha
  | delay ms => exact closes_pause ms.toNat

/-- Nothing is held before any part of the course of such actions, nor after the last one. -/
theorem Carries.held_take {l : Layout} {as : List Action} {parts : List (List Incident)}
    {r : TypingResult} (h : Carries l as parts r) (has : ∀ a ∈ as, a.isHalf = false)
    (hup : Releasing parts.flatten) (n : Nat) : held ∅ (parts.take n).flatten = ∅ := by
  induction h generalizing n with
  | nil => simp
  | cancelled a as => cases n <;> simp [Incident.hold]
  | @failed a as is e ha =>
    cases n with
    | zero => rfl
    | succ n =>
      have hclosed := closes_action l (has a List.mem_cons_self) is _ ha (hup.mono (by simp)) ∅
      simpa [Incident.hold] using hclosed
  | @cons a as is parts r ha _ ih =>
    cases n with
    | zero => rfl
    | succ n =>
      have hclosed := closes_action l (has a List.mem_cons_self) is _ ha (hup.mono (by simp)) ∅
      have hrest := ih (fun b hb ↦ has b (List.mem_cons_of_mem a hb)) (hup.mono (by simp)) n
      rw [List.take_succ_cons, List.flatten_cons, held_append, held_cons]
      have hpart : held (Incident.hold ∅ (.looked false)) is = ∅ := Finset.subset_empty.mp hclosed
      rw [hpart]
      exact hrest

end Typing

/-! ## Runs that hold nothing -/

/-- The modifiers are lifted, and every other key stays as it is. -/
theorem Script.mem_held_releaseModifiers {l : Layout} {is : List Incident}
    (h : (releaseModifiers l).Ends is ()) (hup : Releasing is) (hs : Finset KeyCode)
    (code : KeyCode) :
    code ∈ held hs is ↔ code ∈ hs ∧ ∀ m ∈ Key.modifiers, l.code? m ≠ some code := by
  have hcodes : (∀ m ∈ Key.modifiers, l.code? m ≠ some code) ↔
      code ∉ Key.modifiers.filterMap l.code? := by simp [List.mem_filterMap]
  rw [hcodes]
  rw [ends_releaseModifiers] at h
  generalize Key.modifiers.filterMap l.code? = codes at h ⊢
  induction h generalizing hs with
  | nil => simp
  | @cons c i codes is hi _ ih =>
    obtain ⟨r, rfl⟩ := hi
    have hrest : code ∈ held (hs.erase c) is ↔ code ∈ hs.erase c ∧ code ∉ codes :=
      ih (hup.mono (List.subset_cons_self ..)) (hs.erase c)
    rw [held_cons, hup.hold_up List.mem_cons_self, hrest, Finset.mem_erase, List.mem_cons, not_or]
    tauto

/-- No key outlives a run of whole key presses: as long as the releases that are made are granted,
nothing is held before any action nor after the last one, whatever else fails and whenever the run
is cancelled. -/
theorem Keyboard.nothing_held (k : Keyboard) (trusted : Bool) (pauseMs : Nat) {s : Sequence}
    (hs : ∀ a ∈ s.actions, a.isHalf = false) (o : Script.System)
    (hup : Releasing ((k.perform trusted pauseMs s).courseOn o).2) :
    (∃ lead parts trail,
      ((k.perform trusted pauseMs s).courseOn o).2 = lead ++ parts.flatten ++ trail ∧
      (trusted = true →
        Typing.Carries k.layout s.actions parts ((k.perform trusted pauseMs s).courseOn o).1) ∧
      ∀ n, held ∅ (lead ++ (parts.take n).flatten) = ∅) ∧
    held ∅ ((k.perform trusted pauseMs s).courseOn o).2 = ∅ := by
  obtain ⟨ht, his, -⟩ | ⟨-, lead, parts, trail, his, hlead, hparts, htrail⟩ :=
    Keyboard.ends_perform ((k.perform trusted pauseMs s).ends_courseOn o)
  · rw [his]
    refine ⟨⟨[], [], [], rfl, ?_, fun n ↦ ?_⟩, rfl⟩
    · rw [ht]
      exact nofun
    · rw [List.take_nil]
      rfl
  · rw [his] at hup ⊢
    have hempty {is : List Incident} (h : (Script.releaseModifiers k.layout).Ends is ())
        (hr : Releasing is) : held ∅ is = ∅ := by
      ext code
      simp [Script.mem_held_releaseModifiers h hr]
    have hlead' := hempty hlead (hup.mono (by simp))
    have hbody := hparts.held_take hs (hup.mono (by simp))
    refine ⟨⟨lead, parts, trail, rfl, fun _ ↦ hparts, fun n ↦ ?_⟩, ?_⟩
    · rw [held_append, hlead', hbody]
    · have hall := hbody parts.length
      rw [List.take_length] at hall
      rw [held_append, held_append, hlead', hall]
      exact hempty htrail (hup.mono (by simp))

/-- A system that refuses to put one key down. -/
def Script.System.refusing (code : KeyCode) : Script.System where
  reply _ c := if c = .key code true then .error "refused" else .ok ()
  cancelled _ := false

/-- A capital whose key is refused while Shift is already down. -/
theorem Keyboard.nothing_held_of_refused :
    (Template.compile "a\x7bUSERNAME\x7d" (some { username := "Ba" })).result =
      .ok (.ofActions [.text "a", .text "Ba"]) ∧
    (((Keyboard.mk .macAnsi "").perform true 0 (.ofActions [.text "a", .text "Ba"])).courseOn
      (.refusing 0x0B)).1 = .error (.synthesisFailed "refused") ∧
    held ∅ (((Keyboard.mk .macAnsi "").perform true 0 (.ofActions [.text "a", .text "Ba"])).courseOn
      (.refusing 0x0B)).2 = ∅ := by
  have hs : (Template.compile "a\x7bUSERNAME\x7d" (some { username := "Ba" })).result =
      .ok (.ofActions [.text "a", .text "Ba"]) := by cbv
  refine ⟨hs, by cbv, ?_⟩
  refine ((Keyboard.mk .macAnsi "").nothing_held true 0 (Template.isHalf_of_compile hs) _ ?_).2
  intro code r hi
  obtain ⟨before, rfl⟩ := Script.exists_reply hi
  simp [Script.System.refusing]

end Typist

import Typist.Injector.EventPoster
import Typist.Proofs.Typing.Keyboard
import Typist.Proofs.Typing.Transcript

/-!
# The flags of posted events

Which modifiers a poster takes for held while sequences are typed through it, one after the other.
It notes a half of a modifier key before it tries to post it, so a half that is not posted counts,
too; but every run ends with the releases of all modifiers, and so with none of them held. Where all
events are made, the flags of each are what can be read off the events posted so far.
-/

namespace Typist

/-- The key that a modifier is. -/
def Modifier.key : Modifier → Key
  | shift => .shift
  | control => .control
  | alt => .alt
  | command => .command

theorem Key.modifier?_eq_some_iff {k : Key} {m : Modifier} : k.modifier? = some m ↔ k = m.key := by
  cases k <;> cases m <;> simp [modifier?, Modifier.key]

theorem Modifier.key_mem_modifiers (m : Modifier) : m.key ∈ Key.modifiers := by
  cases m <;> decide

namespace EventPoster

/-! ## Modifier keys -/

/-- Whether a code is that of the key of a modifier. -/
def IsCodeOf (m : Modifier) (code : KeyCode) : Prop := layout.code? m.key = some code

instance (m : Modifier) (code : KeyCode) : Decidable (IsCodeOf m code) :=
  inferInstanceAs (Decidable (_ = _))

theorem modifier?_eq_some_iff {m : Modifier} {code : KeyCode} :
    (layout.key? code).bind Key.modifier? = some m ↔ IsCodeOf m code := by
  rw [Option.bind_eq_some_iff]
  constructor
  · rintro ⟨k, hk, hm⟩
    have hall : ∀ e ∈ layout.keys, layout.code? e.1 = some e.2 := by decide
    obtain ⟨e, he, rfl⟩ := Option.map_eq_some_iff.mp hk
    have hcode : e.2 = code := by simpa using List.find?_some he
    rw [Key.modifier?_eq_some_iff] at hm
    rw [IsCodeOf, ← hm, hall e (List.mem_of_find?_eq_some he), hcode]
  · intro h
    obtain ⟨code', hcode, hkey⟩ := Layout.regular_macAnsi.exists_code m.key
    obtain rfl : code' = code := Option.some.inj (hcode.symm.trans h)
    exact ⟨m.key, hkey, Key.modifier?_eq_some_iff.mpr rfl⟩

theorem IsCodeOf.unique {m n : Modifier} {code : KeyCode} (hm : IsCodeOf m code)
    (hn : IsCodeOf n code) : m = n := by
  rw [← modifier?_eq_some_iff] at hm hn
  exact Option.some.inj (hm.symm.trans hn)

/-- A half of a key press changes whether its own modifier is held, if it is of one. -/
theorem contains_heldAfter (held : Modifiers) (code : KeyCode) (down : Bool) (m : Modifier) :
    (heldAfter held code down).contains m = if IsCodeOf m code then down else held.contains m := by
  unfold heldAfter
  split
  · next n hn =>
    rw [modifier?_eq_some_iff] at hn
    by_cases hm : IsCodeOf m code
    · obtain rfl := hn.unique hm
      rw [if_pos hm]
      cases down with
      | false => simp [Modifiers.contains_erase]
      | true => simp [Modifiers.contains_insert]
    · have hne : n ≠ m := by
        rintro rfl
        exact hm hn
      rw [if_neg hm]
      cases down with
      | false => simp [Modifiers.contains_erase, hne]
      | true => simp [Modifiers.contains_insert, hne]
  · next hn =>
    rw [if_neg]
    rw [← modifier?_eq_some_iff, hn]
    nofun

/-! ## Many calls -/

/-- Carry out native calls: the poster after them, and what it has posted. -/
def callAll (creation : Nat → Creation) (p : EventPoster) :
    List NativeCall → EventPoster × List PostedEvent
  | [] => (p, [])
  | c :: cs =>
    let (p₁, posted, _) := p.call creation c
    let (p₂, more) := p₁.callAll creation cs
    (p₂, posted ++ more)

variable {creation : Nat → Creation}

theorem callAll_append (p : EventPoster) (cs ds : List NativeCall) :
    p.callAll creation (cs ++ ds) =
      (((p.callAll creation cs).1.callAll creation ds).1,
        (p.callAll creation cs).2 ++ ((p.callAll creation cs).1.callAll creation ds).2) := by
  induction cs generalizing p with
  | nil => rfl
  | cons c cs ih => simp only [List.cons_append, callAll, ih, List.append_assoc]

/-- A half of a key press is noted whether its event is made or not. -/
theorem held_call_key (p : EventPoster) (code : KeyCode) (down : Bool) :
    (p.call creation (.key code down)).1.held = heldAfter p.held code down := rfl

/-- So are releases: behind them, their modifiers are not held. -/
theorem contains_held_releases (p : EventPoster) (codes : List KeyCode) (m : Modifier) :
    (p.callAll creation (codes.map fun code ↦ .key code false)).1.held.contains m = true ↔
      p.held.contains m = true ∧ ∀ code ∈ codes, ¬ IsCodeOf m code := by
  induction codes generalizing p with
  | nil => simp [callAll]
  | cons code codes ih =>
    rw [List.map_cons, callAll, ih, held_call_key, contains_heldAfter, List.forall_mem_cons]
    by_cases hm : IsCodeOf m code <;> simp [hm]

/-- Behind the releases of all modifiers, none is held. -/
theorem held_callAll_releases (p : EventPoster) :
    (p.callAll creation (Script.releases layout)).1.held = {} := by
  apply Modifiers.ext_contains
  intro m
  have hnone : Modifiers.contains {} m = false := by cases m <;> rfl
  rw [hnone, Bool.eq_false_iff, Script.releases, ne_eq, contains_held_releases]
  rintro ⟨-, hcodes⟩
  obtain ⟨code, hcode, -⟩ := Layout.regular_macAnsi.exists_code m.key
  exact hcodes code (List.mem_filterMap.mpr ⟨m.key, m.key_mem_modifiers, hcode⟩) hcode

/-! ## Runs -/

/-- One sequence that is to be typed: whether the system trusts this process then, and whether the
run is cancelled by each look, after what has happened in it so far. -/
structure Turn where
  sequence : Sequence
  pauseMs : Nat := 0
  trusted : Bool := true
  cancelled : List Incident → Bool := fun _ ↦ false

/-- A poster as the system of a run: each call is answered as the poster does after the calls that
came before it. -/
def system (creation : Nat → Creation) (p : EventPoster) (cancelled : List Incident → Bool) :
    Script.System where
  reply past c := ((p.callAll creation (Incident.calls past)).1.call creation c).2.2
  cancelled := cancelled

/-- The course of a run through a poster. -/
def courseOf (hint : String) (creation : Nat → Creation) (p : EventPoster) (t : Turn) :
    List Incident :=
  (((Keyboard.mk layout hint).perform t.trusted t.pauseMs t.sequence).courseOn
    (p.system creation t.cancelled)).2

/-- Type sequences one after the other: after each, the poster and what it has posted. -/
def performAll (hint : String) (creation : Nat → Creation) (p : EventPoster) :
    List Turn → List (EventPoster × List PostedEvent)
  | [] => []
  | t :: ts =>
    let outcome := p.callAll creation (Incident.calls (p.courseOf hint creation t))
    outcome :: outcome.1.performAll hint creation ts

/-- A run that the system trusts ends with no modifier held, and any other changes nothing. -/
theorem held_of_courseOf (hint : String) (creation : Nat → Creation) (p : EventPoster) (t : Turn) :
    (t.trusted = true ∧
        (p.callAll creation (Incident.calls (p.courseOf hint creation t))).1.held = {}) ∨
      (t.trusted = false ∧
        p.callAll creation (Incident.calls (p.courseOf hint creation t)) = (p, [])) := by
  have hends := ((Keyboard.mk layout hint).perform t.trusted t.pauseMs t.sequence).ends_courseOn
    (p.system creation t.cancelled)
  obtain ⟨ht, his, -⟩ | ⟨ht, lead, parts, trail, his, -, -, htrail⟩ := Keyboard.ends_perform hends
  · refine .inr ⟨ht, ?_⟩
    rw [courseOf, his]
    rfl
  · refine .inl ⟨ht, ?_⟩
    rw [courseOf, his, Incident.calls_append, (Script.calls_releaseModifiers htrail).1,
      callAll_append]
    exact @held_callAll_releases creation _

/-- So no modifier is held after any run. -/
theorem held_of_mem_performAll {hint : String} {p : EventPoster} (hp : p.held = {})
    (ts : List Turn) : ∀ o ∈ p.performAll hint creation ts, o.1.held = {} := by
  induction ts generalizing p with
  | nil => nofun
  | cons t ts ih =>
    rw [performAll]
    obtain ⟨-, hheld⟩ | ⟨-, hsame⟩ := held_of_courseOf hint creation p t
    · exact List.forall_mem_cons.mpr ⟨hheld, ih hheld⟩
    · rw [hsame]
      exact List.forall_mem_cons.mpr ⟨hp, ih hp⟩

/-! ## Flags -/

/-- Whether a modifier is held by what was posted: its key-down was, and no key-up of it since. -/
def IsHeldBy (m : Modifier) (es : List PostedEvent) : Prop :=
  ∃ before e after, es = before ++ e :: after ∧ IsCodeOf m e.code ∧ e.down = true ∧
    ∀ u ∈ after, ¬ (IsCodeOf m u.code ∧ u.down = false)

/-- Whether a poster knows what is held by the events posted so far, and the flags of each key event
told it. -/
structure Tells (p : EventPoster) (es : List PostedEvent) : Prop where
  held : ∀ m, p.held.contains m = true ↔ IsHeldBy m es
  flags : ∀ before e after, es = before ++ e :: after → e.text = none →
    ∀ m, e.flags.contains m = true ↔ IsHeldBy m (before ++ [e])

/-- The last event either is the one at which the events are split, or stands behind it. -/
private theorem concat_eq_append_cons {es before after : List PostedEvent} {e d : PostedEvent}
    (h : es ++ [e] = before ++ d :: after) :
    es = before ∧ e = d ∧ after = [] ∨ ∃ init, es = before ++ d :: init ∧ after = init ++ [e] := by
  obtain rfl | ⟨init, last, rfl⟩ := List.eq_nil_or_concat' after
  · obtain ⟨hes, hlast⟩ := List.append_inj' h rfl
    exact .inl ⟨hes, (List.cons.inj hlast).1, rfl⟩
  · rw [← List.cons_append, ← List.append_assoc] at h
    obtain ⟨hes, hlast⟩ := List.append_inj' h rfl
    exact .inr ⟨init, hes, by rw [hlast]⟩

theorem isHeldBy_concat {m : Modifier} {es : List PostedEvent} {e : PostedEvent} :
    IsHeldBy m (es ++ [e]) ↔ if IsCodeOf m e.code then e.down = true else IsHeldBy m es := by
  constructor
  · rintro ⟨before, d, after, hsplit, hd, hdown, hafter⟩
    obtain ⟨-, rfl, -⟩ | ⟨init, hes, rfl⟩ := concat_eq_append_cons hsplit
    · rwa [if_pos hd]
    · obtain ⟨hinit, hup⟩ := List.forall_mem_append.mp hafter
      split
      · next he => simpa [he] using hup
      · exact ⟨before, d, init, hes, hd, hdown, hinit⟩
  · intro h
    split at h
    · next he => exact ⟨es, e, [], rfl, he, h, nofun⟩
    · next he =>
      obtain ⟨before, d, after, rfl, hd, hdown, hafter⟩ := h
      refine ⟨before, d, after ++ [e], by simp, hd, hdown, ?_⟩
      refine List.forall_mem_append.mpr ⟨hafter, List.forall_mem_singleton.mpr ?_⟩
      exact fun hup ↦ he hup.1

/-- One more event is posted by a poster that knows what it holds, with its flags if it is a key
event. -/
theorem Tells.concat {p p' : EventPoster} {es : List PostedEvent} (h : Tells p es) {e : PostedEvent}
    (hheld : p'.held = heldAfter p.held e.code e.down)
    (hflags : e.text = none → e.flags = p'.held) : Tells p' (es ++ [e]) := by
  have hnow (m : Modifier) : p'.held.contains m = true ↔ IsHeldBy m (es ++ [e]) := by
    rw [hheld, contains_heldAfter, isHeldBy_concat]
    split
    · exact Iff.rfl
    · exact h.held m
  refine ⟨hnow, fun before d after hsplit htext m ↦ ?_⟩
  obtain ⟨rfl, rfl, -⟩ | ⟨init, hes, -⟩ := concat_eq_append_cons hsplit
  · rw [hflags htext]
    exact hnow m
  · exact h.flags before d init hes htext m

/-- The halves by which characters without a key are typed are of no modifier. -/
theorem heldAfter_zero (held : Modifiers) (down : Bool) : heldAfter held 0 down = held := by
  apply Modifiers.ext_contains
  intro m
  have hm : ¬ IsCodeOf m 0 := by cases m <;> decide
  rw [contains_heldAfter, if_neg hm]

/-- What is posted for a character: the first half, and the second half only behind it. -/
theorem call_unicode (p : EventPoster) (c : Char) :
    p.call creation (.unicode c) =
      if creation (p.attempts + 1) = .made then
        let (p', more, r) := post creation ⟨p.held, p.attempts + 1⟩ ⟨0, false, {}, some c⟩
        (p', ⟨0, true, {}, some c⟩ :: more, r)
      else (⟨p.held, p.attempts + 1⟩, [], reply 0 (creation (p.attempts + 1))) := by
  cases h : creation (p.attempts + 1) <;> simp [call, post, reply, h]

theorem attempts_le_call (p : EventPoster) (c : NativeCall) :
    p.attempts ≤ (p.call creation c).1.attempts := by
  cases c with
  | key code down => exact Nat.le_succ _
  | unicode c =>
    rw [call_unicode]
    split
    · exact Nat.le_add_right _ 2
    · exact Nat.le_succ _

theorem attempts_le_callAll (p : EventPoster) (cs : List NativeCall) :
    p.attempts ≤ (p.callAll creation cs).1.attempts := by
  induction cs generalizing p with
  | nil => exact Nat.le_refl _
  | cons c cs ih => exact Nat.le_trans (p.attempts_le_call c) (ih _)

/-- A call for which every event is made keeps a poster knowing. -/
theorem Tells.call {p : EventPoster} {es : List PostedEvent} (h : Tells p es) {c : NativeCall}
    (hmade : ∀ n < (p.call creation c).1.attempts, creation (n + 1) = .made) :
    Tells (p.call creation c).1 (es ++ (p.call creation c).2.1) := by
  cases c with
  | key code down =>
    have hnext : creation (p.attempts + 1) = .made := hmade _ (Nat.lt_succ_self _)
    rw [EventPoster.call, post, if_pos hnext]
    exact h.concat rfl fun _ ↦ rfl
  | unicode c =>
    have hfirst : creation (p.attempts + 1) = .made := by
      apply hmade
      rw [call_unicode]
      split
      · exact Nat.lt_succ_of_le (Nat.le_succ _)
      · exact Nat.lt_succ_self _
    rw [call_unicode, if_pos hfirst] at hmade ⊢
    have hsecond : creation (p.attempts + 1 + 1) = .made := hmade _ (Nat.lt_succ_self _)
    simp only [post, if_pos hsecond]
    rw [List.append_cons]
    -- Neither half is told of what is held, and neither changes it.
    have hdown : Tells ⟨p.held, p.attempts + 1⟩ (es ++ [⟨0, true, {}, some c⟩]) :=
      h.concat (heldAfter_zero _ _).symm nofun
    exact hdown.concat (heldAfter_zero _ _).symm nofun

/-- So do many. -/
theorem Tells.callAll {p : EventPoster} {es : List PostedEvent} (h : Tells p es)
    {cs : List NativeCall}
    (hmade : ∀ n < (p.callAll creation cs).1.attempts, creation (n + 1) = .made) :
    Tells (p.callAll creation cs).1 (es ++ (p.callAll creation cs).2) := by
  induction cs generalizing p es with
  | nil => rwa [EventPoster.callAll, List.append_nil]
  | cons c cs ih =>
    have hfirst := h.call fun n hn ↦ hmade n (Nat.lt_of_lt_of_le hn (attempts_le_callAll _ cs))
    rw [EventPoster.callAll, ← List.append_assoc]
    exact ih hfirst hmade

/-- A poster that knows what is held tells so in every key event of every run. -/
theorem Tells.performAll {hint : String} {p : EventPoster} {es : List PostedEvent} (h : Tells p es)
    {ts : List Turn}
    (hmade : ∀ o ∈ p.performAll hint creation ts, ∀ n < o.1.attempts, creation (n + 1) = .made) :
    ∃ p', Tells p' (es ++ (p.performAll hint creation ts).flatMap Prod.snd) := by
  induction ts generalizing p es with
  | nil => exact ⟨p, by rwa [EventPoster.performAll, List.flatMap_nil, List.append_nil]⟩
  | cons t ts ih =>
    rw [EventPoster.performAll] at hmade ⊢
    obtain ⟨hfirst, hrest⟩ := List.forall_mem_cons.mp hmade
    rw [List.flatMap_cons, ← List.append_assoc]
    exact ih (h.callAll hfirst) hrest

theorem tells_new : Tells {} [] where
  held m := by
    constructor
    · cases m <;> nofun
    · rintro ⟨before, e, after, hsplit, -⟩
      simp at hsplit
  flags before e after hsplit := by simp at hsplit

/-- No modifier is held after any sequence that is typed through a new poster, whatever its actions,
wherever it is cancelled and whichever events cannot be made. Where all events are made, a modifier
is among the flags of a key event exactly if it is held by the events posted up to this one. -/
theorem flags_follow_keys (hint : String) (creation : Nat → Creation) (ts : List Turn) :
    let history := ({} : EventPoster).performAll hint creation ts
    (∀ o ∈ history, o.1.held = {}) ∧
      ((∀ o ∈ history, ∀ n < o.1.attempts, creation (n + 1) = .made) →
        ∀ before e after, history.flatMap Prod.snd = before ++ e :: after → e.text = none →
          ∀ m, e.flags.contains m = true ↔ IsHeldBy m (before ++ [e])) := by
  refine ⟨held_of_mem_performAll rfl ts, fun hmade ↦ ?_⟩
  obtain ⟨p, hp⟩ := tells_new.performAll hmade
  exact hp.flags

/-- A run that is cancelled while Shift is down, and one that types a letter. -/
def Turn.letterBehindShift : List Turn :=
  [{ sequence := ⟨[.down .shift, .press .tab], by decide⟩
     cancelled := fun past ↦ (Incident.calls past).length = 5 },
   { sequence := ⟨[.text "a"], by decide⟩ }]

/-- Shift is among the flags of its own key-down, and not among those of the letter. -/
theorem flags_follow_keys_of_cancelled :
    let history := ({} : EventPoster).performAll "" (fun _ ↦ .made) Turn.letterBehindShift
    let posted := history.flatMap Prod.snd
    (∀ o ∈ history, o.1.held = {}) ∧
      posted[4]? = some ⟨0x38, true, { shift := true }, none⟩ ∧ IsHeldBy .shift (posted.take 5) ∧
      posted[13]? = some ⟨0x00, true, {}, none⟩ ∧ ¬ IsHeldBy .shift (posted.take 14) := by
  intro history posted
  obtain ⟨hheld, hflags⟩ := flags_follow_keys "" (fun _ ↦ .made) Turn.letterBehindShift
  have htold := hflags fun _ _ _ _ ↦ rfl
  refine ⟨hheld, by decide +kernel, ?_, by decide +kernel, ?_⟩
  · exact (htold (posted.take 4) ⟨0x38, true, { shift := true }, none⟩ (posted.drop 5)
      (by decide +kernel) rfl .shift).mp rfl
  · intro hshift
    have hflag := (htold (posted.take 13) ⟨0x00, true, {}, none⟩ (posted.drop 14)
      (by decide +kernel) rfl .shift).mpr hshift
    exact absurd hflag (by decide)

end EventPoster

end Typist

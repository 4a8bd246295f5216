import Typist.Injector.EventPoster
import Typist.Proofs.Typing.Course

/-!
# Typing where every event is made, or none

What typing comes to on a system that makes every keyboard event, or refuses each for the same
reason: the first key event is refused and ends the typing, so nothing counts but its key. Whether
the run is cancelled counts only at a look, and then for all that is left.
-/

namespace Typist

namespace Script

variable {α β : Type}

/-- What a script comes to where a call is always answered the same way, and the run is cancelled
all the time or never. -/
def under (answer : NativeCall → NativeReply) (cancelled : Bool) : Script α → α
  | done a => a
  | call c next => (next (answer c)).under answer cancelled
  | look next => (next cancelled).under answer cancelled
  | wait _ next => next.under answer cancelled

variable {answer : NativeCall → NativeReply} {cancelled : Bool}

@[simp] theorem under_pure (a : α) : (pure a : Script α).under answer cancelled = a := rfl

theorem under_bind (s : Script α) (f : α → Script β) :
    (s >>= f).under answer cancelled =
      (f (s.under answer cancelled)).under answer cancelled := by
  change (s.bind f).under answer cancelled = _
  induction s with
  | done a => rfl
  | call c next ih => exact ih _
  | look next ih => exact ih _
  | wait ms next ih => exact ih

end Script

namespace Typing

variable {answer : NativeCall → NativeReply} {cancelled : Bool}

theorem under_bind {α β : Type} (t : Typing α) (f : α → Typing β) :
    (t >>= f).run.under answer cancelled =
      (t.run.under answer cancelled).bind fun a ↦ (f a).run.under answer cancelled := by
  rw [ExceptT.run_bind, Script.under_bind]
  cases t.run.under answer cancelled <;> rfl

theorem under_lift {α : Type} (s : Script α) :
    (ExceptT.lift s : Typing α).run.under answer cancelled = .ok (s.under answer cancelled) := by
  rw [ExceptT.run_lift, map_eq_pure_bind, Script.under_bind]
  rfl

end Typing

/-! ## Verdicts -/

namespace EventPoster

/-- The answer to a native call where all events are made, or each is refused for the same
reason. -/
def answer (m : Creation) : NativeCall → NativeReply
  | .key code _ => reply code m
  | .unicode _ => reply 0 m

/-- It depends on nothing that the poster keeps. -/
theorem reply_call (m : Creation) (p : EventPoster) (c : NativeCall) :
    (p.call (fun _ ↦ m) c).2.2 = answer m c := by
  cases c with
  | key code down => rfl
  | unicode c => cases m <;> rfl

/-- How typing ends there whose first key event is for a certain key, if it has any. -/
def verdict (m : Creation) : Option KeyCode → TypingResult
  | none => .ok ()
  | some code => (reply code m).mapError .synthesisFailed

@[simp] theorem verdict_none (m : Creation) : verdict m none = .ok () := rfl

@[simp] theorem verdict_made (first : Option KeyCode) : verdict .made first = .ok () := by
  cases first <;> rfl

/-- What is typed later does not count behind a key event that is refused. -/
theorem verdict_or (m : Creation) (first second : Option KeyCode) :
    verdict m (first.or second) = (verdict m first).bind fun _ ↦ verdict m second := by
  cases first with
  | none => rfl
  | some code =>
    cases m with
    | made => exact (verdict_made second).symm
    | noSource => rfl
    | noEvent => rfl

end EventPoster

/-- The key of the first event with which a character is typed, if it has a key. -/
def Layout.firstKey? (l : Layout) (c : Char) : Option KeyCode :=
  (l.stroke? c).map fun s ↦ if s.shift then (l.code? .shift).getD s.code else s.code

/-- The key of the first event of an action, if it has any. -/
def Action.firstKey? (l : Layout) : Action → Option KeyCode
  | .text s => (Typing.typedChars s.toList).findSome? l.firstKey?
  | .press k | .down k | .up k => l.code? k
  | .delay _ => none

/-- The key of the first event of a sequence, if it has any. -/
def Sequence.firstKey? (l : Layout) (s : Sequence) : Option KeyCode :=
  s.actions.findSome? (Action.firstKey? l)

namespace Typing

open EventPoster (answer verdict)

variable {l : Layout} {m : Creation} {cancelled : Bool}

theorem under_keyEvent (code : KeyCode) (down : Bool) :
    (keyEvent code down).run.under (answer m) cancelled = verdict m (some code) := rfl

theorem under_press (code : KeyCode) :
    (press code).run.under (answer m) cancelled = verdict m (some code) := by
  rw [press, under_bind, under_keyEvent]
  cases m <;> rfl

/-- A key that is held is the first, and what it is held for counts only if events are made. -/
theorem under_holding (code : KeyCode) {body : Typing Unit} {first : Option KeyCode}
    (h : body.run.under (answer m) cancelled = verdict m first) :
    (holding code body).run.under (answer m) cancelled = verdict m (some code) := by
  rw [holding, under_bind, under_keyEvent]
  cases m with
  | made =>
    show (ExceptT.lift body.run >>= _ : Typing Unit).run.under _ _ = _
    rw [ExceptT.run_bind_lift, Script.under_bind, h, under_bind]
    exact EventPoster.verdict_made first
  | noSource => rfl
  | noEvent => rfl

theorem under_char (c : Char) :
    (char l c).run.under (answer m) cancelled = verdict m (l.firstKey? c) := by
  unfold char Layout.firstKey?
  cases l.stroke? c with
  | none => rfl
  | some s =>
    cases hs : s.shift with
    | false => simpa [hs] using under_press s.code
    | true =>
      cases hshift : l.code? .shift with
      | none => simpa [hs, hshift] using under_press s.code
      | some shift => simpa [hs, hshift] using under_holding shift (under_press s.code)

private theorem findSome?_cons_or {α β : Type} (f : α → Option β) (a : α) (as : List α) :
    (a :: as).findSome? f = (f a).or (as.findSome? f) := by
  rw [List.findSome?_cons]
  cases f a <;> rfl

theorem under_text (s : String) :
    (text l s).run.under (answer m) cancelled = verdict m ((Action.text s).firstKey? l) := by
  rw [text, Action.firstKey?]
  induction typedChars s.toList with
  | nil => rfl
  | cons c cs ih =>
    rw [List.forM_eq_forM] at ih ⊢
    rw [List.forM_cons, under_bind, under_char, ih, findSome?_cons_or,
      EventPoster.verdict_or]

theorem under_withKey {k : Key} {f : KeyCode → Typing Unit}
    (hf : ∀ code, (f code).run.under (answer m) cancelled = verdict m (some code)) :
    (withKey l k f).run.under (answer m) cancelled = verdict m (l.code? k) := by
  unfold withKey
  cases l.code? k with
  | none => rfl
  | some code => exact hf code

/-- An action ends with the verdict on its first key. -/
theorem under_action (a : Action) :
    (action l a).run.under (answer m) cancelled = verdict m (a.firstKey? l) := by
  cases a with
  | text s => exact under_text s
  | press k => exact under_withKey under_press
  | down k => exact under_withKey fun code ↦ under_keyEvent code true
  | up k => exact under_withKey fun code ↦ under_keyEvent code false
  | delay ms => exact under_lift _

/-- So do actions, unless they are cancelled before the first. -/
theorem under_actions (pauseMs : Nat) (as : List Action) :
    (actions l pauseMs as).run.under (answer m) cancelled =
      if cancelled = true ∧ as ≠ [] then .error .cancelled
      else verdict m (as.findSome? (Action.firstKey? l)) := by
  induction as with
  | nil => simp [actions]
  | cons a as ih =>
    rw [actions, ExceptT.run_bind_lift, Script.under_bind]
    cases cancelled with
    | true => rfl
    | false =>
      have hrest : (do action l a; ExceptT.lift (Script.pause pauseMs); actions l pauseMs as :
          Typing Unit).run.under (answer m) false =
            verdict m ((a :: as).findSome? (Action.firstKey? l)) := by
        rw [under_bind, under_action, findSome?_cons_or, EventPoster.verdict_or]
        simp only [under_bind, under_lift, ih, Except.bind]
        simp
      exact hrest

end Typing

/-- On a system that trusts this process, a run ends with the verdict on the first key of its
sequence, unless it is cancelled before the first action. -/
theorem Keyboard.under_perform (k : Keyboard) (trusted cancelled : Bool) (pauseMs : Nat)
    (s : Sequence) (m : Creation) :
    (k.perform trusted pauseMs s).under (EventPoster.answer m) cancelled =
      if trusted = false then .error (.notPermitted k.hint)
      else if cancelled = true ∧ s.actions ≠ [] then .error .cancelled
      else EventPoster.verdict m (s.firstKey? k.layout) := by
  unfold perform
  cases trusted with
  | false => rfl
  | true =>
    simp only [if_true, Script.under_bind, Script.under_pure, Typing.under_actions]
    rfl

/-! ## Cancellation -/

namespace Script

variable {answer : NativeCall → NativeReply}

/-- Whether a script heeds every look that shows the run cancelled: it is over with that then, and
nothing changes this. -/
def Heeds (answer : NativeCall → NativeReply) : Script TypingResult → Prop
  | done _ => True
  | call c next => Heeds answer (next (answer c))
  | look next => (∀ b, (next true).under answer b = .error .cancelled) ∧ Heeds answer (next true) ∧
      Heeds answer (next false)
  | wait _ next => Heeds answer next

/-- Behind a script that does not look, only what follows has to heed. -/
theorem Blind.heeds_bind {α : Type} {s : Script α} (hs : s.Blind) {f : α → Script TypingResult}
    (hf : ∀ a, (f a).Heeds answer) : (s >>= f).Heeds answer := by
  change (s.bind f).Heeds answer
  induction s with
  | done a => exact hf a
  | call c next ih => exact ih _ (hs _)
  | look next => exact hs.elim
  | wait ms next ih => exact ih hs

/-- Whether it is cancelled from now on decides on such a script, or does not matter. -/
theorem Heeds.under_true {s : Script TypingResult} (h : s.Heeds answer) :
    s.under answer true = .error .cancelled ∨ s.under answer true = s.under answer false := by
  induction s with
  | done r => exact .inr rfl
  | call c next ih => exact ih _ h
  | look next => exact .inl (h.1 true)
  | wait ms next ih => exact ih h

end Script

/-- Actions heed cancellation, if what follows them goes on with how they ended. -/
theorem Typing.heeds_actions {l : Layout} {answer : NativeCall → NativeReply} (pauseMs : Nat)
    (as : List Action) {f : TypingResult → Script TypingResult} (hf : ∀ r, (f r).Heeds answer)
    (hcancelled : ∀ b, (f (.error .cancelled)).under answer b = .error .cancelled) :
    ((actions l pauseMs as).run >>= f).Heeds answer := by
  induction as with
  | nil => exact hf _
  | cons a as ih =>
    rw [actions, ExceptT.run_bind_lift, bind_assoc]
    refine ⟨hcancelled, hf _, ?_⟩
    show ((do action l a; ExceptT.lift (Script.pause pauseMs); actions l pauseMs as :
      Typing Unit).run >>= f).Heeds answer
    rw [ExceptT.run_bind, bind_assoc]
    refine (blind_action l a).heeds_bind fun r ↦ ?_
    cases r with
    | error e => exact hf _
    | ok _ =>
      show ((ExceptT.lift (Script.pause pauseMs) >>= fun _ ↦ actions l pauseMs as :
        Typing Unit).run >>= f).Heeds answer
      rw [ExceptT.run_bind_lift, bind_assoc]
      refine Script.Blind.heeds_bind ?_ fun _ ↦ ih
      unfold Script.pause
      split <;> trivial

/-- So does a run. -/
theorem Keyboard.heeds_perform (k : Keyboard) (trusted : Bool) (pauseMs : Nat) (s : Sequence)
    (answer : NativeCall → NativeReply) : (k.perform trusted pauseMs s).Heeds answer := by
  unfold perform
  cases trusted with
  | false => trivial
  | true =>
    refine (Script.blind_releaseModifiers k.layout).heeds_bind fun _ ↦ ?_
    refine Typing.heeds_actions pauseMs s.actions (fun r ↦ ?_) fun b ↦ ?_
    · exact (Script.blind_releaseModifiers k.layout).heeds_bind fun _ ↦ trivial
    · rw [Script.under_bind]
      rfl

end Typist

import Mathlib.Data.List.Basic
import Typist.Dispatcher

/-!
# Streams of events

What an observer makes of the events alone: which sequence is under way, what came of a trigger, and
which chord is registered. None of this mentions the daemon; that what it shows is such a stream is
shown with its steps.
-/

namespace Typist

namespace Event

/-- Whether an event tells of a sequence. -/
def isOfSequence : Event → Bool
  | sequenceStarted _ | sequenceFinished .. | sequenceFailed _ => true
  | _ => false

/-- Whether an event tells what came of a trigger. -/
def isReaction : Event → Bool
  | sequenceStarted _ | sequenceFailed _ | triggerRejected _ => true
  | _ => false

/-- Whether an event tells of the registered chord. -/
def isOfHotkey : Event → Bool
  | hotkeyRegistered _ | hotkeyUnregistered => true
  | _ => false

/-- What came of a trigger is no news of the registered chord. -/
theorem isOfHotkey_of_isReaction {e : Event} (h : e.isReaction = true) : e.isOfHotkey = false := by
  cases e <;> first | rfl | cases h

/-- A stream of events that is made of blocks, read from one moment on up to another. A block that
is open is known by the number of actions that it was opened with. -/
inductive Blocks : Option UInt64 → List Event → Option UInt64 → Prop
  | nil (o : Option UInt64) : Blocks o [] o
  /-- A template that is rejected while no block is open is a block by itself. -/
  | rejected {reason : String} {es : List Event} {o : Option UInt64} :
      (∃ e : CompileError, reason = e.message) → Blocks none es o →
      Blocks none (sequenceFailed reason :: es) o
  | started (n : UInt64) {es : List Event} {o : Option UInt64} : Blocks (some n) es o →
      Blocks none (sequenceStarted n :: es) o
  | finished (n elapsedMs : UInt64) {es : List Event} {o : Option UInt64} : Blocks none es o →
      Blocks (some n) (sequenceFinished n elapsedMs :: es) o
  | failed (n : UInt64) (reason : String) {es : List Event} {o : Option UInt64} :
      Blocks none es o → Blocks (some n) (sequenceFailed reason :: es) o
  | other {e : Event} {es : List Event} {o o' : Option UInt64} : e.isOfSequence = false →
      Blocks o es o' → Blocks o (e :: es) o'

/-- Reading on where a stream was left. -/
theorem Blocks.append {o o' o'' : Option UInt64} {es es' : List Event} (h : Blocks o es o')
    (h' : Blocks o' es' o'') : Blocks o (es ++ es') o'' := by
  induction h with
  | nil => exact h'
  | rejected hr _ ih => exact .rejected hr (ih h')
  | started n _ ih => exact .started n (ih h')
  | finished n ms _ ih => exact .finished n ms (ih h')
  | failed n reason _ ih => exact .failed n reason (ih h')
  | other he _ ih => exact .other he (ih h')

/-- A stream tells whether a block is open, and which. -/
theorem Blocks.unique {o o' o'' : Option UInt64} {es : List Event} (h : Blocks o es o')
    (h' : Blocks o es o'') : o' = o'' := by
  induction h with
  | nil => cases h' with | nil => rfl
  | rejected _ _ ih =>
    cases h' with
    | rejected _ h' => exact ih h'
    | other he => cases he
  | started n _ ih =>
    cases h' with
    | started _ h' => exact ih h'
    | other he => cases he
  | finished n ms _ ih =>
    cases h' with
    | finished _ _ h' => exact ih h'
    | other he => cases he
  | failed n reason _ ih =>
    cases h' with
    | failed _ _ h' => exact ih h'
    | other he => cases he
  | other he _ ih =>
    cases h' with
    | other _ h' => exact ih h'
    | _ => cases he

/-- Whether every trigger in a stream is followed at once by what came of it. -/
def Reacted (es : List Event) : Prop :=
  ∀ pre post, es = pre ++ hotkeyTriggered :: post →
    ∃ e rest, post = e :: rest ∧ e.isReaction = true

theorem reacted_of_not_mem {es : List Event} (h : hotkeyTriggered ∉ es) : Reacted es := by
  rintro pre post rfl
  simp at h

theorem reacted_pair {e : Event} (h : e.isReaction = true) : Reacted [hotkeyTriggered, e] := by
  intro pre post hs
  rcases pre with _ | ⟨_, _ | ⟨_, _⟩⟩
  · cases hs
    exact ⟨e, [], rfl, h⟩
  · cases hs
    cases h
  · simp at hs

theorem Reacted.append {es es' : List Event} (h : Reacted es) (h' : Reacted es') :
    Reacted (es ++ es') := by
  intro pre post hs
  obtain ⟨mid, rfl, hm⟩ | ⟨mid, rfl, hm⟩ := List.append_eq_append_iff.mp hs
  · exact h' mid post hm
  · cases mid with
    | nil => exact h' [] post hm.symm
    | cons _ mid =>
      cases hm
      obtain ⟨e, rest, rfl, he⟩ := h pre mid rfl
      exact ⟨e, rest ++ es', rfl, he⟩

end Event

/-! ## The latest of a kind -/

/-- Whether a list has an element of one kind, and none of another kind behind it. -/
def Latest {α : Type} (p q : α → Prop) (l : List α) : Prop :=
  ∃ pre a post, l = pre ++ a :: post ∧ p a ∧ ∀ b ∈ post, ¬ q b

section Latest

variable {α : Type} {p q : α → Prop} {l m : List α}

theorem not_latest_nil : ¬ Latest p q [] := by
  rintro ⟨pre, a, post, h, -⟩
  simp at h

theorem latest_singleton {a : α} : Latest p q [a] ↔ p a := by
  constructor
  · rintro ⟨pre, b, post, h, hp, -⟩
    rw [List.singleton_eq_append_iff] at h
    simp_all
  · intro h
    exact ⟨[], a, [], rfl, h, nofun⟩

/-- The latest element is the latest of the last part, or that part does not matter. -/
theorem latest_append :
    Latest p q (l ++ m) ↔ Latest p q m ∨ Latest p q l ∧ ∀ b ∈ m, ¬ q b := by
  constructor
  · rintro ⟨pre, a, post, hs, hp, hq⟩
    obtain ⟨mid, rfl, hm⟩ | ⟨mid, rfl, hm⟩ := List.append_eq_append_iff.mp hs
    · exact .inl ⟨mid, a, post, hm, hp, hq⟩
    · cases mid with
      | nil => exact .inl ⟨[], a, post, hm.symm, hp, hq⟩
      | cons _ mid =>
        cases hm
        exact .inr ⟨⟨pre, a, mid, rfl, hp, fun b hb ↦ hq b (List.mem_append_left m hb)⟩,
          fun b hb ↦ hq b (List.mem_append_right mid hb)⟩
  · rintro (⟨pre, a, post, rfl, hp, hq⟩ | ⟨⟨pre, a, post, rfl, hp, hq⟩, hm⟩)
    · exact ⟨l ++ pre, a, post, (List.append_assoc ..).symm, hp, hq⟩
    · exact ⟨pre, a, post ++ m, by simp, hp, List.forall_mem_append.mpr ⟨hq, hm⟩⟩

/-- What is of neither kind does not matter. -/
theorem latest_append_of_not (h : ∀ b ∈ m, ¬ p b ∧ ¬ q b) :
    Latest p q (l ++ m) ↔ Latest p q l := by
  rw [latest_append]
  constructor
  · rintro (⟨pre, a, post, rfl, hp, -⟩ | ⟨hl, -⟩)
    · exact absurd hp (h a (by simp)).1
    · exact hl
  · intro hl
    exact .inr ⟨hl, fun b hb ↦ (h b hb).2⟩

end Latest

/-- Whether the last that events tell of a chord is that this one was registered. -/
def Event.Registered (hotkey : String) (es : List Event) : Prop :=
  Latest (· = .hotkeyRegistered hotkey) (·.isOfHotkey = true) es

/-- Whether an entry was armed, and none disarmed after it. -/
def Command.Arming (cs : List Command) : Prop :=
  Latest (fun c ↦ ∃ entry template, c = .arm entry template) (· = .disarm) cs

/-- Whether a snapshot says what the events and the handled commands before it say. -/
structure Snapshot.IsTrue (s : Snapshot) (es : List Event) (cs : List Command) : Prop where
  typing_iff : s.state = .typing ↔ ∃ n, Event.Blocks none es (some n)
  hotkey_iff : ∀ hotkey, s.hotkey = some hotkey ↔ Event.Registered hotkey es
  armed_iff : s.armed = true ↔ Command.Arming cs

end Typist

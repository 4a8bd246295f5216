import Typist.Chord

/-!
# The chord monitor

The monitor owns at most one registration with the system. Registering first releases what was
registered, and a registration that fails leaves nothing registered. What the system does is given
by a platform, whose state the monitor carries.
-/

namespace Typist

/-- Why a chord could not be registered. -/
inductive RegistrationError
  | emptyChord
  | unmappableKey (key : String)
  /-- The system does not permit it; the hint tells which setting to change. -/
  | notPermitted (hint : String)
  | listenerFailed (reason : String)
  | unsupported
  | threadFailed (reason : String)
  deriving DecidableEq, Repr

/-- The wording of a registration error. -/
def RegistrationError.message : RegistrationError → String
  | .emptyChord => "hotkey is empty"
  | .unmappableKey k => "key '" ++ k ++ "' cannot be used as a global hotkey"
  | .notPermitted hint => "global hotkey not permitted: " ++ hint
  | .listenerFailed reason => "failed to create keyboard listener: " ++ reason
  | .unsupported => "global hotkeys are not supported on this platform"
  | .threadFailed reason => "failed to spawn listener thread: " ++ reason

/-- The advice for a user whose system has no input access to give. -/
def noAccessHint : String := "Auto-Type is not available on this platform."

/-- The name of an installed listener. -/
abbrev ListenerId := Nat

/-- What a system offers for listening to the keyboard, over its state. -/
structure Platform (σ : Type) where
  layout : Layout
  hint : String := noAccessHint
  permitted : σ → Bool
  install : Target → σ → σ × Except RegistrationError ListenerId
  stop : ListenerId → σ → σ

/-- A platform without listeners: nothing has to be permitted, and installing fails. -/
def Platform.unsupported (σ : Type) (layout : Layout) : Platform σ where
  layout := layout
  permitted _ := true
  install _ s := (s, .error .unsupported)
  stop _ s := s

/-- How far a registration is. -/
inductive Registration
  | none
  /-- The system has been asked to install a listener for the chord. -/
  | pending (chord : Chord)
  | active (chord : Chord) (listener : ListenerId)
  deriving DecidableEq

/-- The registration together with the state of the system. -/
structure Monitor (σ : Type) where
  system : σ
  registration : Registration := .none

namespace Monitor

variable {σ : Type}

/-- The registered chord. -/
def chord? (m : Monitor σ) : Option Chord :=
  match m.registration with
  | .active c _ => some c
  | _ => none

/-- The listener of the registered chord. -/
def listener? (m : Monitor σ) : Option ListenerId :=
  match m.registration with
  | .active _ l => some l
  | _ => none

/-- Whether a chord is registered. -/
def isRegistered (m : Monitor σ) : Bool := m.chord?.isSome

/-- Release the registration, if there is one. -/
def unregister (p : Platform σ) (m : Monitor σ) : Monitor σ :=
  match m.registration with
  | .active _ l => ⟨p.stop l m.system, .none⟩
  | _ => ⟨m.system, .none⟩

/-- What a chord needs before the system is asked: a key, a native target, and permission, checked
in this order. -/
def qualify (p : Platform σ) (system : σ) (chord : Option Chord) :
    Except RegistrationError (Chord × Target) :=
  match chord with
  | none => .error .emptyChord
  | some c =>
    match c.target? p.layout with
    | none => .error (.unmappableKey c.key.text)
    | some t => if p.permitted system then .ok (c, t) else .error (.notPermitted p.hint)

/-- The answer of the system to a pending registration. -/
def settle (m : Monitor σ) (system : σ) (answer : Except RegistrationError ListenerId) :
    Monitor σ × Except RegistrationError Unit :=
  match m.registration, answer with
  | .pending c, .ok l => (⟨system, .active c l⟩, .ok ())
  | _, .error e => (⟨system, .none⟩, .error e)
  | _, .ok _ => (⟨system, .none⟩, .ok ())

/-- Replace the registration by a chord. -/
def register (p : Platform σ) (m : Monitor σ) (chord : Option Chord) :
    Monitor σ × Except RegistrationError Unit :=
  let released := m.unregister p
  match qualify p released.system chord with
  | .error e => (released, .error e)
  | .ok (c, t) =>
    let pending : Monitor σ := { released with registration := .pending c }
    let (system, answer) := p.install t pending.system
    pending.settle system answer

@[simp] theorem registration_unregister (p : Platform σ) (m : Monitor σ) :
    (m.unregister p).registration = .none := by
  unfold unregister
  split <;> rfl

/-- A registration that fails leaves nothing registered. -/
theorem registration_of_register_error {p : Platform σ} {m m' : Monitor σ} {chord : Option Chord}
    {e : RegistrationError} (h : m.register p chord = (m', .error e)) :
    m'.registration = .none := by
  simp only [register] at h
  cases ha : qualify p (m.unregister p).system chord with
  | error _ =>
    simp only [ha, Prod.mk.injEq] at h
    rw [← h.1, registration_unregister]
  | ok ct =>
    obtain ⟨c, t⟩ := ct
    cases hi : (p.install t (m.unregister p).system).2 with
    | error _ =>
      simp only [ha, settle, hi, Prod.mk.injEq] at h
      rw [← h.1]
    | ok _ => simp [ha, settle, hi] at h

end Monitor

end Typist

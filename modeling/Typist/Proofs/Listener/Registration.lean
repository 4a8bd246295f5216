import Mathlib.Data.List.Basic
import Typist.Listener.Monitor

/-!
# The fields of a monitor

A monitor seen field by field: the phase of its registration, the chord, the listener, and the
system, whose contacts with the monitor are noted. Each operation sets these one after the other. At
the end of every operation they tell the same, and the system has been asked to stop every listener
once that it has installed, except for the one that is held.
-/

namespace Typist

/-- What passes between a monitor and the system. -/
inductive Contact
  /-- The system has installed a listener for a target. -/
  | installed (t : Target) (l : ListenerId)
  /-- The system is asked to stop a listener. -/
  | stopped (l : ListenerId)
  deriving DecidableEq, Repr

namespace Contact

/-- Whether a listener is installed. -/
def isInstalled : Contact → Bool
  | installed .. => true
  | stopped _ => false

/-- A listener for a target that is installed, and stopped again before any other contact. -/
def visit (v : Target × ListenerId) : List Contact := [installed v.1 v.2, stopped v.2]

/-- As many listeners are stopped as are installed. -/
theorem countP_visits (past : List (Target × ListenerId)) :
    (past.flatMap visit).countP isInstalled =
      (past.flatMap visit).countP fun c ↦ !c.isInstalled := by
  induction past with
  | nil => rfl
  | cons v past ih =>
    rw [List.flatMap_cons, List.countP_append, List.countP_append, ih]
    rfl

end Contact

/-- The state of a system, with the contacts so far. -/
structure Noted (σ : Type) where
  system : σ
  contacts : List Contact := []

/-- The platform that notes its contacts, and else does what it did before. -/
def Platform.noting {σ : Type} (p : Platform σ) : Platform (Noted σ) where
  layout := p.layout
  hint := p.hint
  permitted s := p.permitted s.system
  install t s :=
    match p.install t s.system with
    | (system, .ok l) => (⟨system, s.contacts ++ [.installed t l]⟩, .ok l)
    | (system, .error e) => (⟨system, s.contacts⟩, .error e)
  stop l s := ⟨p.stop l s.system, s.contacts ++ [.stopped l]⟩

namespace Monitor

variable {σ : Type}

/-- How far the registration of a monitor is. -/
inductive Phase
  | unregistered
  | registering
  | registered
  deriving DecidableEq, Repr

/-- A monitor field by field. -/
structure Fields (σ : Type) where
  system : σ
  phase : Phase := .unregistered
  /-- The chord that is registered. -/
  current : Option Chord := none
  /-- The listener that is held. -/
  listener : Option ListenerId := none

namespace Fields

/-- Give up the listener and have it stopped, forget the chord, and be unregistered. -/
def unregister (p : Platform σ) (f : Fields σ) : Fields σ :=
  let f :=
    match f.listener with
    | some l => { f with listener := none, system := p.stop l f.system }
    | none => f
  let f := { f with current := none }
  { f with phase := .unregistered }

/-- Replace the registration by a chord, if it qualifies and the system installs a listener. -/
def register (p : Platform σ) (f : Fields σ) (chord : Option Chord) :
    Fields σ × Except RegistrationError Unit :=
  let f := f.unregister p
  match qualify p f.system chord with
  | .error e => (f, .error e)
  | .ok (c, t) =>
    let f := { f with phase := .registering }
    match p.install t f.system with
    | (system, .ok l) =>
      let f := { f with system, listener := some l }
      let f := { f with current := some c }
      ({ f with phase := .registered }, .ok ())
    | (system, .error e) => ({ f with system, phase := .unregistered }, .error e)

/-- The fields of a monitor. -/
def of (m : Monitor σ) : Fields σ :=
  match m.registration with
  | .none => ⟨m.system, .unregistered, none, none⟩
  | .pending _ => ⟨m.system, .registering, none, none⟩
  | .active c l => ⟨m.system, .registered, some c, some l⟩

/-- Releasing field by field is releasing. -/
theorem unregister_of (p : Platform σ) (m : Monitor σ) :
    (of m).unregister p = of (m.unregister p) := by
  unfold of Monitor.unregister
  cases m.registration <;> rfl

/-- Registering field by field is registering. -/
theorem register_of (p : Platform σ) (m : Monitor σ) (chord : Option Chord) :
    (of m).register p chord = (of (m.register p chord).1, (m.register p chord).2) := by
  have hsystem : (of (m.unregister p)).system = (m.unregister p).system := by
    unfold of
    split <;> rfl
  have hnone : of (m.unregister p) = ⟨(m.unregister p).system, .unregistered, none, none⟩ := by
    rw [of, registration_unregister]
  rw [register, Monitor.register, unregister_of]
  simp only [hsystem]
  cases qualify p (m.unregister p).system chord with
  | error e => rfl
  | ok ct =>
    obtain ⟨c, t⟩ := ct
    simp only [hnone]
    rcases hi : p.install t (m.unregister p).system with ⟨system, e | l⟩
    · simp only [hi, settle, of]
    · simp only [hi, settle, of]

end Fields

/-! ## Operations -/

/-- What happens to a monitor, or to the system beside it. -/
inductive Operation (σ : Type)
  | register (chord : Option Chord)
  | unregister
  /-- The system changes on its own. -/
  | elsewhere (change : σ → σ)

/-- One operation on a monitor whose contacts are noted. -/
def operate (p : Platform σ) (m : Monitor (Noted σ)) : Operation σ → Monitor (Noted σ)
  | .register chord => (m.register p.noting chord).1
  | .unregister => m.unregister p.noting
  | .elsewhere change => { m with system := { m.system with system := change m.system.system } }

namespace Fields

/-- One operation, field by field. -/
def operate (p : Platform σ) (f : Fields (Noted σ)) : Operation σ → Fields (Noted σ)
  | .register chord => (f.register p.noting chord).1
  | .unregister => f.unregister p.noting
  | .elsewhere change => { f with system := { f.system with system := change f.system.system } }

theorem operate_of (p : Platform σ) (m : Monitor (Noted σ)) (op : Operation σ) :
    (of m).operate p op = of (m.operate p op) := by
  cases op with
  | register chord => exact congrArg Prod.fst (register_of p.noting m chord)
  | unregister => exact unregister_of p.noting m
  | elsewhere change =>
    unfold of operate Monitor.operate
    cases m.registration <;> rfl

/-- Operations field by field are the operations. -/
theorem foldl_operate_of (p : Platform σ) (m : Monitor (Noted σ)) (ops : List (Operation σ)) :
    ops.foldl (operate p) (of m) = of (ops.foldl (Monitor.operate p) m) := by
  induction ops generalizing m with
  | nil => rfl
  | cons op ops ih => rw [List.foldl_cons, List.foldl_cons, operate_of, ih]

/-! ## Fields in step -/

/-- Whether the fields tell the same: nothing is registered, and every listener was stopped that was
installed; or a chord is, and the listener for its target is the only one that was not. -/
inductive InStep (p : Platform σ) : Fields (Noted σ) → Prop
  | idle {s : Noted σ} {past : List (Target × ListenerId)} :
      s.contacts = past.flatMap Contact.visit → InStep p ⟨s, .unregistered, none, none⟩
  | active {s : Noted σ} {past : List (Target × ListenerId)} {c : Chord} {t : Target}
      {l : ListenerId} : c.target? p.layout = some t →
      s.contacts = past.flatMap Contact.visit ++ [.installed t l] →
      InStep p ⟨s, .registered, some c, some l⟩

variable {p : Platform σ} {f : Fields (Noted σ)}

/-- Releasing stops the listener that is held, and leaves nothing. -/
theorem unregister_noting (p : Platform σ) (f : Fields (Noted σ)) :
    ∃ s, f.unregister p.noting = ⟨s, .unregistered, none, none⟩ ∧
      s.contacts = f.system.contacts ++ f.listener.toList.map Contact.stopped := by
  obtain ⟨s, phase, current, listener⟩ := f
  cases listener with
  | none => exact ⟨s, rfl, (List.append_nil _).symm⟩
  | some l => exact ⟨_, rfl, rfl⟩

/-- Every listener is stopped then. -/
theorem InStep.contacts_unregister (h : InStep p f) :
    ∃ past : List (Target × ListenerId),
      f.system.contacts ++ f.listener.toList.map Contact.stopped = past.flatMap Contact.visit := by
  cases h with
  | @idle s past hs => exact ⟨past, (List.append_nil _).trans hs⟩
  | @active s past c t l _ hs =>
    refine ⟨past ++ [(t, l)], ?_⟩
    rw [hs, List.flatMap_append, List.append_assoc]
    rfl

/-- A chord that qualifies has its target in the layout. -/
theorem target?_of_qualify {s : σ} {chord : Option Chord} {c : Chord} {t : Target}
    (h : qualify p s chord = .ok (c, t)) : chord = some c ∧ c.target? p.layout = some t := by
  unfold qualify at h
  cases chord with
  | none => cases h
  | some c' =>
    cases ht : c'.target? p.layout with
    | none =>
      simp only [ht] at h
      cases h
    | some t' =>
      simp only [ht] at h
      split at h
      · cases h
        exact ⟨rfl, ht⟩
      · cases h

/-- A registration that fails leaves what a release leaves. One that succeeds holds the listener for
the target of its chord, which was installed behind the release. -/
theorem register_noting (p : Platform σ) (f : Fields (Noted σ)) (chord : Option Chord) :
    ∃ s : Noted σ,
      ((∃ e, f.register p.noting chord = (⟨s, .unregistered, none, none⟩, .error e)) ∧
        s.contacts = f.system.contacts ++ f.listener.toList.map Contact.stopped) ∨
      ∃ c t l, f.register p.noting chord = (⟨s, .registered, some c, some l⟩, .ok ()) ∧
        chord = some c ∧ c.target? p.layout = some t ∧
        s.contacts =
          f.system.contacts ++ f.listener.toList.map Contact.stopped ++ [.installed t l] := by
  obtain ⟨s, hs, hcontacts⟩ := unregister_noting p f
  cases hq : qualify p.noting s chord with
  | error e => exact ⟨s, .inl ⟨⟨e, by simp only [register, hs, hq]⟩, hcontacts⟩⟩
  | ok ct =>
    obtain ⟨c, t⟩ := ct
    obtain ⟨hchord, htarget⟩ := target?_of_qualify hq
    have hinstall : p.noting.install t s =
        match p.install t s.system with
        | (system, .ok l) => (⟨system, s.contacts ++ [.installed t l]⟩, .ok l)
        | (system, .error e) => (⟨system, s.contacts⟩, .error e) := rfl
    rcases hi : p.install t s.system with ⟨system, e | l⟩
    · refine ⟨⟨system, s.contacts⟩, .inl ⟨⟨e, ?_⟩, hcontacts⟩⟩
      simp only [register, hs, hq, hinstall, hi]
    · refine ⟨⟨system, s.contacts ++ [.installed t l]⟩, .inr ⟨c, t, l, ?_, hchord, htarget, ?_⟩⟩
      · simp only [register, hs, hq, hinstall, hi]
      · rw [hcontacts]

/-- Every operation keeps the fields in step. -/
theorem InStep.operate (h : InStep p f) (op : Operation σ) : InStep p (f.operate p op) := by
  obtain ⟨past, hpast⟩ := h.contacts_unregister
  cases op with
  | register chord =>
    obtain ⟨s, ⟨⟨e, hr⟩, hcontacts⟩ | ⟨c, t, l, hr, -, htarget, hcontacts⟩⟩ :=
      register_noting p f chord
    · rw [Fields.operate, hr]
      exact .idle (hcontacts.trans hpast)
    · rw [Fields.operate, hr]
      rw [hpast] at hcontacts
      exact .active htarget hcontacts
  | unregister =>
    obtain ⟨s, hs, hcontacts⟩ := unregister_noting p f
    rw [Fields.operate, hs]
    exact .idle (hcontacts.trans hpast)
  | elsewhere change =>
    cases h with
    | idle hs => exact .idle hs
    | active htarget hs => exact .active htarget hs

theorem InStep.foldl_operate (h : InStep p f) (ops : List (Operation σ)) :
    InStep p (ops.foldl (Fields.operate p) f) := by
  induction ops generalizing f with
  | nil => exact h
  | cons op ops ih => exact ih (h.operate op)

/-- What the fields tell at the end of an operation, and what the next one leaves. -/
structure Accord (p : Platform σ) (f : Fields (Noted σ)) : Prop where
  /-- The monitor is registered exactly if it holds a listener, -/
  listener : f.phase = .registered ↔ f.listener.isSome = true
  /-- and exactly if it has a chord. -/
  current : f.phase = .registered ↔ f.current.isSome = true
  settled : f.phase ≠ .registering
  /-- All listeners that were installed were stopped once, except for one if the monitor is
  registered: this one is held, and listens for the target of the chord. -/
  live : ∃ past live : List (Target × ListenerId),
    f.system.contacts = past.flatMap Contact.visit ++ live.map (fun v ↦ .installed v.1 v.2) ∧
    live.length = (if f.phase = .registered then 1 else 0) ∧
    ∀ v ∈ live, f.listener = some v.2 ∧ (f.current.bind fun c ↦ c.target? p.layout) = some v.1
  count : f.system.contacts.countP Contact.isInstalled =
    f.system.contacts.countP (fun c ↦ !c.isInstalled) + (if f.phase = .registered then 1 else 0)
  /-- A release, with which the monitor also ends, stops the listener that is held, and leaves none
  that was not stopped. -/
  released : ∃ s : Noted σ, ∃ past : List (Target × ListenerId),
    f.unregister p.noting = ⟨s, .unregistered, none, none⟩ ∧
    s.contacts = f.system.contacts ++ f.listener.toList.map Contact.stopped ∧
    s.contacts = past.flatMap Contact.visit
  /-- So does a registration that fails, and one that succeeds has its chord registered. -/
  registered : ∀ chord, ∃ s : Noted σ,
    ((∃ e, f.register p.noting chord = (⟨s, .unregistered, none, none⟩, .error e)) ∧
      s.contacts = f.system.contacts ++ f.listener.toList.map Contact.stopped) ∨
    ∃ c l, f.register p.noting chord = (⟨s, .registered, some c, some l⟩, .ok ()) ∧
      chord = some c

/-- Fields that are in step tell all this. -/
theorem InStep.accord (h : InStep p f) : f.Accord p := by
  obtain ⟨past, hpast⟩ := h.contacts_unregister
  constructor
  · cases h <;> simp
  · cases h <;> simp
  · cases h <;> simp
  · cases h with
    | @idle s past hs => exact ⟨past, [], hs.trans (List.append_nil _).symm, rfl, nofun⟩
    | @active s past c t l htarget hs =>
      refine ⟨past, [(t, l)], hs, rfl, fun v hv ↦ ?_⟩
      rw [List.mem_singleton.mp hv]
      exact ⟨rfl, htarget⟩
  · cases h with
    | idle hs =>
      rw [hs, Contact.countP_visits]
      rfl
    | active _ hs =>
      rw [hs, List.countP_append, List.countP_append, Contact.countP_visits]
      rfl
  · obtain ⟨s, hs, hcontacts⟩ := unregister_noting p f
    exact ⟨s, past, hs, hcontacts, hcontacts.trans hpast⟩
  · intro chord
    obtain ⟨s, hfails | ⟨c, t, l, hr, hchord, -⟩⟩ := register_noting p f chord
    · exact ⟨s, .inl hfails⟩
    · exact ⟨s, .inr ⟨c, l, hr, hchord⟩⟩

end Fields

/-- After any operations, on any platform that changes as it likes, the fields are those of the
monitor, and they are in accord with each other and with what the system was asked to do. -/
theorem registration_in_step (p : Platform σ) (s : σ) (ops : List (Operation σ)) :
    ops.foldl (Fields.operate p) ⟨⟨s, []⟩, .unregistered, none, none⟩ =
        Fields.of (ops.foldl (operate p) ⟨⟨s, []⟩, .none⟩) ∧
      (ops.foldl (Fields.operate p) ⟨⟨s, []⟩, .unregistered, none, none⟩).Accord p := by
  have hidle : Fields.InStep p ⟨⟨s, []⟩, .unregistered, none, none⟩ :=
    .idle (show [] = [].flatMap Contact.visit from rfl)
  exact ⟨Fields.foldl_operate_of p ⟨⟨s, []⟩, .none⟩ ops, (hidle.foldl_operate ops).accord⟩

end Monitor

end Typist

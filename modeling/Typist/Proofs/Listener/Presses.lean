import Mathlib.Data.List.Forall2
import Typist.Listener.KeyboardHook

/-!
# Presses of the target's key

What a keyboard hook lets through of the presses of its target's key, while the modifiers that are
held come and go. Each key-down is judged for itself, and the key-up by whether a key-down of its
press was swallowed. So applications see a press from its first key-down to its key-up, or not at
all, except where some key-downs of it were swallowed and others were not: such a press they never
see end.
-/

namespace Typist

/-- Whether a message of a key is to be acted upon, and was not injected. -/
def KeyMessage.IsPhysical (m : KeyMessage) (code : KeyCode) : Prop :=
  m.code = code ∧ m.injected = false ∧ m.actionable = true

instance (m : KeyMessage) (code : KeyCode) : Decidable (m.IsPhysical code) :=
  inferInstanceAs (Decidable (_ ∧ _ ∧ _))

/-- A press of a key: key-downs that repeat while it is held, and then the key-up, each with the
modifiers held at that moment. -/
structure Press (code : KeyCode) where
  downs : List (KeyMessage × Modifiers)
  up : KeyMessage × Modifiers
  begun : downs ≠ []
  isDown : ∀ m ∈ downs, m.1.isDown = true ∧ m.1.IsPhysical code
  isUp : up.1.isUp = true ∧ up.1.IsPhysical code

namespace Press

variable {code : KeyCode}

/-- The messages of a press, in order. -/
def messages (p : Press code) : List (KeyMessage × Modifiers) := p.downs ++ [p.up]

/-- Whether some key-downs of a press come under the given modifiers and others do not. -/
def IsMixed (p : Press code) (modifiers : Modifiers) : Prop :=
  (∃ m ∈ p.downs, m.2 = modifiers) ∧ ∃ m ∈ p.downs, m.2 ≠ modifiers

end Press

/-- What a hook does with the messages of a press. -/
structure PressVerdict where
  downs : List HookVerdict
  up : HookVerdict

namespace PressVerdict

/-- The verdicts, in the order of the messages. -/
def all (v : PressVerdict) : List HookVerdict := v.downs ++ [v.up]

/-- Whether applications see the key-up exactly if they have seen a key-down of the press. -/
def IsBalanced (v : PressVerdict) : Prop :=
  v.up.swallowed = false ↔ ∃ d ∈ v.downs, d.swallowed = false

end PressVerdict

namespace HookContext

variable {t : Target}

/-- What is done with a stream is done with its parts, one after the other. -/
theorem callAll_append (c : HookContext) (ms ns : List (KeyMessage × Modifiers)) :
    c.callAll (ms ++ ns) =
      (((c.callAll ms).1.callAll ns).1, (c.callAll ms).2 ++ ((c.callAll ms).1.callAll ns).2) := by
  induction ms generalizing c with
  | nil => rfl
  | cons m ms ih => simp only [List.cons_append, callAll, ih]

/-- A hook keeps its target. -/
theorem target_call (c : HookContext) (m : KeyMessage) (held : Modifiers) :
    (c.call m held).1.target = c.target := by
  unfold call handle
  split_ifs <;> rfl

/-- A key-down of the target's key is swallowed exactly under the target's modifiers. -/
theorem call_down (t : Target) (d : Bool) {m : KeyMessage} (hm : m.isDown = true)
    (hp : m.IsPhysical t.code) (held : Modifiers) :
    (call ⟨t, d⟩ m held).1 = ⟨t, d || decide (held = t.modifiers)⟩ ∧
      (call ⟨t, d⟩ m held).2.swallowed = decide (held = t.modifiers) := by
  obtain ⟨hcode, hinjected, hactionable⟩ := hp
  have hup : m.isUp = false := by
    unfold KeyMessage.isDown at hm
    unfold KeyMessage.isUp
    simp only [Bool.or_eq_true, beq_iff_eq] at hm
    rcases hm with hm | hm <;> rw [hm] <;> rfl
  have hacc : t.accepts m.code held = decide (held = t.modifiers) := by
    simp only [Target.accepts, hcode, decide_true, Bool.true_and]
    exact decide_eq_decide.mpr eq_comm
  cases h : decide (held = t.modifiers) with
  | false => simp [call, handle, hinjected, hactionable, hm, hup, hacc, h]
  | true => simp [call, handle, hinjected, hactionable, hm, hacc, h]

/-- Its key-up is swallowed exactly if a key-down has been since the last one. -/
theorem call_up (t : Target) (d : Bool) {m : KeyMessage} (hm : m.isUp = true)
    (hp : m.IsPhysical t.code) (held : Modifiers) :
    (call ⟨t, d⟩ m held).1 = ⟨t, false⟩ ∧ (call ⟨t, d⟩ m held).2.swallowed = d := by
  obtain ⟨hcode, hinjected, hactionable⟩ := hp
  have hdown : m.isDown = false := by
    unfold KeyMessage.isUp at hm
    unfold KeyMessage.isDown
    simp only [Bool.or_eq_true, beq_iff_eq] at hm
    rcases hm with hm | hm <;> rw [hm] <;> rfl
  cases d <;> simp [call, handle, hinjected, hactionable, hm, hdown, hcode]

/-- Key-downs are swallowed each by itself, and the hook remembers whether one was. -/
theorem callAll_downs (t : Target) (d : Bool) {ms : List (KeyMessage × Modifiers)}
    (hms : ∀ m ∈ ms, m.1.isDown = true ∧ m.1.IsPhysical t.code) :
    (callAll ⟨t, d⟩ ms).1 = ⟨t, d || (callAll ⟨t, d⟩ ms).2.any HookVerdict.swallowed⟩ ∧
      List.Forall₂ (fun m v ↦ v.swallowed = decide (m.2 = t.modifiers)) ms
        (callAll ⟨t, d⟩ ms).2 := by
  induction ms generalizing d with
  | nil => exact ⟨by simp [callAll], .nil⟩
  | cons m ms ih =>
    obtain ⟨hm, hp⟩ := hms m List.mem_cons_self
    obtain ⟨hcontext, hverdict⟩ := call_down t d hm hp m.2
    obtain ⟨hlast, hrest⟩ :=
      ih (d || decide (m.2 = t.modifiers)) fun n hn ↦ hms n (List.mem_cons_of_mem m hn)
    simp only [callAll, hcontext, List.any_cons, hverdict]
    rw [← Bool.or_assoc]
    exact ⟨hlast, .cons hverdict hrest⟩

/-- A press leaves the hook as it was before. Its key-up is swallowed if a key-down was. -/
theorem exists_verdict_callAll (t : Target) (p : Press t.code) :
    ∃ v : PressVerdict, callAll ⟨t, false⟩ p.messages = (⟨t, false⟩, v.all) ∧
      List.Forall₂ (fun m d ↦ d.swallowed = decide (m.2 = t.modifiers)) p.downs v.downs ∧
      v.up.swallowed = v.downs.any HookVerdict.swallowed := by
  obtain ⟨hcontext, hdowns⟩ := callAll_downs t false p.isDown
  rw [Bool.false_or] at hcontext
  obtain ⟨hlast, hup⟩ := call_up t ((callAll ⟨t, false⟩ p.downs).2.any HookVerdict.swallowed)
    p.isUp.1 p.isUp.2 p.up.2
  refine ⟨⟨(callAll ⟨t, false⟩ p.downs).2, (call ⟨t, _⟩ p.up.1 p.up.2).2⟩, ?_, hdowns, hup⟩
  rw [Press.messages, callAll_append, hcontext]
  simp only [callAll, hlast]
  rfl

/-- So the verdicts on a press are balanced exactly if its key-downs were all swallowed, or none. -/
theorem isBalanced_iff_not_isMixed {p : Press t.code} {v : PressVerdict}
    (hdowns : List.Forall₂ (fun m d ↦ d.swallowed = decide (m.2 = t.modifiers)) p.downs v.downs)
    (hup : v.up.swallowed = v.downs.any HookVerdict.swallowed) :
    v.IsBalanced ↔ ¬ p.IsMixed t.modifiers := by
  have hswallowed : (∃ d ∈ v.downs, d.swallowed = true) ↔ ∃ m ∈ p.downs, m.2 = t.modifiers := by
    generalize p.downs = ms at hdowns
    generalize v.downs = ds at hdowns
    induction hdowns with
    | nil => simp
    | cons h _ ih => simp [h, ih]
  have hpassed : (∃ d ∈ v.downs, d.swallowed = false) ↔ ∃ m ∈ p.downs, m.2 ≠ t.modifiers := by
    generalize p.downs = ms at hdowns
    generalize v.downs = ds at hdowns
    induction hdowns with
    | nil => simp
    | cons h _ ih => simp [h, ih]
  have hsome : ∃ m, m ∈ p.downs := List.exists_mem_of_ne_nil _ p.begun
  rw [PressVerdict.IsBalanced, hup, hpassed, Press.IsMixed, List.any_eq_false]
  constructor
  · intro h ⟨hin, hout⟩
    obtain ⟨d, hd, htrue⟩ := hswallowed.mpr hin
    exact h.mpr hout d hd htrue
  · intro h
    constructor
    · intro hnone
      obtain ⟨m, hm⟩ := hsome
      refine ⟨m, hm, fun heq ↦ ?_⟩
      obtain ⟨d, hd, htrue⟩ := hswallowed.mpr ⟨m, hm, heq⟩
      exact hnone d hd htrue
    · intro hout d hd htrue
      exact h ⟨hswallowed.mp ⟨d, hd, htrue⟩, hout⟩

/-- What a hook does with a stream of presses of its target's key: of each press it swallows the
key-downs that come under the target's modifiers, and the key-up if it swallowed a key-down. So it
keeps what applications see balanced in exactly those presses whose key-downs all come under the
target's modifiers, or none. -/
theorem balanced_iff (t : Target) (ps : List (Press t.code)) :
    ∃ vs : List PressVerdict,
      (callAll ⟨t, false⟩ (ps.flatMap Press.messages)).2 = vs.flatMap PressVerdict.all ∧
      List.Forall₂ (fun p v ↦
        List.Forall₂ (fun m d ↦ d.swallowed = decide (m.2 = t.modifiers)) p.downs v.downs ∧
        v.up.swallowed = v.downs.any HookVerdict.swallowed ∧
        (v.IsBalanced ↔ ¬ p.IsMixed t.modifiers)) ps vs := by
  induction ps with
  | nil => exact ⟨[], rfl, .nil⟩
  | cons p ps ih =>
    obtain ⟨v, hcall, hdowns, hup⟩ := exists_verdict_callAll t p
    obtain ⟨vs, hrest, hvs⟩ := ih
    refine ⟨v :: vs, ?_, .cons ⟨hdowns, hup, isBalanced_iff_not_isMixed hdowns hup⟩ hvs⟩
    rw [List.flatMap_cons, callAll_append, hcall, hrest, List.flatMap_cons]

end HookContext

/-- A press during which Control and Alt are put down. -/
def Press.joined : Press 0x41 where
  downs :=
    [(⟨0x41, 256, false, true⟩, {}),
      (⟨0x41, 256, false, true⟩, { control := true, alt := true })]
  up := (⟨0x41, 257, false, true⟩, { control := true, alt := true })
  begun := by decide
  isDown := by decide
  isUp := by decide

/-- Applications see it begin, but never end. -/
theorem HookContext.swallows_up_of_joined :
    ∃ v : PressVerdict,
      (callAll ⟨⟨0x41, { control := true, alt := true }⟩, false⟩ Press.joined.messages).2 = v.all ∧
      v.downs.map HookVerdict.swallowed = [false, true] ∧ v.up.swallowed = true ∧
      ¬ v.IsBalanced := by
  refine ⟨⟨[⟨false, []⟩, ⟨true, [.triggered]⟩], ⟨true, []⟩⟩, ?_, ?_, ?_, ?_⟩
  · decide
  · decide
  · decide
  · intro hbalanced
    have hdelivered := hbalanced.mpr ⟨_, List.mem_cons_self, rfl⟩
    cases hdelivered

end Typist

import Typist.Injector

/-!
# Typing on a system that grants everything

What a script gives and which native calls it makes when every call is carried out and the run is
never cancelled. The calls of a typing step are read off its parts; those of a whole run stand
between two releases of all modifiers.
-/

namespace Typist

/-- A system that carries out every call, notes the calls in order, and never cancels. -/
def Script.Host.granting : Script.Host (StateM (List NativeCall)) where
  call c := do
    modify (· ++ [c])
    return .ok ()
  isCancelled := return false
  wait _ := return ()

namespace Script

variable {α β : Type}

/-- What a script gives on such a system, and the calls that it makes. -/
def granted (s : Script α) : α × List NativeCall :=
  Id.run ((s.run Host.granting).run [])

private theorem run_granting (s : Script α) (before : List NativeCall) :
    (s.run Host.granting).run before = (s.granted.1, before ++ s.granted.2) := by
  induction s generalizing before with
  | done a => exact congrArg (Prod.mk a) (List.append_nil before).symm
  | call c next ih =>
    have hstep (cs : List NativeCall) : ((call c next).run Host.granting).run cs =
        ((next (.ok ())).run Host.granting).run (cs ++ [c]) := rfl
    have hgranted : (call c next).granted =
        ((next (.ok ())).granted.1, [c] ++ (next (.ok ())).granted.2) := by
      unfold granted
      rw [hstep, List.nil_append, ih]
      rfl
    rw [hstep, ih, hgranted, List.append_assoc]
  | look next ih => exact ih false before
  | wait ms next ih => exact ih before

@[simp] theorem granted_done (a : α) : (done a).granted = (a, []) := rfl

@[simp] theorem granted_call (c : NativeCall) (next : NativeReply → Script α) :
    (call c next).granted = ((next (.ok ())).granted.1, c :: (next (.ok ())).granted.2) := by
  change Id.run (((next (.ok ())).run Host.granting).run [c]) = _
  rw [run_granting]
  rfl

@[simp] theorem granted_look (next : Bool → Script α) :
    (look next).granted = (next false).granted := rfl

@[simp] theorem granted_wait (ms : Nat) (next : Script α) :
    (wait ms next).granted = next.granted := rfl

/-- The second of two scripts makes its calls after those of the first. -/
@[simp] theorem granted_bind (s : Script α) (f : α → Script β) :
    (s >>= f).granted =
      ((f s.granted.1).granted.1, s.granted.2 ++ (f s.granted.1).granted.2) := by
  change (s.bind f).granted = _
  induction s with
  | done a => simp
  | call c next ih =>
    rw [bind, granted_call, ih]
    simp
  | look next ih =>
    rw [bind, granted_look, ih]
    simp
  | wait ms next ih =>
    rw [bind, granted_wait, ih]
    simp

@[simp] theorem granted_pure (a : α) : (pure a : Script α).granted = (a, []) := rfl

@[simp] theorem granted_pause (ms : Nat) : (pause ms).granted = ((), []) := by
  unfold pause
  split <;> rfl

/-- The calls that release every modifier of a layout. -/
def releases (l : Layout) : List NativeCall :=
  (Key.modifiers.filterMap l.code?).map fun code ↦ .key code false

theorem granted_releaseModifiers (l : Layout) :
    (releaseModifiers l).granted = ((), releases l) := by
  unfold releaseModifiers releases
  induction Key.modifiers.filterMap l.code? with
  | nil => rfl
  | cons code codes ih =>
    rw [List.forM_eq_forM] at ih ⊢
    rw [List.forM_cons, granted_bind, ih]
    rfl

end Script

namespace Typing

/-- Typing that, when everything is granted, ends well after exactly these calls. -/
def Makes (t : Typing Unit) (calls : List NativeCall) : Prop :=
  Script.granted t.run = (.ok (), calls)

theorem makes_pure : Makes (pure ()) [] := rfl

/-- One typing after the other makes the calls of both. -/
theorem Makes.bind {t u : Typing Unit} {cs ds : List NativeCall} (ht : Makes t cs)
    (hu : Makes u ds) : Makes (t >>= fun _ ↦ u) (cs ++ ds) := by
  unfold Makes at ht hu ⊢
  rw [ExceptT.run_bind, Script.granted_bind, ht]
  simp only
  rw [hu]

theorem makes_lift {s : Script Unit} {cs : List NativeCall} (h : s.granted = ((), cs)) :
    Makes (ExceptT.lift s) cs := by
  unfold Makes
  rw [ExceptT.run_lift, map_eq_pure_bind, Script.granted_bind, h, Script.granted_pure,
    List.append_nil]

theorem makes_keyEvent (code : KeyCode) (down : Bool) :
    Makes (keyEvent code down) [.key code down] := rfl

theorem makes_unicode (c : Char) : Makes (unicode c) [.unicode c] := rfl

theorem makes_press (code : KeyCode) : Makes (press code) [.key code true, .key code false] :=
  (makes_keyEvent code true).bind (makes_keyEvent code false)

/-- A key held around a typing goes down before and up after its calls. -/
theorem makes_holding {code : KeyCode} {body : Typing Unit} {cs : List NativeCall}
    (h : Makes body cs) :
    Makes (holding code body) (.key code true :: (cs ++ [.key code false])) := by
  unfold Makes at h ⊢
  rw [holding, ExceptT.run_bind, Script.granted_bind, makes_keyEvent]
  simp only
  rw [ExceptT.run_bind_lift, Script.granted_bind, h]
  rfl

/-- Actions make their calls one after the other. -/
theorem makes_actions_cons {l : Layout} {pauseMs : Nat} {a : Action} {as : List Action}
    {cs ds : List NativeCall} (ha : Makes (action l a) cs) (has : Makes (actions l pauseMs as) ds) :
    Makes (actions l pauseMs (a :: as)) (cs ++ ds) := by
  have hrest : Makes (do
      action l a
      ExceptT.lift (Script.pause pauseMs)
      actions l pauseMs as) (cs ++ ([] ++ ds)) :=
    ha.bind ((makes_lift (Script.granted_pause pauseMs)).bind has)
  unfold Makes at hrest ⊢
  rw [actions, ExceptT.run_bind_lift, Script.granted_bind]
  exact hrest

end Typing

/-- On a system that grants everything and trusts this process, a run releases the modifiers,
carries its actions out, and releases the modifiers again. -/
theorem Keyboard.granted_perform {k : Keyboard} {pauseMs : Nat} {s : Sequence}
    {cs : List NativeCall} (h : (Typing.actions k.layout pauseMs s.actions).Makes cs) :
    (k.perform true pauseMs s).granted =
      (.ok (), Script.releases k.layout ++ cs ++ Script.releases k.layout) := by
  unfold Typing.Makes at h
  simp only [Keyboard.perform, if_true, Script.granted_bind, Script.granted_releaseModifiers, h,
    Script.granted_pure, List.append_nil, List.append_assoc]

end Typist

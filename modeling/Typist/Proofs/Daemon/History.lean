import Typist.Proofs.Daemon.Flight

/-!
# Histories of runs

What is read off a run beside its last state: what was done in its steps, in order. A history grows
at its end as the run goes on, so that facts about it are shown by induction on the last step.
-/

namespace Typist.Daemon

variable {σ : Type} (w : Surroundings σ) (crashReason : String)

/-- A daemon that nothing has happened to yet. -/
structure Unused (d : Daemon σ) : Prop extends Idle d where
  commands : d.commands = []
  probe : d.probe = none
  taken : d.dispatcher.engine.taken = false
  armed : d.dispatcher.armed = none
  unregistered : d.dispatcher.monitor.isRegistered = false

/-- A daemon before its first step is such. -/
theorem unused_fresh (l : Layout) : (fresh l).Unused where
  state := rfl
  running := rfl
  workers := rfl
  reports := rfl
  commands := rfl
  probe := rfl
  taken := rfl
  armed := rfl
  unregistered := rfl

/-- The last step of a run. -/
theorem run_concat (d : Daemon σ) (cs : List Choice) (c : Choice) :
    d.run w crashReason (cs ++ [c]) =
      (((d.run w crashReason cs).1.step w crashReason c).1,
        (d.run w crashReason cs).2 ++ ((d.run w crashReason cs).1.step w crashReason c).2) := by
  rw [run_append]
  simp only [run, List.append_nil]

/-- What holds at first, and is kept by every step that lets the dispatcher go on, holds at the end
of every run of a dispatcher that goes on. -/
theorem run_induction {d : Daemon σ} {P : List Choice → Daemon σ → Prop} (h : P [] d)
    (hstep : ∀ cs c, (d.run w crashReason cs).1.running = true →
      P cs (d.run w crashReason cs).1 →
      ((d.run w crashReason cs).1.step w crashReason c).1.running = true →
      P (cs ++ [c]) ((d.run w crashReason cs).1.step w crashReason c).1)
    (cs : List Choice) (hs : (d.run w crashReason cs).1.running = true) :
    P cs (d.run w crashReason cs).1 := by
  induction cs using List.reverseRecOn with
  | nil => exact h
  | append_singleton cs c ih =>
    rw [run_concat] at hs ⊢
    have hbefore := (moves w crashReason (d.run w crashReason cs).1 c).running hs
    exact hstep cs c hbefore (ih hbefore) hs

section History

variable {α : Type} (f : Daemon σ → Choice → List α)

/-- What is done in the steps of a run, in order. -/
def history (d : Daemon σ) : List Choice → List α
  | [] => []
  | c :: cs => f d c ++ (d.step w crashReason c).1.history cs

theorem history_append (d : Daemon σ) (cs rest : List Choice) :
    d.history w crashReason f (cs ++ rest) =
      d.history w crashReason f cs ++
        (d.run w crashReason cs).1.history w crashReason f rest := by
  induction cs generalizing d with
  | nil => rfl
  | cons c cs ih => simp only [List.cons_append, history, run, ih, List.append_assoc]

theorem history_concat (d : Daemon σ) (cs : List Choice) (c : Choice) :
    d.history w crashReason f (cs ++ [c]) =
      d.history w crashReason f cs ++ f (d.run w crashReason cs).1 c := by
  rw [history_append]
  simp only [history, List.append_nil]

end History

/-- The events among what goes out, in order. -/
def events (out : List Output) : List Event :=
  out.filterMap fun
    | .emitted e => some e
    | .answered .. => none

theorem events_append (out rest : List Output) : events (out ++ rest) = events out ++ events rest :=
  List.filterMap_append

@[simp] theorem events_refuse (ts : List Ticket) : events (refuse ts) = [] := by
  induction ts with
  | nil => rfl
  | cons t ts ih => exact ih

/-- The command that the dispatcher takes in a step. -/
def handles (d : Daemon σ) : Choice → List Command
  | .takeCommand => if d.isTaking then (d.commands.head?.map Prod.snd).toList else []
  | _ => []

/-- The commands that the dispatcher takes in a run, in order. -/
def handled (d : Daemon σ) (cs : List Choice) : List Command :=
  d.history w crashReason handles cs

/-! ## Taking -/

/-- A dispatcher that takes something is not busy with a status command. -/
theorem probe_of_isTaking {d : Daemon σ} (h : d.isTaking = true) : d.probe = none := by
  unfold isTaking at h
  rw [Bool.and_eq_true] at h
  exact Option.isNone_iff_eq_none.mp h.2

/-- How the dispatcher can take a command: there is none that it could take, or it decides on one,
or it stops. -/
theorem takeCommand_cases (d : Daemon σ) :
    (d.takeCommand w = (d, []) ∧ d.handles .takeCommand = []) ∨
    (∃ t c cs, d.isTaking = true ∧ d.commands = (t, c) :: cs ∧ c ≠ .shutdown ∧
      d.takeCommand w =
        { d with commands := cs, dispatcher := (d.dispatcher.onCommand w t c).1 }.apply
          (d.dispatcher.onCommand w t c).2) ∨
    ∃ t cs, d.isTaking = true ∧ d.commands = (t, .shutdown) :: cs ∧
      d.takeCommand w = { d with commands := cs }.halt w := by
  cases ht : d.isTaking with
  | false => exact .inl ⟨by simp [takeCommand, ht], by simp [handles, ht]⟩
  | true =>
    cases hc : d.commands with
    | nil => exact .inl ⟨by simp [takeCommand, ht, hc], by simp [handles, hc]⟩
    | cons tc cs =>
      obtain ⟨t, c⟩ := tc
      by_cases hstop : c = .shutdown
      · subst hstop
        exact .inr (.inr ⟨t, cs, rfl, rfl, by simp [takeCommand, ht, hc]⟩)
      · exact .inr (.inl ⟨t, c, cs, rfl, rfl, hstop, by simp [takeCommand, ht, hc]⟩)

end Typist.Daemon

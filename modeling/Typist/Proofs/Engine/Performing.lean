import Mathlib
import Typist.Proofs.Engine.Holding
import Typist.Proofs.Typing.Course

/-!
# What a request performs

A request goes through its script in atomic steps, with answers of the system in between. How far it
is tells which calls were answered on its behalf so far, and how it ends tells what became of its
sequence: a request that ends well has carried out every action.
-/

namespace Typist

/-- A native call and its answer. -/
abbrev Exchange := NativeCall × NativeReply

/-- The calls among what happens, with their answers. -/
def Incident.exchanges (is : List Incident) : List Exchange :=
  is.filterMap fun
    | .called c r => some (c, r)
    | .looked _ => none

namespace Incident

theorem exchanges_append (is js : List Incident) :
    exchanges (is ++ js) = exchanges is ++ exchanges js :=
  List.filterMap_append

theorem exchanges_flatten (parts : List (List Incident)) :
    exchanges parts.flatten = (parts.map exchanges).flatten := by
  induction parts with
  | nil => rfl
  | cons part parts ih => rw [List.flatten_cons, exchanges_append, ih, List.map_cons,
      List.flatten_cons]

end Incident

/-! ## Ends of requests -/

/-- Whether carrying out a script with such exchanges ends so: nothing was done for a request that
was refused, the script was carried out to its end, or it was given up at a call. -/
inductive Script.Comes (p : Script TypingResult) (xs : List Exchange) : Outcome → Prop
  | refused : xs = [] → Comes p xs .refused
  | ended {is : List Incident} {r : TypingResult} : p.Ends is r → Incident.exchanges is = xs →
      Comes p xs (.returned (r.mapError .injection))
  | crashed {is : List Incident} {c : NativeCall} {next : NativeReply → Script TypingResult} :
      p.Leads is (.call c next) → Incident.exchanges is = xs → Comes p xs .crashed

/-- Whether a request whose script this is has come so far with such exchanges. -/
def Stage.Has (p : Script TypingResult) (xs : List Exchange) : Stage → Prop
  | .wanting | .entered | .announced => xs = []
  | .typing s => ∃ is, p.Leads is s ∧ Incident.exchanges is = xs
  | .typed r | .withdrawn r => ∃ is, p.Ends is r ∧ Incident.exchanges is = xs
  | .reported o | .quiet o | .finished o => p.Comes xs o

/-- Whether carrying out a script while this happens ends so. -/
inductive Script.Issues (p : Script TypingResult) (is : List Incident) : Outcome → Prop
  | refused : is = [] → Issues p is .refused
  | ended {r : TypingResult} : p.Ends is r → Issues p is (.returned (r.mapError .injection))
  | crashed {c : NativeCall} {next : NativeReply → Script TypingResult} :
      p.Leads is (.call c next) → Issues p is .crashed

/-- Whether a request whose script this is has come so far while this happened. -/
def Stage.Came (p : Script TypingResult) (is : List Incident) : Stage → Prop
  | .wanting | .entered | .announced => is = []
  | .typing s => p.Leads is s
  | .typed r | .withdrawn r => p.Ends is r
  | .reported o | .quiet o | .finished o => p.Issues is o

/-- The exchanges are those of what happened. -/
theorem Script.comes_iff {p : Script TypingResult} {xs : List Exchange} {o : Outcome} :
    p.Comes xs o ↔ ∃ is, p.Issues is o ∧ Incident.exchanges is = xs := by
  constructor
  · intro h
    cases h with
    | refused hxs => exact ⟨[], .refused rfl, hxs.symm⟩
    | ended hends hxs => exact ⟨_, .ended hends, hxs⟩
    | crashed hleads hxs => exact ⟨_, .crashed hleads, hxs⟩
  · rintro ⟨is, h, hxs⟩
    cases h with
    | refused his =>
      subst his
      exact .refused hxs.symm
    | ended hends => exact .ended hends hxs
    | crashed hleads => exact .crashed hleads hxs

theorem Stage.has_iff {p : Script TypingResult} {xs : List Exchange} {st : Stage} :
    st.Has p xs ↔ ∃ is, st.Came p is ∧ Incident.exchanges is = xs := by
  have hnone : xs = [] ↔ ∃ is : List Incident, is = [] ∧ Incident.exchanges is = xs := by
    rw [exists_eq_left]
    exact eq_comm
  cases st with
  | wanting => exact hnone
  | entered => exact hnone
  | announced => exact hnone
  | reported o => exact Script.comes_iff
  | quiet o => exact Script.comes_iff
  | finished o => exact Script.comes_iff
  | _ => exact Iff.rfl

/-- The script that a sequence is typed with. -/
def Engine.script (e : Engine) (trusted : Bool) (s : Sequence) : Script TypingResult :=
  e.injector.perform trusted e.options.pauseMs s

namespace Engine

/-- Whether an engine types as another one does: under the same options, on the same keyboard. -/
def TypesAs (e' e : Engine) : Prop :=
  e'.injector.keyboard = e.injector.keyboard ∧ e'.options = e.options

/-- The script of a sequence depends on nothing else of an engine. -/
theorem TypesAs.script {e e' : Engine} (h : e'.TypesAs e) (trusted : Bool) (s : Sequence) :
    e'.script trusted s = e.script trusted s := by
  rw [Engine.script, Engine.script, Injector.perform, Injector.perform, h.1, h.2]

theorem typesAs_cancel (e : Engine) : e.cancel.TypesAs e := by
  unfold cancel
  split <;> exact ⟨rfl, rfl⟩

end Engine

theorem Probe.typesAs_advance (trusted : Bool) (e : Engine) (p : Probe) :
    (p.advance trusted e).1.TypesAs e := by
  cases p with
  | wanting =>
    rw [advance]
    split
    · exact ⟨rfl, rfl⟩
    · exact ⟨rfl, rfl⟩
  | _ => exact ⟨rfl, rfl⟩

theorem Job.typesAs_advance (trusted : Bool) (e : Engine) (j : Job) :
    (j.advance trusted e).1.TypesAs e := by
  unfold advance
  split
  case h_1 =>
    split
    · exact ⟨rfl, rfl⟩
    · split <;> exact ⟨rfl, rfl⟩
  all_goals exact ⟨rfl, rfl⟩

namespace Job

variable {p : Script TypingResult} {xs : List Exchange} {is : List Incident}

/-- What a step of a request finds out: whether it is cancelled, if it looks. -/
def glimpse (j : Job) (e : Engine) : List Incident :=
  match j.stage with
  | .typing (.look _) => [.looked (e.flags.isCancelled j.token)]
  | _ => []

/-- What an answer of the system makes happen. -/
def hearing (j : Job) (r : NativeReply) : List Incident :=
  (j.pending?.map fun c ↦ .called c r).toList

/-- The exchange that an answer of the system makes. -/
def exchange (j : Job) (r : NativeReply) : List Exchange :=
  (j.pending?.map fun c ↦ (c, r)).toList

/-- A step leads on through the script, which is made out when the token is published. -/
theorem came_advance {j : Job} (h : j.stage.Came p is) {trusted : Bool} {e : Engine}
    (hp : j.stage = .announced → e.script trusted j.sequence = p) :
    (j.advance trusted e).2.stage.Came p (is ++ j.glimpse e) := by
  have hstays {st : Stage} (hst : st.Came p is) : st.Came p (is ++ []) := by
    rwa [List.append_nil]
  cases hs : j.stage with
  | wanting =>
    rw [hs] at h
    simp only [advance, glimpse, hs]
    split
    · exact hstays h
    · split
      · rw [hs]
        exact hstays h
      · exact hstays (.refused h)
  | announced =>
    rw [hs] at h
    obtain rfl : is = [] := h
    simp only [advance, glimpse, hs]
    exact hp hs ▸ .stays _
  | typing s =>
    rw [hs] at h
    cases s with
    | look next =>
      simp only [advance, glimpse, hs]
      exact h.trans (.look (.stays _))
    | wait ms next =>
      simp only [advance, glimpse, hs]
      exact h.trans (.wait (.stays _))
    | done r =>
      simp only [advance, glimpse, hs]
      exact hstays h
    | call c next =>
      simp only [advance, glimpse, hs]
      exact hstays h
  | withdrawn r =>
    rw [hs] at h
    simp only [advance, glimpse, hs]
    exact hstays (.ended h)
  | _ =>
    rw [hs] at h
    simp only [advance, glimpse, hs]
    exact hstays h

/-- An answer of the system leads on behind the pending call, if there is one. -/
theorem came_answer {j : Job} (h : j.stage.Came p is) (r : NativeReply) :
    (j.answer r).stage.Came p (is ++ j.hearing r) := by
  unfold answer hearing pending?
  split
  · next c next hs =>
    rw [hs] at h
    exact h.trans (.call (.stays _))
  · rw [Option.map_none, Option.toList_none, List.append_nil]
    exact h

/-- A request that is brought down was waiting for an answer. -/
theorem came_crash {j : Job} (h : j.stage.Came p is) : j.crash.stage.Came p is := by
  unfold crash
  split
  · next c next hs =>
    rw [hs] at h
    exact .crashed h
  · exact h

/-- A step of a request exchanges nothing. -/
theorem has_advance {j : Job} (h : j.stage.Has p xs) {trusted : Bool} {e : Engine}
    (hp : e.script trusted j.sequence = p) : (j.advance trusted e).2.stage.Has p xs := by
  obtain ⟨is, hcame, rfl⟩ := Stage.has_iff.mp h
  refine Stage.has_iff.mpr ⟨_, came_advance hcame fun _ ↦ hp, ?_⟩
  have hglimpse : Incident.exchanges (j.glimpse e) = [] := by
    unfold glimpse
    split <;> rfl
  rw [Incident.exchanges_append, hglimpse, List.append_nil]

/-- An answer of the system is exchanged for the pending call, if there is one. -/
theorem has_answer {j : Job} (h : j.stage.Has p xs) (r : NativeReply) :
    (j.answer r).stage.Has p (xs ++ j.exchange r) := by
  obtain ⟨is, hcame, rfl⟩ := Stage.has_iff.mp h
  refine Stage.has_iff.mpr ⟨_, came_answer hcame r, ?_⟩
  rw [Incident.exchanges_append, hearing, exchange]
  cases j.pending? <;> rfl

theorem has_crash {j : Job} (h : j.stage.Has p xs) : j.crash.stage.Has p xs := by
  obtain ⟨is, hcame, hxs⟩ := Stage.has_iff.mp h
  exact Stage.has_iff.mpr ⟨is, came_crash hcame, hxs⟩

/-- How a request ended is what its script came to. -/
theorem comes_of_outcome? {j : Job} (h : j.stage.Has p xs) {o : Outcome} (ho : j.outcome? = some o) :
    p.Comes xs o := by
  unfold outcome? at ho
  split at ho
  · next hs =>
    rw [hs] at h
    cases ho
    exact h
  · cases ho

end Job

/-! ## Whole sequences -/

/-- Whether exchanges are those of an action that is carried out to its end. -/
def Action.Done (l : Layout) (a : Action) (xs : List Exchange) : Prop :=
  ∃ is, (Typing.action l a).run.Ends is (.ok ()) ∧ Incident.exchanges is = xs

/-- Whether exchanges are those of a sequence that is carried out to its end: every action is,
between two releases of the modifiers. -/
def Keyboard.Performs (k : Keyboard) (s : Sequence) (xs : List Exchange) : Prop :=
  ∃ lead parts trail, xs = lead ++ parts.flatten ++ trail ∧
    (∃ is, (Script.releaseModifiers k.layout).Ends is () ∧ Incident.exchanges is = lead) ∧
    List.Forall₂ (Action.Done k.layout) s.actions parts ∧
    ∃ is, (Script.releaseModifiers k.layout).Ends is () ∧ Incident.exchanges is = trail

/-- A request that ends well has carried out its whole sequence. -/
theorem Engine.performs_of_comes {e : Engine} {trusted : Bool} {s : Sequence} {xs : List Exchange}
    (h : (e.script trusted s).Comes xs (.returned (.ok ()))) :
    trusted = true ∧ ∃ k, e.injector.keyboard = some k ∧ k.Performs s xs := by
  generalize ho : Outcome.returned (.ok ()) = o at h
  cases h with
  | refused => cases ho
  | crashed => cases ho
  | @ended is r hends hxs =>
    cases r with
    | error e => cases ho
    | ok _ =>
      unfold Engine.script Injector.perform at hends
      split at hends
      · next k hk =>
        obtain ⟨-, -, hr⟩ | ⟨ht, lead, parts, trail, rfl, hlead, hparts, htrail⟩ :=
          Keyboard.ends_perform hends
        · cases hr
        · refine ⟨ht, k, hk, Incident.exchanges lead, parts.map Incident.exchanges,
            Incident.exchanges trail, ?_, ⟨lead, hlead, rfl⟩, ?_, ⟨trail, htrail, rfl⟩⟩
          · rw [← hxs, Incident.exchanges_append, Incident.exchanges_append,
              Incident.exchanges_flatten]
          · rw [List.forall₂_map_right_iff]
            refine hparts.of_ok.imp ?_
            rintro a _ ⟨is, rfl, ha⟩
            exact ⟨is, ha, rfl⟩
      · obtain ⟨-, hr⟩ := Script.ends_pure.mp hends
        cases hr

end Typist

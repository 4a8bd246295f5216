import Mathlib.Data.List.Basic
import Typist.Layout.WindowsUs
import Typist.Proofs.Listener.Presses
import Typist.Proofs.Listener.Registration

/-!
# The hooks of a monitor

A monitor on a system with keyboard hooks, while the system may refuse a hook, lose the request that
ends a hook's thread, keep a hook whose thread has ended, or let a thread end on its own. The monitor
forgets its listener as soon as it has asked for the end of its thread. So a hook that outlasts a
release is nobody's, and goes on to swallow keys and to report presses. The hooks and the monitor
are in step exactly as long as no release is outlasted and no thread ends on its own; a thread that
did is made up for by the next release.
-/

namespace Typist

namespace HookChain

variable {h : HookChain} {l : ListenerId}

/-- A thread that does not run cannot end. -/
theorem endThread_of_not_running (hl : ∀ k ∈ h.hooks, k.id = l → k.context = none) :
    h.endThread l = h := by
  refine if_neg fun hany ↦ ?_
  obtain ⟨k, hk, hruns⟩ := List.any_eq_true.mp hany
  simp only [Bool.and_eq_true, decide_eq_true_eq] at hruns
  simp [hl k hk hruns.1] at hruns

/-- A thread that ends on its own leaves its hook only if the system keeps it. -/
theorem hooks_endThread_of_running {c : HookContext} (hh : h.hooks = [⟨l, some c⟩]) :
    (h.endThread l).hooks = if h.faults.keepsHook then [⟨l, none⟩] else [] := by
  have hruns : (h.hooks.any fun k ↦ decide (k.id = l) && k.context.isSome) = true := by simp [hh]
  rw [endThread, if_pos hruns]
  cases h.faults.keepsHook <;> simp [hh]

/-- A message changes nothing of a hook but whether its target is down. -/
theorem hooks_deliver {t : Target} {d : Bool} (hh : h.hooks = [⟨l, some ⟨t, d⟩⟩])
    (m : KeyMessage) : ∃ d', (h.deliver m).1.hooks = [⟨l, some ⟨t, d'⟩⟩] := by
  simp only [deliver, hh]
  refine ⟨(HookContext.call ⟨t, d⟩ m h.heldModifiers).1.targetDown, ?_⟩
  have htarget := HookContext.target_call ⟨t, d⟩ m h.heldModifiers
  generalize (HookContext.call ⟨t, d⟩ m h.heldModifiers).1 = c at htarget
  obtain ⟨t', d'⟩ := c
  rw [show t' = t from htarget]

/-- A message finds no hook whose thread has ended. -/
theorem deliver_of_not_running (hh : ∀ k ∈ h.hooks, k.context = none) (m : KeyMessage) :
    h.deliver m = (h, none) := by
  unfold deliver
  split
  next id c rest hhooks => simpa using hh ⟨id, some c⟩ (by simp [hhooks])
  next => rfl

end HookChain

namespace Monitor

/-- What happens to a monitor on a system with keyboard hooks, and to the system beside it. -/
inductive HookTurn
  | register (chord : Option Chord)
  /-- The registration is released, as it also is when the monitor ends. -/
  | unregister
  /-- The system answers its calls in another way from now on. -/
  | answering (faults : HookFaults)
  | holding (codes : List KeyCode)
  /-- The thread of a hook fails to read its messages, and ends. -/
  | failing (l : ListenerId)
  | key (m : KeyMessage)

/-- Whether the monitor is asked to do something. -/
def HookTurn.isOperation : HookTurn → Bool
  | register _ | unregister => true
  | _ => false

/-- One turn. -/
def turn (layout : Layout) (m : Monitor HookChain) : HookTurn → Monitor HookChain
  | .register chord => (m.register (HookChain.platform layout) chord).1
  | .unregister => m.unregister (HookChain.platform layout)
  | .answering faults => { m with system := { m.system with faults } }
  | .holding codes => { m with system := { m.system with held := codes } }
  | .failing l => { m with system := m.system.endThread l }
  | .key k => { m with system := (m.system.deliver k).1 }

/-- Whether a monitor and the hooks of its system tell the same. -/
structure HooksInStep (layout : Layout) (m : Monitor HookChain) : Prop where
  /-- At most one hook is installed, -/
  alone : m.system.hooks.length ≤ 1
  /-- and one is exactly if a chord is registered. -/
  registered : m.isRegistered = true ↔ m.system.hooks ≠ []
  /-- Its thread runs, with the target of that chord. -/
  target : ∀ k ∈ m.system.hooks, ∃ c t,
    m.chord? = some c ∧ c.target? layout = some t ∧ k.context.map HookContext.target = some t
  /-- If none is registered, no key message reaches a hook, which could swallow it or report it. -/
  silent : m.isRegistered = false → ∀ k, m.system.deliver k = (m.system, none)

/-- Whether the hook of the registration would outlast a release: the request to end its thread is
lost, or the system keeps the hook, or the thread has ended before without removing it. -/
def Outlasts (m : Monitor HookChain) : Prop :=
  ∃ l, m.listener? = some l ∧ ∃ k ∈ m.system.hooks, k.id = l ∧
    (m.system.faults.losesQuit = true ∨ m.system.faults.keepsHook = true ∨ k.context = none)

/-- Whether a turn brings the hooks out of step: a release is outlasted, or the thread of the
registration's hook ends on its own. -/
def Mishap (m : Monitor HookChain) : HookTurn → Prop
  | .register _ | .unregister => m.Outlasts
  | .failing l => m.listener? = some l
  | _ => False

/-- Whether no hook is installed but that of the registration, whose thread may have ended. -/
inductive Tidy (layout : Layout) : Monitor HookChain → Prop
  | idle {h : HookChain} : h.hooks = [] → Tidy layout ⟨h, .none⟩
  | active {h : HookChain} {c : Chord} {t : Target} {l : ListenerId} {d : Bool} :
      c.target? layout = some t → h.hooks = [⟨l, some ⟨t, d⟩⟩] → Tidy layout ⟨h, .active c l⟩
  | lapsed {h : HookChain} {c : Chord} {l : ListenerId} :
      (h.hooks = [] ∨ h.hooks = [⟨l, none⟩]) → Tidy layout ⟨h, .active c l⟩

section Steps

variable {layout : Layout} {m : Monitor HookChain}

theorem hooksInStep_idle {h : HookChain} (hh : h.hooks = []) : HooksInStep layout ⟨h, .none⟩ where
  alone := by simp [hh]
  registered := by simp [hh, isRegistered, chord?]
  target := by simp [hh]
  silent _ := HookChain.deliver_of_not_running (by simp [hh])

theorem hooksInStep_active {h : HookChain} {c : Chord} {t : Target} {l : ListenerId} {d : Bool}
    (ht : c.target? layout = some t) (hh : h.hooks = [⟨l, some ⟨t, d⟩⟩]) :
    HooksInStep layout ⟨h, .active c l⟩ where
  alone := by simp [hh]
  registered := by simp [hh, isRegistered, chord?]
  target := by simp [hh, chord?, ht]
  silent := by simp [isRegistered, chord?]

/-- A registration whose hook has no thread is out of step. -/
theorem not_hooksInStep_lapsed {h : HookChain} {c : Chord} {l : ListenerId}
    (hh : h.hooks = [] ∨ h.hooks = [⟨l, none⟩]) : ¬ HooksInStep layout ⟨h, .active c l⟩ := by
  intro hstep
  rcases hh with hh | hh
  · exact hstep.registered.mp rfl hh
  · obtain ⟨_, _, -, -, hcontext⟩ := hstep.target ⟨l, none⟩ (by simp [hh])
    cases hcontext

/-- A release leaves no hook, unless one outlasts it. -/
theorem Tidy.hooks_unregister (hm : Tidy layout m) :
    (m.unregister (HookChain.platform layout)).system.hooks = [] ↔ ¬ m.Outlasts := by
  cases hm with
  | idle hh => simp [unregister, hh, Outlasts, listener?]
  | @active h c t l d _ hh =>
    have hout : Outlasts ⟨h, .active c l⟩ ↔
        h.faults.losesQuit = true ∨ h.faults.keepsHook = true := by
      simp [Outlasts, listener?, hh]
    rw [hout]
    cases hlost : h.faults.losesQuit with
    | true => simp [unregister, HookChain.platform, HookChain.stop, hlost, hh]
    | false =>
      have hstop : h.stop l = h.endThread l := by simp [HookChain.stop, hlost]
      simp only [unregister, HookChain.platform, hstop, HookChain.hooks_endThread_of_running hh]
      cases h.faults.keepsHook <;> simp
  | @lapsed h c l hh =>
    have hstop : h.stop l = h := by
      unfold HookChain.stop
      split
      · rfl
      · exact HookChain.endThread_of_not_running (by rcases hh with hh | hh <;> simp [hh])
    rcases hh with hh | hh <;> simp [unregister, HookChain.platform, hstop, hh, Outlasts, listener?]

/-- A registration leaves what the release before it leaves, or adds a hook for its chord. -/
theorem register_hooks (layout : Layout) (m : Monitor HookChain) (chord : Option Chord) :
    (m.register (HookChain.platform layout) chord).1 = m.unregister (HookChain.platform layout) ∨
    ∃ c t h l, (m.register (HookChain.platform layout) chord).1 = ⟨h, .active c l⟩ ∧
      c.target? layout = some t ∧
      h.hooks = ⟨l, some ⟨t, false⟩⟩ ::
        (m.unregister (HookChain.platform layout)).system.hooks := by
  have hnone := registration_unregister (HookChain.platform layout) m
  simp only [register]
  generalize m.unregister (HookChain.platform layout) = r at hnone
  obtain ⟨h, reg⟩ := r
  obtain rfl : reg = .none := hnone
  rcases hq : qualify (HookChain.platform layout) h chord with e | ⟨c, t⟩
  · exact .inl rfl
  · have ht : c.target? layout = some t := (Fields.target?_of_qualify hq).2
    have hinstall : (HookChain.platform layout).install t h = h.install t := rfl
    simp only [hinstall, HookChain.install]
    cases h.faults.noModule with
    | some reason => exact .inl rfl
    | none =>
      cases h.faults.noHook with
      | some reason => exact .inl rfl
      | none => exact .inr ⟨c, t, _, h.installed, rfl, ht, rfl⟩

/-- After a release or a registration all is in step exactly if no hook outlasts it. -/
theorem Tidy.operation (hm : Tidy layout m) {t : HookTurn} (ht : t.isOperation = true) :
    (HooksInStep layout (m.turn layout t) ↔ ¬ m.Outlasts) ∧
      (¬ m.Outlasts → Tidy layout (m.turn layout t)) := by
  rw [← hm.hooks_unregister]
  have hnone := registration_unregister (HookChain.platform layout) m
  have hregister := register_hooks layout m
  -- a release leaves no registration, so that no hook may be left
  generalize hr : m.unregister (HookChain.platform layout) = r at hnone hregister
  obtain ⟨h, reg⟩ := r
  obtain rfl : reg = .none := hnone
  have hreleased : (HooksInStep layout ⟨h, .none⟩ ↔ h.hooks = []) ∧
      (h.hooks = [] → Tidy layout ⟨h, .none⟩) := by
    refine ⟨⟨fun hstep ↦ ?_, hooksInStep_idle⟩, .idle⟩
    by_contra hh
    exact Bool.noConfusion (hstep.registered.mpr hh)
  cases t with
  | register chord =>
    rw [turn]
    obtain heq | ⟨c, t, h', l, heq, htarget, hhooks⟩ := hregister chord
    · rw [heq]
      exact hreleased
    · rw [heq]
      refine ⟨⟨fun hstep ↦ ?_, fun hh ↦ ?_⟩, fun hh ↦ ?_⟩
      · have halone := hstep.alone
        rw [hhooks] at halone
        exact List.length_eq_zero_iff.mp (by simpa using halone)
      · exact hooksInStep_active htarget (hhooks.trans (congrArg (_ :: ·) hh))
      · exact .active htarget (hhooks.trans (congrArg (_ :: ·) hh))
  | unregister =>
    rw [turn, hr]
    exact hreleased
  | answering | holding | failing | key => cases ht

/-- Beside the operations no hook is added, and only a thread that ends brings all out of step. -/
theorem Tidy.elsewhere (hm : Tidy layout m) {t : HookTurn} (ht : t.isOperation = false) :
    Tidy layout (m.turn layout t) ∧
      (HooksInStep layout m → (HooksInStep layout (m.turn layout t) ↔ ¬ m.Mishap t)) := by
  cases hm with
  | idle hh =>
    cases t with
    | register | unregister => cases ht
    | answering faults => exact ⟨.idle hh, fun _ ↦ iff_of_true (hooksInStep_idle hh) id⟩
    | holding codes => exact ⟨.idle hh, fun _ ↦ iff_of_true (hooksInStep_idle hh) id⟩
    | failing l =>
      rw [turn, HookChain.endThread_of_not_running (by simp [hh])]
      exact ⟨.idle hh, fun hstep ↦ iff_of_true hstep nofun⟩
    | key k =>
      rw [turn, HookChain.deliver_of_not_running (by simp [hh])]
      exact ⟨.idle hh, fun hstep ↦ iff_of_true hstep id⟩
  | @active h c target l d htarget hh =>
    cases t with
    | register | unregister => cases ht
    | answering faults =>
      exact ⟨.active htarget hh, fun _ ↦ iff_of_true (hooksInStep_active htarget hh) id⟩
    | holding codes =>
      exact ⟨.active htarget hh, fun _ ↦ iff_of_true (hooksInStep_active htarget hh) id⟩
    | failing l' =>
      by_cases hl : l = l'
      · subst hl
        have hlapsed : (h.endThread l).hooks = [] ∨ (h.endThread l).hooks = [⟨l, none⟩] := by
          rw [HookChain.hooks_endThread_of_running hh]
          cases h.faults.keepsHook <;> simp
        exact ⟨.lapsed hlapsed,
          fun _ ↦ iff_of_false (not_hooksInStep_lapsed hlapsed) (not_not_intro rfl)⟩
      · rw [turn, HookChain.endThread_of_not_running (by simp [hh, hl])]
        exact ⟨.active htarget hh,
          fun hstep ↦ iff_of_true hstep fun heq ↦ hl (Option.some.inj heq)⟩
    | key k =>
      obtain ⟨d', hd'⟩ := HookChain.hooks_deliver hh k
      exact ⟨.active htarget hd', fun _ ↦ iff_of_true (hooksInStep_active htarget hd') id⟩
  | @lapsed h c l hh =>
    refine ⟨?_, fun hstep ↦ absurd hstep (not_hooksInStep_lapsed hh)⟩
    have hruns : ∀ k ∈ h.hooks, k.context = none := by rcases hh with hh | hh <;> simp [hh]
    cases t with
    | register | unregister => cases ht
    | answering faults => exact .lapsed hh
    | holding codes => exact .lapsed hh
    | failing l' =>
      rw [turn, HookChain.endThread_of_not_running fun k hk _ ↦ hruns k hk]
      exact .lapsed hh
    | key k =>
      rw [turn, HookChain.deliver_of_not_running hruns]
      exact .lapsed hh

end Steps

/-- If an invariant is kept by every turn that is not bad, and a turn that is watched shows a fault
exactly if it is bad, then a run shows no fault exactly if it has no bad turn. -/
theorem forall_shown_iff {σ τ : Type} {next : σ → τ → σ} (Inv Shown : σ → Prop)
    (Watched : τ → Prop) (Bad : σ → τ → Prop)
    (hkeep : ∀ s t, Inv s → (Watched t → ¬ Bad s t) → Inv (next s t))
    (hshow : ∀ s t, Inv s → Watched t → (Shown (next s t) ↔ ¬ Bad s t))
    {s : σ} (hs : Inv s) (ts : List τ) :
    (∀ before t after, ts = before ++ t :: after → Watched t →
        Shown ((before ++ [t]).foldl next s)) ↔
      ∀ before t after, ts = before ++ t :: after → Watched t → ¬ Bad (before.foldl next s) t := by
  induction ts generalizing s with
  | nil => simp
  | cons t ts ih =>
    constructor
    · intro hshown before u after heq hu
      have hfirst : Watched t → ¬ Bad s t := fun ht ↦
        (hshow s t hs ht).mp (hshown [] t ts rfl ht)
      cases before with
      | nil =>
        obtain ⟨rfl, rfl⟩ := List.cons.inj heq
        exact hfirst hu
      | cons b before =>
        obtain ⟨rfl, rfl⟩ := List.cons.inj heq
        refine (ih (hkeep s t hs hfirst)).mp (fun before u after heq hu ↦ ?_) before u after rfl hu
        exact hshown (t :: before) u after (congrArg (t :: ·) heq) hu
    · intro hbad before u after heq hu
      have hfirst : Watched t → ¬ Bad s t := hbad [] t ts rfl
      cases before with
      | nil =>
        obtain ⟨rfl, rfl⟩ := List.cons.inj heq
        exact (hshow s t hs hu).mpr (hfirst hu)
      | cons b before =>
        obtain ⟨rfl, rfl⟩ := List.cons.inj heq
        refine (ih (hkeep s t hs hfirst)).mpr (fun before u after heq hu ↦ ?_) before u after rfl hu
        exact hbad (t :: before) u after (congrArg (t :: ·) heq) hu

/-- From a system without hooks, the monitor and the hooks are in step after every turn exactly if no
turn is a mishap. After every operation they are exactly if none finds a hook that outlasts it: what
a thread that ended on its own brings out of step, the next operation brings back. -/
theorem hooks_in_step_iff (layout : Layout) (h : HookChain) (turns : List HookTurn) :
    let start : Monitor HookChain := ⟨{ h with hooks := [] }, .none⟩
    ((∀ before t after, turns = before ++ t :: after →
        HooksInStep layout ((before ++ [t]).foldl (turn layout) start)) ↔
      ∀ before t after, turns = before ++ t :: after →
        ¬ Mishap (before.foldl (turn layout) start) t) ∧
    ((∀ before t after, turns = before ++ t :: after → t.isOperation = true →
        HooksInStep layout ((before ++ [t]).foldl (turn layout) start)) ↔
      ∀ before t after, turns = before ++ t :: after → t.isOperation = true →
        ¬ Outlasts (before.foldl (turn layout) start)) := by
  intro start
  have htidy : Tidy layout start := .idle rfl
  have hstart : HooksInStep layout start := hooksInStep_idle rfl
  -- what a turn shows, of a monitor that is in step
  have hshow (m : Monitor HookChain) (t : HookTurn) (hm : Tidy layout m ∧ HooksInStep layout m) :
      HooksInStep layout (m.turn layout t) ↔ ¬ m.Mishap t := by
    cases t with
    | register chord => exact (hm.1.operation rfl).1
    | unregister => exact (hm.1.operation rfl).1
    | answering | holding | failing | key => exact (hm.1.elsewhere rfl).2 hm.2
  have hkeep (m : Monitor HookChain) (t : HookTurn) (hm : Tidy layout m)
      (hout : t.isOperation = true → ¬ m.Outlasts) : Tidy layout (m.turn layout t) := by
    cases ht : t.isOperation with
    | true => exact (hm.operation ht).2 (hout ht)
    | false => exact (hm.elsewhere ht).1
  constructor
  · have hrun := forall_shown_iff (fun m ↦ Tidy layout m ∧ HooksInStep layout m)
      (HooksInStep layout) (fun _ ↦ True) Mishap
      (fun m t hm hbad ↦ ⟨hkeep m t hm.1 fun ht ↦ ?_, ?_⟩)
      (fun m t hm _ ↦ hshow m t hm) ⟨htidy, hstart⟩ turns
    · simpa only [true_implies] using hrun
    · cases t with
      | register | unregister => exact hbad trivial
      | answering | holding | failing | key => cases ht
    · exact (hshow m t hm).mpr (hbad trivial)
  · exact forall_shown_iff (Tidy layout) (HooksInStep layout) (fun t ↦ t.isOperation = true)
      (fun m _ ↦ m.Outlasts) hkeep (fun m t hm ht ↦ (hm.operation ht).1) htidy turns

/-- A registration of Ctrl+Alt+A is released while requests to end a thread are lost. -/
def HookTurn.lostQuit : List HookTurn :=
  [.register (some { key := .char 'a', modifiers := { control := true, alt := true } }),
    .answering { losesQuit := true }, .unregister, .holding [0x11, 0x12]]

/-- Nothing is registered after that, but a hook is installed, and a key-down of A under Control and
Alt is swallowed and reported. -/
theorem hook_outlasts_release :
    let m := HookTurn.lostQuit.foldl (turn .windowsUs) ⟨{}, .none⟩
    m.isRegistered = false ∧ m.system.hooks.length = 1 ∧
      (m.system.deliver ⟨0x41, 256, false, true⟩).2 = some ⟨true, [.triggered]⟩ := by
  decide

end Monitor

end Typist

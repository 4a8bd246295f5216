import Mathlib.Data.List.Forall2
import Typist.Injector

/-!
# The course of typing

What can happen while a script is carried out on a system that behaves as it likes: every call with
its answer, and every look at the cancellation flag with what it shows. A course is taken apart as
its script is put together, down to the actions of a sequence: each action that was begun has a part
of the course of its own, in the order of the actions.
-/

namespace Typist

/-- What happens while a script is carried out. -/
inductive Incident
  /-- A native call was made and answered. -/
  | called (c : NativeCall) (r : NativeReply)
  /-- The cancellation flag was looked at. -/
  | looked (cancelled : Bool)

namespace Script

variable {α β : Type}

/-- Whether a script comes to another one while something happens. Waiting leaves no trace. -/
inductive Leads : Script α → List Incident → Script α → Prop
  | stays (s : Script α) : Leads s [] s
  | call {c : NativeCall} {next : NativeReply → Script α} {r : NativeReply} {is : List Incident}
      {s : Script α} : Leads (next r) is s → Leads (call c next) (.called c r :: is) s
  | look {next : Bool → Script α} {b : Bool} {is : List Incident} {s : Script α} :
      Leads (next b) is s → Leads (look next) (.looked b :: is) s
  | wait {ms : Nat} {next : Script α} {is : List Incident} {s : Script α} :
      Leads next is s → Leads (wait ms next) is s

/-- Whether a script ends with a result while something happens. -/
def Ends (s : Script α) (is : List Incident) (a : α) : Prop := s.Leads is (done a)

/-- What happens on the way is in order. -/
theorem Leads.trans {s t u : Script α} {is js : List Incident} (h : s.Leads is t)
    (h' : t.Leads js u) : s.Leads (is ++ js) u := by
  induction h with
  | stays => exact h'
  | call _ ih => exact .call (ih h')
  | look _ ih => exact .look (ih h')
  | wait _ ih => exact .wait (ih h')

theorem ends_done {a b : α} {is : List Incident} : (done a).Ends is b ↔ is = [] ∧ b = a := by
  constructor
  · rintro ⟨⟩
    exact ⟨rfl, rfl⟩
  · rintro ⟨rfl, rfl⟩
    exact .stays _

theorem ends_pure {a b : α} {is : List Incident} :
    (pure a : Script α).Ends is b ↔ is = [] ∧ b = a := ends_done

theorem ends_call {c : NativeCall} {next : NativeReply → Script α} {is : List Incident} {a : α} :
    (call c next).Ends is a ↔ ∃ r js, is = .called c r :: js ∧ (next r).Ends js a := by
  constructor
  · rintro ⟨⟩
    next r js h => exact ⟨r, js, rfl, h⟩
  · rintro ⟨r, js, rfl, h⟩
    exact .call h

theorem ends_look {next : Bool → Script α} {is : List Incident} {a : α} :
    (look next).Ends is a ↔ ∃ b js, is = .looked b :: js ∧ (next b).Ends js a := by
  constructor
  · rintro ⟨⟩
    next b js h => exact ⟨b, js, rfl, h⟩
  · rintro ⟨b, js, rfl, h⟩
    exact .look h

theorem ends_wait {ms : Nat} {next : Script α} {is : List Incident} {a : α} :
    (wait ms next).Ends is a ↔ next.Ends is a := by
  constructor
  · rintro ⟨⟩
    assumption
  · exact .wait

/-- The course of two scripts, one after the other, is one course after the other. -/
theorem ends_bind {s : Script α} {f : α → Script β} {is : List Incident} {b : β} :
    (s >>= f).Ends is b ↔ ∃ a is₁ is₂, is = is₁ ++ is₂ ∧ s.Ends is₁ a ∧ (f a).Ends is₂ b := by
  change (s.bind f).Ends is b ↔ _
  induction s generalizing is with
  | done a =>
    rw [done_bind]
    constructor
    · intro h
      exact ⟨a, [], is, rfl, .stays _, h⟩
    · rintro ⟨a', is₁, is₂, rfl, h₁, h₂⟩
      obtain ⟨rfl, rfl⟩ := ends_done.mp h₁
      exact h₂
  | call c next ih =>
    rw [bind, ends_call]
    constructor
    · rintro ⟨r, js, rfl, h⟩
      obtain ⟨a, is₁, is₂, rfl, h₁, h₂⟩ := (ih r).mp h
      exact ⟨a, .called c r :: is₁, is₂, rfl, .call h₁, h₂⟩
    · rintro ⟨a, is₁, is₂, rfl, h₁, h₂⟩
      obtain ⟨r, js, rfl, h⟩ := ends_call.mp h₁
      exact ⟨r, js ++ is₂, rfl, (ih r).mpr ⟨a, js, is₂, rfl, h, h₂⟩⟩
  | look next ih =>
    rw [bind, ends_look]
    constructor
    · rintro ⟨r, js, rfl, h⟩
      obtain ⟨a, is₁, is₂, rfl, h₁, h₂⟩ := (ih r).mp h
      exact ⟨a, .looked r :: is₁, is₂, rfl, .look h₁, h₂⟩
    · rintro ⟨a, is₁, is₂, rfl, h₁, h₂⟩
      obtain ⟨r, js, rfl, h⟩ := ends_look.mp h₁
      exact ⟨r, js ++ is₂, rfl, (ih r).mpr ⟨a, js, is₂, rfl, h, h₂⟩⟩
  | wait ms next ih =>
    rw [bind, ends_wait, ih]
    simp only [ends_wait]

/-- A pause happens unnoticed. -/
theorem ends_pause {ms : Nat} {is : List Incident} : (pause ms).Ends is () ↔ is = [] := by
  unfold pause
  split
  · simp [ends_done]
  · simp [ends_wait, ends_done]

/-- A call whose answer does not matter. -/
theorem ends_ask {c : NativeCall} {is : List Incident} :
    (ask c >>= fun _ ↦ pure ()).Ends is () ↔ ∃ r, is = [.called c r] := by
  change (call c fun _ ↦ done ()).Ends is () ↔ _
  rw [ends_call]
  constructor
  · rintro ⟨r, _, rfl, h⟩
    obtain ⟨rfl, -⟩ := ends_done.mp h
    exact ⟨r, rfl⟩
  · rintro ⟨r, rfl⟩
    exact ⟨r, [], rfl, .stays _⟩

/-- The modifiers are released in order, whatever the system says to it. -/
theorem ends_releaseModifiers {l : Layout} {is : List Incident} :
    (releaseModifiers l).Ends is () ↔
      List.Forall₂ (fun code i ↦ ∃ r, i = .called (.key code false) r)
        (Key.modifiers.filterMap l.code?) is := by
  unfold releaseModifiers
  induction Key.modifiers.filterMap l.code? generalizing is with
  | nil => simp [List.forM_eq_forM, ends_pure]
  | cons code codes ih =>
    rw [List.forM_eq_forM] at ih ⊢
    rw [List.forM_cons, List.forall₂_cons_left_iff, ends_bind]
    constructor
    · rintro ⟨_, is₁, is₂, rfl, hcall, hrest⟩
      obtain ⟨r, rfl⟩ := ends_ask.mp hcall
      exact ⟨_, is₂, ⟨r, rfl⟩, ih.mp hrest, rfl⟩
    · rintro ⟨_, js, ⟨r, rfl⟩, hrest, rfl⟩
      exact ⟨(), [_], js, rfl, ends_ask.mpr ⟨r, rfl⟩, ih.mpr hrest⟩

/-- Whether a script never looks at the cancellation flag. -/
def Blind : Script α → Prop
  | done _ => True
  | call _ next => ∀ r, Blind (next r)
  | look _ => False
  | wait _ next => Blind next

theorem Blind.bind {s : Script α} (hs : s.Blind) {f : α → Script β} (hf : ∀ a, (f a).Blind) :
    (s >>= f).Blind := by
  change (s.bind f).Blind
  induction s with
  | done a => exact hf a
  | call c next ih => exact fun r ↦ ih r (hs r)
  | look next => exact hs.elim
  | wait ms next ih => exact ih hs

/-- Nothing but calls happens while such a script is carried out. -/
theorem Blind.exists_called {s t : Script α} (hs : s.Blind) {is : List Incident}
    (h : s.Leads is t) : ∀ i ∈ is, ∃ c r, i = .called c r := by
  induction h with
  | stays => simp
  | @call c next r is s _ ih =>
    intro i hi
    rcases List.mem_cons.mp hi with rfl | hi
    · exact ⟨c, r, rfl⟩
    · exact ih (hs r) i hi
  | look => exact hs.elim
  | wait _ ih => exact ih hs

theorem blind_releaseModifiers (l : Layout) : (releaseModifiers l).Blind := by
  unfold releaseModifiers
  induction Key.modifiers.filterMap l.code? with
  | nil => trivial
  | cons code codes ih =>
    rw [List.forM_eq_forM] at ih ⊢
    rw [List.forM_cons]
    refine Blind.bind ?_ fun _ ↦ ih
    exact fun _ ↦ trivial

/-! ## Systems -/

/-- How a system behaves, after what has happened so far: its answer to a call, and whether the run
is cancelled by the time of a look. -/
structure System where
  reply : List Incident → NativeCall → NativeReply
  cancelled : List Incident → Bool

/-- A host that behaves as a system does, and notes what happens. -/
def Host.noting (o : System) : Host (StateM (List Incident)) where
  call c := do
    let before ← get
    set (before ++ [.called c (o.reply before c)])
    return o.reply before c
  isCancelled := do
    let before ← get
    set (before ++ [.looked (o.cancelled before)])
    return o.cancelled before
  wait _ := return ()

/-- How a script ends on a system, and its course. -/
def courseOn (s : Script α) (o : System) : α × List Incident :=
  Id.run ((s.run (Host.noting o)).run [])

/-- Whether a system behaves as it does in an incident, after what has happened before. -/
def System.Shows (o : System) (past : List Incident) : Incident → Prop
  | .called c r => r = o.reply past c
  | .looked b => b = o.cancelled past

private theorem shows_cons {o : System} {past : List Incident} {i : Incident}
    {is : List Incident} (hi : o.Shows past i)
    (his : ∀ before j after, is = before ++ j :: after → o.Shows (past ++ [i] ++ before) j) :
    ∀ before j after, i :: is = before ++ j :: after → o.Shows (past ++ before) j := by
  intro before j after h
  rcases List.cons_eq_append_iff.mp h with ⟨rfl, hj⟩ | ⟨before, rfl, his'⟩
  · cases hj
    rwa [List.append_nil]
  · have hj := his before j after his'
    rwa [List.append_assoc, List.singleton_append] at hj

private theorem run_noting (s : Script α) (o : System) (past : List Incident) :
    ∃ a is, (s.run (Host.noting o)).run past = (a, past ++ is) ∧ s.Ends is a ∧
      ∀ before i after, is = before ++ i :: after → o.Shows (past ++ before) i := by
  induction s generalizing past with
  | done a =>
    exact ⟨a, [], congrArg (Prod.mk a) (List.append_nil past).symm, .stays _, by simp⟩
  | call c next ih =>
    obtain ⟨a, is, hrun, hends, hshows⟩ :=
      ih (o.reply past c) (past ++ [.called c (o.reply past c)])
    refine ⟨a, .called c (o.reply past c) :: is, hrun.trans ?_, .call hends, shows_cons rfl hshows⟩
    rw [List.append_assoc]
    rfl
  | look next ih =>
    obtain ⟨a, is, hrun, hends, hshows⟩ :=
      ih (o.cancelled past) (past ++ [.looked (o.cancelled past)])
    refine ⟨a, .looked (o.cancelled past) :: is, hrun.trans ?_, .look hends, shows_cons rfl hshows⟩
    rw [List.append_assoc]
    rfl
  | wait ms next ih =>
    obtain ⟨a, is, hrun, hends, hshows⟩ := ih past
    exact ⟨a, is, hrun, .wait hends, hshows⟩

/-- A script has a course on every system. -/
theorem ends_courseOn (s : Script α) (o : System) : s.Ends (s.courseOn o).2 (s.courseOn o).1 := by
  obtain ⟨a, is, hrun, hends, -⟩ := s.run_noting o []
  have hcourse : s.courseOn o = (a, is) := hrun
  rw [hcourse]
  exact hends

/-- On it the system behaves at every point as it does after what has happened up to there. -/
theorem shows_courseOn {s : Script α} {o : System} {before after : List Incident} {i : Incident}
    (h : (s.courseOn o).2 = before ++ i :: after) : o.Shows before i := by
  obtain ⟨a, is, hrun, -, hshows⟩ := s.run_noting o []
  have hcourse : s.courseOn o = (a, is) := hrun
  rw [hcourse] at h
  exact hshows before i after h

/-- So every call is answered as the system does. -/
theorem exists_reply {s : Script α} {o : System} {c : NativeCall} {r : NativeReply}
    (h : .called c r ∈ (s.courseOn o).2) : ∃ before, r = o.reply before c := by
  obtain ⟨before, after, hcourse⟩ := List.append_of_mem h
  exact ⟨before, shows_courseOn hcourse⟩

end Script

/-! ## Typing -/

namespace Typing

open Script

/-- Typing that goes on after some other fails with it, or follows it. -/
theorem ends_bind {α β : Type} {t : Typing α} {f : α → Typing β} {is : List Incident}
    {r : Except InjectionError β} :
    (t >>= f).run.Ends is r ↔
      (∃ e, t.run.Ends is (.error e) ∧ r = .error e) ∨
        ∃ a is₁ is₂, is = is₁ ++ is₂ ∧ t.run.Ends is₁ (.ok a) ∧ (f a).run.Ends is₂ r := by
  rw [ExceptT.run_bind, Script.ends_bind]
  constructor
  · rintro ⟨a, is₁, is₂, rfl, h₁, h₂⟩
    cases a with
    | error e =>
      obtain ⟨rfl, rfl⟩ := ends_pure.mp h₂
      exact .inl ⟨e, by rwa [List.append_nil], rfl⟩
    | ok a => exact .inr ⟨a, is₁, is₂, rfl, h₁, h₂⟩
  · rintro (⟨e, h, rfl⟩ | ⟨a, is₁, is₂, rfl, h₁, h₂⟩)
    · exact ⟨.error e, is, [], (List.append_nil is).symm, h, ends_pure.mpr ⟨rfl, rfl⟩⟩
    · exact ⟨.ok a, is₁, is₂, rfl, h₁, h₂⟩

theorem ends_lift {α : Type} {s : Script α} {is : List Incident} {r : Except InjectionError α} :
    (ExceptT.lift s : Typing α).run.Ends is r ↔ ∃ a, s.Ends is a ∧ r = .ok a := by
  rw [ExceptT.run_lift, map_eq_pure_bind, Script.ends_bind]
  constructor
  · rintro ⟨a, is₁, is₂, rfl, h₁, h₂⟩
    obtain ⟨rfl, rfl⟩ := ends_pure.mp h₂
    exact ⟨a, by rwa [List.append_nil], rfl⟩
  · rintro ⟨a, h, rfl⟩
    exact ⟨a, is, [], (List.append_nil is).symm, h, ends_pure.mpr ⟨rfl, rfl⟩⟩

theorem ends_keyEvent {code : KeyCode} {down : Bool} {is : List Incident}
    {r : Except InjectionError Unit} :
    (keyEvent code down).run.Ends is r ↔
      ∃ reply, is = [.called (.key code down) reply] ∧ r = reply.mapError .synthesisFailed := by
  change (Script.call _ _).Ends is r ↔ _
  simp only [ends_call, ends_done]
  constructor
  · rintro ⟨reply, _, rfl, rfl, rfl⟩
    exact ⟨reply, rfl, rfl⟩
  · rintro ⟨reply, rfl, rfl⟩
    exact ⟨reply, [], rfl, rfl, rfl⟩

theorem ends_unicode {c : Char} {is : List Incident} {r : Except InjectionError Unit} :
    (unicode c).run.Ends is r ↔ ∃ reply, is = [.called (.unicode c) reply] ∧ r = .ok () := by
  change (Script.call _ _).Ends is r ↔ _
  simp only [ends_call, ends_done]
  constructor
  · rintro ⟨reply, _, rfl, rfl, rfl⟩
    exact ⟨reply, rfl, rfl⟩
  · rintro ⟨reply, rfl, rfl⟩
    exact ⟨reply, [], rfl, rfl, rfl⟩

/-- A key event that is refused ends what it begins. -/
theorem ends_keyEvent_bind {α : Type} {code : KeyCode} {down : Bool} {f : Unit → Typing α}
    {is : List Incident} {r : Except InjectionError α} :
    (keyEvent code down >>= f).run.Ends is r ↔
      (∃ reason, is = [.called (.key code down) (.error reason)] ∧
        r = .error (.synthesisFailed reason)) ∨
      ∃ js, is = .called (.key code down) (.ok ()) :: js ∧ (f ()).run.Ends js r := by
  rw [ends_bind]
  constructor
  · rintro (⟨e, h, rfl⟩ | ⟨_, is₁, js, rfl, h, hrest⟩)
    · obtain ⟨reply, rfl, hr⟩ := ends_keyEvent.mp h
      cases reply with
      | ok _ => cases hr
      | error reason =>
        cases hr
        exact .inl ⟨reason, rfl, rfl⟩
    · obtain ⟨reply, rfl, hr⟩ := ends_keyEvent.mp h
      cases reply with
      | ok _ => exact .inr ⟨js, rfl, hrest⟩
      | error reason => cases hr
  · rintro (⟨reason, rfl, rfl⟩ | ⟨js, rfl, hrest⟩)
    · exact .inl ⟨_, ends_keyEvent.mpr ⟨.error reason, rfl, rfl⟩, rfl⟩
    · exact .inr ⟨(), [_], js, rfl, ends_keyEvent.mpr ⟨.ok (), rfl, rfl⟩, hrest⟩

/-- A key that does not go down is not released, and one that does is. -/
theorem ends_press {code : KeyCode} {is : List Incident} {r : Except InjectionError Unit} :
    (press code).run.Ends is r ↔
      (∃ reason, is = [.called (.key code true) (.error reason)] ∧
        r = .error (.synthesisFailed reason)) ∨
      ∃ reply, is = [.called (.key code true) (.ok ()), .called (.key code false) reply] ∧
        r = reply.mapError .synthesisFailed := by
  rw [press, ends_keyEvent_bind]
  simp only [ends_keyEvent]
  constructor
  · rintro (h | ⟨_, rfl, reply, rfl, rfl⟩)
    · exact .inl h
    · exact .inr ⟨reply, rfl, rfl⟩
  · rintro (h | ⟨reply, rfl, rfl⟩)
    · exact .inl h
    · exact .inr ⟨_, rfl, reply, rfl, rfl⟩

/-- A key that is held around some typing is released behind it, however that ended. -/
theorem ends_holding {code : KeyCode} {body : Typing Unit} {is : List Incident}
    {r : Except InjectionError Unit} (h : (holding code body).run.Ends is r) :
    (∃ reason, is = [.called (.key code true) (.error reason)] ∧
        r = .error (.synthesisFailed reason)) ∨
      ∃ js r' reply, is = .called (.key code true) (.ok ()) ::
          (js ++ [.called (.key code false) reply]) ∧ body.run.Ends js r' ∧
        r = (reply.mapError .synthesisFailed >>= fun _ ↦ r') := by
  rw [holding, ends_keyEvent_bind] at h
  obtain h | ⟨ks, rfl, hbody⟩ := h
  · exact .inl h
  · rw [ExceptT.run_bind_lift, Script.ends_bind] at hbody
    obtain ⟨r', js, ls, rfl, hjs, hup⟩ := hbody
    obtain ⟨reason, rfl, rfl⟩ | ⟨ms, rfl, hresult⟩ := ends_keyEvent_bind.mp hup
    · exact .inr ⟨js, r', .error reason, rfl, hjs, rfl⟩
    · obtain ⟨rfl, rfl⟩ := ends_done.mp hresult
      exact .inr ⟨js, _, .ok (), rfl, hjs, rfl⟩

theorem blind_bind {α β : Type} {t : Typing α} {f : α → Typing β} (ht : t.run.Blind)
    (hf : ∀ a, (f a).run.Blind) : (t >>= f).run.Blind := by
  rw [ExceptT.run_bind]
  refine ht.bind fun a ↦ ?_
  cases a with
  | error e => trivial
  | ok a => exact hf a

theorem blind_keyEvent (code : KeyCode) (down : Bool) : (keyEvent code down).run.Blind :=
  fun _ ↦ trivial

theorem blind_press (code : KeyCode) : (press code).run.Blind :=
  blind_bind (blind_keyEvent code true) fun _ ↦ blind_keyEvent code false

theorem blind_char (l : Layout) (c : Char) : (char l c).run.Blind := by
  unfold char
  split
  · exact fun _ ↦ trivial
  · split
    · exact blind_press _
    · refine blind_bind (blind_keyEvent _ true) fun _ ↦ ?_
      rw [ExceptT.run_bind_lift]
      refine Script.Blind.bind (blind_press _) fun _ ↦ ?_
      exact blind_bind (blind_keyEvent _ false) fun _ ↦ trivial

theorem blind_text (l : Layout) (s : String) : (text l s).run.Blind := by
  unfold text
  induction typedChars s.toList with
  | nil => trivial
  | cons c cs ih => exact blind_bind (blind_char l c) fun _ ↦ ih

theorem blind_withKey (l : Layout) (k : Key) {f : KeyCode → Typing Unit}
    (hf : ∀ code, (f code).run.Blind) : (withKey l k f).run.Blind := by
  unfold withKey
  split
  · exact hf _
  · trivial

/-- No action looks at the cancellation flag. -/
theorem blind_action (l : Layout) (a : Action) : (action l a).run.Blind := by
  cases a with
  | text s => exact blind_text l s
  | press k => exact blind_withKey l k blind_press
  | down k => exact blind_withKey l k (blind_keyEvent · true)
  | up k => exact blind_withKey l k (blind_keyEvent · false)
  | delay ms =>
    rw [action, ExceptT.run_lift, map_eq_pure_bind]
    refine Script.Blind.bind ?_ fun _ ↦ trivial
    unfold Script.pause
    split <;> trivial

/-- The course of actions, a part for each that was begun. A part starts with a look at the
cancellation flag; the first part that does not end well is the last one. -/
inductive Carries (l : Layout) : List Action → List (List Incident) → TypingResult → Prop
  | nil : Carries l [] [] (.ok ())
  | cancelled (a : Action) (as : List Action) :
      Carries l (a :: as) [[.looked true]] (.error .cancelled)
  | failed {a : Action} {as : List Action} {is : List Incident} {e : InjectionError} :
      (action l a).run.Ends is (.error e) →
      Carries l (a :: as) [.looked false :: is] (.error e)
  | cons {a : Action} {as : List Action} {is : List Incident} {parts : List (List Incident)}
      {r : TypingResult} : (action l a).run.Ends is (.ok ()) → Carries l as parts r →
      Carries l (a :: as) ((.looked false :: is) :: parts) r

/-- The course of actions falls into such parts. -/
theorem exists_carries {l : Layout} {pauseMs : Nat} {as : List Action} {is : List Incident}
    {r : TypingResult} (h : (actions l pauseMs as).run.Ends is r) :
    ∃ parts, is = parts.flatten ∧ Carries l as parts r := by
  induction as generalizing is with
  | nil =>
    obtain ⟨rfl, rfl⟩ := ends_pure.mp h
    exact ⟨[], rfl, .nil⟩
  | cons a as ih =>
    rw [actions, ExceptT.run_bind_lift, Script.ends_bind] at h
    obtain ⟨b, is₁, is₂, rfl, hlook, h⟩ := h
    obtain ⟨b', _, rfl, hb⟩ := ends_look.mp hlook
    obtain ⟨rfl, rfl⟩ := ends_done.mp hb
    cases b with
    | true =>
      obtain ⟨rfl, rfl⟩ := ends_pure.mp h
      exact ⟨[[.looked true]], rfl, .cancelled a as⟩
    | false =>
      obtain ⟨e, ha, rfl⟩ | ⟨_, js, ks, rfl, ha, hrest⟩ := ends_bind.mp h
      · exact ⟨[.looked false :: is₂], (List.append_nil _).symm, .failed ha⟩
      · obtain ⟨e, hpause, -⟩ | ⟨_, ls, ms, rfl, hpause, has⟩ := ends_bind.mp hrest
        · obtain ⟨_, -, hr⟩ := ends_lift.mp hpause
          cases hr
        · obtain ⟨_, hpause, -⟩ := ends_lift.mp hpause
          obtain rfl := ends_pause.mp hpause
          obtain ⟨parts, rfl, hparts⟩ := ih has
          exact ⟨(.looked false :: js) :: parts, rfl, .cons ha hparts⟩

/-- Actions that end well were all carried out to their end. -/
theorem Carries.of_ok {l : Layout} {as : List Action} {parts : List (List Incident)}
    (h : Carries l as parts (.ok ())) :
    List.Forall₂ (fun a part ↦ ∃ is, part = .looked false :: is ∧ (action l a).run.Ends is (.ok ()))
      as parts := by
  induction as generalizing parts with
  | nil =>
    cases h
    exact .nil
  | cons a as ih =>
    cases h with
    | cons ha has => exact .cons ⟨_, rfl, ha⟩ (ih has)

end Typing

/-- The course of a run: nothing at all on a system that does not trust this process, and else the
course of the actions between two releases of the modifiers. -/
theorem Keyboard.ends_perform {k : Keyboard} {trusted : Bool} {pauseMs : Nat} {s : Sequence}
    {is : List Incident} {r : TypingResult} (h : (k.perform trusted pauseMs s).Ends is r) :
    (trusted = false ∧ is = [] ∧ r = .error (.notPermitted k.hint)) ∨
      trusted = true ∧ ∃ lead parts trail, is = lead ++ parts.flatten ++ trail ∧
        (Script.releaseModifiers k.layout).Ends lead () ∧
        Typing.Carries k.layout s.actions parts r ∧
        (Script.releaseModifiers k.layout).Ends trail () := by
  unfold perform at h
  cases trusted with
  | false =>
    obtain ⟨rfl, rfl⟩ := Script.ends_pure.mp h
    exact .inl ⟨rfl, rfl, rfl⟩
  | true =>
    rw [if_pos rfl, Script.ends_bind] at h
    obtain ⟨_, lead, js, rfl, hlead, h⟩ := h
    obtain ⟨r', body, ks, rfl, hbody, h⟩ := Script.ends_bind.mp h
    obtain ⟨_, trail, ls, rfl, htrail, h⟩ := Script.ends_bind.mp h
    obtain ⟨rfl, rfl⟩ := Script.ends_pure.mp h
    obtain ⟨parts, rfl, hparts⟩ := Typing.exists_carries hbody
    refine .inr ⟨rfl, lead, parts, trail, ?_, hlead, hparts, htrail⟩
    simp only [List.append_nil, List.append_assoc]

end Typist

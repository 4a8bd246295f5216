import Mathlib.Data.List.Forall2
import Typist.Proofs.Typing.Course
import Typist.Proofs.Typing.Granted

/-!
# The transcript of a run

Which native calls a run makes, whatever the system answers and whenever the run is cancelled. An
action is a list of steps. A run carries out whole actions until a look finds it cancelled or a key
event is refused; the refused event is the last call of the actions, but for the release of a Shift
that is held around it. A character that is refused ends nothing.
-/

namespace Typist

/-- Whether a call is one half of a key press. -/
def NativeCall.isKey : NativeCall → Bool
  | key .. => true
  | unicode _ => false

namespace Incident

/-- The calls among what happens, in order. -/
def calls (is : List Incident) : List NativeCall :=
  is.filterMap fun
    | called c _ => some c
    | looked _ => none

/-- Whether a key event was refused. -/
def isRefusal : Incident → Bool
  | called (.key ..) (.error _) => true
  | _ => false

theorem calls_append (is js : List Incident) : calls (is ++ js) = calls is ++ calls js :=
  List.filterMap_append

@[simp] theorem calls_called (c : NativeCall) (r : NativeReply) (is : List Incident) :
    calls (called c r :: is) = c :: calls is := rfl

@[simp] theorem calls_looked (b : Bool) (is : List Incident) :
    calls (looked b :: is) = calls is := rfl

end Incident

namespace Typing

/-! ## Steps -/

/-- One call of an action, and the key that is held around it: it is lifted also if the call is
refused. -/
structure Step where
  call : NativeCall
  bracket : Option KeyCode := none

namespace Step

/-- The step with a key held around it. -/
def within (code : KeyCode) (s : Step) : Step := { s with bracket := some code }

/-- The steps of a key press. -/
def press (code : KeyCode) : List Step := [⟨.key code true, none⟩, ⟨.key code false, none⟩]

/-- Steps with a key held around them. -/
def holding (code : KeyCode) (ss : List Step) : List Step :=
  ⟨.key code true, none⟩ :: (ss.map (within code) ++ [⟨.key code false, none⟩])

/-- Whether a step was made: a key event was granted, a character was granted or refused. -/
def MadeBy (s : Step) (i : Incident) : Prop :=
  ∃ r, i = .called s.call r ∧ (s.call.isKey = true → r = .ok ())

/-- Whether steps were made one after the other, and nothing else happened. -/
def Made (ss : List Step) (is : List Incident) : Prop := List.Forall₂ MadeBy ss is

/-- Whether steps were broken off for a reason: a key event was refused, behind which a key that is
held around it was still lifted. If this is refused too, it is what counts. -/
inductive Breaks (reason : String) : List Step → List Incident → Prop
  | bare {before after : List Step} {s : Step} {is : List Incident} :
      Made before is → s.call.isKey = true → s.bracket = none →
      Breaks reason (before ++ s :: after) (is ++ [.called s.call (.error reason)])
  | held {before after : List Step} {s : Step} {is : List Incident} {code : KeyCode}
      {refusal : String} {reply : NativeReply} :
      Made before is → s.call.isKey = true → s.bracket = some code →
      reply = .error reason ∨ reply = .ok () ∧ refusal = reason →
      Breaks reason (before ++ s :: after)
        (is ++ [.called s.call (.error refusal), .called (.key code false) reply])

/-- Steps are broken off at the first one. -/
theorem Breaks.first {reason : String} {ss : List Step} {s : Step} (hkey : s.call.isKey = true)
    (hs : s.bracket = none) : Breaks reason (s :: ss) [.called s.call (.error reason)] :=
  @Breaks.bare reason [] ss s [] .nil hkey hs

theorem made_append {ss ts : List Step} {is js : List Incident} (hs : Made ss is)
    (ht : Made ts js) : Made (ss ++ ts) (is ++ js) := List.rel_append hs ht

/-- A key held around steps changes nothing about how they are made. -/
theorem made_within (code : KeyCode) {ss : List Step} {is : List Incident} :
    Made (ss.map (within code)) is ↔ Made ss is := List.forall₂_map_left_iff

theorem madeBy_key {code : KeyCode} {down : Bool} {bracket : Option KeyCode} :
    MadeBy ⟨.key code down, bracket⟩ (.called (.key code down) (.ok ())) :=
  ⟨.ok (), rfl, fun _ ↦ rfl⟩

/-- Steps that are made are all called. -/
theorem Made.calls_eq {ss : List Step} {is : List Incident} (h : Made ss is) :
    Incident.calls is = ss.map Step.call := by
  induction h with
  | nil => rfl
  | cons hs _ ih =>
    obtain ⟨r, rfl, -⟩ := hs
    rw [Incident.calls_called, ih, List.map_cons]

/-- No key event among them is refused, and the cancellation flag is not looked at. -/
theorem Made.quiet {ss : List Step} {is : List Incident} (h : Made ss is) :
    ∀ i ∈ is, i.isRefusal = false ∧ ∀ b, i ≠ .looked b := by
  induction h with
  | nil =>
    intro i hi
    cases hi
  | @cons s j ss is hs _ ih =>
    intro i hi
    rcases List.mem_cons.mp hi with rfl | hi
    · obtain ⟨r, rfl, hr⟩ := hs
      refine ⟨?_, fun b h ↦ by cases h⟩
      cases hc : s.call with
      | unicode c => rfl
      | key code down =>
        rw [hr (by rw [hc]; rfl)]
        rfl
    · exact ih i hi

/-- Steps that were broken off had a key event refused. -/
theorem Breaks.exists_refusal {reason : String} {ss : List Step} {is : List Incident}
    (h : Breaks reason ss is) : ∃ i ∈ is, i.isRefusal = true := by
  have hrefusal {s : Step} {refusal : String} (hs : s.call.isKey = true) :
      (Incident.called s.call (.error refusal)).isRefusal = true := by
    cases hc : s.call with
    | unicode c =>
      rw [hc] at hs
      cases hs
    | key code down => rfl
  cases h with
  | bare _ hs _ => exact ⟨_, List.mem_concat_self, hrefusal hs⟩
  | held _ hs _ _ =>
    exact ⟨_, List.mem_append_right _ List.mem_cons_self, hrefusal hs⟩

/-- Further steps are not begun. -/
theorem Breaks.append {reason : String} {ss : List Step} {is : List Incident}
    (h : Breaks reason ss is) (ts : List Step) : Breaks reason (ss ++ ts) is := by
  cases h with
  | bare hmade hkey hs =>
    rw [List.append_assoc, List.cons_append]
    exact .bare hmade hkey hs
  | held hmade hkey hs hreply =>
    rw [List.append_assoc, List.cons_append]
    exact .held hmade hkey hs hreply

/-- Steps before it were made. -/
theorem Breaks.behind {reason : String} {ss ts : List Step} {is js : List Incident}
    (hs : Made ss is) (h : Breaks reason ts js) : Breaks reason (ss ++ ts) (is ++ js) := by
  cases h with
  | bare hmade hkey hb =>
    rw [← List.append_assoc, ← List.append_assoc]
    exact .bare (made_append hs hmade) hkey hb
  | held hmade hkey hb hreply =>
    rw [← List.append_assoc, ← List.append_assoc]
    exact .held (made_append hs hmade) hkey hb hreply

end Step

open Step

/-- Whether typing makes just these steps, as far as they are granted. -/
def Takes (t : Typing Unit) (ss : List Step) : Prop :=
  ∀ is r, t.run.Ends is r →
    (r = .ok () ∧ Made ss is) ∨ ∃ reason, r = .error (.synthesisFailed reason) ∧ Breaks reason ss is

theorem takes_pure : Takes (pure ()) [] := by
  intro is r h
  obtain ⟨rfl, rfl⟩ := Script.ends_pure.mp h
  exact .inl ⟨rfl, .nil⟩

theorem Takes.bind {t u : Typing Unit} {ss ts : List Step} (ht : Takes t ss) (hu : Takes u ts) :
    Takes (t >>= fun _ ↦ u) (ss ++ ts) := by
  intro is r h
  obtain ⟨e, hfail, rfl⟩ | ⟨_, is₁, is₂, rfl, h₁, h₂⟩ := ends_bind.mp h
  · obtain ⟨hok, -⟩ | ⟨reason, he, hbreaks⟩ := ht _ _ hfail
    · cases hok
    · cases he
      exact .inr ⟨reason, rfl, hbreaks.append ts⟩
  · obtain ⟨-, hmade⟩ | ⟨reason, he, -⟩ := ht _ _ h₁
    · obtain ⟨rfl, hmade₂⟩ | ⟨reason, rfl, hbreaks⟩ := hu _ _ h₂
      · exact .inl ⟨rfl, made_append hmade hmade₂⟩
      · exact .inr ⟨reason, rfl, hbreaks.behind hmade⟩
    · cases he

theorem takes_keyEvent (code : KeyCode) (down : Bool) :
    Takes (keyEvent code down) [⟨.key code down, none⟩] := by
  intro is r h
  obtain ⟨reply, rfl, rfl⟩ := ends_keyEvent.mp h
  cases reply with
  | ok _ => exact .inl ⟨rfl, .cons madeBy_key .nil⟩
  | error reason => exact .inr ⟨reason, rfl, .first rfl rfl⟩

theorem takes_unicode (c : Char) : Takes (unicode c) [⟨.unicode c, none⟩] := by
  intro is r h
  obtain ⟨reply, rfl, rfl⟩ := ends_unicode.mp h
  exact .inl ⟨rfl, .cons ⟨reply, rfl, nofun⟩ .nil⟩

theorem takes_press (code : KeyCode) : Takes (Typing.press code) (Step.press code) :=
  (takes_keyEvent code true).bind (takes_keyEvent code false)

/-- A key held around typing is lifted behind it, also where that was broken off. -/
theorem Takes.holding {code : KeyCode} {body : Typing Unit} {ss : List Step}
    (hbody : Takes body ss) (hss : ∀ s ∈ ss, s.bracket = none) :
    Takes (Typing.holding code body) (Step.holding code ss) := by
  intro is r h
  obtain ⟨reason, rfl, rfl⟩ | ⟨js, r', reply, rfl, hjs, rfl⟩ := ends_holding h
  · exact .inr ⟨reason, rfl, .first rfl rfl⟩
  · have hdown {ts : List Step} {ks : List Incident} (hts : Made ts ks) :
        Made (⟨.key code true, none⟩ :: ts.map (within code))
          (.called (.key code true) (.ok ()) :: ks) :=
      .cons madeBy_key ((made_within code).mpr hts)
    obtain ⟨rfl, hmade⟩ | ⟨refusal, rfl, hbreaks⟩ := hbody _ _ hjs
    · -- the typing went well, and the key is lifted or not
      cases reply with
      | ok _ => exact .inl ⟨rfl, made_append (hdown hmade) (.cons madeBy_key .nil)⟩
      | error reason =>
        exact .inr ⟨reason, rfl, .bare (s := ⟨.key code false, none⟩) (hdown hmade) rfl rfl⟩
    · -- the typing was broken off at a step that has no key of its own held around it
      cases hbreaks with
      | held _ _ hs _ =>
        rw [hss _ (by simp)] at hs
        cases hs
      | @bare before after s ks hmade hkey _ =>
        have hsteps : Step.holding code (before ++ s :: after) =
            (⟨.key code true, none⟩ :: before.map (within code)) ++ s.within code ::
              (after.map (within code) ++ [⟨.key code false, none⟩]) := by
          simp [Step.holding]
        have hcourse : Incident.called (.key code true) (.ok ()) ::
            (ks ++ [.called s.call (.error refusal)] ++ [.called (.key code false) reply]) =
            (.called (.key code true) (.ok ()) :: ks) ++
              [.called (s.within code).call (.error refusal), .called (.key code false) reply] := by
          simp [within]
        rw [hsteps, hcourse]
        cases reply with
        | ok _ => exact .inr ⟨refusal, rfl, .held (hdown hmade) hkey rfl (.inr ⟨rfl, rfl⟩)⟩
        | error reason => exact .inr ⟨reason, rfl, .held (hdown hmade) hkey rfl (.inl rfl)⟩

end Typing

open Typing

/-! ## Actions -/

/-- The steps of a character: a key, with Shift held around it where it needs one that the layout
has, or else the character as it is. -/
def Layout.steps (l : Layout) (c : Char) : List Step :=
  match l.stroke? c with
  | none => [⟨.unicode c, none⟩]
  | some s =>
    match if s.shift then l.code? .shift else none with
    | none => Step.press s.code
    | some shift => Step.holding shift (Step.press s.code)

namespace Action

/-- The steps of an action. A key that the layout lacks has none, and neither has a delay. -/
def steps (l : Layout) : Action → List Step
  | text s => (typedChars s.toList).flatMap l.steps
  | press k => (l.code? k).elim [] Step.press
  | down k => (l.code? k).elim [] fun code ↦ [⟨.key code true, none⟩]
  | up k => (l.code? k).elim [] fun code ↦ [⟨.key code false, none⟩]
  | delay _ => []

/-- The native calls of an action that is carried out to its end. -/
def calls (l : Layout) (a : Action) : List NativeCall := (a.steps l).map Step.call

end Action

namespace Typing

open Step

theorem takes_char (l : Layout) (c : Char) : Takes (char l c) (l.steps c) := by
  cases hs : l.stroke? c with
  | none =>
    rw [char, Layout.steps, hs]
    exact takes_unicode c
  | some s =>
    rw [char, Layout.steps, hs]
    dsimp only
    cases if s.shift then l.code? .shift else none with
    | none => exact takes_press s.code
    | some shift =>
      apply (takes_press s.code).holding
      simp [Step.press]

theorem takes_text (l : Layout) (s : String) : Takes (text l s) ((Action.text s).steps l) := by
  show Takes ((typedChars s.toList).forM (char l)) ((typedChars s.toList).flatMap l.steps)
  induction typedChars s.toList with
  | nil => exact takes_pure
  | cons c cs ih => exact (takes_char l c).bind ih

theorem takes_withKey {l : Layout} {k : Key} {f : KeyCode → Typing Unit} {ss : KeyCode → List Step}
    (hf : ∀ code, Takes (f code) (ss code)) : Takes (withKey l k f) ((l.code? k).elim [] ss) := by
  unfold withKey
  cases l.code? k with
  | none => exact takes_pure
  | some code => exact hf code

/-- Typing makes the steps of its actions. -/
theorem takes_action (l : Layout) (a : Action) : Takes (action l a) (a.steps l) := by
  cases a with
  | text s => exact takes_text l s
  | press k => exact takes_withKey takes_press
  | down k => exact takes_withKey (takes_keyEvent · true)
  | up k => exact takes_withKey (takes_keyEvent · false)
  | delay ms =>
    intro is r h
    obtain ⟨_, hpause, rfl⟩ := ends_lift.mp h
    obtain rfl := Script.ends_pause.mp hpause
    exact .inl ⟨rfl, .nil⟩

/-- Whether actions were all carried out to their end, each after a look that did not find the run
cancelled. -/
inductive Whole (l : Layout) : List Action → List Incident → Prop
  | nil : Whole l [] []
  | cons {a : Action} {as : List Action} {is js : List Incident} : Made (a.steps l) is →
      Whole l as js → Whole l (a :: as) (.looked false :: (is ++ js))

/-- What happens after the first `n` actions: there is no further one, or the look before the next
one finds the run cancelled, or that action is broken off. -/
inductive Stops (l : Layout) (as : List Action) (n : Nat) : List Incident → TypingResult → Prop
  | finished : n = as.length → Stops l as n [] (.ok ())
  | cancelled : n < as.length → Stops l as n [.looked true] (.error .cancelled)
  | broken {a : Action} {is : List Incident} {reason : String} : as[n]? = some a →
      Breaks reason (a.steps l) is →
      Stops l as n (.looked false :: is) (.error (.synthesisFailed reason))

/-- The calls of whole actions are those of the one after those of the other. -/
theorem Whole.calls_eq {l : Layout} {as : List Action} {is : List Incident} (h : Whole l as is) :
    Incident.calls is = as.flatMap (Action.calls l) := by
  induction h with
  | nil => rfl
  | cons hmade _ ih =>
    rw [Incident.calls_looked, Incident.calls_append, hmade.calls_eq, ih, List.flatMap_cons]
    rfl

/-- Nothing stops whole actions. -/
theorem Whole.quiet {l : Layout} {as : List Action} {is : List Incident} (h : Whole l as is) :
    ∀ i ∈ is, i.isRefusal = false ∧ i ≠ .looked true := by
  induction h with
  | nil =>
    intro i hi
    cases hi
  | cons hmade _ ih =>
    intro i hi
    rw [List.mem_cons, List.mem_append] at hi
    rcases hi with rfl | hi | hi
    · exact ⟨rfl, by simp⟩
    · exact ⟨(hmade.quiet i hi).1, (hmade.quiet i hi).2 true⟩
    · exact ih i hi

theorem Stops.next {l : Layout} {a : Action} {as : List Action} {n : Nat} {is : List Incident}
    {r : TypingResult} (h : Stops l as n is r) : Stops l (a :: as) (n + 1) is r := by
  cases h with
  | finished hn => exact .finished (by rw [List.length_cons, hn])
  | cancelled hn => exact .cancelled (by rw [List.length_cons]; omega)
  | broken ha hbreaks => exact .broken (by rwa [List.getElem?_cons_succ]) hbreaks

/-- The course of actions is that of some whole ones, and of what stops them. -/
theorem Carries.exists_stops {l : Layout} {as : List Action} {parts : List (List Incident)}
    {r : TypingResult} (h : Carries l as parts r) :
    ∃ n done rest, parts.flatten = done ++ rest ∧ n ≤ as.length ∧ Whole l (as.take n) done ∧
      Stops l as n rest r := by
  induction h with
  | nil => exact ⟨0, [], [], rfl, Nat.le_refl 0, .nil, .finished rfl⟩
  | cancelled a as =>
    exact ⟨0, [], [.looked true], rfl, Nat.zero_le _, .nil, .cancelled (Nat.succ_pos _)⟩
  | @failed a as is e ha =>
    obtain ⟨hok, -⟩ | ⟨reason, he, hbreaks⟩ := takes_action l a _ _ ha
    · cases hok
    · cases he
      exact ⟨0, [], .looked false :: is, List.append_nil _, Nat.zero_le _, .nil,
        .broken rfl hbreaks⟩
  | @cons a as is parts r ha _ ih =>
    obtain ⟨-, hmade⟩ | ⟨reason, he, -⟩ := takes_action l a _ _ ha
    · obtain ⟨n, done, rest, hflat, hn, hwhole, hstops⟩ := ih
      refine ⟨n + 1, .looked false :: (is ++ done), rest, ?_, Nat.succ_le_succ hn,
        .cons hmade hwhole, hstops.next⟩
      rw [List.flatten_cons, hflat, List.cons_append, List.cons_append, List.append_assoc]
    · cases he

/-- The result tells what stopped the actions. -/
theorem Stops.result_iff {l : Layout} {as : List Action} {n : Nat} {is : List Incident}
    {r : TypingResult} (h : Stops l as n is r) :
    (r = .ok () ↔ (∀ i ∈ is, i.isRefusal = false) ∧ .looked true ∉ is) ∧
    (r = .error .cancelled ↔ (∀ i ∈ is, i.isRefusal = false) ∧ .looked true ∈ is) := by
  cases h with
  | finished hn => simp
  | cancelled hn => simp [Incident.isRefusal]
  | broken ha hbreaks =>
    obtain ⟨i, hi, hrefusal⟩ := hbreaks.exists_refusal
    have hsome {is : List Incident} (hmem : i ∈ is) : ¬ ∀ i ∈ is, i.isRefusal = false := by
      intro hall
      rw [hall i hmem] at hrefusal
      cases hrefusal
    have hnot := hsome (List.mem_cons_of_mem (.looked false) hi)
    exact ⟨⟨nofun, fun h ↦ (hnot h.1).elim⟩, ⟨nofun, fun h ↦ (hnot h.1).elim⟩⟩

end Typing

/-! ## Runs -/

/-- The releases of the modifiers are called whatever the system says, and nothing else happens. -/
theorem Script.calls_releaseModifiers {l : Layout} {is : List Incident}
    (h : (releaseModifiers l).Ends is ()) :
    Incident.calls is = releases l ∧ ∀ b, .looked b ∉ is := by
  constructor
  · rw [ends_releaseModifiers] at h
    unfold releases
    generalize Key.modifiers.filterMap l.code? = codes at h
    induction h with
    | nil => rfl
    | cons hi _ ih =>
      obtain ⟨r, rfl⟩ := hi
      rw [Incident.calls_called, List.map_cons, ih]
  · intro b hb
    obtain ⟨c, r, hcalled⟩ := (blind_releaseModifiers l).exists_called h _ hb
    cases hcalled

/-- Only a run that a look finds cancelled ends as cancelled. -/
theorem Keyboard.looked_of_cancelled {k : Keyboard} {trusted : Bool} {pauseMs : Nat} {s : Sequence}
    {is : List Incident} (h : (k.perform trusted pauseMs s).Ends is (.error .cancelled)) :
    .looked true ∈ is := by
  obtain ⟨-, -, hr⟩ | ⟨-, lead, parts, trail, rfl, -, hparts, -⟩ := Keyboard.ends_perform h
  · cases hr
  · obtain ⟨n, done, rest, hflat, -, -, hstops⟩ := hparts.exists_stops
    have hlooked := (hstops.result_iff.2.mp rfl).2
    rw [hflat]
    exact List.mem_append_left _ (List.mem_append_right _ (List.mem_append_right _ hlooked))

/-- The transcript of a trusted run with a result: some whole actions and what stops them, between two
releases of every modifier that the layout has. -/
structure Transcript (l : Layout) (as : List Action) (r : TypingResult) where
  lead : List Incident
  done : List Incident
  rest : List Incident
  trail : List Incident
  /-- How many actions were carried out to their end. -/
  whole : Nat
  calls_lead : Incident.calls lead = Script.releases l
  calls_trail : Incident.calls trail = Script.releases l
  blind : ∀ b, .looked b ∉ lead ++ trail
  whole_le : whole ≤ as.length
  isWhole : Whole l (as.take whole) done
  calls_done : Incident.calls done = (as.take whole).flatMap (Action.calls l)
  stops : Stops l as whole rest r
  /-- The run ends well exactly if no key event of the actions was refused and no look found it
  cancelled, -/
  ok_iff : r = .ok () ↔
    (∀ i ∈ done ++ rest, i.isRefusal = false) ∧ .looked true ∉ done ++ rest
  /-- and as cancelled exactly if a look did. -/
  cancelled_iff : r = .error .cancelled ↔
    (∀ i ∈ done ++ rest, i.isRefusal = false) ∧ .looked true ∈ done ++ rest

/-- All that happens, in order. -/
def Transcript.course {l : Layout} {as : List Action} {r : TypingResult} (t : Transcript l as r) :
    List Incident :=
  t.lead ++ (t.done ++ t.rest) ++ t.trail

/-- Whole actions, and what stops them, between two releases make a transcript. -/
theorem exists_transcript {l : Layout} {as : List Action} {r : TypingResult} {n : Nat}
    {lead done rest trail : List Incident} (hlead : (Script.releaseModifiers l).Ends lead ())
    (hn : n ≤ as.length) (hwhole : Whole l (as.take n) done) (hstops : Stops l as n rest r)
    (htrail : (Script.releaseModifiers l).Ends trail ()) :
    ∃ t : Transcript l as r, t.course = lead ++ (done ++ rest) ++ trail := by
  obtain ⟨hlead, hblind⟩ := Script.calls_releaseModifiers hlead
  obtain ⟨htrail, hblind'⟩ := Script.calls_releaseModifiers htrail
  have hrefusals : (∀ i ∈ done ++ rest, i.isRefusal = false) ↔ ∀ i ∈ rest, i.isRefusal = false := by
    rw [List.forall_mem_append]
    exact and_iff_right fun i hi ↦ (hwhole.quiet i hi).1
  have hlooks : .looked true ∈ done ++ rest ↔ .looked true ∈ rest := by
    rw [List.mem_append]
    exact or_iff_right fun hi ↦ (hwhole.quiet _ hi).2 rfl
  obtain ⟨hok, hcancelled⟩ := hstops.result_iff
  refine ⟨⟨lead, done, rest, trail, n, hlead, htrail, fun b hb ↦ ?_, hn, hwhole, hwhole.calls_eq,
    hstops, ?_, ?_⟩, rfl⟩
  · rcases List.mem_append.mp hb with hb | hb
    · exact hblind b hb
    · exact hblind' b hb
  · rw [hrefusals, hlooks]
    exact hok
  · rw [hrefusals, hlooks]
    exact hcancelled

/-- The exact transcript of a run, whatever the system answers and whenever the run is cancelled:
without trust there is none. -/
theorem Keyboard.exact_transcript (k : Keyboard) (trusted : Bool) (pauseMs : Nat) (s : Sequence)
    (o : Script.System) :
    (trusted = false ∧
      (k.perform trusted pauseMs s).courseOn o = (.error (.notPermitted k.hint), [])) ∨
    (trusted = true ∧ ∃ r, ∃ t : Transcript k.layout s.actions r,
      (k.perform trusted pauseMs s).courseOn o = (r, t.course)) := by
  have hends := (k.perform trusted pauseMs s).ends_courseOn o
  obtain ⟨ht, his, hr⟩ | ⟨ht, lead, parts, trail, his, hlead, hparts, htrail⟩ :=
    Keyboard.ends_perform hends
  · exact .inl ⟨ht, Prod.ext hr his⟩
  · obtain ⟨n, done, rest, hflat, hn, hwhole, hstops⟩ := hparts.exists_stops
    obtain ⟨t, hcourse⟩ := exists_transcript hlead hn hwhole hstops htrail
    exact .inr ⟨ht, _, t, Prod.ext rfl (by rw [his, hflat, hcourse])⟩

end Typist

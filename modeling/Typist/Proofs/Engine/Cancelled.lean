import Mathlib.Data.List.Basic
import Typist.Proofs.Engine.Performing
import Typist.Proofs.Typing.Transcript

/-!
# Behind a look that finds a run cancelled

A run that is found cancelled is over with its actions: all that is called from then on are the
releases of the modifiers, and the cancellation flag is not looked at again.
-/

namespace Typist

/-- A look that finds the run cancelled is the last thing that happens in the course of actions. -/
theorem Typing.Carries.exists_before {l : Layout} {as : List Action} {parts : List (List Incident)}
    {r : TypingResult} (h : Carries l as parts r) :
    ∃ before after, parts.flatten = before ++ after ∧ .looked true ∉ before ∧
      (after = [] ∨ after = [.looked true]) := by
  have hblind {a : Action} {is : List Incident} {r : TypingResult}
      (ha : (action l a).run.Ends is r) : .looked true ∉ .looked false :: is := by
    intro hmem
    rcases List.mem_cons.mp hmem with hi | hi
    · cases hi
    · obtain ⟨c, r, hcalled⟩ := (blind_action l a).exists_called ha _ hi
      cases hcalled
  induction h with
  | nil => exact ⟨[], [], rfl, List.not_mem_nil, .inl rfl⟩
  | cancelled a as => exact ⟨[], [.looked true], rfl, List.not_mem_nil, .inr rfl⟩
  | @failed a as is e ha =>
    refine ⟨.looked false :: is, [], ?_, hblind ha, .inl rfl⟩
    rw [List.flatten_singleton, List.append_nil]
  | @cons a as is parts r ha _ ih =>
    obtain ⟨before, after, hflat, hbefore, hafter⟩ := ih
    refine ⟨(.looked false :: is) ++ before, after, ?_, ?_, hafter⟩
    · rw [List.flatten_cons, hflat, List.append_assoc]
    · exact fun hmem ↦ (List.mem_append.mp hmem).elim (hblind ha) hbefore

/-- Behind a look that finds a run cancelled, the modifiers are released in order, and nothing else
is done. -/
theorem Keyboard.releases_of_looked {k : Keyboard} {trusted : Bool} {pauseMs : Nat} {s : Sequence}
    {is js : List Incident} {t : Script TypingResult}
    (h : (k.perform trusted pauseMs s).Leads (is ++ .looked true :: js) t) :
    Incident.calls js <+: Script.releases k.layout ∧ ∀ b, .looked b ∉ js := by
  -- wherever the run has come to, it can be carried on to its end
  have hend := h.trans (t.ends_courseOn ⟨fun _ _ ↦ .ok (), fun _ ↦ true⟩)
  obtain ⟨-, hnil, -⟩ | ⟨-, lead, parts, trail, hsplit, hlead, hparts, htrail⟩ :=
    Keyboard.ends_perform hend
  · simp at hnil
  · obtain ⟨before, after, hflat, hbefore, hafter⟩ := hparts.exists_before
    obtain ⟨-, hlead⟩ := Script.calls_releaseModifiers hlead
    obtain ⟨hcalls, htrail⟩ := Script.calls_releaseModifiers htrail
    have hbefore : .looked true ∉ lead ++ before :=
      fun hmem ↦ (List.mem_append.mp hmem).elim (hlead true) hbefore
    rw [hflat, List.append_assoc, List.cons_append] at hsplit
    obtain rfl | rfl := hafter
    · have hmem : .looked true ∈ lead ++ (before ++ []) ++ trail := by
        rw [← hsplit]
        simp
      rw [List.append_nil] at hmem
      exact ((List.mem_append.mp hmem).elim hbefore (htrail true)).elim
    · have hone : lead ++ (before ++ [.looked true]) ++ trail =
          (lead ++ before) ++ .looked true :: trail := by simp
      rw [hone] at hsplit
      obtain ⟨-, -, hrest⟩ :=
        (List.append_cons_inj_of_notMem hbefore (htrail true)).mp hsplit.symm
      rw [hrest] at hcalls htrail
      constructor
      · rw [← hcalls, Incident.calls_append]
        exact List.prefix_append _ _
      · exact fun b hb ↦ htrail b (List.mem_append_left _ hb)

/-- Only an engine with a keyboard looks, and then this holds of what it types. -/
theorem Engine.releases_of_looked {e : Engine} {trusted : Bool} {s : Sequence}
    {is js : List Incident} {t : Script TypingResult}
    (h : (e.script trusted s).Leads (is ++ .looked true :: js) t) :
    ∃ k, e.injector.keyboard = some k ∧ Incident.calls js <+: Script.releases k.layout ∧
      ∀ b, .looked b ∉ js := by
  unfold Engine.script Injector.perform at h
  split at h
  · next k hk => exact ⟨k, hk, Keyboard.releases_of_looked h⟩
  · have hend := h.trans (t.ends_courseOn ⟨fun _ _ ↦ .ok (), fun _ ↦ true⟩)
    obtain ⟨hnil, -⟩ := Script.ends_pure.mp hend
    simp at hnil

/-- Whatever happened to a request, its script leads there. -/
theorem Stage.Came.exists_leads {st : Stage} {p : Script TypingResult} {is : List Incident}
    (h : st.Came p is) : ∃ s, p.Leads is s := by
  have hissues {o : Outcome} (ho : p.Issues is o) : ∃ s, p.Leads is s := by
    cases ho with
    | refused his => exact ⟨p, his ▸ .stays p⟩
    | ended hends => exact ⟨_, hends⟩
    | crashed hleads => exact ⟨_, hleads⟩
  cases st with
  | typing s => exact ⟨s, h⟩
  | typed r => exact ⟨_, h⟩
  | withdrawn r => exact ⟨_, h⟩
  | reported o => exact hissues h
  | quiet o => exact hissues h
  | finished o => exact hissues h
  | _ =>
    obtain rfl : is = [] := h
    exact ⟨p, .stays p⟩

end Typist

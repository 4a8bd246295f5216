import Mathlib.Data.List.Forall2
import Typist.Json.Tagged

/-!
# How records are judged

The members of a record are judged one after the other: one that is at fault hides what stands
behind it, and is hidden by what is at fault in front of it. For the others only the verdict on a
value counts. What was judged well builds a value.
-/

namespace Typist.Json

/-- What is at fault, if anything is. -/
def fault? {α : Type} : Except Mismatch α → Option Mismatch
  | .ok _ => none
  | .error e => some e

@[simp] theorem fault?_ok {α : Type} (a : α) : fault? (.ok a) = none := rfl

@[simp] theorem fault?_error {α : Type} (e : Mismatch) :
    fault? (.error e : Except Mismatch α) = some e := rfl

theorem fault?_eq_none_iff {α : Type} {x : Except Mismatch α} :
    fault? x = none ↔ ∃ a, x = .ok a := by
  cases x <;> simp

theorem fault?_eq_some_iff {α : Type} {x : Except Mismatch α} {e : Mismatch} :
    fault? x = some e ↔ x = .error e := by
  cases x <;> simp

/-- The verdict of a field's slot is that of its reader. -/
@[simp] theorem Field.fault?_check {α : Type} (f : Field α) (j : Json) :
    fault? (f.slot.check j) = fault? (f.read j) := by
  show fault? ((f.read j).map fun _ ↦ ()) = _
  cases f.read j <;> rfl

/-- There is but one way in which a value can pass. -/
theorem eq_of_fault?_eq {x y : Except Mismatch Unit} (h : fault? x = fault? y) : x = y := by
  cases x <;> cases y <;> simp_all

namespace Record

variable {α : Type} {r : Record α} {found found' : List (String × Json)}
  {ms rest : List (Option String × Json)}

/-- Members are judged before those behind them. -/
theorem gather_append (r : Record α) (found : List (String × Json))
    (ms rest : List (Option String × Json)) :
    r.gather found (ms ++ rest) = (r.gather found ms).bind fun found ↦ r.gather found rest := by
  fun_induction r.gather found ms with
  | case1 => rfl
  | case2 => rfl
  | case3 found name j ms hslot hclosed => simp [gather, hslot, hclosed, Except.bind]
  | case4 found name j ms hslot hopen hbroken => simp [gather, hslot, hopen, hbroken, Except.bind]
  | case5 found name j ms hslot hopen hbroken ih => simpa [gather, hslot, hopen, hbroken] using ih
  | case6 found name j ms slot hslot hdup => simp [gather, hslot, hdup, Except.bind]
  | case7 found name j ms slot hslot hdup hcheck ih => simpa [gather, hslot, hdup, hcheck] using ih
  | case8 found name j ms slot hslot hdup e hcheck =>
    simp [gather, hslot, hdup, hcheck, Except.bind]

/-- What was found has passed the checks of its slots. -/
theorem check_of_gather (h : r.gather found ms = .ok found') :
    ∀ v ∈ found', v ∈ found ∨
      ∃ slot, (r.slots.find? fun s ↦ s.name == v.1) = some slot ∧ slot.check v.2 = .ok () := by
  fun_induction r.gather found ms with
  | case1 found =>
    cases h
    exact fun v hv ↦ .inl hv
  | case5 found name j ms hslot hopen hbroken ih => exact ih h
  | case7 found name j ms slot hslot hdup hcheck ih =>
    intro v hv
    rcases ih h v hv with hv | hv
    · rcases List.mem_append.mp hv with hv | hv
      · exact .inl hv
      · obtain rfl := List.mem_singleton.mp hv
        exact .inr ⟨slot, hslot, hcheck⟩
    · exact .inr hv
  | case2 | case3 | case4 | case6 | case8 => cases h

/-- Values stay found, and a member that has a slot is found. -/
theorem mem_of_gather (h : r.gather found ms = .ok found') :
    (∀ v ∈ found, v ∈ found') ∧ ∀ name j, (some name, j) ∈ ms →
      (r.slots.find? fun s ↦ s.name == name) ≠ none → (name, j) ∈ found' := by
  fun_induction r.gather found ms with
  | case1 found =>
    cases h
    exact ⟨fun v hv ↦ hv, nofun⟩
  | case5 found name j ms hslot hopen hbroken ih =>
    refine ⟨(ih h).1, fun name' j' hmem hname ↦ ?_⟩
    rcases List.mem_cons.mp hmem with heq | hmem
    · cases heq
      exact absurd hslot hname
    · exact (ih h).2 name' j' hmem hname
  | case7 found name j ms slot hslot hdup hcheck ih =>
    refine ⟨fun v hv ↦ (ih h).1 v (List.mem_append_left _ hv), fun name' j' hmem hname ↦ ?_⟩
    rcases List.mem_cons.mp hmem with heq | hmem
    · cases heq
      exact (ih h).1 _ (List.mem_append_right _ List.mem_cons_self)
    · exact (ih h).2 name' j' hmem hname
  | case2 | case3 | case4 | case6 | case8 => cases h

/-- A field that may be absent or was found has a value. -/
theorem get_of_gather {β : Type} {f : Field β}
    (hslot : (r.slots.find? fun s ↦ s.name == f.name) = some f.slot)
    (h : r.gather [] ms = .ok found)
    (hpresent : (∃ b, f.presence = .optional b) ∨ ∃ j, (some f.name, j) ∈ ms) :
    ∃ b, Members.get ⟨found, none⟩ f = .ok b := by
  unfold Members.get
  cases hfind : found.find? fun v ↦ v.1 == f.name with
  | some v =>
    have hname : v.1 = f.name := by simpa using List.find?_some hfind
    rcases check_of_gather h v (List.mem_of_find?_eq_some hfind) with hv | ⟨slot, hslot', hcheck⟩
    · cases hv
    · rw [hname, hslot, Option.some.injEq] at hslot'
      rw [← hslot'] at hcheck
      exact fault?_eq_none_iff.mp (by rw [← f.fault?_check, hcheck, fault?_ok])
  | none =>
    rcases hpresent with ⟨b, hb⟩ | ⟨j, hj⟩
    · exact ⟨b, by simp [hb]⟩
    · have hmem := (mem_of_gather h).2 f.name j hj (by simp [hslot])
      exact absurd (List.find?_eq_none.mp hfind _ hmem) (by simp)

/-! ## Verdicts -/

/-- Whether two members get the same verdict wherever they stand. Without a slot of their name
nothing counts but whether their text makes sense. -/
structure JudgesAlike (r : Record α) (m m' : Option String × Json) : Prop where
  name : m.1 = m'.1
  check : ∀ name slot, m.1 = some name → (r.slots.find? fun s ↦ s.name == name) = some slot →
    fault? (slot.check m.2) = fault? (slot.check m'.2)
  broken : ∀ name, m.1 = some name → (r.slots.find? fun s ↦ s.name == name) = none →
    m.2.isBroken = m'.2.isBroken

theorem JudgesAlike.refl (r : Record α) (m : Option String × Json) : r.JudgesAlike m m :=
  ⟨rfl, fun _ _ _ _ ↦ rfl, fun _ _ _ ↦ rfl⟩

theorem JudgesAlike.of_slot {slot : Slot} {name : String} {j j' : Json}
    (hslot : (r.slots.find? fun s ↦ s.name == name) = some slot)
    (h : fault? (slot.check j) = fault? (slot.check j')) :
    r.JudgesAlike (some name, j) (some name, j') where
  name := rfl
  check _ _ hname hslot' := by
    cases hname
    cases hslot.symm.trans hslot'
    exact h
  broken _ hname hslot' := by
    cases hname
    cases hslot.symm.trans hslot'

/-- Only verdicts count, and the names of what was found. -/
theorem fault?_gather_congr {ms ms' : List (Option String × Json)}
    (h : List.Forall₂ r.JudgesAlike ms ms') {found found' : List (String × Json)}
    (hfound : found.map Prod.fst = found'.map Prod.fst) :
    fault? (r.gather found ms) = fault? (r.gather found' ms') := by
  induction h generalizing found found' with
  | nil => rfl
  | @cons m m' ms ms' hm _ ih =>
    obtain ⟨name?, j⟩ := m
    obtain ⟨name?', j'⟩ := m'
    obtain ⟨rfl, hcheck, hbroken⟩ := hm
    cases name? with
    | none => rfl
    | some name =>
      have hdup : (found.any fun v ↦ v.1 == name) = found'.any fun v ↦ v.1 == name := by
        have := congrArg (List.any · (· == name)) hfound
        rwa [List.any_map, List.any_map] at this
      rw [gather, gather, hdup]
      cases hslot : r.slots.find? fun s ↦ s.name == name with
      | none =>
        have hsense : j.isBroken = j'.isBroken := hbroken name rfl hslot
        dsimp only
        rw [hsense]
        split
        · rfl
        · split
          · rfl
          · exact ih hfound
      | some slot =>
        have hverdict : slot.check j = slot.check j' :=
          eq_of_fault?_eq (hcheck name slot rfl hslot)
        dsimp only
        rw [hverdict]
        split
        · rfl
        · split
          · exact ih (by simp [hfound])
          · rfl

/-- One member in another's place. -/
theorem fault?_gather_replace {m m' : Option String × Json} (h : r.JudgesAlike m m')
    (ms rest : List (Option String × Json)) :
    fault? (r.gather [] (ms ++ m :: rest)) = fault? (r.gather [] (ms ++ m' :: rest)) := by
  refine fault?_gather_congr (List.rel_append ?_ (.cons h ?_)) rfl
  · exact List.forall₂_same.mpr fun m _ ↦ .refl r m
  · exact List.forall₂_same.mpr fun m _ ↦ .refl r m

section Faulty

variable {slot : Slot} {name : String} {j j' : Json} {e : Mismatch}
  (hslot : (r.slots.find? fun s ↦ s.name == name) = some slot) (hcheck : slot.check j = .error e)

include hslot hcheck

/-- Nothing is judged behind a member at fault. -/
theorem exists_fault?_gather (ms rest : List (Option String × Json)) :
    ∃ e', fault? (r.gather [] (ms ++ (some name, j) :: rest)) = some e' ∧
      fault? (r.gather [] (ms ++ [(some name, j)])) = some e' := by
  rw [gather_append, gather_append]
  cases r.gather [] ms with
  | error e' => exact ⟨e', rfl, rfl⟩
  | ok found =>
    simp only [Except.bind, gather, hslot, hcheck]
    split
    · exact ⟨_, rfl, rfl⟩
    · exact ⟨_, rfl, rfl⟩

/-- A member at fault is blamed unless something in front of it is, or it repeats a name. That can
be told from a member of its name that is not at fault. -/
theorem fault?_gather_blames (hcheck' : slot.check j' = .ok ())
    (ms rest : List (Option String × Json)) :
    fault? (r.gather [] (ms ++ (some name, j) :: rest)) =
      (fault? (r.gather [] (ms ++ [(some name, j')]))).or (some e) := by
  rw [gather_append, gather_append]
  cases r.gather [] ms with
  | error e' => rfl
  | ok found =>
    simp only [Except.bind, gather, hslot, hcheck, hcheck']
    split <;> rfl

end Faulty

/-- A record with two fields is at fault exactly if a member is, unless a field is missing. -/
theorem fault?_ofMembers_two {β γ : Type} {wanted : String} {f : Field β} {g : Field γ}
    {make : β → γ → α} (hne : f.name ≠ g.name)
    (hf : (∃ b, f.presence = .optional b) ∨ ∃ j, (some f.name, j) ∈ ms)
    (hg : (∃ c, g.presence = .optional c) ∨ ∃ j, (some g.name, j) ∈ ms) :
    fault? ((two wanted f g make).ofMembers ms) = fault? ((two wanted f g make).gather [] ms) := by
  rw [ofMembers]
  cases h : (two wanted f g make).gather [] ms with
  | error e => rfl
  | ok found =>
    obtain ⟨b, hb⟩ := get_of_gather (by simp [two, Field.slot]) h hf
    obtain ⟨c, hc⟩ := get_of_gather (by simp [two, Field.slot, hne]) h hg
    show fault? ((two wanted f g make).build ⟨found, none⟩) = none
    simp only [two, hb, hc]
    rfl

end Record

/-! ## Tags -/

namespace Tagged

variable {α : Type} {t : Tagged α} {extent : Extent} {depth : Nat} {body : Body α} {tag : Json}

/-- The members of an object that are called as its tag. -/
def tags (ms : List (Option String × Json)) : List (Option String × Json) :=
  ms.filter fun m ↦ m.1 = some tagName

theorem tags_append (ms ms' : List (Option String × Json)) :
    tags (ms ++ ms') = tags ms ++ tags ms' := List.filter_append ..

/-- The members of an object apart from its tag. -/
def untagged (ms : List (Option String × Json)) : List (Option String × Json) :=
  ms.filter fun m ↦ m.1 ≠ some tagName

/-- Behind the tag, what can be read is kept. -/
theorem gather_behind_tag {ms : List (Option String × Json)} (htags : tags ms = [])
    (hreadable : ∀ m ∈ ms, m.1.isSome = true ∧ m.2.isReadable depth = true)
    (others : List (Option String × Json)) :
    t.gather extent depth (some body) others ms = .ok (body, .members (others.reverse ++ ms)) := by
  induction ms generalizing others with
  | nil => simp [gather]
  | cons m ms ih =>
    obtain ⟨name?, j⟩ := m
    obtain ⟨hm, hms⟩ := List.forall_mem_cons.mp hreadable
    obtain ⟨name, rfl⟩ := Option.isSome_iff_exists.mp hm.1
    have hname : name ≠ tagName := by
      rintro rfl
      simp [tags] at htags
    have hrest : tags ms = [] := by simpa [tags, hname] using htags
    rw [gather, if_neg hname, if_pos hm.2, ih hrest hms, List.reverse_cons, List.append_assoc]
    rfl

/-- An object with one tag is its variant and everything else, if it can be read. -/
theorem gather_of_tags {ms : List (Option String × Json)}
    (htags : tags ms = [(some tagName, tag)]) (hbody : t.variant? extent tag = .ok body)
    (hreadable : ∀ m ∈ ms, m.1.isSome = true ∧ m.2.isReadable depth = true)
    (others : List (Option String × Json)) :
    t.gather extent depth none others ms =
      .ok (body, .members (others.reverse ++ untagged ms)) := by
  induction ms generalizing others with
  | nil => simp [tags] at htags
  | cons m ms ih =>
    obtain ⟨name?, j⟩ := m
    obtain ⟨hm, hms⟩ := List.forall_mem_cons.mp hreadable
    obtain ⟨name, rfl⟩ := Option.isSome_iff_exists.mp hm.1
    by_cases hname : name = tagName
    · subst hname
      obtain ⟨rfl, hrest⟩ : j = tag ∧ tags ms = [] := by simpa [tags] using htags
      have hothers : untagged ((some tagName, j) :: ms) = ms := by
        rw [untagged, List.filter_cons_of_neg (by simp), List.filter_eq_self]
        intro m hm
        simpa using List.filter_eq_nil_iff.mp hrest m hm
      rw [gather, if_pos rfl, hothers]
      simp only [hbody]
      exact gather_behind_tag hrest hms others
    · have hrest : tags ms = [(some tagName, tag)] := by simpa [tags, hname] using htags
      have hothers : untagged ((some name, j) :: ms) = (some name, j) :: untagged ms := by
        simp [untagged, hname]
      rw [gather, if_neg hname, if_pos hm.2, ih hrest hms, hothers, List.reverse_cons,
        List.append_assoc]
      rfl

end Tagged

end Typist.Json

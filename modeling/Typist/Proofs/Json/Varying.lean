import Mathlib.Data.List.Forall2
import Mathlib.Data.List.Nodup
import Typist.Proofs.Json.Judging
import Typist.Proofs.Json.Quoted

/-!
# Values that vary

The members of an object may stand in any order, and strings under names that nobody asks for may
stand between them. A tagged value is read all the same: its tag is found wherever it stands, what
is unknown is passed over, and every field finds the value that was written for it.
-/

namespace Typist

/-! ## Digits -/

namespace Decimal

theorem digitsOf_of_lt {n : Nat} (h : n < 10) : digitsOf n = [n] := by
  have hdigit : ∀ d < 10, (Nat.digitChar d).toNat - '0'.toNat = d := by decide
  rw [digitsOf, Nat.toDigits_of_lt_base h, List.map_singleton, hdigit n h]

theorem digitsOf_of_le {n : Nat} (h : 10 ≤ n) : digitsOf n = digitsOf (n / 10) ++ [n % 10] := by
  rw [← digitsOf_of_lt (Nat.mod_lt n (by decide)), digitsOf, digitsOf, digitsOf,
    Nat.toDigits_of_base_le (by decide) h, Nat.toDigits_of_lt_base (Nat.mod_lt n (by decide)),
    List.map_append]

/-- A number is written with digits, the first of which is a zero only in zero itself. -/
theorem digitsOf_spec (n : Nat) :
    (∀ d ∈ digitsOf n, d < 10) ∧ digitsOf n ≠ [] ∧ ((digitsOf n).head? = some 0 → n = 0) := by
  induction n using Nat.strongRecOn with
  | _ n ih =>
    rcases Nat.lt_or_ge n 10 with hn | hn
    · rw [digitsOf_of_lt hn]
      simp [hn]
    · obtain ⟨hdigits, hne, hzero⟩ := ih (n / 10) (by omega)
      rw [digitsOf_of_le hn]
      refine ⟨fun d hd ↦ ?_, by simp, fun hhead ↦ ?_⟩
      · rcases List.mem_append.mp hd with hd | hd
        · exact hdigits d hd
        · rw [List.mem_singleton.mp hd]
          exact Nat.mod_lt n (by decide)
      · rw [List.head?_append_of_ne_nil _ hne] at hhead
        have := hzero hhead
        omega

end Decimal

namespace Json

theorem takeDigits_append {m v d : Nat} {ds : List Nat} (h : takeDigits m ds = ⟨v, []⟩)
    (hd : 10 * v + d < UInt64.size) : takeDigits m (ds ++ [d]) = ⟨10 * v + d, []⟩ := by
  fun_induction takeDigits m ds with
  | case1 m =>
    cases h
    simp [takeDigits, hd]
  | case2 m e ds hfits ih => simpa [takeDigits, hfits] using ih h
  | case3 => cases h

/-- The digits of a word are taken as that word. -/
theorem takeDigits_digitsOf {n : Nat} (h : n < UInt64.size) :
    takeDigits 0 (Decimal.digitsOf n) = ⟨n, []⟩ := by
  induction n using Nat.strongRecOn with
  | _ n ih =>
    rcases Nat.lt_or_ge n 10 with hn | hn
    · rw [Decimal.digitsOf_of_lt hn]
      simp [takeDigits, h]
    · have hsplit : 10 * (n / 10) + n % 10 = n := Nat.div_add_mod n 10
      have hstep := takeDigits_append (d := n % 10) (ih (n / 10) (by omega) (by omega))
        (by rw [hsplit]; exact h)
      rw [Decimal.digitsOf_of_le hn, hstep, hsplit]

theorem value?_ofNat {n : Nat} (h : n < UInt64.size) :
    (Literal.ofNat n).value? = some (.whole n) := by
  simp [Literal.value?, Literal.whole?, Literal.ofNat, takeDigits_digitsOf h]

/-- A word is read as that word. -/
theorem asWord_natural (w : UInt64) (wanted : String) :
    asWord wanted (natural w.toNat) = .ok w := by
  simp [asWord, natural, found?, value?_ofNat w.toNat_lt]

theorem isReadBack_natural (n : Nat) : (natural n).IsReadBack := by
  obtain ⟨hdigits, hne, hzero⟩ := Decimal.digitsOf_spec n
  refine isReadBack_digits hdigits hne fun hhead ↦ ?_
  rw [Decimal.digitsOf_of_lt (show n < 10 by rw [hzero hhead]; decide), hzero hhead]

theorem isReadBack_bool (b : Bool) : (bool b).IsReadBack := by
  intro stack rest _
  cases b with
  | false => exact build_scalar rfl
  | true => exact build_scalar rfl

/-! ## Values of which messages are made -/

theorem record_injective {ms ms' : List (String × Json)} (h : record ms = record ms') :
    ms = ms' := by
  have hpair : Function.Injective fun m : String × Json ↦ (some m.1, m.2) := by
    rintro ⟨name, j⟩ ⟨name', j'⟩ heq
    simpa using heq
  exact hpair.list_map (Json.object.inj h)

/-- Whether a value is made of words, truth values, texts and null, and its objects nest in each
other to a given depth at most. -/
inductive Written : Nat → Json → Prop
  | null {depth : Nat} : Written depth .null
  | bool {depth : Nat} (b : Bool) : Written depth (.bool b)
  | word {depth : Nat} (w : UInt64) : Written depth (natural w.toNat)
  | text {depth : Nat} (s : String) : Written depth (text s)
  | record {depth : Nat} {ms : List (String × Json)} :
      (∀ m ∈ ms, Written depth m.2) → Written (depth + 1) (record ms)

namespace Written

variable {depth depth' : Nat} {j : Json}

theorem optionalText : (s? : Option String) → Written depth (.optionalText s?)
  | some s => .text s
  | none => .null

theorem isReadBack (h : Written depth j) : j.IsReadBack := by
  induction h with
  | null => exact isReadBack_null
  | bool b => exact isReadBack_bool b
  | word w => exact isReadBack_natural w.toNat
  | text s => exact isReadBack_text s
  | record _ ih => exact isReadBack_record ih

theorem isReadable (h : Written depth j) (hdepth : depth ≤ depth') :
    j.isReadable depth' = true := by
  induction h generalizing depth' with
  | null => cases depth' <;> rfl
  | bool => cases depth' <;> rfl
  | word w => cases depth' <;> simp [natural, Json.isReadable, value?_ofNat w.toNat_lt]
  | text => cases depth' <;> rfl
  | @record depth ms _ ih =>
    obtain ⟨d, rfl⟩ : ∃ d, depth' = d + 1 := ⟨depth' - 1, by omega⟩
    simp only [Json.record, Json.isReadable, List.all_map, List.all_eq_true]
    intro m hm
    exact ih m hm (by omega)

theorem of_record {ms : List (String × Json)} (h : Written depth (Json.record ms)) :
    ∃ d, depth = d + 1 ∧ ∀ m ∈ ms, Written d m.2 := by
  generalize hj : Json.record ms = j at h
  cases h with
  | @record d ms' hms' =>
    obtain rfl := record_injective hj
    exact ⟨d, rfl, hms'⟩
  | null | bool | word | text => cases hj

end Written

/-! ## Variation -/

/-- Whether two values differ in nothing but the order of the members of their objects, and in
strings that the second has under names that the first has not. -/
inductive Varies : Json → Json → Prop
  | refl (j : Json) : Varies j j
  /-- Each member has a name, its value in the first object, and its value in the second. -/
  | record {ms : List (String × Json × Json)} {others : List (String × String)}
      {ms' : List (String × Json)} :
      (∀ m ∈ ms, Varies m.2.1 m.2.2) → (∀ o ∈ others, o.1 ∉ ms.map Prod.fst) →
      ms'.Perm (ms.map (fun m ↦ (m.1, m.2.2)) ++ others.map fun o ↦ (o.1, text o.2)) →
      Varies (record (ms.map fun m ↦ (m.1, m.2.1))) (record ms')

/-- Whether two members have one name and values that vary. -/
def VaryingMember (m m' : String × Json) : Prop := m.1 = m'.1 ∧ m.2.Varies m'.2

namespace Varies

variable {j j' : Json} {ms : List (String × Json)}

/-- Only objects vary. -/
theorem eq_of_ne_record (h : j.Varies j') (hj : ∀ ms, j ≠ Json.record ms) : j' = j := by
  cases h with
  | refl => rfl
  | record => exact absurd rfl (hj _)

/-- An object varies as an object: member by member, then in their order and with others. -/
theorem of_record (h : (Json.record ms).Varies j) :
    ∃ (new : List (String × Json)) (others : List (String × String)) (ms' : List (String × Json)),
      j = Json.record ms' ∧ List.Forall₂ VaryingMember ms new ∧
      (∀ o ∈ others, o.1 ∉ ms.map Prod.fst) ∧
      ms'.Perm (new ++ others.map fun o ↦ (o.1, text o.2)) := by
  generalize hold : Json.record ms = old at h
  cases h with
  | refl =>
    refine ⟨ms, [], ms, hold.symm, ?_, nofun, by simp⟩
    exact List.forall₂_same.mpr fun m _ ↦ ⟨rfl, .refl m.2⟩
  | @record both others ms' hboth hothers hperm =>
    obtain rfl := record_injective hold
    refine ⟨both.map fun m ↦ (m.1, m.2.2), others, ms', rfl, ?_, ?_, hperm⟩
    · rw [List.forall₂_map_left_iff, List.forall₂_map_right_iff]
      exact List.forall₂_same.mpr fun m hm ↦ ⟨rfl, hboth m hm⟩
    · simpa [Function.comp_def] using hothers

/-- What varies stays what messages are made of. -/
theorem written {depth : Nat} (h : j.Varies j') (hj : Written depth j) : Written depth j' := by
  induction h generalizing depth with
  | refl => exact hj
  | @record ms others ms' _ _ hperm ih =>
    obtain ⟨d, rfl, hms⟩ := hj.of_record
    refine .record fun m hm ↦ ?_
    rcases List.mem_append.mp (hperm.mem_iff.mp hm) with hm | hm
    · obtain ⟨m₀, hm₀, rfl⟩ := List.mem_map.mp hm
      exact ih m₀ hm₀ (hms (m₀.1, m₀.2.1) (List.mem_map_of_mem hm₀))
    · obtain ⟨o, -, rfl⟩ := List.mem_map.mp hm
      exact .text o.2

end Varies

/-! ## Records -/

/-- What is related to a list has, for each of its items, one that is related to it. -/
theorem exists_of_mem {α β : Type} {R : α → β → Prop} {as : List α} {bs : List β}
    (h : List.Forall₂ R as bs) {a : α} (ha : a ∈ as) : ∃ b ∈ bs, R a b := by
  induction h with
  | nil => cases ha
  | @cons _ b _ _ hab _ ih =>
    rcases List.mem_cons.mp ha with rfl | ha
    · exact ⟨b, List.mem_cons_self, hab⟩
    · obtain ⟨b', hb', hab'⟩ := ih ha
      exact ⟨b', List.mem_cons_of_mem _ hb', hab'⟩

/-- A field takes a value, however that varies. -/
def Field.Takes {β : Type} (f : Field β) (j : Json) (b : β) : Prop :=
  ∀ j', j.Varies j' → f.read j' = .ok b

/-- A slot accepts a value, however that varies. -/
def Slot.Accepts (slot : Slot) (m : String × Json) : Prop :=
  slot.name = m.1 ∧ ∀ j, m.2.Varies j → slot.check j = .ok ()

/-- Values were found for members, however these vary. -/
def FoundFor (found ms : List (String × Json)) : Prop :=
  ∀ m ∈ ms, ∃ j, m.2.Varies j ∧ (found.find? fun v ↦ v.1 == m.1) = some (m.1, j)

/-- Members make a value of a record: each has a slot, in their order, and together they are the
value. -/
structure Record.Makes {α : Type} (r : Record α) (ms : List (String × Json)) (a : α) : Prop where
  closed : r.closed = false
  accepts : List.Forall₂ Slot.Accepts r.slots ms
  nodup : (ms.map Prod.fst).Nodup
  build : ∀ found, FoundFor found ms → r.build ⟨found, none⟩ = .ok a

section Fields

variable {β γ : Type} {f : Field β} {g : Field γ} {j j' : Json} {b : β} {c : γ}

theorem Field.Takes.accepts (h : f.Takes j b) : f.slot.Accepts (f.name, j) := by
  refine ⟨rfl, fun j' hj' ↦ ?_⟩
  show (f.read j').map (fun _ ↦ ()) = .ok ()
  rw [h j' hj']
  rfl

/-- A field that takes the value that was found for it gets it. -/
theorem Field.Takes.get (h : f.Takes j b) {found ms : List (String × Json)}
    (hfound : FoundFor found ms) (hmem : (f.name, j) ∈ ms) :
    Members.get ⟨found, none⟩ f = .ok b := by
  obtain ⟨j', hj', hfind⟩ := hfound _ hmem
  simp only [Members.get, hfind]
  exact h j' hj'

end Fields

namespace Record

variable {α β γ : Type} {r : Record α} {f : Field β} {g : Field γ} {j j' : Json} {b : β} {c : γ}

theorem makes_one (wanted : String) (make : β → α) (h : f.Takes j b) :
    (one wanted f make).Makes [(f.name, j)] (make b) where
  closed := rfl
  accepts := .cons h.accepts .nil
  nodup := List.nodup_singleton _
  build found hfound := by
    simp only [one, h.get hfound (by simp)]
    rfl

theorem makes_two (wanted : String) (make : β → γ → α) (hne : f.name ≠ g.name)
    (hf : f.Takes j b) (hg : g.Takes j' c) :
    (two wanted f g make).Makes [(f.name, j), (g.name, j')] (make b c) where
  closed := rfl
  accepts := .cons hf.accepts (.cons hg.accepts .nil)
  nodup := by simp [hne]
  build found hfound := by
    simp only [two, hf.get hfound (by simp), hg.get hfound (by simp)]
    rfl

variable {ms new rest : List (String × Json)} {others : List (String × String)} {a : α}

theorem Makes.map (h : r.Makes ms a) (make : α → β) :
    Makes { r with build := fun m ↦ make <$> r.build m } ms (make a) where
  closed := h.closed
  accepts := h.accepts
  nodup := h.nodup
  build found hfound := by
    simp only [h.build found hfound]
    rfl

/-- Each member finds the slot that accepts it. -/
theorem exists_slot {slots : List Slot} (h : List.Forall₂ Slot.Accepts slots ms)
    (hnodup : (ms.map Prod.fst).Nodup) :
    ∀ m ∈ ms, ∃ slot, (slots.find? fun s ↦ s.name == m.1) = some slot ∧ slot.Accepts m := by
  induction h with
  | nil => nofun
  | @cons slot m slots ms hslot _ ih =>
    rw [List.map_cons, List.nodup_cons] at hnodup
    refine List.forall_mem_cons.mpr ⟨⟨slot, ?_, hslot⟩, fun m' hm' ↦ ?_⟩
    · exact List.find?_cons_of_pos (by simp [hslot.1])
    · obtain ⟨slot', hfind, haccepts⟩ := ih hnodup.2 m' hm'
      have hne : slot.name ≠ m'.1 := fun heq ↦
        hnodup.1 (hslot.1 ▸ heq ▸ List.mem_map_of_mem hm')
      exact ⟨slot', (List.find?_cons_of_neg (by simpa using hne)).trans hfind, haccepts⟩

/-- If nothing is at fault, what is found are the members that have slots. -/
theorem gather_eq_filter (hclosed : r.closed = false)
    (hslots : ∀ m ∈ ms, ∀ slot, (r.slots.find? fun s ↦ s.name == m.1) = some slot →
      slot.check m.2 = .ok ())
    (hothers : ∀ m ∈ ms, (r.slots.find? fun s ↦ s.name == m.1) = none → m.2.isBroken = false)
    {found : List (String × Json)}
    (hnodup : ((found ++ ms.filter fun m ↦ (r.slots.find? fun s ↦ s.name == m.1).isSome).map
      Prod.fst).Nodup) :
    r.gather found (ms.map fun m ↦ (some m.1, m.2)) =
      .ok (found ++ ms.filter fun m ↦ (r.slots.find? fun s ↦ s.name == m.1).isSome) := by
  induction ms generalizing found with
  | nil => simp [gather]
  | cons m ms ih =>
    rw [List.forall_mem_cons] at hslots hothers
    rw [List.map_cons, gather]
    cases hslot : r.slots.find? fun s ↦ s.name == m.1 with
    | none =>
      rw [List.filter_cons_of_neg (by simp [hslot])] at hnodup ⊢
      simp only [hclosed, Bool.false_eq_true, if_false, hothers.1 hslot]
      exact ih hslots.2 hothers.2 hnodup
    | some slot =>
      rw [List.filter_cons_of_pos (by simp [hslot])] at hnodup ⊢
      have hdup : (found.any fun v ↦ v.1 == m.1) = false := by
        rw [List.map_append, List.map_cons] at hnodup
        rw [List.any_eq_false]
        intro v hv heq
        exact (List.nodup_append.mp hnodup).2.2 v.1 (List.mem_map_of_mem hv) m.1
          List.mem_cons_self (by simpa using heq)
      simp only [hdup, Bool.false_eq_true, if_false, hslots.1 slot hslot]
      rw [ih hslots.2 hothers.2 (by simpa using hnodup), List.append_assoc]
      rfl

/-- The one value of a name is found. -/
theorem find?_of_mem {found : List (String × Json)} (hnodup : (found.map Prod.fst).Nodup)
    {m : String × Json} (hm : m ∈ found) : (found.find? fun v ↦ v.1 == m.1) = some m := by
  cases hfind : found.find? fun v ↦ v.1 == m.1 with
  | none => exact absurd (List.find?_eq_none.mp hfind m hm) (by simp)
  | some v =>
    have hname : v.1 = m.1 := by simpa using List.find?_some hfind
    rw [List.inj_on_of_nodup_map hnodup (List.mem_of_find?_eq_some hfind) hm hname]

/-- Members are read, however they vary. -/
theorem Makes.ofMembers (h : r.Makes ms a) (hnew : List.Forall₂ VaryingMember ms new)
    (hothers : ∀ o ∈ others, o.1 ∉ ms.map Prod.fst)
    (hperm : rest.Perm (new ++ others.map fun o ↦ (o.1, text o.2))) :
    r.ofMembers (rest.map fun m ↦ (some m.1, m.2)) = .ok a := by
  have hnames : ms.map Prod.fst = new.map Prod.fst := by
    rw [← List.forall₂_eq_eq_eq, List.forall₂_map_left_iff, List.forall₂_map_right_iff]
    exact hnew.imp fun _ _ hm ↦ hm.1
  have hslot := exists_slot h.accepts h.nodup
  -- a member that varies has the slot of the member that it was
  have hknown : ∀ m' ∈ new, ∃ slot, (r.slots.find? fun s ↦ s.name == m'.1) = some slot ∧
      slot.check m'.2 = .ok () := by
    intro m' hm'
    obtain ⟨m, hm, hname, hvaries⟩ := exists_of_mem hnew.flip hm'
    obtain ⟨slot, hfind, haccepts⟩ := hslot m hm
    exact ⟨slot, hname ▸ hfind, haccepts.2 m'.2 hvaries⟩
  have hunknown : ∀ o ∈ others, (r.slots.find? fun s ↦ s.name == o.1) = none := by
    intro o ho
    rw [List.find?_eq_none]
    intro slot hs heq
    obtain ⟨m, hm, haccepts⟩ := exists_of_mem h.accepts hs
    exact hothers o ho ((beq_iff_eq.mp heq) ▸ haccepts.1 ▸ List.mem_map_of_mem hm)
  let known (m : String × Json) : Bool := (r.slots.find? fun s ↦ s.name == m.1).isSome
  have hfound : (rest.filter known).Perm new := by
    refine (hperm.filter known).trans (.of_eq ?_)
    rw [List.filter_append, List.filter_eq_self.mpr, List.filter_eq_nil_iff.mpr, List.append_nil]
    · intro m hm
      obtain ⟨o, ho, rfl⟩ := List.mem_map.mp hm
      simp [known, hunknown o ho]
    · intro m hm
      obtain ⟨slot, hfind, -⟩ := hknown m hm
      simp [known, hfind]
  have hnodup : ((rest.filter known).map Prod.fst).Nodup :=
    ((hfound.map Prod.fst).nodup_iff).mpr (hnames ▸ h.nodup)
  have hgather : r.gather [] (rest.map fun m ↦ (some m.1, m.2)) = .ok (rest.filter known) := by
    refine gather_eq_filter h.closed (fun m hm slot hfind ↦ ?_) (fun m hm hfind ↦ ?_) hnodup
    · have hmem : m ∈ new := hfound.mem_iff.mp (List.mem_filter.mpr ⟨hm, by simp [known, hfind]⟩)
      obtain ⟨slot', hfind', hcheck⟩ := hknown m hmem
      exact Option.some.inj (hfind.symm.trans hfind') ▸ hcheck
    · rcases List.mem_append.mp (hperm.mem_iff.mp hm) with hm | hm
      · obtain ⟨slot, hfind', -⟩ := hknown m hm
        simp [hfind] at hfind'
      · obtain ⟨o, -, rfl⟩ := List.mem_map.mp hm
        simp [text, isBroken]
  have hbuild := h.build (rest.filter known) fun m hm ↦ by
    obtain ⟨m', hm', hname, hvaries⟩ := exists_of_mem hnew hm
    exact ⟨m'.2, hvaries, hname ▸ find?_of_mem hnodup (hfound.mem_iff.mpr hm')⟩
  rw [Record.ofMembers, hgather]
  exact hbuild

end Record

/-! ## Tagged values -/

/-- Members make what a variant carries; one that carries nothing has none. -/
inductive Body.Makes {α : Type} : Body α → List (String × Json) → α → Prop
  | unit {a : α} : Makes (.unit a) [] a
  | record {r : Record α} {ms : List (String × Json)} {a : α} :
      r.Makes ms a → Makes (.record r) ms a

/-- A tagged value is read, however it varies. -/
theorem Tagged.read_of_varies {α : Type} {t : Tagged α} {extent : Extent} {depth : Nat}
    {name : String} {body : Body α} {ms : List (String × Json)} {a : α} {j : Json}
    (hbody : body.Makes ms a) (htag : (ms.any fun m ↦ m.1 == tagName) = false)
    (hvariant : (t.variants.find? fun v ↦ v.1 == name) = some (name, body))
    (hj : (record ((tagName, text name) :: ms)).Varies j)
    (hreadable : j.isReadable (depth + 1) = true) : t.read extent depth j = .ok a := by
  obtain ⟨new, others, ms', rfl, hnew, hothers, hperm⟩ := hj.of_record
  cases hnew with
  | @cons _ tag _ new htag' hnew =>
    obtain ⟨tagged, value⟩ := tag
    obtain ⟨rfl, hvalue⟩ := htag'
    obtain rfl : value = text name := hvalue.eq_of_ne_record fun _ heq ↦ by cases heq
    rw [List.map_cons] at hothers
    have hrest : ∀ m ∈ new ++ others.map fun o ↦ (o.1, text o.2), m.1 ≠ tagName := by
      intro m hm heq
      rcases List.mem_append.mp hm with hm | hm
      · obtain ⟨m₀, hm₀, hname, -⟩ := exists_of_mem hnew.flip hm
        exact List.any_eq_false.mp htag m₀ hm₀ (beq_iff_eq.mpr (hname.trans heq))
      · obtain ⟨o, ho, rfl⟩ := List.mem_map.mp hm
        exact hothers o ho (heq ▸ List.mem_cons_self)
    let some' (m : String × Json) : Option String × Json := (some m.1, m.2)
    have htags : tags (ms'.map some') = [(some tagName, text name)] := by
      refine List.perm_singleton.mp (((hperm.map some').filter _).trans (.of_eq ?_))
      rw [List.cons_append, List.map_cons, List.filter_cons_of_pos (by simp [some']),
        List.filter_eq_nil_iff.mpr]
      intro m hm
      obtain ⟨m₀, hm₀, rfl⟩ := List.mem_map.mp hm
      simpa [some'] using hrest m₀ hm₀
    have huntagged : untagged (ms'.map some') = (ms'.filter fun m ↦ m.1 ≠ tagName).map some' := by
      rw [untagged, List.filter_map]
      congr 2
      funext m
      simp [some']
    have hothersPerm : (ms'.filter fun m ↦ m.1 ≠ tagName).Perm
        (new ++ others.map fun o ↦ (o.1, text o.2)) := by
      refine (hperm.filter _).trans (.of_eq ?_)
      rw [List.cons_append, List.filter_cons_of_neg (by simp), List.filter_eq_self]
      simpa using hrest
    have hsplit : t.split extent depth (record ms') =
        .ok (body, .members ((ms'.filter fun m ↦ m.1 ≠ tagName).map some')) := by
      have hvariant? : t.variant? extent (text name) = .ok body := by
        simp only [variant?, text, hvariant]
      have hall : ∀ m ∈ ms'.map some', m.1.isSome = true ∧ m.2.isReadable depth = true := by
        rw [record, isReadable] at hreadable
        simpa only [List.all_eq_true, Bool.and_eq_true] using hreadable
      rw [← huntagged]
      exact gather_of_tags htags hvariant? hall []
    rw [read, hsplit]
    cases hbody with
    | unit => rfl
    | record hmakes =>
      exact hmakes.ofMembers hnew (fun o ho hmem ↦ hothers o ho (List.mem_cons_of_mem _ hmem))
        hothersPerm

/-- The text of a value is decoded as the value is read. -/
theorem IsReadBack.decode_bytes {α : Type} {j : Json} (h : j.IsReadBack)
    (form : Json → Except Mismatch α) : decode form j.bytes = form j := by
  rw [decode, h.read_bytes]
  show (form j).bind (fun value ↦ .ok value) = form j
  cases form j <;> rfl

end Json

end Typist

import Mathlib
import Typist.Proofs.Json.Grammar
import Typist.Proofs.Json.Varying
import Typist.Settings

/-!
# What a settings file says

A settings file is an object whose members are settings, each once at most, or an array of all four in
their order; null is as good as nothing. Texts that denote such a value are read as what it says, and
no others are read at all.
-/

namespace Typist

/-! ## Results -/

theorem bind_eq_ok_iff {ε α β : Type} {x : Except ε α} {g : α → Except ε β} {b : β} :
    (x >>= g) = .ok b ↔ ∃ a, x = .ok a ∧ g a = .ok b := by
  cases x <;> simp [bind, Except.bind]

theorem map_eq_ok_iff {ε α β : Type} {x : Except ε α} {g : α → β} {b : β} :
    x.map g = .ok b ↔ ∃ a, x = .ok a ∧ g a = b := by
  cases x <;> simp [Except.map]

namespace Json

/-! ## Single values -/

/-- Whether a value is this text. -/
def IsText (j : Json) (s : String) : Prop := j = text s

/-- Whether a value is this word: a number without sign, fraction and exponent. -/
def IsWord (j : Json) (w : UInt64) : Prop :=
  ∃ ds, j = .number ⟨false, ds, none, none⟩ ∧ Nat.ofDigits 10 ds.reverse = w.toNat

/-- Whether a value gives something, or null nothing. -/
def Gives {α : Type} (R : Json → α → Prop) (j : Json) (v : Option α) : Prop :=
  (j = .null ∧ v = none) ∨ ∃ a, v = some a ∧ R j a

theorem asTextOf_eq_ok_iff {wanted : String} {j : Json} {s : String} :
    asTextOf wanted j = .ok s ↔ IsText j s := by
  unfold asTextOf IsText
  split
  · next s' => simp [text]
  · next hne =>
    refine iff_of_false (by simp) ?_
    rintro rfl
    exact hne s rfl

/-- Digits are all taken exactly if their number is a word. -/
theorem takeDigits_eq_iff {n v : Nat} {ds : List Nat} (hn : n < UInt64.size) :
    takeDigits n ds = ⟨v, []⟩ ↔
      Nat.ofDigits 10 ds.reverse + 10 ^ ds.length * n = v ∧ v < UInt64.size := by
  induction ds generalizing n with
  | nil =>
    simp only [takeDigits, List.reverse_nil, Nat.ofDigits_nil, List.length_nil, Significand.mk.injEq,
      and_true]
    omega
  | cons d ds ih =>
    have hsum : Nat.ofDigits 10 (d :: ds).reverse + 10 ^ (d :: ds).length * n =
        Nat.ofDigits 10 ds.reverse + 10 ^ ds.length * (10 * n + d) := by
      rw [List.reverse_cons, Nat.ofDigits_append, Nat.ofDigits_singleton, List.length_reverse,
        List.length_cons]
      ring
    rw [takeDigits, hsum]
    split
    · next hfits => exact ih hfits
    · next hlarge =>
      have hgrows : 10 * n + d ≤ 10 ^ ds.length * (10 * n + d) :=
        Nat.le_mul_of_pos_left _ (by positivity)
      refine iff_of_false (by simp) ?_
      omega

theorem value?_eq_whole_iff {l : Literal} {n : Nat} :
    l.value? = some (.whole n) ↔
      ∃ ds, l = ⟨false, ds, none, none⟩ ∧ takeDigits 0 ds = ⟨n, []⟩ := by
  have hwhole : l.value? = some (.whole n) ↔ l.whole? = some (.whole n) := by
    unfold Literal.value?
    cases l.whole? with
    | some m => rfl
    | none => simp
  rw [hwhole]
  obtain ⟨negative, ds, fraction, exponent⟩ := l
  unfold Literal.whole?
  dsimp only
  split
  · next hnot =>
    refine iff_of_false nofun ?_
    rintro ⟨ds', heq, hdigits⟩
    cases heq
    simp [hdigits] at hnot
  · next hwhole =>
    simp only [not_or, Option.not_isSome_iff_eq_none, not_not] at hwhole
    obtain ⟨rfl, rfl, hrest⟩ := hwhole
    cases negative with
    | true =>
      refine iff_of_false ?_ ?_
      · simp only [Bool.not_true, Bool.false_eq_true, if_false]
        split <;> nofun
      · rintro ⟨ds', heq, -⟩
        cases heq
    | false =>
      simp only [Bool.not_false, if_true, Option.some.injEq, Number.whole.injEq]
      constructor
      · rintro rfl
        exact ⟨ds, rfl, by rw [← hrest]⟩
      · rintro ⟨ds', heq, hdigits⟩
        cases heq
        rw [hdigits]

theorem asWord_eq_ok_iff {wanted : String} {j : Json} {w : UInt64} :
    asWord wanted j = .ok w ↔ IsWord j w := by
  have hfound : asWord wanted j = .ok w ↔
      ∃ n, j.found? = some (.number (.whole n)) ∧ UInt64.ofNat n = w := by
    unfold asWord
    split
    · next n hn => simp [hn]
    · next n hn => simp [hn]
    · next hne _ => exact iff_of_false nofun fun ⟨n, hn, _⟩ ↦ hne n hn
  have hnumber (n : Nat) : j.found? = some (.number (.whole n)) ↔
      ∃ l : Literal, j = .number l ∧ l.value? = some (.whole n) := by
    cases j with
    | number l => simp [found?]
    | string s => cases s <;> simp [found?]
    | _ => simp [found?]
  rw [hfound]
  constructor
  · rintro ⟨n, hn, rfl⟩
    obtain ⟨l, rfl, hl⟩ := (hnumber n).mp hn
    obtain ⟨ds, rfl, hdigits⟩ := value?_eq_whole_iff.mp hl
    obtain ⟨hvalue, hsize⟩ := (takeDigits_eq_iff (by decide)).mp hdigits
    refine ⟨ds, rfl, ?_⟩
    rw [UInt64.toNat_ofNat_of_lt' hsize]
    omega
  · rintro ⟨ds, rfl, hvalue⟩
    refine ⟨w.toNat, (hnumber _).mpr ⟨_, rfl, ?_⟩, UInt64.ofNat_toNat⟩
    refine value?_eq_whole_iff.mpr ⟨ds, rfl, ?_⟩
    exact (takeDigits_eq_iff (by decide)).mpr ⟨by omega, w.toNat_lt⟩

theorem isBroken_of_isText {j : Json} {s : String} (h : IsText j s) : j.isBroken = false := by
  simp [show j = text s from h, text, isBroken]

theorem isBroken_of_isWord {j : Json} {w : UInt64} (h : IsWord j w) : j.isBroken = false := by
  obtain ⟨ds, rfl, -⟩ := h
  simp [isBroken]

theorem isBroken_of_gives {α : Type} {R : Json → α → Prop} {j : Json} {v : Option α}
    (hR : ∀ {a}, R j a → j.isBroken = false) (h : Gives R j v) : j.isBroken = false := by
  obtain ⟨rfl, -⟩ | ⟨a, -, ha⟩ := h
  · simp [isBroken]
  · exact hR ha

theorem isBroken_record {ms : List (String × Json)} (h : ∀ m ∈ ms, m.2.isBroken = false) :
    (record ms).isBroken = false := by
  rw [record, isBroken]
  split
  · next member hlast =>
    obtain ⟨m, hm, rfl⟩ := List.mem_map.mp (List.mem_of_getLast? hlast)
    exact h m hm
  · rfl

theorem orNull_eq_ok_iff {α : Type} {read : Json → Except Mismatch α} {R : Json → α → Prop}
    (hread : ∀ j a, read j = .ok a ↔ R j a) (hnull : ∀ a, ¬ R .null a) {j : Json} {v : Option α} :
    orNull read j = .ok v ↔ Gives R j v := by
  unfold orNull Gives
  split
  · simp [hnull, eq_comm]
  · next hne =>
    have hsome : (read j).map some = .ok v ↔ ∃ a, v = some a ∧ R j a := by
      rw [map_eq_ok_iff]
      exact exists_congr fun a ↦ by rw [hread, and_comm, eq_comm]
    rw [hsome]
    exact ⟨.inr, fun h ↦ h.resolve_left fun hnull ↦ hne hnull.1⟩

/-! ## Members -/

/-- Whether the members of an object give this for a field: the one of its name does, or there is none
and so nothing. -/
def MemberGives {α : Type} (R : Json → α → Prop) (ms : List (String × Json)) (name : String)
    (v : Option α) : Prop :=
  (∃ j, (name, j) ∈ ms ∧ Gives R j v) ∨ (∀ j, (name, j) ∉ ms) ∧ v = none

section Fields

variable {α : Type} {R : Json → α → Prop} {f : Field (Option α)} {ms : List (String × Json)}
  {v : Option α} {j : Json}

/-- The member that is there is the one that gives. -/
theorem MemberGives.gives {name : String} (h : MemberGives R ms name v)
    (hnodup : (ms.map Prod.fst).Nodup) (hj : (name, j) ∈ ms) : Gives R j v := by
  obtain ⟨j', hj', hgives⟩ | ⟨hnone, -⟩ := h
  · obtain rfl : j = j' := (Prod.mk.inj (List.inj_on_of_nodup_map hnodup hj hj' rfl)).2
    exact hgives
  · exact (hnone j hj).elim

theorem get_eq_ok_iff (hread : ∀ j v, f.read j = .ok v ↔ Gives R j v)
    (hpresence : f.presence = .nullable none) (hnodup : (ms.map Prod.fst).Nodup) :
    Members.get ⟨ms, none⟩ f = .ok v ↔ MemberGives R ms f.name v := by
  unfold Members.get
  cases hfind : ms.find? fun v ↦ v.1 == f.name with
  | some m =>
    obtain ⟨name, j⟩ := m
    obtain rfl : name = f.name := by simpa using List.find?_some hfind
    have hmem : (f.name, j) ∈ ms := List.mem_of_find?_eq_some hfind
    exact ⟨fun h ↦ .inl ⟨j, hmem, (hread j v).mp h⟩,
      fun h ↦ (hread j v).mpr (h.gives hnodup hmem)⟩
  | none =>
    have hnone : ∀ j, (f.name, j) ∉ ms := fun j hj ↦ by simpa using List.find?_eq_none.mp hfind _ hj
    simp [MemberGives, hpresence, hnone, eq_comm]

/-- A slot accepts what its field can be read from. -/
theorem check_eq_ok_iff {α : Type} {f : Field α} {j : Json} :
    f.slot.check j = .ok () ↔ ∃ a, f.read j = .ok a := by
  rw [← fault?_eq_none_iff, ← f.fault?_check, fault?_eq_none_iff]
  exact ⟨fun h ↦ ⟨_, h⟩, fun ⟨_, h⟩ ↦ h⟩

end Fields

/-- A record that takes no other members takes just objects whose members have slots that accept them,
and each name once. -/
theorem Record.gather_eq_ok_iff {α : Type} {r : Record α} (hclosed : r.closed = true)
    {found found' : List (String × Json)} {members : List (Option String × Json)}
    (hfound : (found.map Prod.fst).Nodup) :
    r.gather found members = .ok found' ↔
      ∃ ms, members = ms.map (fun m ↦ (some m.1, m.2)) ∧ found' = found ++ ms ∧
        (found'.map Prod.fst).Nodup ∧ ∀ m ∈ ms, ∃ slot,
          (r.slots.find? fun s ↦ s.name == m.1) = some slot ∧ slot.check m.2 = .ok () := by
  induction members generalizing found with
  | nil =>
    rw [gather]
    constructor
    · rintro ⟨⟩
      exact ⟨[], rfl, (List.append_nil _).symm, hfound, by simp⟩
    · rintro ⟨ms, hms, rfl, -, -⟩
      obtain rfl := List.map_eq_nil_iff.mp hms.symm
      rw [List.append_nil]
  | cons m members ih =>
    obtain ⟨name?, j⟩ := m
    cases name? with
    | none =>
      refine iff_of_false (by simp [gather]) ?_
      rintro ⟨ms, hms, -⟩
      cases ms with
      | nil => cases hms
      | cons m ms => cases hms
    | some name =>
      -- the first member has a slot that accepts it, and its name was not found before
      have hfirst : r.gather found ((some name, j) :: members) = .ok found' ↔
          (∃ slot, (r.slots.find? fun s ↦ s.name == name) = some slot ∧ slot.check j = .ok ()) ∧
            name ∉ found.map Prod.fst ∧ r.gather (found ++ [(name, j)]) members = .ok found' := by
        have hany : (found.any fun v ↦ v.1 == name) = true ↔ name ∈ found.map Prod.fst := by
          simp [List.any_eq_true, List.mem_map]
        rw [gather]
        cases hslot : r.slots.find? fun s ↦ s.name == name with
        | none => simp [hclosed]
        | some slot =>
          dsimp only
          split
          · next hdup => exact iff_of_false (by simp) fun h ↦ h.2.1 (hany.mp hdup)
          · next hnew =>
            rw [hany] at hnew
            split
            · next hcheck => simp [hcheck, hnew]
            · next e hcheck => simp [hcheck]
      rw [hfirst]
      constructor
      · rintro ⟨hslot, hnew, hrest⟩
        have hfound' : ((found ++ [(name, j)]).map Prod.fst).Nodup := by
          rw [List.map_append]
          exact hfound.append (List.nodup_singleton _) (by simpa using hnew)
        obtain ⟨ms, rfl, rfl, hnodup, hslots⟩ := (ih hfound').mp hrest
        refine ⟨(name, j) :: ms, rfl, by simp, hnodup, List.forall_mem_cons.mpr ⟨hslot, hslots⟩⟩
      · rintro ⟨ms, hms, rfl, hnodup, hslots⟩
        cases ms with
        | nil => cases hms
        | cons m ms =>
          obtain ⟨hm, rfl⟩ := List.cons.inj hms
          cases hm
          obtain ⟨hslot, hslots⟩ := List.forall_mem_cons.mp hslots
          have hsplit : found ++ m :: ms = (found ++ [m]) ++ ms := by simp
          have hfound' : ((found ++ [m]).map Prod.fst).Nodup := by
            rw [hsplit, List.map_append] at hnodup
            exact (List.nodup_append.mp hnodup).1
          refine ⟨hslot, ?_, (ih hfound').mpr ⟨ms, rfl, hsplit, hnodup, hslots⟩⟩
          rw [List.map_append, List.nodup_append] at hfound'
          exact fun hmem ↦ hfound'.2.2 _ hmem _ (List.mem_singleton_self _) rfl

end Json

namespace SettingsFile

open Json

/-- Whether a value says this and no more of the settings: null says nothing of one, and neither does
an object that leaves it out. -/
inductive IsSaidBy (f : SettingsFile) : Json → Prop
  | object {ms : List (String × Json)} : (ms.map Prod.fst).Nodup →
      (∀ m ∈ ms, m.1 ∈ ["socket_path", "hotkey", "default_template", "inter_action_delay_ms"]) →
      MemberGives IsText ms "socket_path" f.socketPath →
      MemberGives IsText ms "hotkey" f.hotkey →
      MemberGives IsText ms "default_template" f.defaultTemplate →
      MemberGives IsWord ms "inter_action_delay_ms" f.delayMs → IsSaidBy f (record ms)
  | array {path hotkey template delay : Json} : Gives IsText path f.socketPath →
      Gives IsText hotkey f.hotkey → Gives IsText template f.defaultTemplate →
      Gives IsWord delay f.delayMs → IsSaidBy f (.array [path, hotkey, template, delay])

theorem read_text {wanted : String} (j : Json) (v : Option String) :
    orNull (asTextOf wanted) j = .ok v ↔ Gives IsText j v :=
  orNull_eq_ok_iff (fun _ _ ↦ asTextOf_eq_ok_iff) fun _ h ↦ by cases h

theorem read_word {wanted : String} (j : Json) (v : Option UInt64) :
    orNull (asWord wanted) j = .ok v ↔ Gives IsWord j v :=
  orNull_eq_ok_iff (fun _ _ ↦ asWord_eq_ok_iff) fun _ ⟨_, h, _⟩ ↦ by cases h

theorem build_eq_ok_iff {m : Members} {f : SettingsFile} :
    form.build m = .ok f ↔ m.get socketField = .ok f.socketPath ∧ m.get hotkeyField = .ok f.hotkey ∧
      m.get templateField = .ok f.defaultTemplate ∧ m.get delayField = .ok f.delayMs := by
  show (do return ⟨← m.get socketField, ← m.get hotkeyField, ← m.get templateField,
    ← m.get delayField⟩ : Except Mismatch SettingsFile) = .ok f ↔ _
  simp only [bind_eq_ok_iff]
  constructor
  · rintro ⟨path, hpath, hotkey, hhotkey, template, htemplate, delay, hdelay, ⟨⟩⟩
    exact ⟨hpath, hhotkey, htemplate, hdelay⟩
  · rintro ⟨hpath, hhotkey, htemplate, hdelay⟩
    exact ⟨_, hpath, _, hhotkey, _, htemplate, _, hdelay, rfl⟩

/-- Members make a settings file by what they give for its fields. -/
theorem build_members_iff {ms : List (String × Json)} {f : SettingsFile}
    (hnodup : (ms.map Prod.fst).Nodup) :
    form.build ⟨ms, none⟩ = .ok f ↔
      MemberGives IsText ms "socket_path" f.socketPath ∧ MemberGives IsText ms "hotkey" f.hotkey ∧
      MemberGives IsText ms "default_template" f.defaultTemplate ∧
      MemberGives IsWord ms "inter_action_delay_ms" f.delayMs := by
  rw [build_eq_ok_iff, get_eq_ok_iff read_text rfl hnodup, get_eq_ok_iff read_text rfl hnodup,
    get_eq_ok_iff read_text rfl hnodup, get_eq_ok_iff read_word rfl hnodup]
  rfl

/-- A member that gives something for a field is accepted by its slot, and makes sense. -/
theorem accepted {α : Type} {R : Json → α → Prop} {f : Json.Field (Option α)} {j : Json}
    {v : Option α} (hread : ∀ j v, f.read j = .ok v ↔ Gives R j v)
    (hR : ∀ {a}, R j a → j.isBroken = false) (h : Gives R j v) :
    f.slot.check j = .ok () ∧ j.isBroken = false :=
  ⟨check_eq_ok_iff.mpr ⟨v, (hread j v).mpr h⟩, isBroken_of_gives hR h⟩

/-- So is every member of an object that says something of the settings. -/
theorem accepted_of_mem {ms : List (String × Json)} {f : SettingsFile}
    (h : f.IsSaidBy (record ms)) {m : String × Json} (hm : m ∈ ms) :
    ∃ slot, (form.slots.find? fun s ↦ s.name == m.1) = some slot ∧ slot.check m.2 = .ok () ∧
      m.2.isBroken = false := by
  generalize hj : record ms = j at h
  rcases h with @⟨ms', hnodup, hnames, hpath, hhotkey, htemplate, hdelay⟩ | -
  · obtain rfl := record_injective hj
    obtain ⟨name, j⟩ := m
    have hname := hnames _ hm
    simp only [List.mem_cons, List.not_mem_nil, or_false] at hname
    rcases hname with rfl | rfl | rfl | rfl
    · exact ⟨socketField.slot, rfl, accepted read_text isBroken_of_isText (hpath.gives hnodup hm)⟩
    · exact ⟨hotkeyField.slot, rfl, accepted read_text isBroken_of_isText (hhotkey.gives hnodup hm)⟩
    · exact ⟨templateField.slot, rfl,
        accepted read_text isBroken_of_isText (htemplate.gives hnodup hm)⟩
    · exact ⟨delayField.slot, rfl, accepted read_word isBroken_of_isWord (hdelay.gives hnodup hm)⟩
  · cases hj

/-! ## Forms -/

/-- An object is read as what it says. -/
theorem ofMembers_eq_ok_iff {members : List (Option String × Json)} {f : SettingsFile} :
    form.ofMembers members = .ok f ↔ f.IsSaidBy (.object members) := by
  have hnone : (([] : List (String × Json)).map Prod.fst).Nodup := List.nodup_nil
  rw [Record.ofMembers, bind_eq_ok_iff]
  constructor
  · rintro ⟨ms, hgather, hbuild⟩
    obtain ⟨ms, rfl, rfl, hnodup, hslots⟩ :=
      (Record.gather_eq_ok_iff (r := form) rfl hnone).mp hgather
    obtain ⟨hpath, hhotkey, htemplate, hdelay⟩ := (build_members_iff hnodup).mp hbuild
    refine .object hnodup (fun m hm ↦ ?_) hpath hhotkey htemplate hdelay
    obtain ⟨slot, hslot, -⟩ := hslots m hm
    have hname : slot.name = m.1 := by simpa using List.find?_some hslot
    rw [← hname]
    exact List.mem_map_of_mem (f := Slot.name) (List.mem_of_find?_eq_some hslot)
  · intro hsaid
    obtain @⟨ms, hnodup, -, hpath, hhotkey, htemplate, hdelay⟩ := id hsaid
    refine ⟨ms, (Record.gather_eq_ok_iff (r := form) rfl hnone).mpr
      ⟨ms, rfl, rfl, hnodup, fun m hm ↦ ?_⟩,
      (build_members_iff hnodup).mpr ⟨hpath, hhotkey, htemplate, hdelay⟩⟩
    obtain ⟨slot, hslot, hcheck, -⟩ := accepted_of_mem hsaid hm
    exact ⟨slot, hslot, hcheck⟩

/-- An array is read as what it says: its items are the settings in their order. -/
theorem ofItems_eq_ok_iff {items : List Json} {f : SettingsFile} :
    form.ofItems .front items = .ok f ↔ f.IsSaidBy (.array items) := by
  have hread : form.ofItems .front items = .ok f ↔
      Record.checkItems form.slots items = .ok () ∧
        form.build ⟨form.names.zip items, some (form.names, form.wantedLength)⟩ = .ok f ∧
        items.length ≤ 4 := by
    have hend (g : SettingsFile) :
        (if items.length ≤ 4 then .ok g else .error .malformed : Except Mismatch _) = .ok f ↔
          g = f ∧ items.length ≤ 4 := by
      split <;> simp_all
    simp only [Record.ofItems, bind_eq_ok_iff]
    constructor
    · rintro ⟨⟨⟩, hcheck, g, hbuild, hresult⟩
      obtain ⟨rfl, hlength⟩ := (hend g).mp hresult
      exact ⟨hcheck, hbuild, hlength⟩
    · rintro ⟨hcheck, hbuild, hlength⟩
      exact ⟨(), hcheck, f, hbuild, (hend f).mpr ⟨rfl, hlength⟩⟩
  rw [hread, build_eq_ok_iff]
  constructor
  · rintro ⟨-, ⟨hpath, hhotkey, htemplate, hdelay⟩, hlength⟩
    -- an array may leave out no field, and the delay is the last one
    match items with
    | [] | [_] | [_, _] | [_, _, _] => cases hdelay
    | [path, hotkey, template, delay] =>
      exact .array ((read_text path _).mp hpath) ((read_text hotkey _).mp hhotkey)
        ((read_text template _).mp htemplate) ((read_word delay _).mp hdelay)
    | _ :: _ :: _ :: _ :: _ :: more =>
      simp only [List.length_cons] at hlength
      omega
  · rintro (_ | @⟨path, hotkey, template, delay, hpath, hhotkey, htemplate, hdelay⟩)
    have hpath : socketField.read path = .ok f.socketPath := (read_text _ _).mpr hpath
    have hhotkey : hotkeyField.read hotkey = .ok f.hotkey := (read_text _ _).mpr hhotkey
    have htemplate : templateField.read template = .ok f.defaultTemplate :=
      (read_text _ _).mpr htemplate
    have hdelay : delayField.read delay = .ok f.delayMs := (read_word _ _).mpr hdelay
    have hslots : form.slots =
      [socketField.slot, hotkeyField.slot, templateField.slot, delayField.slot] := rfl
    refine ⟨?_, ⟨hpath, hhotkey, htemplate, hdelay⟩, le_rfl⟩
    simp only [hslots, Record.checkItems, check_eq_ok_iff.mpr ⟨_, hpath⟩,
      check_eq_ok_iff.mpr ⟨_, hhotkey⟩, check_eq_ok_iff.mpr ⟨_, htemplate⟩,
      check_eq_ok_iff.mpr ⟨_, hdelay⟩]

theorem read_eq_ok_iff {j : Json} {f : SettingsFile} :
    form.read .front j = .ok f ↔ f.IsSaidBy j := by
  cases j with
  | object members => exact ofMembers_eq_ok_iff
  | array items => exact ofItems_eq_ok_iff
  | _ => exact iff_of_false nofun nofun

/-! ## Texts -/

/-- What says something of the settings makes sense. -/
theorem IsSaidBy.isBroken_eq_false {j : Json} {f : SettingsFile} (h : f.IsSaidBy j) :
    j.isBroken = false := by
  rcases id h with @⟨ms⟩ | @⟨path, hotkey, template, delay, -, -, -, hdelay⟩
  · refine isBroken_record fun m hm ↦ ?_
    obtain ⟨slot, -, -, hsense⟩ := accepted_of_mem h hm
    exact hsense
  · rw [isBroken]
    exact isBroken_of_gives isBroken_of_isWord hdelay

/-- Whether a text says this and no more of the settings: it denotes a value that does. -/
def IsTextOf (f : SettingsFile) (bytes : List UInt8) : Prop :=
  ∃ j, Denotes bytes j ∧ f.IsSaidBy j

/-- A settings file is read from the texts that say what it does, and from no others. -/
theorem ofBytes_eq_ok_iff {bytes : List UInt8} {f : SettingsFile} :
    ofBytes bytes = .ok f ↔ f.IsTextOf bytes := by
  have hdecode : ofBytes bytes = .ok f ↔
      form.read .front (read bytes).value = .ok f ∧ (read bytes).trailing = false := by
    have hend (g : SettingsFile) :
        (if (read bytes).trailing then .error .malformed else .ok g : Except Mismatch _) = .ok f ↔
          g = f ∧ (read bytes).trailing = false := by
      split <;> simp_all
    simp only [ofBytes, Record.decode, decode, bind_eq_ok_iff]
    constructor
    · rintro ⟨g, hg, hresult⟩
      obtain ⟨rfl, htrailing⟩ := (hend g).mp hresult
      exact ⟨hg, htrailing⟩
    · rintro ⟨hf, htrailing⟩
      exact ⟨f, hf, (hend f).mpr ⟨rfl, htrailing⟩⟩
  rw [hdecode, read_eq_ok_iff]
  constructor
  · rintro ⟨hsaid, htrailing⟩
    refine ⟨_, (denotes_iff hsaid.isBroken_eq_false).mpr ?_, hsaid⟩
    rw [← htrailing]
  · rintro ⟨j, hdenotes, hsaid⟩
    rw [hdenotes.read_eq]
    exact ⟨hsaid, rfl⟩

end SettingsFile

end Typist

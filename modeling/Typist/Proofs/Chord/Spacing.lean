import Mathlib.Logic.Relation
import Typist.Proofs.Chord.Grammar

/-!
# White space in chord texts

Where white space may stand in a chord text without it mattering: at the ends, and next to any plus
sign, except between the two that name the plus key. There it makes the second of them a sign that
parts nothing, and the key is gone.
-/

namespace Typist.Chord

/-! ## Texts spaced in other ways -/

/-- Whether what stands between two texts stands at an end of the whole, or next to a plus sign. -/
def IsSeam (before after : List Char) : Prop :=
  before = [] ∨ after = [] ∨ before.getLast? = some '+' ∨ after.head? = some '+'

/-- Whether a text becomes another by white space that is put in at a seam. -/
inductive Spaces : List Char → List Char → Prop
  | put {before gap after : List Char} : Text.IsGap gap → IsSeam before after →
      Spaces (before ++ after) (before ++ gap ++ after)

/-- Whether texts differ in nothing but white space at their seams, which is put in or taken out. -/
def Respaced : List Char → List Char → Prop := Relation.EqvGen Spaces

/-- Whether a text names the plus key: without the blanks around it, it ends with two plus signs or
is one. -/
def NamesPlusKey (cs : List Char) : Prop :=
  ∃ core body, Text.Trims cs core ∧ TakesPlusKey core body true

/-- Whether the first two keys among the parts of a text are told by the same part. -/
def RepeatsKey (cs : List Char) : Prop :=
  ∃ o : Outline, o.Of cs ∧ ∃ part rest, keyParts o.parts = part :: part :: rest ∧ IsKeyPart part

theorem namesPlusKey_iff {cs : List Char} : NamesPlusKey cs ↔ (Outline.ofText cs).plus = true := by
  constructor
  · rintro ⟨core, body, hcore, hplus⟩
    rw [Outline.ofText, Text.trims_iff.mp hcore, takesPlusKey_iff.mp hplus]
  · intro h
    exact ⟨_, _, Text.trims_trim cs, takesPlusKey_iff.mpr (Prod.ext rfl h)⟩

theorem repeatsKey_iff {cs : List Char} :
    RepeatsKey cs ↔
      ∃ part rest, keyParts (Outline.ofText cs).parts = part :: part :: rest ∧ IsKeyPart part := by
  constructor
  · rintro ⟨o, ho, h⟩
    rwa [Outline.of_iff.mp ho] at h
  · intro h
    exact ⟨_, Outline.of_iff.mpr rfl, h⟩

/-! ## Pieces -/

/-- What stands between the plus signs of a text, without the blanks around it. -/
def pieces (cs : List Char) : List (List Char) := (splitPlus cs).map Text.trim

theorem pieces_plusses {texts : List (List Char)} {last : List Char} (h : ∀ x ∈ texts, '+' ∉ x)
    (hlast : '+' ∉ last) :
    pieces (plusses texts ++ last) = texts.map Text.trim ++ [Text.trim last] := by
  rw [pieces, splitPlus_plusses h hlast, List.map_append, List.map_singleton]

theorem plusses_cons (text : List Char) (texts : List (List Char)) :
    plusses (text :: texts) = text ++ '+' :: plusses texts := by
  simp [plusses]

/-- Every text is put together by plus signs. -/
theorem exists_plusses (cs : List Char) :
    ∃ texts last, cs = plusses texts ++ last ∧ (∀ x ∈ texts, '+' ∉ x) ∧ '+' ∉ last := by
  induction cs with
  | nil => exact ⟨[], [], rfl, nofun, List.not_mem_nil⟩
  | cons c cs ih =>
    obtain ⟨texts, last, rfl, htexts, hlast⟩ := ih
    by_cases hc : c = '+'
    · refine ⟨[] :: texts, last, ?_, List.forall_mem_cons.mpr ⟨List.not_mem_nil, htexts⟩, hlast⟩
      rw [hc, plusses_cons, List.nil_append, List.cons_append]
    · have hcons {x : List Char} (hx : '+' ∉ x) : '+' ∉ c :: x := by
        rw [List.mem_cons, not_or]
        exact ⟨fun h ↦ hc h.symm, hx⟩
      cases texts with
      | nil => exact ⟨[], c :: last, rfl, nofun, hcons hlast⟩
      | cons text texts =>
        obtain ⟨htext, htexts⟩ := List.forall_mem_cons.mp htexts
        have hall : ∀ x ∈ (c :: text) :: texts, '+' ∉ x :=
          List.forall_mem_cons.mpr ⟨hcons htext, htexts⟩
        refine ⟨(c :: text) :: texts, last, ?_, hall, hlast⟩
        rw [plusses_cons, plusses_cons]
        rfl

theorem not_mem_of_isGap {gap : List Char} (h : Text.IsGap gap) : '+' ∉ gap := by
  intro hplus
  have hblank := h '+' hplus
  revert hblank
  decide

theorem not_mem_append {cs ds : List Char} (hcs : '+' ∉ cs) (hds : '+' ∉ ds) : '+' ∉ cs ++ ds := by
  rw [List.mem_append, not_or]
  exact ⟨hcs, hds⟩

theorem pieces_append_plus (cs ds : List Char) :
    pieces (cs ++ '+' :: ds) = pieces cs ++ pieces ds := by
  obtain ⟨texts, last, rfl, htexts, hlast⟩ := exists_plusses cs
  obtain ⟨texts', last', rfl, htexts', hlast'⟩ := exists_plusses ds
  have hall : ∀ x ∈ texts ++ last :: texts', '+' ∉ x :=
    List.forall_mem_append.mpr ⟨htexts, List.forall_mem_cons.mpr ⟨hlast, htexts'⟩⟩
  have hjoin : plusses texts ++ last ++ '+' :: (plusses texts' ++ last') =
      plusses (texts ++ last :: texts') ++ last' := by
    simp [plusses]
  rw [hjoin, pieces_plusses hall hlast', pieces_plusses htexts hlast,
    pieces_plusses htexts' hlast']
  simp

/-- Blanks in front of a text do not matter to its pieces. -/
theorem pieces_gap_append {gap : List Char} (h : Text.IsGap gap) (cs : List Char) :
    pieces (gap ++ cs) = pieces cs := by
  obtain ⟨texts, last, rfl, htexts, hlast⟩ := exists_plusses cs
  have hgap := not_mem_of_isGap h
  cases texts with
  | nil =>
    have hfirst : pieces (gap ++ last) = [Text.trim (gap ++ last)] :=
      @pieces_plusses [] _ nofun (not_mem_append hgap hlast)
    have hplain : pieces last = [Text.trim last] := @pieces_plusses [] _ nofun hlast
    rw [Text.trim_append h] at hfirst
    exact hfirst.trans hplain.symm
  | cons text texts =>
    obtain ⟨htext, hrest⟩ := List.forall_mem_cons.mp htexts
    have hall : ∀ x ∈ (gap ++ text) :: texts, '+' ∉ x :=
      List.forall_mem_cons.mpr ⟨not_mem_append hgap htext, hrest⟩
    have hjoin : gap ++ (plusses (text :: texts) ++ last) =
        plusses ((gap ++ text) :: texts) ++ last := by
      simp [plusses]
    rw [hjoin, pieces_plusses hall hlast, pieces_plusses htexts hlast, List.map_cons,
      Text.trim_append h, List.map_cons]

/-- Nor do blanks behind it. -/
theorem pieces_append_gap (cs : List Char) {gap : List Char} (h : Text.IsGap gap) :
    pieces (cs ++ gap) = pieces cs := by
  obtain ⟨texts, last, rfl, htexts, hlast⟩ := exists_plusses cs
  rw [List.append_assoc, pieces_plusses htexts (not_mem_append hlast (not_mem_of_isGap h)),
    pieces_plusses htexts hlast, Text.trim_append_gap last h]

theorem pieces_trim (cs : List Char) : pieces (Text.trim cs) = pieces cs := by
  obtain ⟨front, back, hcs, hfront, hback⟩ := (Text.trims_trim cs).around
  have hpieces : pieces cs = pieces (front ++ Text.trim cs ++ back) := congrArg pieces hcs
  rw [hpieces, pieces_append_gap _ hback, pieces_gap_append hfront]

/-- White space that is put in at a seam does not matter to the pieces. -/
theorem Spaces.pieces_eq {cs cs' : List Char} (h : Spaces cs cs') : pieces cs' = pieces cs := by
  obtain ⟨hgap, rfl | rfl | hbefore | hafter⟩ := h
  · rw [List.nil_append, List.nil_append, pieces_gap_append hgap]
  · rw [List.append_nil, List.append_nil, pieces_append_gap _ hgap]
  · obtain ⟨init, rfl⟩ := List.getLast?_eq_some_iff.mp hbefore
    rw [List.append_assoc, List.append_assoc, List.append_assoc, List.singleton_append,
      List.singleton_append, pieces_append_plus, pieces_append_plus, pieces_gap_append hgap]
  · obtain ⟨rest, rfl⟩ := List.head?_eq_some_iff.mp hafter
    rw [pieces_append_plus, pieces_append_plus, pieces_append_gap _ hgap]

/-- The plus key that is taken off a text leaves its parts. -/
theorem TakesPlusKey.parts_eq {cs body : List Char} {plus : Bool} (h : TakesPlusKey cs body plus) :
    parts body = (pieces cs).filter fun part ↦ part ≠ [] := by
  cases h with
  | behind =>
    have hsplit : pieces (body ++ ['+', '+']) = pieces body ++ [[], []] :=
      pieces_append_plus body ['+']
    rw [hsplit, List.filter_append, parts_eq_filter]
    exact (List.append_nil _).symm
  | alone => rfl
  | without => exact parts_eq_filter cs

theorem parts_ofText (cs : List Char) :
    (Outline.ofText cs).parts = (pieces cs).filter fun part ↦ part ≠ [] := by
  rw [← pieces_trim]
  exact (takesPlusKey_iff.mpr rfl).parts_eq

/-! ## What is said of texts that are spaced in other ways -/

/-- White space at seams matters neither to the parts of a text nor to whether it is blank. -/
theorem Respaced.same {cs cs' : List Char} (h : Respaced cs cs') :
    (Outline.ofText cs).parts = (Outline.ofText cs').parts ∧
      (Text.IsGap cs ↔ Text.IsGap cs') := by
  induction h with
  | rel cs cs' hspaces =>
    refine ⟨?_, ?_⟩
    · rw [parts_ofText, parts_ofText, hspaces.pieces_eq]
    · obtain ⟨hgap, -⟩ := hspaces
      rw [Text.isGap_append, Text.isGap_append, Text.isGap_append, and_iff_left hgap]
  | refl => exact ⟨rfl, Iff.rfl⟩
  | symm cs cs' _ ih => exact ⟨ih.1.symm, ih.2.symm⟩
  | trans cs cs' cs'' _ _ ih ih' => exact ⟨ih.1.trans ih'.1, ih.2.trans ih'.2⟩

/-- What is said of a text depends on how it is laid out, and whether it is blank. -/
theorem parse_eq_of_same {s s' : String} (hlayout : Outline.ofText s.toList = .ofText s'.toList)
    (hgap : Text.IsGap s.toList ↔ Text.IsGap s'.toList) : parse s = parse s' := by
  have hverdict := verdict_parse s
  rw [hlayout] at hverdict
  have hsame : Verdict s'.toList (.ofText s'.toList) (parse s) := by
    generalize parse s = r at hverdict
    cases hverdict with
    | chord hdenotes => exact .chord hdenotes
    | empty hblank => exact .empty (hgap.mp hblank)
    | missingKey hnot hplus hparts => exact .missingKey (mt hgap.mpr hnot) hplus hparts
    | offence hoffence => exact .offence hoffence
  exact hsame.unique (verdict_parse s')

/-- Of two texts with the same parts, of which one names the plus key and the other does not, both
are read alike only where both are blamed for a key that is one too many, and it is the same. -/
theorem parse_eq_iff_of_plus {s s' : String}
    (hparts : (Outline.ofText s.toList).parts = (Outline.ofText s'.toList).parts)
    (hgap : ¬ Text.IsGap s'.toList) (hplus : (Outline.ofText s.toList).plus = true)
    (hplus' : (Outline.ofText s'.toList).plus = false) :
    parse s = parse s' ↔ RepeatsKey s'.toList := by
  have hwords : keyParts (Outline.ofText s.toList).words =
      ['+'] :: keyParts (Outline.ofText s'.toList).parts := by
    rw [Outline.words, hplus, hparts]
    exact keyParts_cons_of_not not_isModifierWord_plus _
  have hwords' := congrArg keyParts (words_of_not_plus hplus')
  rw [repeatsKey_iff]
  cases hkeys : keyParts (Outline.ofText s'.toList).parts with
  | nil =>
    -- the plus key is the only key of the one text, and the other has none
    rw [hkeys] at hwords
    obtain ⟨chord, hchord⟩ := exists_parse_eq_ok hwords isKeyPart_plus
    have hmissing : parse s' = .error .missingKey :=
      (verdict_parse s').unique (.missingKey hgap hplus' (keyParts_eq_nil_iff.mp hkeys))
    rw [hchord, hmissing]
    simp
  | cons part rest =>
    rw [hkeys] at hwords hwords'
    have hduplicate : parse s = .error (.duplicateKey (String.ofList part)) :=
      (verdict_parse s).unique (.offence (firstOffence_of_key hwords isKeyPart_plus))
    by_cases hpart : IsKeyPart part
    · cases rest with
      | nil =>
        obtain ⟨chord, hchord⟩ := exists_parse_eq_ok hwords' hpart
        rw [hchord, hduplicate]
        simp
      | cons other rest =>
        have hother : parse s' = .error (.duplicateKey (String.ofList other)) :=
          (verdict_parse s').unique (.offence (firstOffence_of_key hwords' hpart))
        rw [hduplicate, hother]
        constructor
        · intro h
          have hsame : String.ofList part = String.ofList other :=
            ChordError.duplicateKey.inj (Except.error.inj h)
          rw [String.ofList_inj.mp hsame]
          exact ⟨other, rest, rfl, String.ofList_inj.mp hsame ▸ hpart⟩
        · rintro ⟨_, _, h, -⟩
          cases h
          rfl
    · have hunknown : parse s' = .error (.unknownKey (String.ofList part)) :=
        (verdict_parse s').unique (.offence (firstOffence_of_unknown hwords' hpart))
      rw [hduplicate, hunknown]
      constructor
      · intro h
        cases h
      · rintro ⟨_, _, h, hkey⟩
        cases h
        exact absurd hkey hpart

/-- White space that is put in or taken out at seams does not matter exactly if both texts name the
plus key or neither does, and besides where both are blamed for the second of two keys that are the
same. -/
theorem parse_eq_iff_of_respaced {s s' : String} (h : Respaced s.toList s'.toList) :
    parse s = parse s' ↔
      (NamesPlusKey s.toList ↔ NamesPlusKey s'.toList) ∨ RepeatsKey s.toList := by
  obtain ⟨hparts, hgap⟩ := h.same
  rw [namesPlusKey_iff, namesPlusKey_iff]
  by_cases hsame : (Outline.ofText s.toList).plus = (Outline.ofText s'.toList).plus
  · have hlayout : Outline.ofText s.toList = .ofText s'.toList := by
      cases hs : Outline.ofText s.toList
      cases hs' : Outline.ofText s'.toList
      simp_all
    have hread := parse_eq_of_same hlayout hgap
    rw [hsame]
    exact iff_of_true hread (.inl Iff.rfl)
  · have hrepeats : RepeatsKey s.toList ↔ RepeatsKey s'.toList := by
      rw [repeatsKey_iff, repeatsKey_iff, hparts]
    have hblank {t : String} (ht : (Outline.ofText t.toList).plus = true) :
        ¬ Text.IsGap t.toList := by
      intro hgap
      have hwords := words_ofText_of_isGap hgap
      rw [Outline.words, ht] at hwords
      cases hwords
    cases hplus : (Outline.ofText s.toList).plus with
    | true =>
      have hplus' : (Outline.ofText s'.toList).plus = false := by
        rw [hplus] at hsame
        exact Bool.eq_false_iff.mpr fun h' ↦ hsame h'.symm
      rw [parse_eq_iff_of_plus hparts (mt hgap.mpr (hblank hplus)) hplus hplus', hrepeats, hplus']
      simp
    | false =>
      have hplus' : (Outline.ofText s'.toList).plus = true := by
        rw [hplus] at hsame
        exact Bool.of_not_eq_false fun h' ↦ hsame h'.symm
      rw [eq_comm, parse_eq_iff_of_plus hparts.symm (mt hgap.mp (hblank hplus')) hplus' hplus,
        hplus']
      simp

/-- A blank behind a plus sign that parts words does not matter, also before the plus key. -/
theorem parse_eq_of_spaced_words :
    Respaced "Ctrl+Alt++".toList "Ctrl+ Alt++".toList ∧
      parse "Ctrl+Alt++" = parse "Ctrl+ Alt++" := by
  have hseam : IsSeam ['C', 't', 'r', 'l', '+'] ['A', 'l', 't', '+', '+'] := .inr (.inr (.inl rfl))
  have h : Respaced "Ctrl+Alt++".toList "Ctrl+ Alt++".toList :=
    .rel _ _ (@Spaces.put _ [' '] _ (List.forall_mem_singleton.mpr rfl) hseam)
  refine ⟨h, (parse_eq_iff_of_respaced h).mpr (.inl (iff_of_true ?_ ?_))⟩
  · exact namesPlusKey_iff.mpr (by decide +kernel)
  · exact namesPlusKey_iff.mpr (by decide +kernel)

/-- A blank between the two plus signs at the end takes the key away. -/
theorem key_lost_in_spaced_plusses :
    Respaced "Ctrl++".toList "Ctrl+ +".toList ∧
      parse "Ctrl++" = .ok ⟨.char '+', { control := true }, by rfl⟩ ∧
      parse "Ctrl+ +" = .error .missingKey := by
  have hseam : IsSeam ['C', 't', 'r', 'l', '+'] ['+'] := .inr (.inr (.inl rfl))
  refine ⟨?_, ?_, ?_⟩
  · exact .rel _ _ (@Spaces.put _ [' '] _ (List.forall_mem_singleton.mpr rfl) hseam)
  · decide +kernel
  · decide +kernel

end Typist.Chord

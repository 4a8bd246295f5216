import Mathlib.Data.List.Forall2
import Typist.Proofs.Chord.RoundTrip
import Typist.Proofs.Text.Trimming

/-!
# The grammar of chord texts

Which texts are chords, and with what a text is blamed that is none. A text is taken apart at its
plus signs, of which two at the end are one and the plus key. A chord is a text with exactly one key
among its parts, wherever it stands, and words for modifiers besides. Of a text with parts that fit
neither, the first from the left is told.
-/

namespace Typist

/-! ## Words -/

private theorem find?_eq_some_of_unique {α : Type} {l : List α} {p : α → Bool} {a : α}
    (ha : a ∈ l) (hp : p a = true) (hunique : ∀ b ∈ l, p b = true → b = a) :
    l.find? p = some a := by
  cases h : l.find? p with
  | none => exact absurd hp (List.find?_eq_none.mp h a ha)
  | some b => rw [hunique b (List.mem_of_find?_eq_some h) (List.find?_some h)]

/-- Whether a part is a word for a modifier; the case of letters does not matter. -/
def Modifier.IsNamedBy (m : Modifier) (part : List Char) : Prop :=
  (String.ofList part).toLower ∈ m.words

instance (m : Modifier) (part : List Char) : Decidable (m.IsNamedBy part) :=
  inferInstanceAs (Decidable (_ ∈ _))

/-- No word is for two modifiers. -/
theorem Modifier.ofWord?_eq_some_iff {m : Modifier} {part : List Char} :
    ofWord? (String.ofList part) = some m ↔ m.IsNamedBy part := by
  have hwords : ∀ m ∈ all, ∀ n ∈ all, ∀ word ∈ m.words, word ∈ n.words → n = m := by decide
  have hall (m : Modifier) : m ∈ all := by cases m <;> decide
  constructor
  · intro h
    have hcontains := List.find?_some h
    exact List.contains_iff_mem.mp hcontains
  · intro h
    refine find?_eq_some_of_unique (hall m) (List.contains_iff_mem.mpr h) fun n hn hword ↦ ?_
    exact hwords m (hall m) n hn _ h (List.contains_iff_mem.mp hword)

/-- No spelling is for two keys. -/
theorem Key.ofName?_eq_some_iff {k : Key} {text : String} :
    ofName? text = some k ↔ text.toUpper ∈ k.spellings := by
  have hspellings : ∀ k ∈ all, ∀ j ∈ all, ∀ s ∈ k.spellings, s ∈ j.spellings → j = k := by
    decide +kernel
  constructor
  · intro h
    have hcontains := List.find?_some h
    exact List.contains_iff_mem.mp hcontains
  · intro h
    refine find?_eq_some_of_unique (mem_all k) (List.contains_iff_mem.mpr h) fun j hj hname ↦ ?_
    exact hspellings k (mem_all k) j hj _ h (List.contains_iff_mem.mp hname)

namespace ChordKey

/-- Whether a part tells a key: it is a name or alias of the key, whatever the case of its letters,
or the printable character that the key is. -/
inductive IsNamedBy : ChordKey → List Char → Prop
  | named {k : Key} {part : List Char} :
      (String.ofList part).toUpper ∈ k.spellings → IsNamedBy (named k) part
  | char {c : Char} : '!' ≤ c → c ≤ '~' → IsNamedBy (char c) [c]

/-- No part tells two keys. -/
theorem ofPart?_eq_some_iff {k : ChordKey} {part : List Char} :
    ofPart? part = some k ↔ k.IsNamedBy part := by
  constructor
  · intro h
    unfold ofPart? at h
    split at h
    · next j hj =>
      cases h
      exact .named (Key.ofName?_eq_some_iff.mp hj)
    · split at h
      · split at h
        · next hc =>
          cases h
          exact .char hc.1 hc.2
        · cases h
      · cases h
  · intro h
    cases h with
    | named hname => simp only [ofPart?, Key.ofName?_eq_some_iff.mpr hname]
    | @char c hlow hhigh =>
      have hlength : (String.ofList [c]).length < 2 := by
        rw [String.length_ofList]
        exact Nat.lt_succ_self 1
      rw [ofPart?, Key.ofName?_of_length (.inl hlength)]
      exact if_pos ⟨hlow, hhigh⟩

theorem IsNamedBy.unique {k k' : ChordKey} {part : List Char} (h : k.IsNamedBy part)
    (h' : k'.IsNamedBy part) : k = k' := by
  have hsome := ofPart?_eq_some_iff.mpr h
  rw [ofPart?_eq_some_iff.mpr h'] at hsome
  exact (Option.some.inj hsome).symm

end ChordKey

namespace Chord

/-- Whether a part is a word for a modifier. -/
def IsModifierWord (part : List Char) : Prop := ∃ m : Modifier, m.IsNamedBy part

/-- Whether a part is a key: it tells one, and is no word for a modifier. -/
def IsKeyPart (part : List Char) : Prop :=
  ¬ IsModifierWord part ∧ ∃ k : ChordKey, k.IsNamedBy part

theorem ofWord?_eq_none_iff {part : List Char} :
    Modifier.ofWord? (String.ofList part) = none ↔ ¬ IsModifierWord part := by
  rw [Option.eq_none_iff_forall_ne_some, IsModifierWord, not_exists]
  exact forall_congr' fun m ↦ not_congr Modifier.ofWord?_eq_some_iff

instance : DecidablePred IsModifierWord := fun part ↦
  decidable_of_iff (Modifier.ofWord? (String.ofList part) ≠ none) (by
    rw [ne_eq, ofWord?_eq_none_iff, not_not])

/-- The parts that are no words for modifiers, in order. -/
def keyParts (parts : List (List Char)) : List (List Char) :=
  parts.filter fun part ↦ ¬ IsModifierWord part

theorem keyParts_append (parts parts' : List (List Char)) :
    keyParts (parts ++ parts') = keyParts parts ++ keyParts parts' := List.filter_append _ _

theorem keyParts_eq_nil_iff {parts : List (List Char)} :
    keyParts parts = [] ↔ ∀ part ∈ parts, IsModifierWord part := by
  simp [keyParts]

theorem keyParts_cons_of_not {part : List Char} (h : ¬ IsModifierWord part)
    (parts : List (List Char)) : keyParts (part :: parts) = part :: keyParts parts :=
  List.filter_cons_of_pos (decide_eq_true h)

theorem keyParts_eq_cons_iff {words : List (List Char)} {part : List Char}
    {rest : List (List Char)} :
    keyParts words = part :: rest ↔
      ∃ before after, words = before ++ part :: after ∧
        (∀ word ∈ before, IsModifierWord word) ∧ ¬ IsModifierWord part ∧ keyParts after = rest := by
  simp [keyParts, List.filter_eq_cons_iff]

theorem mem_keyParts {part : List Char} {parts : List (List Char)} :
    part ∈ keyParts parts ↔ part ∈ parts ∧ ¬ IsModifierWord part := by
  simp [keyParts]

/-- The only key of some parts is one of them. -/
theorem mem_of_keyParts_eq {parts : List (List Char)} {part : List Char}
    (h : keyParts parts = [part]) : part ∈ parts ∧ ¬ IsModifierWord part := by
  rw [← mem_keyParts, h]
  exact List.mem_singleton_self part

/-! ## The layout of a text -/

/-- What a chord text consists of: the parts between its plus signs, without the blanks around them
and without those that are blank, and whether the plus key is one of its keys. -/
structure Outline where
  parts : List (List Char)
  plus : Bool

/-- Whether a text consists of another one, and of the plus key or not: two plus signs at the end,
or one that is all of the text, are that key. -/
inductive TakesPlusKey : List Char → List Char → Bool → Prop
  | behind (body : List Char) : TakesPlusKey (body ++ ['+', '+']) body true
  | alone : TakesPlusKey ['+'] [] true
  | without {cs : List Char} : cs ≠ ['+'] → ¬ ['+', '+'] <:+ cs → TakesPlusKey cs cs false

/-- Whether texts stand between the plus signs of another one. -/
structure Joins (pieces : List (List Char)) (cs : List Char) : Prop where
  nonempty : pieces ≠ []
  not_plus : ∀ piece ∈ pieces, '+' ∉ piece
  intercalate : ['+'].intercalate pieces = cs

/-- Whether a text is laid out so. -/
def Outline.Of (o : Outline) (cs : List Char) : Prop :=
  ∃ core body pieces cores, Text.Trims cs core ∧ TakesPlusKey core body o.plus ∧
    Joins pieces body ∧ List.Forall₂ Text.Trims pieces cores ∧
    o.parts = cores.filter fun part ↦ part ≠ []

/-- All parts of a text. The plus key, which is written last, counts as the first of them. -/
def Outline.words (o : Outline) : List (List Char) :=
  (if o.plus then [['+']] else []) ++ o.parts

private theorem eq_append_of_reverse_eq {cs rest : List Char}
    (h : cs.reverse = '+' :: '+' :: rest) : cs = rest.reverse ++ ['+', '+'] := by
  rw [← cs.reverse_reverse, h]
  simp

theorem takesPlusKey_iff {cs body : List Char} {plus : Bool} :
    TakesPlusKey cs body plus ↔ splitPlusKey cs = (body, plus) := by
  constructor
  · intro h
    cases h with
    | behind => exact splitPlusKey_append body
    | alone => rfl
    | without halone hbehind =>
      unfold splitPlusKey
      split
      · next rest h => exact absurd ⟨_, (eq_append_of_reverse_eq h).symm⟩ hbehind
      · next h => exact absurd (List.reverse_eq_cons_iff.mp h) halone
      · rfl
  · intro h
    unfold splitPlusKey at h
    split at h
    · next rest hrest =>
      cases h
      rw [eq_append_of_reverse_eq hrest]
      exact .behind rest.reverse
    · next hrest =>
      cases h
      rw [List.reverse_eq_cons_iff.mp hrest]
      exact .alone
    · next hbehind halone =>
      cases h
      refine .without ?_ ?_
      · rintro rfl
        exact halone rfl
      · rintro ⟨front, rfl⟩
        exact hbehind front.reverse (by simp)

theorem splitPlus_eq_splitOn (cs : List Char) : splitPlus cs = cs.splitOn '+' := by
  rw [List.splitOn]
  induction cs with
  | nil => rfl
  | cons c cs ih =>
    rw [List.splitOnP_cons_eq_if_modifyHead, ← ih]
    by_cases hc : c = '+'
    · rw [hc, splitPlus]
      rfl
    · rw [splitPlus, if_neg (by simpa using hc)]
      · cases hsplit : splitPlus cs with
        | nil => exact absurd (ih.symm.trans hsplit) (List.splitOnP_ne_nil _ _)
        | cons p ps => rfl
      · exact hc

theorem not_mem_of_mem_splitPlus {cs piece : List Char} (h : piece ∈ splitPlus cs) :
    '+' ∉ piece := by
  fun_induction splitPlus cs generalizing piece with
  | case1 =>
    rw [List.mem_singleton.mp h]
    exact List.not_mem_nil
  | case2 cs ih =>
    obtain rfl | h := List.mem_cons.mp h
    · exact List.not_mem_nil
    · exact ih h
  | case3 c cs hc hnil ih =>
    rw [List.mem_singleton.mp h, List.mem_singleton]
    exact fun hplus ↦ hc hplus.symm
  | case4 c cs hc p ps hsplit ih =>
    rw [hsplit] at ih
    obtain rfl | h := List.mem_cons.mp h
    · rw [List.mem_cons, not_or]
      exact ⟨fun hplus ↦ hc hplus.symm, ih List.mem_cons_self⟩
    · exact ih (List.mem_cons_of_mem p h)

/-- A text has plus signs between just its pieces. -/
theorem joins_iff {pieces : List (List Char)} {cs : List Char} :
    Joins pieces cs ↔ splitPlus cs = pieces := by
  constructor
  · intro h
    rw [splitPlus_eq_splitOn, ← h.intercalate,
      List.splitOn_intercalate '+' h.not_plus h.nonempty]
  · rintro rfl
    refine ⟨?_, fun piece ↦ not_mem_of_mem_splitPlus, ?_⟩
    · rw [splitPlus_eq_splitOn]
      exact List.splitOn_ne_nil '+' cs
    · rw [splitPlus_eq_splitOn, List.intercalate_splitOn]

theorem forall₂_trims_iff {pieces cores : List (List Char)} :
    List.Forall₂ Text.Trims pieces cores ↔ pieces.map Text.trim = cores := by
  have htrims : Text.Trims = fun cs core ↦ Text.trim cs = core := by
    ext cs core
    exact Text.trims_iff
  rw [htrims, ← List.forall₂_map_left_iff, List.forall₂_eq_eq_eq]

theorem parts_eq_filter (body : List Char) :
    parts body = ((splitPlus body).map Text.trim).filter fun part ↦ part ≠ [] := by
  refine List.filter_congr fun part _ ↦ ?_
  cases part <;> rfl

/-- How a text is laid out. -/
def Outline.ofText (cs : List Char) : Outline :=
  ⟨Chord.parts (splitPlusKey (Text.trim cs)).1, (splitPlusKey (Text.trim cs)).2⟩

/-- Every text is laid out in one way. -/
theorem Outline.of_iff {o : Outline} {cs : List Char} : o.Of cs ↔ o = ofText cs := by
  constructor
  · rintro ⟨core, body, pieces, cores, hcore, hplus, hjoins, hcores, hparts⟩
    obtain ⟨parts, plus⟩ := o
    rw [ofText, Text.trims_iff.mp hcore, takesPlusKey_iff.mp hplus, parts_eq_filter,
      joins_iff.mp hjoins, forall₂_trims_iff.mp hcores, ← hparts]
  · rintro rfl
    have hplus : TakesPlusKey (Text.trim cs) (splitPlusKey (Text.trim cs)).1 (ofText cs).plus :=
      takesPlusKey_iff.mpr rfl
    exact ⟨_, _, _, _, Text.trims_trim cs, hplus, joins_iff.mpr rfl, forall₂_trims_iff.mpr rfl,
      parts_eq_filter _⟩

/-! ## Verdicts -/

/-- Whether an outline is that of a chord: exactly one of its words is for no modifier, and tells
the key; the others tell the modifiers. -/
structure Outline.Denotes (o : Outline) (chord : Chord) : Prop where
  key : ∃ part, keyParts o.words = [part] ∧
    ∃ k : ChordKey, k.IsNamedBy part ∧ chord.key = k.folded
  modifiers : ∀ m : Modifier,
    chord.modifiers.contains m = true ↔ ∃ part ∈ o.parts, m.IsNamedBy part

/-- The offence of a part that stands behind others: a word that is for no modifier is one too many
behind a key, and must tell a key itself otherwise. -/
inductive Offends (before : List (List Char)) (part : List Char) : ChordError → Prop
  | duplicate : ¬ IsModifierWord part → (∃ key ∈ before, IsKeyPart key) →
      Offends before part (.duplicateKey (String.ofList part))
  | unknown : ¬ IsModifierWord part → (∀ key ∈ before, ¬ IsKeyPart key) → ¬ IsKeyPart part →
      Offends before part (.unknownKey (String.ofList part))

/-- Whether no part offends behind those before it. -/
def Innocent (words : List (List Char)) : Prop :=
  ∀ before part after, words = before ++ part :: after → ∀ e, ¬ Offends before part e

/-- Whether an offence is the first of a list of parts. -/
def FirstOffence (words : List (List Char)) (e : ChordError) : Prop :=
  ∃ before part after, words = before ++ part :: after ∧ Offends before part e ∧ Innocent before

/-- What is to be said of a text that is laid out so. -/
inductive Verdict (cs : List Char) (o : Outline) : Except ChordError Chord → Prop
  | chord {chord : Chord} : o.Denotes chord → Verdict cs o (.ok chord)
  | empty : Text.IsGap cs → Verdict cs o (.error .empty)
  | missingKey : ¬ Text.IsGap cs → o.plus = false → (∀ part ∈ o.parts, IsModifierWord part) →
      Verdict cs o (.error .missingKey)
  | offence {e : ChordError} : FirstOffence o.words e → Verdict cs o (.error e)

theorem Offends.not_isModifierWord {before : List (List Char)} {part : List Char} {e : ChordError}
    (h : Offends before part e) : ¬ IsModifierWord part := by
  cases h with
  | duplicate hword => exact hword
  | unknown hword => exact hword

theorem Offends.unique {before : List (List Char)} {part : List Char} {e e' : ChordError}
    (h : Offends before part e) (h' : Offends before part e') : e = e' := by
  cases h with
  | duplicate _ hbefore =>
    obtain ⟨key, hkey, hpart⟩ := hbefore
    cases h' with
    | duplicate => rfl
    | unknown _ hnone => exact absurd hpart (hnone key hkey)
  | unknown _ hnone =>
    cases h' with
    | duplicate _ hbefore =>
      obtain ⟨key, hkey, hpart⟩ := hbefore
      exact absurd hpart (hnone key hkey)
    | unknown => rfl

theorem FirstOffence.not_innocent {words : List (List Char)} {e : ChordError}
    (h : FirstOffence words e) : ¬ Innocent words := by
  obtain ⟨before, part, after, hwords, hoffends, -⟩ := h
  intro hinnocent
  exact hinnocent before part after hwords e hoffends

/-- There is one first offence. -/
theorem FirstOffence.unique {words : List (List Char)} {e e' : ChordError}
    (h : FirstOffence words e) (h' : FirstOffence words e') : e = e' := by
  obtain ⟨before, part, after, hwords, hoffends, hinnocent⟩ := h
  obtain ⟨before', part', after', hwords', hoffends', hinnocent'⟩ := h'
  rw [hwords, List.append_eq_append_iff] at hwords'
  obtain ⟨rest, hbefore, hrest⟩ | ⟨rest, hbefore, hrest⟩ := hwords'
  · cases rest with
    | nil =>
      obtain ⟨rfl, -⟩ := List.cons.inj hrest
      rw [List.append_nil] at hbefore
      rw [hbefore] at hoffends'
      exact hoffends.unique hoffends'
    | cons first rest =>
      obtain ⟨rfl, -⟩ := List.cons.inj hrest
      exact absurd hoffends (hinnocent' before part rest hbefore e)
  · cases rest with
    | nil =>
      obtain ⟨rfl, -⟩ := List.cons.inj hrest
      rw [List.append_nil] at hbefore
      rw [hbefore] at hoffends
      exact hoffends.unique hoffends'
    | cons first rest =>
      obtain ⟨rfl, -⟩ := List.cons.inj hrest
      exact absurd hoffends' (hinnocent before' part' rest hbefore e')

/-- No part offends where there is one key. -/
theorem innocent_of_keyParts {words : List (List Char)}
    (h : ∀ part ∈ keyParts words, keyParts words = [part] ∧ IsKeyPart part) : Innocent words := by
  intro before part after hwords e hoffends
  have hpart : part ∈ keyParts words := by
    rw [mem_keyParts, hwords]
    exact ⟨List.mem_append_right before List.mem_cons_self, hoffends.not_isModifierWord⟩
  obtain ⟨hone, hkey⟩ := h part hpart
  cases hoffends with
  | duplicate _ hbefore =>
    obtain ⟨key, hmem, hother⟩ := hbefore
    have htwo : keyParts words = keyParts before ++ part :: keyParts after := by
      rw [hwords, keyParts_append, keyParts_cons_of_not hkey.1]
    have hnil : keyParts before = [] := by
      have hlength := congrArg List.length (hone.symm.trans htwo)
      simp only [List.length_cons, List.length_append, List.length_nil] at hlength
      exact List.eq_nil_of_length_eq_zero (by omega)
    exact hother.1 (keyParts_eq_nil_iff.mp hnil key hmem)
  | unknown _ _ hnone => exact hnone hkey

theorem innocent_of_keyParts_eq_nil {words : List (List Char)} (h : keyParts words = []) :
    Innocent words :=
  innocent_of_keyParts fun _ hpart ↦ nomatch h ▸ hpart

theorem innocent_of_keyParts_eq_singleton {words : List (List Char)} {part : List Char}
    (hone : keyParts words = [part]) (hpart : IsKeyPart part) : Innocent words := by
  refine innocent_of_keyParts fun q hq ↦ ?_
  obtain rfl : q = part := List.mem_singleton.mp (hone ▸ hq)
  exact ⟨hone, hpart⟩

theorem Innocent.concat {words : List (List Char)} {part : List Char} (h : Innocent words)
    (hpart : ∀ e, ¬ Offends words part e) : Innocent (words ++ [part]) := by
  intro before other after hwords e hoffends
  obtain rfl | ⟨init, last, rfl⟩ := List.eq_nil_or_concat' after
  · obtain ⟨rfl, hother⟩ := List.append_inj' hwords rfl
    obtain ⟨rfl, -⟩ := List.cons.inj hother
    exact hpart e hoffends
  · have hsplit : words ++ [part] = (before ++ other :: init) ++ [last] := by
      rw [hwords, List.append_assoc, List.cons_append]
    obtain ⟨rfl, -⟩ := List.append_inj' hsplit rfl
    exact h before other init rfl e hoffends

/-- A word that is for no modifier offends behind a key. -/
theorem firstOffence_of_key {words : List (List Char)} {part other : List Char}
    {rest : List (List Char)} (h : keyParts words = part :: other :: rest)
    (hpart : IsKeyPart part) : FirstOffence words (.duplicateKey (String.ofList other)) := by
  obtain ⟨before, after, rfl, hbefore, hword, hafter⟩ := keyParts_eq_cons_iff.mp h
  obtain ⟨between, after, rfl, hbetween, hother, -⟩ := keyParts_eq_cons_iff.mp hafter
  have hone : keyParts (before ++ part :: between) = [part] := by
    rw [keyParts_append, keyParts_eq_nil_iff.mpr hbefore, keyParts_cons_of_not hword,
      keyParts_eq_nil_iff.mpr hbetween]
    rfl
  refine ⟨before ++ part :: between, other, after, ?_, .duplicate hother ?_, ?_⟩
  · rw [List.append_assoc, List.cons_append]
  · exact ⟨part, (mem_of_keyParts_eq hone).1, hpart⟩
  · exact innocent_of_keyParts_eq_singleton hone hpart

/-- In front of every key, it must tell one. -/
theorem firstOffence_of_unknown {words : List (List Char)} {part : List Char}
    {rest : List (List Char)} (h : keyParts words = part :: rest) (hpart : ¬ IsKeyPart part) :
    FirstOffence words (.unknownKey (String.ofList part)) := by
  obtain ⟨before, after, rfl, hbefore, hword, -⟩ := keyParts_eq_cons_iff.mp h
  refine ⟨before, part, after, rfl, .unknown hword ?_ hpart, ?_⟩
  · intro key hkey hother
    exact hother.1 (hbefore key hkey)
  · exact innocent_of_keyParts_eq_nil (keyParts_eq_nil_iff.mpr hbefore)

/-! ## Reading -/

/-- Whether a draft is what has been read of parts. -/
structure Draft.Reads (d : Draft) (words : List (List Char)) : Prop where
  modifiers : ∀ m : Modifier,
    d.modifiers.contains m = true ↔ ∃ part ∈ words, m.IsNamedBy part
  keyless : d.key = none → keyParts words = []
  key : ∀ k : ChordKey, d.key = some k → ∃ part, keyParts words = [part] ∧ k.IsNamedBy part

private theorem exists_mem_concat {P : List Char → Prop} {words : List (List Char)}
    {part : List Char} : (∃ q ∈ words ++ [part], P q) ↔ (∃ q ∈ words, P q) ∨ P part := by
  simp [or_and_right, exists_or]

theorem Draft.Reads.concat_word {d : Draft} {words : List (List Char)} (h : d.Reads words)
    {m : Modifier} {part : List Char} (hnamed : m.IsNamedBy part) :
    Draft.Reads { d with modifiers := d.modifiers.insert m } (words ++ [part]) := by
  have hword : keyParts [part] = [] :=
    keyParts_eq_nil_iff.mpr (List.forall_mem_singleton.mpr ⟨m, hnamed⟩)
  have hsame : keyParts (words ++ [part]) = keyParts words := by
    rw [keyParts_append, hword, List.append_nil]
  refine ⟨fun n ↦ ?_, hsame ▸ h.keyless, hsame ▸ h.key⟩
  have hn : n.IsNamedBy part ↔ m = n := by
    constructor
    · intro hother
      rw [← Modifier.ofWord?_eq_some_iff, Modifier.ofWord?_eq_some_iff.mpr hnamed] at hother
      exact Option.some.inj hother
    · rintro rfl
      exact hnamed
  rw [Modifiers.contains_insert, Bool.or_eq_true, decide_eq_true_eq, h.modifiers,
    exists_mem_concat, hn, or_comm]

theorem Draft.Reads.concat_key {d : Draft} {words : List (List Char)} (h : d.Reads words)
    (hkey : d.key = none) {k : ChordKey} {part : List Char} (hword : ¬ IsModifierWord part)
    (hnamed : k.IsNamedBy part) : Draft.Reads { d with key := some k } (words ++ [part]) := by
  refine ⟨fun m ↦ ?_, nofun, ?_⟩
  · have hm : ¬ m.IsNamedBy part := fun hm ↦ hword ⟨m, hm⟩
    rw [h.modifiers, exists_mem_concat, or_iff_left hm]
  · rintro _ ⟨⟩
    refine ⟨part, ?_, hnamed⟩
    rw [keyParts_append, h.keyless hkey, keyParts_cons_of_not hword]
    rfl

/-- One more part is read, or offends. -/
theorem Draft.Reads.add {d : Draft} {words : List (List Char)} (h : d.Reads words)
    (part : List Char) :
    (∃ d', d.add part = .ok d' ∧ d'.Reads (words ++ [part]) ∧ ∀ e, ¬ Offends words part e) ∨
      ∃ e, d.add part = .error e ∧ Offends words part e := by
  unfold Draft.add
  cases hread : Modifier.ofWord? (String.ofList part) with
  | some m =>
    have hnamed := Modifier.ofWord?_eq_some_iff.mp hread
    refine .inl ⟨_, rfl, h.concat_word hnamed, fun e he ↦ ?_⟩
    exact he.not_isModifierWord ⟨m, hnamed⟩
  | none =>
    have hword := ofWord?_eq_none_iff.mp hread
    cases hkey : d.key with
    | some k =>
      obtain ⟨key, hone, hnamed⟩ := h.key k hkey
      obtain ⟨hin, hnot⟩ := mem_of_keyParts_eq hone
      exact .inr ⟨_, rfl, .duplicate hword ⟨key, hin, hnot, k, hnamed⟩⟩
    | none =>
      have hnone : ∀ key ∈ words, ¬ IsKeyPart key := by
        intro key hin hpart
        exact hpart.1 (keyParts_eq_nil_iff.mp (h.keyless hkey) key hin)
      cases hpart : ChordKey.ofPart? part with
      | some k =>
        have hnamed := ChordKey.ofPart?_eq_some_iff.mp hpart
        refine .inl ⟨_, rfl, h.concat_key hkey hword hnamed, fun e he ↦ ?_⟩
        cases he with
        | duplicate _ hbefore =>
          obtain ⟨key, hin, hother⟩ := hbefore
          exact hnone key hin hother
        | unknown _ _ hunknown => exact hunknown ⟨hword, k, hnamed⟩
      | none =>
        refine .inr ⟨_, rfl, .unknown hword hnone ?_⟩
        rintro ⟨-, k, hnamed⟩
        rw [ChordKey.ofPart?_eq_some_iff.mpr hnamed] at hpart
        cases hpart

/-- So are several, up to the first that offends. -/
theorem Draft.Reads.foldlM {d : Draft} {words : List (List Char)} (h : d.Reads words)
    (hinnocent : Innocent words) (parts : List (List Char)) :
    (∃ d', parts.foldlM Draft.add d = .ok d' ∧ d'.Reads (words ++ parts)) ∨
      ∃ e, parts.foldlM Draft.add d = .error e ∧ FirstOffence (words ++ parts) e := by
  induction parts generalizing d words with
  | nil => exact .inl ⟨d, rfl, by rwa [List.append_nil]⟩
  | cons part parts ih =>
    rw [List.foldlM_cons]
    obtain ⟨d', hadd, hreads, hnone⟩ | ⟨e, hadd, hoffends⟩ := h.add part
    · rw [hadd, List.append_cons]
      exact ih hreads (hinnocent.concat hnone)
    · rw [hadd]
      exact .inr ⟨e, rfl, words, part, parts, rfl, hoffends, hinnocent⟩

/-- A text without a letter is laid out without parts. -/
theorem words_ofText_of_isGap {cs : List Char} (h : Text.IsGap cs) :
    (Outline.ofText cs).words = [] := by
  rw [Outline.ofText, Text.trim_eq_nil_iff.mpr h]
  rfl

theorem not_isModifierWord_plus : ¬ IsModifierWord ['+'] :=
  ofWord?_eq_none_iff.mp (Modifier.ofWord?_of_length (.inl (by decide)))

theorem isKeyPart_plus : IsKeyPart ['+'] :=
  ⟨not_isModifierWord_plus, .char '+', .char (by decide) (by decide)⟩

/-- The plus key is no word for a modifier. -/
theorem Outline.exists_mem_words_iff {o : Outline} {m : Modifier} :
    (∃ part ∈ o.words, m.IsNamedBy part) ↔ ∃ part ∈ o.parts, m.IsNamedBy part := by
  have hplus : ¬ m.IsNamedBy ['+'] := fun h ↦ not_isModifierWord_plus ⟨m, h⟩
  unfold words
  split <;> simp [hplus]

/-- Before any part is read, the plus key is. -/
theorem Draft.reads_plus (plus : Bool) :
    Draft.Reads { key := if plus then some (.char '+') else none }
      (if plus then [['+']] else []) := by
  cases plus with
  | false =>
    refine ⟨fun m ↦ ?_, fun _ ↦ rfl, fun k hk ↦ ?_⟩
    · cases m <;> simp [Modifiers.contains]
    · cases hk
  | true =>
    have hone : keyParts [['+']] = [['+']] := keyParts_cons_of_not not_isModifierWord_plus []
    refine ⟨fun m ↦ ?_, fun hnone ↦ ?_, ?_⟩
    · have hplus : ¬ m.IsNamedBy ['+'] := fun h ↦ not_isModifierWord_plus ⟨m, h⟩
      cases m <;> simp [Modifiers.contains, hplus]
    · cases hnone
    · rintro _ ⟨⟩
      exact ⟨['+'], hone, .char (by decide) (by decide)⟩

theorem innocent_plus (plus : Bool) : Innocent (if plus then [['+']] else []) := by
  cases plus with
  | false => exact innocent_of_keyParts_eq_nil rfl
  | true =>
    have hone : keyParts [['+']] = [['+']] := keyParts_cons_of_not not_isModifierWord_plus []
    exact innocent_of_keyParts_eq_singleton hone isKeyPart_plus

/-- What is read of a whole text, its plus key among it, is the chord or lacks a key. -/
theorem verdict_of_reads {cs : List Char} (hgap : ¬ Text.IsGap cs) {o : Outline} {d : Draft}
    (h : d.Reads o.words) :
    Verdict cs o (match d.key with
      | some k => .ok (make k d.modifiers)
      | none => .error .missingKey) := by
  cases hkey : d.key with
  | some k =>
    obtain ⟨part, hone, hnamed⟩ := h.key k hkey
    refine .chord ⟨⟨part, hone, k, hnamed, rfl⟩, fun m ↦ ?_⟩
    rw [← Outline.exists_mem_words_iff]
    exact h.modifiers m
  | none =>
    have hwords := keyParts_eq_nil_iff.mp (h.keyless hkey)
    unfold Outline.words at hwords
    cases hplus : o.plus with
    | true =>
      rw [hplus] at hwords
      exact absurd (hwords ['+'] List.mem_cons_self) not_isModifierWord_plus
    | false =>
      rw [hplus] at hwords
      exact .missingKey hgap hplus hwords

/-- What reading a text comes to is its verdict. -/
theorem verdict_parse (s : String) : Verdict s.toList (.ofText s.toList) (parse s) := by
  unfold parse
  dsimp only
  split
  · next hnil => exact .empty (Text.trim_eq_nil_iff.mp (List.isEmpty_iff.mp hnil))
  · next hnil =>
    have hgap : ¬ Text.IsGap s.toList := by
      rwa [← Text.trim_eq_nil_iff, ← List.isEmpty_iff]
    obtain ⟨d, hread, hreads⟩ | ⟨e, hread, hoffence⟩ :=
      (Draft.reads_plus (splitPlusKey (Text.trim s.toList)).2).foldlM
        (innocent_plus (splitPlusKey (Text.trim s.toList)).2)
        (parts (splitPlusKey (Text.trim s.toList)).1)
    · rw [hread]
      exact verdict_of_reads hgap hreads
    · rw [hread]
      exact .offence hoffence

/-- An outline is that of one chord. -/
theorem Outline.Denotes.unique {o : Outline} {chord chord' : Chord} (h : o.Denotes chord)
    (h' : o.Denotes chord') : chord = chord' := by
  obtain ⟨part, hone, k, hnamed, hkey⟩ := h.key
  obtain ⟨part', hone', k', hnamed', hkey'⟩ := h'.key
  obtain ⟨rfl, -⟩ := List.cons.inj (hone.symm.trans hone')
  have hsame : chord.key = chord'.key := by rw [hkey, hkey', hnamed.unique hnamed']
  have hmodifiers : chord.modifiers = chord'.modifiers := by
    apply Modifiers.ext_contains
    intro m
    rw [Bool.eq_iff_iff, h.modifiers, h'.modifiers]
  cases chord
  cases chord'
  subst hsame hmodifiers
  rfl

/-- No word of a chord offends. -/
theorem Outline.Denotes.innocent {o : Outline} {chord : Chord} (h : o.Denotes chord) :
    Innocent o.words := by
  obtain ⟨part, hone, k, hnamed, -⟩ := h.key
  exact innocent_of_keyParts_eq_singleton hone ⟨(mem_of_keyParts_eq hone).2, k, hnamed⟩

theorem words_of_not_plus {o : Outline} (h : o.plus = false) : o.words = o.parts := by
  rw [Outline.words, h]
  rfl

/-- There are no keys where a key is missing. -/
theorem keyParts_of_missing {o : Outline} (hplus : o.plus = false)
    (hparts : ∀ part ∈ o.parts, IsModifierWord part) : keyParts o.words = [] := by
  rw [words_of_not_plus hplus]
  exact keyParts_eq_nil_iff.mpr hparts

theorem Outline.Denotes.keyParts_ne_nil {o : Outline} {chord : Chord} (h : o.Denotes chord) :
    keyParts o.words ≠ [] := by
  obtain ⟨part, hone, -⟩ := h.key
  rw [hone]
  exact List.cons_ne_nil part []

/-- Of a blank text, nothing is to be said but that. -/
theorem Verdict.eq_of_isGap {cs : List Char} {r : Except ChordError Chord}
    (h : Verdict cs (.ofText cs) r) (hgap : Text.IsGap cs) : r = .error .empty := by
  have hwords : keyParts (Outline.ofText cs).words = [] := by
    rw [words_ofText_of_isGap hgap]
    rfl
  cases h with
  | chord hdenotes => exact absurd hwords hdenotes.keyParts_ne_nil
  | empty => rfl
  | missingKey hnot => exact absurd hgap hnot
  | offence hoffence => exact absurd (innocent_of_keyParts_eq_nil hwords) hoffence.not_innocent

/-- A text has one verdict. -/
theorem Verdict.unique {cs : List Char} {r r' : Except ChordError Chord}
    (h : Verdict cs (.ofText cs) r) (h' : Verdict cs (.ofText cs) r') : r = r' := by
  cases h with
  | empty hgap => exact (h'.eq_of_isGap hgap).symm
  | chord hdenotes =>
    cases h' with
    | chord hdenotes' => exact congrArg _ (hdenotes.unique hdenotes')
    | empty hgap => exact (Verdict.chord hdenotes).eq_of_isGap hgap
    | missingKey _ hplus hparts =>
      exact absurd (keyParts_of_missing hplus hparts) hdenotes.keyParts_ne_nil
    | offence hoffence => exact absurd hdenotes.innocent hoffence.not_innocent
  | missingKey hnot hplus hparts =>
    have hnil := keyParts_of_missing hplus hparts
    cases h' with
    | chord hdenotes => exact absurd hnil hdenotes.keyParts_ne_nil
    | empty hgap => exact absurd hgap hnot
    | missingKey => rfl
    | offence hoffence => exact absurd (innocent_of_keyParts_eq_nil hnil) hoffence.not_innocent
  | offence hoffence =>
    cases h' with
    | chord hdenotes => exact absurd hdenotes.innocent hoffence.not_innocent
    | empty hgap => exact (Verdict.offence hoffence).eq_of_isGap hgap
    | missingKey _ hplus hparts =>
      have hnil := keyParts_of_missing hplus hparts
      exact absurd (innocent_of_keyParts_eq_nil hnil) hoffence.not_innocent
    | offence hoffence' => exact congrArg _ (hoffence.unique hoffence')

/-- A text with exactly one key is that of a chord. -/
theorem exists_parse_eq_ok {s : String} {part : List Char}
    (hone : keyParts (Outline.ofText s.toList).words = [part]) (hpart : IsKeyPart part) :
    ∃ chord, parse s = .ok chord := by
  have hverdict := verdict_parse s
  cases hparse : parse s with
  | ok chord => exact ⟨chord, rfl⟩
  | error e =>
    rw [hparse] at hverdict
    have hwords : keyParts (Outline.ofText s.toList).words ≠ [] := by
      rw [hone]
      exact List.cons_ne_nil part []
    cases hverdict with
    | empty hgap =>
      rw [words_ofText_of_isGap hgap] at hwords
      exact absurd rfl hwords
    | missingKey _ hplus hparts => exact absurd (keyParts_of_missing hplus hparts) hwords
    | offence hoffence =>
      exact absurd (innocent_of_keyParts_eq_singleton hone hpart) hoffence.not_innocent

/-- A text is read as its grammar says. It is laid out in one way; it is that of a chord exactly if
one of its words, the plus key among them, is for no modifier, and that one tells a key; and which
chord that is, or which error there is else, is the verdict on it. -/
theorem parse_eq_iff_verdict (s : String) :
    ∃ o : Outline, (∀ o' : Outline, o'.Of s.toList ↔ o' = o) ∧
      ((∃ chord, parse s = .ok chord) ↔ ∃ part, keyParts o.words = [part] ∧ IsKeyPart part) ∧
      ∀ r, parse s = r ↔ Verdict s.toList o r := by
  refine ⟨.ofText s.toList, fun o' ↦ Outline.of_iff, ⟨?_, ?_⟩, fun r ↦ ⟨?_, fun h ↦ ?_⟩⟩
  · rintro ⟨chord, hparse⟩
    have hverdict := verdict_parse s
    rw [hparse] at hverdict
    cases hverdict with
    | chord hdenotes =>
      obtain ⟨part, hone, k, hnamed, -⟩ := hdenotes.key
      exact ⟨part, hone, (mem_of_keyParts_eq hone).2, k, hnamed⟩
  · rintro ⟨part, hone, hpart⟩
    exact exists_parse_eq_ok hone hpart
  · rintro rfl
    exact verdict_parse s
  · exact (verdict_parse s).unique h

/-- The plus key counts before the keys that are written before it. -/
example : parse "A++" = .error (.duplicateKey "A") := by decide +kernel

end Chord

end Typist

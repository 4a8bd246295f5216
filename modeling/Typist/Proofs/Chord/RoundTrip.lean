import Mathlib.Data.List.Basic
import Typist.Chord
import Typist.Proofs.Text.Letters

/-!
# Chords shown and read back

The text of a chord is read as that chord again, whatever it was read from first. So a chord is told
by its text, although the plus sign both parts words and is a key, and names of modifiers are names
of keys, too.
-/

namespace Typist

/-! ## Spellings -/

namespace Modifier

/-- The case of letters does not matter to the word of a modifier. -/
theorem ofWord?_toUpper (word : String) : ofWord? word.toUpper = ofWord? word := by
  have hlower : word.toUpper.toLower = word.toLower := by
    apply String.toList_inj.mp
    show ((word.map Char.toUpper).map Char.toLower).toList = (word.map Char.toLower).toList
    rw [String.toList_map, String.toList_map, String.toList_map, List.map_map]
    exact List.map_congr_left fun c _ ↦ Text.toLower_toUpper c
  rw [ofWord?, ofWord?, hlower]

theorem ofWord?_label (m : Modifier) : ofWord? m.label = some m := by
  cases m <;> decide +kernel

/-- Words for modifiers are neither short nor long. -/
theorem ofWord?_of_length {word : String} (h : word.length < 3 ∨ 10 ≤ word.length) :
    ofWord? word = none := by
  have hwords (m : Modifier) : ∀ spelling ∈ m.words,
      3 ≤ spelling.length ∧ spelling.length < 10 := by
    cases m <;> decide
  refine List.find?_eq_none.mpr fun m _ hm ↦ ?_
  have hlength : word.toLower.length = word.length := String.length_map
  have := hwords m _ (List.contains_iff_mem.mp hm)
  omega

end Modifier

namespace Key

/-- A name of a key that is no word for a modifier names no modifier. -/
theorem isModifier_of_ofName? {word : String} {k : Key} (hname : ofName? word = some k)
    (hword : Modifier.ofWord? word = none) : k.isModifier = false := by
  have hwords : ∀ k ∈ modifiers, ∀ s ∈ k.spellings, Modifier.ofWord? s ≠ none := by
    decide +kernel
  rw [Bool.eq_false_iff, ne_eq, isModifier_iff]
  intro hk
  have hfound := List.find?_some hname
  apply hwords k hk word.toUpper (by simpa using hfound)
  rw [Modifier.ofWord?_toUpper, hword]

theorem ofName?_name (k : Key) : ofName? k.name = some k := by
  have hall : ∀ k ∈ all, ofName? k.name = some k := by decide +kernel
  exact hall k (mem_all k)

/-- Spellings of keys are neither short nor long. -/
theorem ofName?_of_length {text : String} (h : text.length < 2 ∨ 10 ≤ text.length) :
    ofName? text = none := by
  have hspellings (k : Key) : ∀ spelling ∈ k.spellings,
      2 ≤ spelling.length ∧ spelling.length < 10 := by
    rw [spellings, List.forall_mem_cons, String.toUpper, String.length_map]
    cases k <;> decide
  refine List.find?_eq_none.mpr fun k _ hk ↦ ?_
  have := hspellings k _ (List.contains_iff_mem.mp hk)
  rw [String.toUpper, String.length_map] at this
  omega

/-- The name of a key is a word for a modifier only if the key is one. -/
theorem ofWord?_name {k : Key} (h : k.isModifier = false) : Modifier.ofWord? k.name = none := by
  have hall : ∀ k ∈ all, k.isModifier = false → Modifier.ofWord? k.name = none := by
    decide +kernel
  exact hall k (mem_all k) h

end Key

namespace Chord

/-! ## Parts -/

/-- Whether characters are a part of a chord text as they stand. -/
structure IsPart (cs : List Char) : Prop where
  nonempty : cs ≠ []
  plain : ∀ c ∈ cs, c ≠ '+' ∧ Text.isBlank c = false

theorem IsPart.not_plus {cs : List Char} (h : IsPart cs) : '+' ∉ cs :=
  fun hplus ↦ (h.plain _ hplus).1 rfl

theorem isPart_of_all {cs : List Char} (hne : cs ≠ [])
    (h : cs.all (fun c ↦ c != '+' && !Text.isBlank c) = true) : IsPart cs where
  nonempty := hne
  plain c hc := by simpa using List.all_eq_true.mp h c hc

theorem trim_eq_self_of_not_blank {cs : List Char} (h : ∀ c ∈ cs, Text.isBlank c = false) :
    Text.trim cs = cs :=
  Text.trim_eq_self (fun c hc ↦ h c (List.mem_of_mem_head? hc))
    fun c hc ↦ h c (List.mem_of_getLast? hc)

/-- The first plus sign parts a text. -/
theorem splitPlus_append {cs : List Char} (h : '+' ∉ cs) (rest : List Char) :
    splitPlus (cs ++ '+' :: rest) = cs :: splitPlus rest := by
  induction cs with
  | nil => rfl
  | cons c cs ih =>
    rw [List.mem_cons, not_or] at h
    rw [List.cons_append, splitPlus, ih h.2]
    exact fun hc ↦ h.1 hc.symm

theorem splitPlus_of_not_mem {cs : List Char} (h : '+' ∉ cs) : splitPlus cs = [cs] := by
  induction cs with
  | nil => rfl
  | cons c cs ih =>
    rw [List.mem_cons, not_or] at h
    rw [splitPlus, ih h.2]
    exact fun hc ↦ h.1 hc.symm

/-- Texts put together by plus signs. -/
def plusses (texts : List (List Char)) : List Char := texts.flatMap (· ++ ['+'])

theorem splitPlus_plusses {texts : List (List Char)} {last : List Char}
    (h : ∀ x ∈ texts, '+' ∉ x) (hlast : '+' ∉ last) :
    splitPlus (plusses texts ++ last) = texts ++ [last] := by
  induction texts with
  | nil => exact splitPlus_of_not_mem hlast
  | cons x texts ih =>
    obtain ⟨hx, htexts⟩ := List.forall_mem_cons.mp h
    have hcons : plusses (x :: texts) ++ last = x ++ '+' :: (plusses texts ++ last) := by
      simp [plusses]
    rw [hcons, splitPlus_append hx, ih htexts]
    rfl

/-- The parts of a text are those that it was put together from. -/
theorem parts_plusses {texts : List (List Char)} {last : List Char} (h : ∀ x ∈ texts, IsPart x)
    (hlast : IsPart last) : parts (plusses texts ++ last) = texts ++ [last] := by
  have hall : ∀ x ∈ texts ++ [last], IsPart x :=
    List.forall_mem_append.mpr ⟨h, List.forall_mem_singleton.mpr hlast⟩
  have htrim : (texts ++ [last]).map Text.trim = texts ++ [last] := by
    refine (List.map_congr_left fun x hx ↦ ?_).trans (List.map_id _)
    exact trim_eq_self_of_not_blank fun c hc ↦ ((hall x hx).plain c hc).2
  rw [parts, splitPlus_plusses (fun x hx ↦ (h x hx).not_plus) hlast.not_plus, htrim,
    List.filter_eq_self]
  intro x hx
  simpa using (hall x hx).nonempty

/-- No blank comes in with the plus signs. -/
theorem isBlank_plusses {texts : List (List Char)} {last : List Char}
    (h : ∀ x ∈ texts, IsPart x) (hlast : ∀ c ∈ last, Text.isBlank c = false) :
    ∀ c ∈ plusses texts ++ last, Text.isBlank c = false := by
  refine List.forall_mem_append.mpr ⟨fun c hc ↦ ?_, hlast⟩
  obtain ⟨x, hx, hc⟩ := List.mem_flatMap.mp hc
  obtain hc | hc := List.mem_append.mp hc
  · exact ((h x hx).plain c hc).2
  · rw [List.mem_singleton.mp hc]
    decide

/-- A text that does not end with a plus sign is its own body. -/
theorem splitPlusKey_of_getLast {cs : List Char} (h : '+' ∉ cs.getLast?) :
    splitPlusKey cs = (cs, false) := by
  rw [← List.head?_reverse] at h
  unfold splitPlusKey
  split
  · simp_all
  · simp_all
  · rfl

/-- Two plus signs at the end are one that parts and the key. -/
theorem splitPlusKey_append (cs : List Char) : splitPlusKey (cs ++ ['+', '+']) = (cs, true) := by
  simp [splitPlusKey]

end Chord

/-! ## Keys -/

namespace ChordKey

/-- Whether a key can be written in a chord: it is a key that is no modifier, or a printable
character. -/
def IsWritable : ChordKey → Prop
  | named k => k.isModifier = false
  | char c => '!' ≤ c ∧ c ≤ '~'

theorem le_iff_toNat {a b : Char} : a ≤ b ↔ a.toNat ≤ b.toNat := UInt32.le_iff_toNat_le

theorem IsWritable.folded {k : ChordKey} (h : k.IsWritable) : k.folded.IsWritable := by
  cases k with
  | named k => exact h
  | char c =>
    obtain ⟨hlow, hhigh⟩ := h
    have hlow : 33 ≤ c.toNat := le_iff_toNat.mp hlow
    have hhigh : c.toNat ≤ 126 := le_iff_toNat.mp hhigh
    have hlower := Text.toNat_toLower c
    constructor
    · apply le_iff_toNat.mpr
      show 33 ≤ c.toLower.toNat
      split at hlower <;> omega
    · apply le_iff_toNat.mpr
      show c.toLower.toNat ≤ 126
      split at hlower <;> omega

/-- A part that is no word for a modifier is read as a key that can be written. -/
theorem isWritable_of_ofPart? {part : List Char} {k : ChordKey} (h : ofPart? part = some k)
    (hword : Modifier.ofWord? (String.ofList part) = none) : k.IsWritable := by
  unfold ofPart? at h
  split at h
  · next j hj =>
    cases h
    exact Key.isModifier_of_ofName? hj hword
  · split at h
    · split at h
      · next hc =>
        cases h
        exact hc
      · cases h
    · cases h

/-- A character that can be written is not blank, and neither is its capital. -/
theorem IsWritable.toUpper {c : Char} (h : (char c).IsWritable) :
    (char c.toUpper).IsWritable ∧ Text.isBlank c.toUpper = false := by
  obtain ⟨hlow, hhigh⟩ := h
  have hlow : 33 ≤ c.toNat := le_iff_toNat.mp hlow
  have hhigh : c.toNat ≤ 126 := le_iff_toNat.mp hhigh
  have hupper := Text.toNat_toUpper c
  have hlow' : 33 ≤ c.toUpper.toNat := by split at hupper <;> omega
  have hhigh' : c.toUpper.toNat ≤ 126 := by split at hupper <;> omega
  refine ⟨⟨le_iff_toNat.mpr hlow', le_iff_toNat.mpr hhigh'⟩, ?_⟩
  simp [Text.isBlank, Text.blankRanges]
  omega

theorem toUpper_ne_plus {c : Char} (h : c ≠ '+') : c.toUpper ≠ '+' := by
  have hc : c.toNat ≠ 43 := fun hnat ↦ h (Char.toNat_inj.mp hnat)
  have hupper := Text.toNat_toUpper c
  intro hplus
  rw [hplus] at hupper
  have hplus : '+'.toNat = 43 := rfl
  split at hupper <;> omega

theorem toList_text_char (c : Char) : (char c).text.toList = [c.toUpper] :=
  String.toList_singleton c.toUpper

/-- The text of every key but the plus sign is a part. -/
theorem isPart_text {k : ChordKey} (h : k.IsWritable) (hplus : k ≠ char '+') :
    Chord.IsPart k.text.toList := by
  cases k with
  | named k =>
    have hall : ∀ k ∈ Key.all, k.name.toList ≠ [] ∧
        k.name.toList.all (fun c ↦ c != '+' && !Text.isBlank c) = true := by decide +kernel
    obtain ⟨hne, hplain⟩ := hall k (Key.mem_all k)
    exact Chord.isPart_of_all hne hplain
  | char c =>
    rw [toList_text_char]
    refine ⟨List.cons_ne_nil _ _, fun d hd ↦ ?_⟩
    rw [List.mem_singleton.mp hd]
    exact ⟨toUpper_ne_plus fun hc ↦ hplus (congrArg char hc), h.toUpper.2⟩

/-- The text of a key is no word for a modifier, and is read as the key. -/
theorem ofPart?_text {k : ChordKey} (h : k.IsWritable) (hfolded : k.folded = k) :
    Modifier.ofWord? k.text = none ∧
      ∃ read, ofPart? k.text.toList = some read ∧ read.folded = k := by
  cases k with
  | named k =>
    refine ⟨Key.ofWord?_name h, named k, ?_, rfl⟩
    simp only [ofPart?, text, String.ofList_toList, Key.ofName?_name]
  | char c =>
    have hlength : (char c).text.length = 1 := by
      rw [← String.length_toList, toList_text_char, List.length_singleton]
    refine ⟨Modifier.ofWord?_of_length (by omega), char c.toUpper, ?_, ?_⟩
    · have hname : Key.ofName? (String.ofList [c.toUpper]) = none := by
        rw [← toList_text_char, String.ofList_toList]
        exact Key.ofName?_of_length (by omega)
      rw [toList_text_char, ofPart?, hname]
      exact if_pos h.toUpper.1
    · rw [folded, Text.toLower_toUpper]
      exact hfolded

end ChordKey

namespace Chord

/-! ## Reading -/

/-- Behind the words of modifiers, reading goes on with those. -/
theorem foldlM_add_labels (ms : List Modifier) (d : Draft) (rest : List (List Char)) :
    (ms.map (·.label.toList) ++ rest).foldlM Draft.add d =
      rest.foldlM Draft.add { d with modifiers := ms.foldl Modifiers.insert d.modifiers } := by
  induction ms generalizing d with
  | nil => rfl
  | cons m ms ih =>
    have hadd : Draft.add d m.label.toList = .ok { d with modifiers := d.modifiers.insert m } := by
      rw [Draft.add, String.ofList_toList, Modifier.ofWord?_label]
    rw [List.map_cons, List.cons_append, List.foldlM_cons, hadd]
    exact ih _

/-- The modifiers that are shown are all of them. -/
theorem foldl_insert_filter (s : Modifiers) :
    (Modifier.all.filter s.contains).foldl Modifiers.insert {} = s := by
  obtain ⟨_ | _, _ | _, _ | _, _ | _⟩ := s <;> rfl

/-- What reading adds keeps the key writable. -/
theorem isWritable_of_add {d d' : Draft} {part : List Char} (h : Draft.add d part = .ok d')
    (hd : ∀ k ∈ d.key, k.IsWritable) : ∀ k ∈ d'.key, k.IsWritable := by
  unfold Draft.add at h
  split at h
  · cases h
    exact hd
  · next hword =>
    split at h
    · cases h
    · split at h
      · next k hk =>
        cases h
        rintro k' hk'
        cases hk'
        exact ChordKey.isWritable_of_ofPart? hk hword
      · cases h

theorem isWritable_of_foldlM {d d' : Draft} {parts : List (List Char)}
    (h : parts.foldlM Draft.add d = .ok d') (hd : ∀ k ∈ d.key, k.IsWritable) :
    ∀ k ∈ d'.key, k.IsWritable := by
  induction parts generalizing d with
  | nil =>
    cases h
    exact hd
  | cons part parts ih =>
    rw [List.foldlM_cons] at h
    cases hadd : Draft.add d part with
    | error e =>
      rw [hadd] at h
      cases h
    | ok next =>
      rw [hadd] at h
      exact ih h (isWritable_of_add hadd hd)

/-- The key of a chord that was read can be written. -/
theorem isWritable_of_parse {s : String} {chord : Chord} (h : parse s = .ok chord) :
    chord.key.IsWritable := by
  unfold parse at h
  dsimp only at h
  split at h
  · cases h
  · split at h
    · cases h
    · next d hd =>
      split at h
      · next k hk =>
        cases h
        refine ChordKey.IsWritable.folded (isWritable_of_foldlM hd ?_ k hk)
        rintro k hk
        split at hk
        · cases hk
          exact ⟨by decide, by decide⟩
        · cases hk
      · cases h

/-- The characters of a chord's text. -/
theorem toList_text (c : Chord) : c.text.toList =
    plusses ((Modifier.all.filter c.modifiers.contains).map (·.label.toList)) ++
      c.key.text.toList := by
  simp [text, plusses, List.flatMap_map]

theorem isPart_label (m : Modifier) : IsPart m.label.toList := by
  cases m <;> exact isPart_of_all (by decide) (by decide)

theorem make_eq {chord : Chord} {k : ChordKey} (h : k.folded = chord.key) :
    make k chord.modifiers = chord := by
  cases chord
  subst h
  rfl

/-- A text without blanks is read by its parts. -/
theorem parse_of_parts {s : String} {body : List Char} {plus : Bool} {d : Draft} {k : ChordKey}
    (hne : s.toList ≠ []) (hblank : ∀ c ∈ s.toList, Text.isBlank c = false)
    (hbody : splitPlusKey s.toList = (body, plus))
    (hread : (parts body).foldlM Draft.add { key := if plus then some (.char '+') else none } =
      .ok d)
    (hkey : d.key = some k) : parse s = .ok (make k d.modifiers) := by
  have hempty : s.toList.isEmpty = false := by simpa using hne
  simp only [parse, trim_eq_self_of_not_blank hblank, hempty, Bool.false_eq_true, if_false, hbody,
    hread, hkey]

/-- Words that a plus sign follows end with one, and are the parts of what is in front of it. -/
theorem splitPlusKey_plusses {texts : List (List Char)} (h : ∀ x ∈ texts, IsPart x) :
    ∃ body, splitPlusKey (plusses texts ++ ['+']) = (body, true) ∧ parts body = texts := by
  obtain rfl | ⟨init, last, rfl⟩ := List.eq_nil_or_concat' texts
  · exact ⟨[], rfl, rfl⟩
  · obtain ⟨hinit, hlast⟩ := List.forall_mem_append.mp h
    refine ⟨plusses init ++ last, ?_, ?_⟩
    · rw [← splitPlusKey_append]
      simp [plusses]
    · exact parts_plusses hinit (hlast last (List.mem_singleton_self last))

/-- A chord whose key can be written is read from its text. -/
theorem parse_text_of_isWritable {chord : Chord} (h : chord.key.IsWritable) :
    parse chord.text = .ok chord := by
  let ms := Modifier.all.filter chord.modifiers.contains
  have htext := toList_text chord
  have hlabels : ∀ x ∈ ms.map (·.label.toList), IsPart x := by
    intro x hx
    obtain ⟨m, -, rfl⟩ := List.mem_map.mp hx
    exact isPart_label m
  have hmodifiers : ms.foldl Modifiers.insert {} = chord.modifiers :=
    foldl_insert_filter chord.modifiers
  by_cases hplus : chord.key = .char '+'
  · -- The key is taken off before the parts are read, and is the draft that they go into.
    have hkey : chord.key.text.toList = ['+'] := by
      rw [hplus]
      exact ChordKey.toList_text_char '+'
    rw [hkey] at htext
    obtain ⟨body, hbody, hparts⟩ := splitPlusKey_plusses hlabels
    have hread := foldlM_add_labels ms { key := some (.char '+') } []
    rw [List.append_nil, ← hparts, hmodifiers] at hread
    rw [← htext] at hbody
    have hplain : ∀ c ∈ ['+'], Text.isBlank c = false := List.forall_mem_singleton.mpr rfl
    have hfolded : (ChordKey.char '+').folded = chord.key := hplus ▸ chord.folded_key
    rw [parse_of_parts (htext ▸ List.append_ne_nil_of_right_ne_nil _ (List.cons_ne_nil _ _))
      (htext ▸ isBlank_plusses hlabels hplain) hbody hread rfl]
    exact congrArg _ (make_eq hfolded)
  · have hkey := ChordKey.isPart_text h hplus
    obtain ⟨hword, k, hk, hfolded⟩ := ChordKey.ofPart?_text h chord.folded_key
    have hbody : splitPlusKey chord.text.toList = (chord.text.toList, false) := by
      refine splitPlusKey_of_getLast fun hlast ↦ hkey.not_plus ?_
      rw [htext, List.getLast?_append_of_ne_nil _ hkey.nonempty] at hlast
      exact List.mem_of_getLast? hlast
    have hadd (d : Draft) (hd : d.key = none) :
        Draft.add d chord.key.text.toList = .ok { d with key := some k } := by
      simp only [Draft.add, String.ofList_toList, hword, hd, hk, Option.isSome_none,
        Bool.false_eq_true, if_false]
    have hread := foldlM_add_labels ms {} [chord.key.text.toList]
    rw [← parts_plusses hlabels hkey, ← htext, List.foldlM_cons, hadd _ rfl, hmodifiers] at hread
    rw [parse_of_parts (htext ▸ List.append_ne_nil_of_right_ne_nil _ hkey.nonempty)
      (htext ▸ isBlank_plusses hlabels fun c hc ↦ (hkey.plain c hc).2) hbody hread rfl]
    exact congrArg _ (make_eq hfolded)

/-- A chord that was read is read again from its text. -/
theorem parse_text {s : String} {chord : Chord} (h : parse s = .ok chord) :
    parse chord.text = .ok chord :=
  parse_text_of_isWritable (isWritable_of_parse h)

/-- Chords that were read are told by their texts. -/
theorem text_injective {s s' : String} {chord chord' : Chord} (h : parse s = .ok chord)
    (h' : parse s' = .ok chord') (htext : chord.text = chord'.text) : chord = chord' := by
  have hread := parse_text h
  rw [htext, parse_text h'] at hread
  exact (Except.ok.inj hread).symm

end Chord

end Typist

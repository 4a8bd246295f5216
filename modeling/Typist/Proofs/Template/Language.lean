import Typist.Proofs.Template.Scan

/-!
# The template language

Which templates compile, and with what a template is blamed that does not: those compile whose
tokens are all known and in which no brace is left open, and otherwise the first fault from the left
is told, whatever the credential. Of the tokens, those of delays are looked at more closely.
-/

namespace Typist.Template

/-! ## The first fault -/

/-- Known tokens are read over. -/
theorem fault_append {front : List (List Char × List Char)} (h : ∀ x ∈ front, IsKnown x.2)
    (ps : List Piece) :
    (Reading.ofPieces ((front.flatMap fun x ↦ [.literal x.1, .token x.2]) ++ ps)).fault =
      (Reading.ofPieces ps).fault := by
  induction front with
  | nil => rfl
  | cons x front ih =>
    obtain ⟨hx, hfront⟩ := List.forall_mem_cons.mp h
    obtain ⟨p, hp⟩ := isKnown_iff.mp hx
    simp only [List.flatMap_cons, List.cons_append, List.nil_append, Reading.ofPieces, hp]
    exact ih hfront

section Splits

variable {cs tail : List Char} {closed : List (List Char × List Char)} (h : Splits cs closed tail)
include h

/-- Behind known tokens, the fault is that of the tail. -/
theorem fault_of_known (hknown : ∀ x ∈ closed, IsKnown x.2) (n : Nat) :
    (readAt n cs).fault = (readAt (n + (joined closed).length) tail).fault := by
  rw [readAt, h.pieces, fault_append hknown, readAt]

/-- The first token that is not known is blamed. -/
theorem fault_of_unknown {front rest : List (List Char × List Char)} {text raw : List Char}
    (hfront : KnownFront closed front ((text, raw) :: rest)) (n : Nat) :
    ∃ fault, Blames raw fault ∧ (readAt n cs).fault = some fault := by
  cases hp : Part.ofToken raw with
  | ok p => exact absurd (isKnown_iff.mpr ⟨p, hp⟩) (hfront.next _ rfl)
  | error fault =>
    refine ⟨fault, blames_of_ofToken hp, ?_⟩
    rw [readAt, h.pieces, hfront.append, List.flatMap_append, List.append_assoc,
      fault_append hfront.known]
    simp only [List.flatMap_cons, List.cons_append, Reading.ofPieces, hp, Reading.cons]

/-- If some token is not known, then a token is blamed. -/
theorem exists_blames (hunknown : ¬ ∀ x ∈ closed, IsKnown x.2) (n : Nat) :
    ∃ raw fault, Blames raw fault ∧ (readAt n cs).fault = some fault := by
  obtain ⟨front, rest, hfront⟩ := exists_knownFront closed
  cases rest with
  | nil =>
    rw [hfront.append, List.append_nil] at hunknown
    exact absurd hfront.known hunknown
  | cons x rest => exact ⟨x.2, fault_of_unknown h hfront n⟩

/-- Nothing is at fault if every token is known and every brace closed. -/
theorem fault_eq_none_iff :
    (readAt 0 cs).fault = none ↔ (∀ x ∈ closed, IsKnown x.2) ∧ ∀ n, ¬ Dangles cs n := by
  by_cases hknown : ∀ x ∈ closed, IsKnown x.2
  · rw [fault_of_known h hknown]
    obtain hopen | ⟨text, inner, rfl, htext, hinner⟩ := tail_cases h.open_tail
    · rw [readAt_literal hopen]
      refine ⟨fun _ ↦ ⟨hknown, fun n hn ↦ ?_⟩, fun _ ↦ rfl⟩
      obtain ⟨-, ⟨before, after, rfl, -⟩, -⟩ := h.dangles_iff.mp hn
      exact hopen (List.mem_append_right before List.mem_cons_self)
    · rw [readAt_dangling htext hinner]
      exact ⟨nofun, fun hnot ↦ absurd (h.isLeast_dangles htext hinner).1 (hnot.2 _)⟩
  · obtain ⟨raw, fault, -, hfault⟩ := exists_blames h hknown 0
    rw [hfault]
    exact ⟨nofun, fun hnot ↦ absurd hnot.1 hknown⟩

/-- A brace is at fault if every token is known, and then the first that is not closed. -/
theorem fault_eq_unterminated_iff {n : Nat} :
    (readAt 0 cs).fault = some (.unterminated n) ↔
      (∀ x ∈ closed, IsKnown x.2) ∧ IsLeast {m | Dangles cs m} n := by
  by_cases hknown : ∀ x ∈ closed, IsKnown x.2
  · rw [fault_of_known h hknown]
    obtain hopen | ⟨text, inner, rfl, htext, hinner⟩ := tail_cases h.open_tail
    · rw [readAt_literal hopen]
      refine ⟨nofun, fun ⟨_, hleast⟩ ↦ ?_⟩
      obtain ⟨-, ⟨before, after, rfl, -⟩, -⟩ := h.dangles_iff.mp hleast.1
      exact absurd (List.mem_append_right before List.mem_cons_self) hopen
    · rw [readAt_dangling htext hinner, Nat.zero_add]
      have hleast := h.isLeast_dangles htext hinner
      constructor
      · rintro ⟨⟩
        exact ⟨hknown, hleast⟩
      · rintro ⟨-, hn⟩
        rw [hleast.unique hn]
  · obtain ⟨raw, fault, hblames, hfault⟩ := exists_blames h hknown 0
    rw [hfault]
    refine ⟨?_, fun hnot ↦ absurd hnot.1 hknown⟩
    rintro ⟨⟩
    cases hblames

end Splits

/-! ## What resembles a delay -/

theorem toList_word (raw : List Char) : (word raw).toList = capitals (Text.trim raw) :=
  String.toList_ofList

/-- A token asked to be a delay begins with its word. -/
theorem AsksDelay.isPrefix {raw argument : List Char} (h : AsksDelay (Text.trim raw) argument) :
    "DELAY".toList <+: (word raw).toList := by
  obtain ⟨keyword, rest, hraw, hkeyword, -⟩ := h
  rw [toList_word, hraw, ← hkeyword]
  exact (List.prefix_append keyword rest).map Char.toUpper

/-- A token that begins with the word of delays is known only as a delay. -/
theorem isKnown_iff_tells {raw : List Char} (h : "DELAY".toList <+: (word raw).toList) :
    IsKnown raw ↔ ∃ n < 2 ^ 64, TellsDelay (Text.trim raw) n := by
  constructor
  · rintro (⟨f, hf⟩ | ⟨k, hk⟩ | ⟨htells, hn⟩)
    · exact absurd h (not_delay_of_field hf)
    · exact absurd h (not_delay_of_key hk)
    · exact ⟨_, hn, htells⟩
  · rintro ⟨n, hn, htells⟩
    exact .delay htells hn

/-- The tokens blamed for their argument ask for a delay and tell none of 64 bits. -/
theorem ofToken_invalidDelay_iff {raw : List Char} {argument : String} :
    Part.ofToken raw = .error (.invalidDelay argument) ↔
      AsksDelay (Text.trim raw) argument.toList ∧
        ¬ ∃ n < 2 ^ 64, TellsDelay (Text.trim raw) n := by
  have hblames : Blames raw (.invalidDelay argument) ↔
      AsksDelay (Text.trim raw) argument.toList := by
    constructor
    · intro h
      cases h with
      | delay hasks => rwa [String.toList_ofList]
    · intro hasks
      rw [← String.ofList_toList (s := argument)]
      exact .delay hasks
  rw [ofToken_eq_error_iff, hblames, and_comm]
  refine and_congr_right fun hasks ↦ ?_
  rw [isKnown_iff_tells hasks.isPrefix]

/-- A token that neither is a spelling nor asks for a delay is unknown. -/
theorem ofToken_unknown {raw : List Char} (hfield : ∀ f : Field, word raw ∉ f.spellings)
    (hkey : ∀ k : Key, word raw ∉ k.spellings)
    (hdelay : ∀ argument, ¬ AsksDelay (Text.trim raw) argument) :
    Part.ofToken raw = .error (.unknownPlaceholder (word raw)) := by
  refine ofToken_eq_error_iff.mpr ⟨?_, .unknown hdelay⟩
  rintro (⟨f, hf⟩ | ⟨k, hk⟩ | ⟨htells, -⟩)
  · exact hfield f hf
  · exact hkey k hk
  · obtain ⟨digits, hasks, -⟩ := htells.exists_asks
    exact hdelay digits hasks

/-- Behind the word of a delay, a character that is not blank makes another word of it. -/
theorem ofToken_of_no_gap {raw keyword rest : List Char} {c : Char}
    (hraw : Text.trim raw = keyword ++ c :: rest) (hkeyword : capitals keyword = "DELAY".toList)
    (hc : Text.isBlank c = false) :
    Part.ofToken raw = .error (.unknownPlaceholder (word raw)) := by
  have hprefix : "DELAY".toList <+: (word raw).toList := by
    rw [toList_word, hraw, ← hkeyword]
    exact (List.prefix_append keyword (c :: rest)).map Char.toUpper
  refine ofToken_unknown (fun f hf ↦ not_delay_of_field hf hprefix)
    (fun k hk ↦ not_delay_of_key hk hprefix) ?_
  rintro argument ⟨keyword', rest', hraw', hkeyword', hblank, -⟩
  have hlength : keyword.length = keyword'.length := by
    rw [length_of_capitals hkeyword, length_of_capitals hkeyword']
  obtain ⟨-, rfl⟩ := List.append_inj (hraw.symm.trans hraw') hlength
  rw [hblank c rfl] at hc
  cases hc

/-- The spellings of fields and keys are ASCII. -/
theorem utf8Size_of_mem_spelling {s : String}
    (hs : s ∈ Field.all.flatMap Field.spellings ++ Key.all.flatMap Key.spellings) {c : Char}
    (hc : c ∈ s.toList) : c.utf8Size = 1 := by
  have hall : ∀ s ∈ Field.all.flatMap Field.spellings ++ Key.all.flatMap Key.spellings,
      s.toList.all (fun c ↦ c.val ≤ 127) = true := by decide +kernel
  exact Char.utf8Size_eq_one_iff.mpr (of_decide_eq_true (List.all_eq_true.mp (hall s hs) c hc))

/-- A token with a character across the end of the fifth byte is unknown. -/
theorem ofToken_of_across {raw before after : List Char} {c : Char}
    (hraw : Text.trim raw = before ++ c :: after) (hbefore : String.utf8Len before < 5)
    (hc : 5 < String.utf8Len before + c.utf8Size) :
    Part.ofToken raw = .error (.unknownPlaceholder (word raw)) := by
  have hmem : c.toUpper ∈ (word raw).toList := by
    rw [toList_word, hraw]
    exact List.mem_map_of_mem (List.mem_append_right before List.mem_cons_self)
  have hspelling (hs : word raw ∈
      Field.all.flatMap Field.spellings ++ Key.all.flatMap Key.spellings) : False := by
    have hone := utf8Size_of_mem_spelling hs hmem
    rw [Text.utf8Size_toUpper] at hone
    omega
  refine ofToken_unknown ?_ ?_ ?_
  · intro f hf
    exact hspelling (List.mem_append_left _ (List.mem_flatMap.mpr ⟨f, by cases f <;> decide, hf⟩))
  · intro k hk
    exact hspelling (List.mem_append_right _ (List.mem_flatMap.mpr ⟨k, Key.mem_all k, hk⟩))
  · rintro argument ⟨keyword, rest, hraw', hkeyword, -⟩
    have hlen : String.utf8Len keyword = 5 := by
      rw [← utf8Len_capitals, hkeyword]
      rfl
    -- the word ends after five bytes, and the character stands on both sides of that
    obtain ⟨mid, rfl, hmid⟩ | ⟨mid, rfl, -⟩ := List.append_eq_append_iff.mp (hraw.symm.trans hraw')
    · cases mid with
      | nil =>
        rw [List.append_nil] at hlen
        omega
      | cons d mid =>
        obtain ⟨rfl, -⟩ := List.cons.inj hmid
        rw [String.utf8Len_append, String.utf8Len_cons] at hlen
        omega
    · rw [String.utf8Len_append] at hbefore
      omega

/-! ## Which templates compile -/

/-- Compiling with any credential ends, in one way and never by a cut within a character, and the
fault it tells is that of compiling for an entry. -/
theorem exists_compiles (template : String) (e : Entry) (c : Credential) :
    ∃ result moments, (∀ result' moments', Compiles c template result' moments' ↔
        result' = result ∧ moments' = moments) ∧
      result ≠ .error .miscut ∧
      ∀ fault, result = .error (.fault fault) ↔
        (compile template (some e)).result = .error fault := by
  refine ⟨_, _, fun result' moments' ↦ compiles_iff, ?_, ?_⟩
  · cases (read template).fault <;> nofun
  · intro fault
    have hread : read template = readAt 0 template.toList := rfl
    rw [compile_error_iff, ← hread]
    cases (read template).fault <;> simp [Course.verdict]

/-- A template is texts and tokens in one way, and compiles exactly if each of the tokens is known
and no brace is opened behind the last that closes. Otherwise it is blamed with the fault of the
first token that is not known, or else with the position, in characters, of the first brace that is
not closed. The loop over bytes ends alike for every credential, and cuts no character. -/
theorem compile_verdict (template : String) (e : Entry) :
    ∃ closed tail, Splits template.toList closed tail ∧
      (∀ closed' tail', Splits template.toList closed' tail' → closed' = closed ∧ tail' = tail) ∧
      ((∃ s, (compile template (some e)).result = .ok s) ↔
        (∀ x ∈ closed, IsKnown x.2) ∧ ∀ n, ¬ Dangles template.toList n) ∧
      (∀ front text raw rest, KnownFront closed front ((text, raw) :: rest) →
        ∃ fault, Blames raw fault ∧ (compile template (some e)).result = .error fault) ∧
      (∀ n, (compile template (some e)).result = .error (.unterminated n) ↔
        (∀ x ∈ closed, IsKnown x.2) ∧ IsLeast {m | Dangles template.toList m} n) ∧
      (∀ c : Credential, ∃ result moments,
        (∀ result' moments', Compiles c template result' moments' ↔
          result' = result ∧ moments' = moments) ∧
        result ≠ .error .miscut ∧
        ∀ fault, result = .error (.fault fault) ↔
          (compile template (some e)).result = .error fault) ∧
      ∃ moments, Compiles e.credential template
        ((compile template (some e)).result.mapError .fault) moments := by
  obtain ⟨closed, tail, h⟩ := exists_splits template.toList
  refine ⟨closed, tail, h, fun _ _ h' ↦ h.unique h', ?_, ?_, ?_, ?_, ?_⟩
  · rw [compile_ok_iff]
    exact fault_eq_none_iff h
  · intro front text raw rest hfront
    simp only [compile_error_iff]
    exact fault_of_unknown h hfront 0
  · intro n
    rw [compile_error_iff]
    exact fault_eq_unterminated_iff h
  · exact exists_compiles template e
  · exact ⟨_, compiles_entry_iff.mpr ⟨rfl, rfl⟩⟩

/-- An open brace behind a token that is not known is not told. -/
theorem compile_verdict_delay :
    KnownFront [("é".toList, "user".toList), ("ß".toList, "Delay +1".toList)]
        [("é".toList, "user".toList)] [("ß".toList, "Delay +1".toList)] ∧
      ∃ fault, Blames "Delay +1".toList fault ∧
        (compile "é\x7buser\x7dß\x7bDelay +1\x7d\x7b" (some {})).result = .error fault := by
  obtain ⟨closed, tail, -, hunique, -, hblames, -⟩ :=
    compile_verdict "é\x7buser\x7dß\x7bDelay +1\x7d\x7b" {}
  have hsplits : Splits "é\x7buser\x7dß\x7bDelay +1\x7d\x7b".toList
      [("é".toList, "user".toList), ("ß".toList, "Delay +1".toList)] ['{'] := by
    refine ⟨by simp, by simp, by simp, ?_⟩
    intro before after h
    cases before with
    | nil =>
      cases h
      exact List.not_mem_nil
    | cons c before => simp at h
  obtain ⟨rfl, rfl⟩ := hunique _ _ hsplits
  have hword : word "user".toList = "USER" := by cbv
  have huser : IsKnown "user".toList := .field .username (by rw [hword]; simp [Field.spellings])
  have hasks : AsksDelay (Text.trim "Delay +1".toList) "+1".toList :=
    ⟨"Delay".toList, " +1".toList, by decide +kernel, by simp [capitals],
      by simp [Text.isBlank, Text.blankRanges], by cbv⟩
  have hdelay : Part.ofToken "Delay +1".toList = .error (.invalidDelay "+1") := by
    refine ofToken_invalidDelay_iff.mpr ⟨hasks, ?_⟩
    rintro ⟨n, -, htells⟩
    obtain ⟨digits, hasks', hdigits⟩ := htells.exists_asks
    obtain rfl := hasks.unique hasks'
    exact absurd (hdigits.isDigit '+' (by simp)) (by decide)
  have hfront : KnownFront [("é".toList, "user".toList), ("ß".toList, "Delay +1".toList)]
      [("é".toList, "user".toList)] [("ß".toList, "Delay +1".toList)] := by
    refine ⟨rfl, ?_, ?_⟩
    · rintro x hx
      obtain rfl := List.mem_singleton.mp hx
      exact huser
    · rintro x hx
      obtain rfl := Option.some.inj hx
      exact (ofToken_eq_error_iff.mp hdelay).1
  exact ⟨hfront, hblames _ _ _ _ hfront⟩

/-! ## Delays -/

/-- A template of one token compiles to what the token is resolved to. -/
theorem compile_token (e : Entry) {raw : String} (h : '}' ∉ raw.toList) :
    (compile ("\x7b" ++ raw ++ "\x7d") (some e)).result =
      match Part.ofToken raw.toList with
      | .ok p => .ok (.ofActions [p.fill e])
      | .error fault => .error fault := by
  have htext : ("\x7b" ++ raw ++ "\x7d").toList = [] ++ '{' :: (raw.toList ++ '}' :: []) := by
    simp
  have hread : read ("\x7b" ++ raw ++ "\x7d") =
      readAt 0 ([] ++ '{' :: (raw.toList ++ '}' :: [])) := by
    rw [← htext]
    rfl
  cases hp : Part.ofToken raw.toList with
  | ok p =>
    rw [readAt_placeholder List.not_mem_nil h hp, readAt_literal List.not_mem_nil] at hread
    have hvoid : (Part.fill e (.literal [])).isVoid = true := rfl
    simp only [compile, hread, Reading.cons, List.map_cons, List.map_nil, Sequence.ofActions,
      List.filter_cons, hvoid, Bool.not_true, Bool.false_eq_true, if_false, List.filter_nil]
  | error fault =>
    rw [readAt_fault List.not_mem_nil h hp] at hread
    simp only [compile, hread]

/-- Only the part of a delay is filled to that delay alone. -/
theorem ofActions_fill_eq_delay_iff {e : Entry} {p : Part} {ms : UInt64} :
    Sequence.ofActions [p.fill e] = .ofActions [.delay ms] ↔ p = .delay ms := by
  constructor
  · intro h
    have hactions : [p.fill e].filter (fun a ↦ !a.isVoid) = [.delay ms] :=
      congrArg Sequence.actions h
    have hmem : Action.delay ms ∈ [p.fill e] := by
      apply List.mem_of_mem_filter
      rw [hactions]
      exact List.mem_singleton_self _
    cases p with
    | delay ms' => cases List.mem_singleton.mp hmem; rfl
    | _ => cases List.mem_singleton.mp hmem
  · rintro rfl
    rfl

/-- A delay token, alone in a template, is read exactly. The template waits for a number of
milliseconds exactly if the token is the word, a gap of blanks, and digits that stand for the
number. Of any other argument, or none, the token is blamed with that argument as it is spelt. What
only looks like a delay is unknown, be it that something else follows the word directly or that a
character stands across the end of its five bytes. No credential makes compiling cut a character. -/
theorem compile_delay (e : Entry) {t : String} (htrimmed : Text.trimmed t = t)
    (hclosed : '}' ∉ t.toList) :
    (∀ n : UInt64,
      (compile ("\x7b" ++ t ++ "\x7d") (some e)).result = .ok (.ofActions [.delay n]) ↔
        TellsDelay t.toList n.toNat) ∧
    (∀ argument,
      (compile ("\x7b" ++ t ++ "\x7d") (some e)).result = .error (.invalidDelay argument) ↔
        AsksDelay t.toList argument.toList ∧ ¬ ∃ n < 2 ^ 64, TellsDelay t.toList n) ∧
    (∀ keyword c rest, t.toList = keyword ++ c :: rest → capitals keyword = "DELAY".toList →
      Text.isBlank c = false →
        (compile ("\x7b" ++ t ++ "\x7d") (some e)).result =
          .error (.unknownPlaceholder t.toUpper)) ∧
    (∀ before c after, t.toList = before ++ c :: after → String.utf8Len before < 5 →
      5 < String.utf8Len before + c.utf8Size →
        (compile ("\x7b" ++ t ++ "\x7d") (some e)).result =
          .error (.unknownPlaceholder t.toUpper)) ∧
    ∀ c : Credential, ∃ result moments,
      (∀ result' moments', Compiles c ("\x7b" ++ t ++ "\x7d") result' moments' ↔
        result' = result ∧ moments' = moments) ∧
      result ≠ .error .miscut ∧
      ∀ fault, result = .error (.fault fault) ↔
        (compile ("\x7b" ++ t ++ "\x7d") (some e)).result = .error fault := by
  have htrim : Text.trim t.toList = t.toList := by
    rw [← String.toList_ofList (l := Text.trim t.toList)]
    exact congrArg String.toList htrimmed
  have hword : word t.toList = t.toUpper := by
    apply String.toList_inj.mp
    rw [toList_word, htrim, String.toUpper, String.toList_map, capitals]
  have herror (fault : CompileError) :
      (compile ("\x7b" ++ t ++ "\x7d") (some e)).result = .error fault ↔
        Part.ofToken t.toList = .error fault := by
    rw [compile_token e hclosed]
    cases Part.ofToken t.toList <;> simp
  refine ⟨?_, ?_, ?_, ?_, exists_compiles _ e⟩
  · intro n
    have hdelay : Part.ofToken t.toList = .ok (.delay n) ↔
        TellsDelay (Text.trim t.toList) n.toNat := ofToken_delay_iff
    rw [htrim] at hdelay
    rw [← hdelay, compile_token e hclosed]
    cases Part.ofToken t.toList with
    | ok p => rw [Except.ok.injEq, Except.ok.injEq, ofActions_fill_eq_delay_iff]
    | error fault => simp
  · intro argument
    rw [herror, ofToken_invalidDelay_iff, htrim]
  · intro keyword c rest ht hkeyword hc
    rw [herror, ← hword]
    exact ofToken_of_no_gap (htrim.trans ht) hkeyword hc
  · intro before c after ht hbefore hc
    rw [herror, ← hword]
    exact ofToken_of_across (htrim.trans ht) hbefore hc

/-- Leading zeros are allowed, and any blank parts the word from the digits. -/
theorem compile_delay_seven :
    Text.trimmed "Delay\u00a0007" = "Delay\u00a0007" ∧ '}' ∉ "Delay\u00a0007".toList ∧
      (compile ("\x7b" ++ "Delay\u00a0007" ++ "\x7d") (some {})).result =
        .ok (.ofActions [.delay 7]) := by
  have htrimmed : Text.trimmed "Delay\u00a0007" = "Delay\u00a0007" := by decide +kernel
  have hclosed : '}' ∉ "Delay\u00a0007".toList := by simp
  refine ⟨htrimmed, hclosed, ((compile_delay {} htrimmed hclosed).1 7).mpr ?_⟩
  exact ⟨"Delay".toList, ['\u00a0'], "007".toList, by simp, by simp [capitals],
    by simp, by simp [Text.isBlank, Text.blankRanges], by simp, by simp, by decide⟩

end Typist.Template

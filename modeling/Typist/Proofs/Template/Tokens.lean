import Mathlib.Data.Nat.Digits.Lemmas
import Typist.Proofs.Template.Outline

/-!
# The tokens of a template

The template language, told without reading a template. A template is taken apart in one way: texts,
each with a closed token behind it, and a tail without one. A token is known if it names a field or
a key or tells a delay, and one that is not is blamed with one fault. A delay is told by its word,
blanks and digits of ASCII.
-/

namespace Typist

/-! ## Numerals -/

namespace Text.Numeral

/-- Whether a text is digits of ASCII, at least one, and stands for a number. -/
structure Denotes (digits : List Char) (n : Nat) : Prop where
  nonempty : digits ≠ []
  isDigit : ∀ c ∈ digits, c.isDigit = true
  value : Nat.ofDigits 10 (digits.reverse.map fun c ↦ c.toNat - '0'.toNat) = n

theorem digit?_eq_some_iff {c : Char} {d : Nat} :
    digit? c = some d ↔ c.isDigit = true ∧ c.toNat - '0'.toNat = d := by
  have hdigit : ('0' ≤ c ∧ c ≤ '9') ↔ c.isDigit = true := by
    rw [Char.isDigit_iff_toNat]
    exact and_congr UInt32.le_iff_toNat_le UInt32.le_iff_toNat_le
  unfold digit?
  by_cases h : c.isDigit = true <;> simp [hdigit, h]

/-- Behind a number, digits go on with it. -/
theorem extend?_eq_some_iff {m n : Nat} {cs : List Char} :
    extend? m cs = some n ↔ (∀ c ∈ cs, c.isDigit = true) ∧
      Nat.ofDigits 10 (cs.reverse.map fun c ↦ c.toNat - '0'.toNat) + 10 ^ cs.length * m = n := by
  induction cs generalizing m with
  | nil => simp [extend?]
  | cons c cs ih =>
    have hstep : extend? m (c :: cs) = some n ↔
        ∃ d, digit? c = some d ∧ extend? (10 * m + d) cs = some n :=
      Option.bind_eq_some_iff
    simp only [hstep, digit?_eq_some_iff, ih, List.forall_mem_cons, List.reverse_cons,
      List.map_append, List.map_cons, List.map_nil, Nat.ofDigits_append, Nat.ofDigits_singleton,
      List.length_map, List.length_reverse, List.length_cons]
    constructor
    · rintro ⟨d, ⟨hc, rfl⟩, hcs, rfl⟩
      exact ⟨⟨hc, hcs⟩, by ring⟩
    · rintro ⟨⟨hc, hcs⟩, rfl⟩
      exact ⟨_, ⟨hc, rfl⟩, hcs, by ring⟩

/-- A number is read from the digits that stand for it, and from nothing else. -/
theorem value?_eq_some_iff {digits : List Char} {n : Nat} :
    value? digits = some n ↔ Denotes digits n := by
  cases digits with
  | nil =>
    rw [value?_nil]
    exact ⟨nofun, fun h ↦ absurd rfl h.nonempty⟩
  | cons c cs =>
    rw [value?, extend?_eq_some_iff, Nat.mul_zero, Nat.add_zero]
    · exact ⟨fun h ↦ ⟨List.cons_ne_nil c cs, h.1, h.2⟩, fun h ↦ ⟨h.isDigit, h.value⟩⟩
    · exact List.cons_ne_nil c cs

end Text.Numeral

namespace Template

/-! ## Delays -/

/-- Whether a trimmed token tells a delay: the word, blanks, and a number. -/
def TellsDelay (inner : List Char) (n : Nat) : Prop :=
  ∃ keyword gap digits, inner = keyword ++ (gap ++ digits) ∧
    capitals keyword = "DELAY".toList ∧ gap ≠ [] ∧ (∀ c ∈ gap, Text.isBlank c = true) ∧
    Text.Numeral.Denotes digits n

/-- Whether a trimmed token asks for a delay with an argument: the word stands alone, and then the
argument is empty, or a blank follows it, and then the argument is what follows, trimmed. -/
def AsksDelay (inner argument : List Char) : Prop :=
  ∃ keyword rest, inner = keyword ++ rest ∧ capitals keyword = "DELAY".toList ∧
    (∀ c ∈ rest.head?, Text.isBlank c = true) ∧ argument = Text.trim rest

theorem length_of_capitals {cs : List Char} {word : String} (h : capitals cs = word.toList) :
    cs.length = word.toList.length := by
  rw [← h, capitals, List.length_map]

theorem delayArgument?_eq_some_iff {inner argument : List Char} :
    delayArgument? inner = some argument ↔ AsksDelay inner argument := by
  constructor
  · intro h
    unfold delayArgument? at h
    split at h
    · next hkeyword =>
      refine ⟨inner.take 5, inner.drop 5, (List.take_append_drop 5 inner).symm, hkeyword, ?_⟩
      split at h
      · next hdrop =>
        cases h
        rw [hdrop]
        exact ⟨nofun, rfl⟩
      · next c rest hdrop =>
        split at h
        · next hc =>
          cases h
          rw [hdrop]
          exact ⟨fun d hd ↦ Option.some.inj hd ▸ hc, rfl⟩
        · cases h
    · cases h
  · rintro ⟨keyword, rest, rfl, hkeyword, hblank, rfl⟩
    have hlength : keyword.length = 5 := length_of_capitals hkeyword
    rw [delayArgument?, ← hlength, List.take_left, if_pos hkeyword, List.drop_left]
    cases rest with
    | nil => rfl
    | cons c rest => simp only [hblank c rfl, if_true]

/-- A token asks for a delay with one argument. -/
theorem AsksDelay.unique {inner argument argument' : List Char} (h : AsksDelay inner argument)
    (h' : AsksDelay inner argument') : argument = argument' :=
  Option.some.inj
    ((delayArgument?_eq_some_iff.mpr h).symm.trans (delayArgument?_eq_some_iff.mpr h'))

/-- A token that tells a delay asks for it with its digits. -/
theorem TellsDelay.exists_asks {inner : List Char} {n : Nat} (h : TellsDelay inner n) :
    ∃ digits, AsksDelay inner digits ∧ Text.Numeral.Denotes digits n := by
  obtain ⟨keyword, gap, digits, rfl, hkeyword, hgap, hblank, hdigits⟩ := h
  refine ⟨digits, delayArgument?_eq_some_iff.mp ?_, hdigits⟩
  exact delayArgument?_append hkeyword hgap hblank (Text.Numeral.value?_eq_some_iff.mpr hdigits)

/-! ## Known tokens -/

/-- Whether the text between two braces is a token of the language: a name of a field or of a key,
or a delay of less than 2^64 milliseconds. -/
inductive IsKnown (raw : List Char) : Prop
  | field (f : Field) : word raw ∈ f.spellings → IsKnown raw
  | key (k : Key) : word raw ∈ k.spellings → IsKnown raw
  | delay {n : Nat} : TellsDelay (Text.trim raw) n → n < 2 ^ 64 → IsKnown raw

/-- What the text between two braces is blamed with if it is no token of the language. -/
inductive Blames (raw : List Char) : CompileError → Prop
  | delay {argument : List Char} : AsksDelay (Text.trim raw) argument →
      Blames raw (.invalidDelay (String.ofList argument))
  | unknown : (∀ argument, ¬ AsksDelay (Text.trim raw) argument) →
      Blames raw (.unknownPlaceholder (word raw))

theorem isKnown_iff_names {raw : List Char} : IsKnown raw ↔ ∃ slot, Names raw slot := by
  constructor
  · rintro (⟨f, hf⟩ | ⟨k, hk⟩ | ⟨⟨keyword, gap, digits, hraw, hkeyword, hgap, hblank, hdigits⟩, hn⟩)
    · exact ⟨_, .field f hf⟩
    · exact ⟨_, .key k hk⟩
    · rename_i n
      refine ⟨.fixed (.delay (UInt64.ofNat n)), .delay hraw hkeyword hgap hblank ?_⟩
      rw [UInt64.toNat_ofNat_of_lt' hn]
      exact Text.Numeral.value?_eq_some_iff.mpr hdigits
  · rintro ⟨slot, h⟩
    cases h with
    | field f hf => exact .field f hf
    | key k hk => exact .key k hk
    | @delay keyword gap digits ms hraw hkeyword hgap hblank hdigits =>
      exact .delay ⟨keyword, gap, digits, hraw, hkeyword, hgap, hblank,
        Text.Numeral.value?_eq_some_iff.mp hdigits⟩ ms.toNat_lt

/-- The known tokens are those that are resolved. -/
theorem isKnown_iff {raw : List Char} : IsKnown raw ↔ ∃ p, Part.ofToken raw = .ok p := by
  rw [isKnown_iff_names]
  constructor
  · rintro ⟨slot, h⟩
    exact exists_ofToken_of_names h
  · rintro ⟨p, h⟩
    obtain ⟨slot, -, hnames⟩ := names_of_ofToken h
    exact ⟨slot, hnames⟩

private theorem eq_of_slots {raw : List Char} {slot : Slot} (hnames : Names raw slot) {p q : Part}
    (hp : p.slots = [slot]) (hq : q.slots = [slot]) : p = q := by
  have hliteral (t : List Char) : literalSlots t ≠ [slot] := by
    unfold literalSlots
    split
    · nofun
    · intro h
      cases List.singleton_inj.mp h
      cases hnames
  cases p with
  | literal t => exact absurd hp (hliteral t)
  | _ =>
    cases q with
    | literal t => exact absurd hq (hliteral t)
    | _ =>
      cases hp
      cases hq <;> rfl

/-- A token is resolved to the part that makes the place it names. -/
theorem ofToken_eq_ok_iff {raw : List Char} {p : Part} :
    Part.ofToken raw = .ok p ↔ ∃ slot, p.slots = [slot] ∧ Names raw slot := by
  constructor
  · exact names_of_ofToken
  · rintro ⟨slot, hslots, hnames⟩
    obtain ⟨q, hq⟩ := exists_ofToken_of_names hnames
    obtain ⟨slot', hslots', hnames'⟩ := names_of_ofToken hq
    obtain rfl := hnames.unique hnames'
    rwa [eq_of_slots hnames hslots hslots']

theorem ofToken_field_iff {raw : List Char} {f : Field} :
    Part.ofToken raw = .ok (.field f) ↔ word raw ∈ f.spellings := by
  rw [ofToken_eq_ok_iff]
  constructor
  · rintro ⟨slot, hslots, hnames⟩
    cases hslots
    cases hnames with
    | field _ hf => exact hf
  · intro hf
    exact ⟨_, rfl, .field f hf⟩

theorem ofToken_delay_iff {raw : List Char} {ms : UInt64} :
    Part.ofToken raw = .ok (.delay ms) ↔ TellsDelay (Text.trim raw) ms.toNat := by
  rw [ofToken_eq_ok_iff]
  constructor
  · rintro ⟨slot, hslots, hnames⟩
    cases hslots
    cases hnames with
    | delay hraw hkeyword hgap hblank hdigits =>
      exact ⟨_, _, _, hraw, hkeyword, hgap, hblank, Text.Numeral.value?_eq_some_iff.mp hdigits⟩
  · rintro ⟨keyword, gap, digits, hraw, hkeyword, hgap, hblank, hdigits⟩
    exact ⟨_, rfl, .delay hraw hkeyword hgap hblank (Text.Numeral.value?_eq_some_iff.mpr hdigits)⟩

/-- A token is blamed with one fault. -/
theorem Blames.unique {raw : List Char} {fault fault' : CompileError} (h : Blames raw fault)
    (h' : Blames raw fault') : fault = fault' := by
  cases h with
  | delay hasks =>
    cases h' with
    | delay hasks' => rw [hasks.unique hasks']
    | unknown hnot => exact absurd hasks (hnot _)
  | unknown hnot =>
    cases h' with
    | delay hasks' => exact absurd hasks' (hnot _)
    | unknown => rfl

theorem blames_of_ofToken {raw : List Char} {fault : CompileError}
    (h : Part.ofToken raw = .error fault) : Blames raw fault := by
  have hword : String.ofList (capitals (Text.trim raw)) = word raw := rfl
  simp only [Part.ofToken, hword] at h
  split at h
  · cases h
  · split at h
    · cases h
    · split at h
      · next argument ha =>
        have hblames := Blames.delay (delayArgument?_eq_some_iff.mp ha)
        unfold delayOfArgument at h
        split at h
        · split at h
          · cases h
          · cases h
            exact hblames
        · cases h
          exact hblames
      · next hnone =>
        cases h
        refine .unknown fun argument hasks ↦ ?_
        rw [delayArgument?_eq_some_iff.mpr hasks] at hnone
        cases hnone

/-- A token is refused exactly if it is not known, and then with what it is blamed with. -/
theorem ofToken_eq_error_iff {raw : List Char} {fault : CompileError} :
    Part.ofToken raw = .error fault ↔ ¬ IsKnown raw ∧ Blames raw fault := by
  rw [isKnown_iff]
  constructor
  · intro h
    refine ⟨?_, blames_of_ofToken h⟩
    rintro ⟨p, hp⟩
    rw [h] at hp
    cases hp
  · rintro ⟨hnot, hblames⟩
    cases h : Part.ofToken raw with
    | ok p => exact absurd ⟨p, h⟩ hnot
    | error fault' => rw [(blames_of_ofToken h).unique hblames]

/-! ## Taking a template apart -/

/-- Texts, each with the token behind it, put together. -/
def joined (closed : List (List Char × List Char)) : List Char :=
  closed.flatMap fun x ↦ x.1 ++ '{' :: (x.2 ++ ['}'])

@[simp] theorem joined_nil : joined [] = [] := rfl

@[simp] theorem joined_cons (text raw : List Char) (closed : List (List Char × List Char)) :
    joined ((text, raw) :: closed) = text ++ '{' :: (raw ++ '}' :: joined closed) := by
  simp [joined]

/-- Whether a template is texts, each with a token from an opening brace to the next closing one
behind it, and a tail in which no opening brace is closed. An opening brace in a token and a closing
one in a text are characters like others. -/
structure Splits (cs : List Char) (closed : List (List Char × List Char)) (tail : List Char) :
    Prop where
  joined : cs = joined closed ++ tail
  texts : ∀ x ∈ closed, '{' ∉ x.1
  tokens : ∀ x ∈ closed, '}' ∉ x.2
  open_tail : ∀ before after, tail = before ++ '{' :: after → '}' ∉ after

/-- The tail begins with a text, which an opening brace may end. -/
theorem tail_cases {tail : List Char}
    (h : ∀ before after, tail = before ++ '{' :: after → '}' ∉ after) :
    '{' ∉ tail ∨ ∃ text inner, tail = text ++ '{' :: inner ∧ '{' ∉ text ∧ '}' ∉ inner := by
  by_cases hopen : '{' ∈ tail
  · obtain ⟨text, inner, htail, htext⟩ := exists_split hopen
    exact .inr ⟨text, inner, htail, htext, h text inner htail⟩
  · exact .inl hopen

/-- Every template can be taken apart. -/
theorem exists_splits (cs : List Char) : ∃ closed tail, Splits cs closed tail := by
  induction cs using shape_induction with
  | literal text h =>
    refine ⟨[], text, rfl, List.forall_mem_nil _, List.forall_mem_nil _, ?_⟩
    rintro before after rfl
    exact absurd (List.mem_append_right before List.mem_cons_self) h
  | dangling text inner h hi =>
    refine ⟨[], text ++ '{' :: inner, rfl, List.forall_mem_nil _, List.forall_mem_nil _, ?_⟩
    intro before after heq
    -- the brace is the one behind the text, or stands behind that
    obtain ⟨mid, rfl, hmid⟩ | ⟨mid, rfl, hmid⟩ := List.append_eq_append_iff.mp heq
    · cases mid with
      | nil =>
        cases hmid
        exact hi
      | cons c mid =>
        obtain ⟨rfl, rfl⟩ := List.cons.inj hmid
        exact fun hafter ↦ hi (List.mem_append_right mid (List.mem_cons_of_mem _ hafter))
    · cases mid with
      | nil =>
        cases hmid
        exact hi
      | cons c mid =>
        obtain ⟨rfl, -⟩ := List.cons.inj hmid
        exact absurd (List.mem_append_right before List.mem_cons_self) h
  | placeholder text inner rest h hi ih =>
    obtain ⟨closed, tail, hsplits⟩ := ih
    refine ⟨(text, inner) :: closed, tail, ?_, ?_, ?_, hsplits.open_tail⟩
    · rw [joined_cons, hsplits.joined]
      simp
    · exact List.forall_mem_cons.mpr ⟨h, hsplits.texts⟩
    · exact List.forall_mem_cons.mpr ⟨hi, hsplits.tokens⟩

/-- What stands behind the first closed token is taken apart like the whole. -/
theorem Splits.rest {cs text raw tail : List Char} {closed : List (List Char × List Char)}
    (h : Splits cs ((text, raw) :: closed) tail) :
    cs = text ++ '{' :: (raw ++ '}' :: (Template.joined closed ++ tail)) ∧
      Splits (Template.joined closed ++ tail) closed tail where
  left := by
    rw [h.joined, joined_cons]
    simp
  right := ⟨rfl, fun x hx ↦ h.texts x (List.mem_cons_of_mem _ hx),
    fun x hx ↦ h.tokens x (List.mem_cons_of_mem _ hx), h.open_tail⟩

/-- A closed token is not within a tail. -/
theorem Splits.not_cons {cs text raw tail tail' : List Char}
    {closed : List (List Char × List Char)} (h : Splits cs [] tail) :
    ¬ Splits cs ((text, raw) :: closed) tail' := by
  intro h'
  have htail : tail = cs := h.joined.symm
  refine h.open_tail text _ (htail.trans h'.rest.1) ?_
  exact List.mem_append_right raw List.mem_cons_self

/-- A template is taken apart in one way. -/
theorem Splits.unique {cs tail tail' : List Char} {closed closed' : List (List Char × List Char)}
    (h : Splits cs closed tail) (h' : Splits cs closed' tail') :
    closed' = closed ∧ tail' = tail := by
  induction closed generalizing cs closed' with
  | nil =>
    cases closed' with
    | nil => exact ⟨rfl, h'.joined.symm.trans h.joined⟩
    | cons x closed' => exact absurd h' h.not_cons
  | cons x closed ih =>
    obtain ⟨text, raw⟩ := x
    cases closed' with
    | nil => exact absurd h h'.not_cons
    | cons x' closed' =>
      obtain ⟨text', raw'⟩ := x'
      obtain ⟨hcs, hrest⟩ := h.rest
      obtain ⟨hcs', hrest'⟩ := h'.rest
      obtain ⟨rfl, hbehind⟩ := split_unique (h.texts _ List.mem_cons_self)
        (h'.texts _ List.mem_cons_self) (hcs.symm.trans hcs')
      obtain ⟨rfl, hsame⟩ := split_unique (h.tokens _ List.mem_cons_self)
        (h'.tokens _ List.mem_cons_self) hbehind
      rw [← hsame] at hrest'
      obtain ⟨rfl, rfl⟩ := ih hrest hrest'
      exact ⟨rfl, rfl⟩

/-- The pieces of a template are its texts and tokens, and those of the tail behind them. -/
theorem Splits.pieces {cs tail : List Char} {closed : List (List Char × List Char)}
    (h : Splits cs closed tail) (n : Nat) :
    pieces n cs = (closed.flatMap fun x ↦ [.literal x.1, .token x.2]) ++
      pieces (n + (Template.joined closed).length) tail := by
  induction closed generalizing cs n with
  | nil =>
    rw [h.joined]
    rfl
  | cons x closed ih =>
    obtain ⟨text, raw⟩ := x
    obtain ⟨hcs, hrest⟩ := h.rest
    have hlength : n + (Template.joined ((text, raw) :: closed)).length =
        n + text.length + raw.length + 2 + (Template.joined closed).length := by
      simp only [joined_cons, List.length_append, List.length_cons]
      omega
    rw [hcs, pieces_placeholder (h.texts _ List.mem_cons_self) (h.tokens _ List.mem_cons_self),
      ih hrest, hlength]
    rfl

/-- Whether texts with tokens are taken apart in front of the first token that is not known, or are
all in front if each is known. -/
structure KnownFront (closed front rest : List (List Char × List Char)) : Prop where
  append : closed = front ++ rest
  known : ∀ x ∈ front, IsKnown x.2
  next : ∀ x ∈ rest.head?, ¬ IsKnown x.2

theorem exists_knownFront (closed : List (List Char × List Char)) :
    ∃ front rest, KnownFront closed front rest := by
  induction closed with
  | nil => exact ⟨[], [], rfl, List.forall_mem_nil _, nofun⟩
  | cons x closed ih =>
    by_cases hx : IsKnown x.2
    · obtain ⟨front, rest, rfl, hknown, hnext⟩ := ih
      exact ⟨x :: front, rest, rfl, List.forall_mem_cons.mpr ⟨hx, hknown⟩, hnext⟩
    · refine ⟨[], x :: closed, rfl, List.forall_mem_nil _, ?_⟩
      rintro y hy
      exact Option.some.inj hy ▸ hx

/-! ## Braces that are not closed -/

/-- Whether a brace is opened behind a number of characters, and none is closed behind it. -/
def Dangles (cs : List Char) (n : Nat) : Prop :=
  ∃ before after, cs = before ++ '{' :: after ∧ '}' ∉ after ∧ before.length = n

/-- Tokens put together end with a closing brace. -/
theorem mem_of_joined_eq {closed : List (List Char × List Char)} {before after : List Char}
    (h : joined closed = before ++ '{' :: after) : '}' ∈ after := by
  obtain rfl | ⟨init, ⟨text, raw⟩, rfl⟩ := List.eq_nil_or_concat' closed
  · simp at h
  · have hend : joined (init ++ [(text, raw)]) = joined init ++ (text ++ '{' :: raw) ++ ['}'] := by
      simp [joined]
    have hlast := congrArg List.getLast? (hend.symm.trans h)
    rw [List.getLast?_concat, List.getLast?_append, List.getLast?_cons] at hlast
    cases hafter : after.getLast? with
    | none => simp [hafter] at hlast
    | some c =>
      obtain rfl : '}' = c := by simpa [hafter] using hlast
      exact List.mem_of_getLast? hafter

/-- A brace that is not closed stands in the tail. -/
theorem Splits.dangles_iff {cs tail : List Char} {closed : List (List Char × List Char)}
    (h : Splits cs closed tail) {n : Nat} :
    Dangles cs n ↔ ∃ k, Dangles tail k ∧ n = (Template.joined closed).length + k := by
  constructor
  · rintro ⟨before, after, hcs, hafter, rfl⟩
    obtain ⟨mid, rfl, hmid⟩ | ⟨mid, hjoined, hmid⟩ :=
      List.append_eq_append_iff.mp (h.joined.symm.trans hcs)
    · exact ⟨mid.length, ⟨mid, after, hmid, hafter, rfl⟩, List.length_append⟩
    · cases mid with
      | nil =>
        rw [List.append_nil] at hjoined
        rw [List.nil_append] at hmid
        exact ⟨0, ⟨[], after, hmid.symm, hafter, rfl⟩, by rw [hjoined, Nat.add_zero]⟩
      | cons c mid =>
        obtain ⟨rfl, rfl⟩ := List.cons.inj hmid
        exact absurd (List.mem_append_left tail (mem_of_joined_eq hjoined)) hafter
  · rintro ⟨k, ⟨before, after, htail, hafter, rfl⟩, rfl⟩
    refine ⟨Template.joined closed ++ before, after, ?_, hafter, List.length_append⟩
    rw [h.joined, htail, List.append_assoc]

/-- The first brace of a tail is the first that is not closed. -/
theorem Splits.isLeast_dangles {cs text inner : List Char} {closed : List (List Char × List Char)}
    (h : Splits cs closed (text ++ '{' :: inner)) (htext : '{' ∉ text) (hinner : '}' ∉ inner) :
    IsLeast {n | Dangles cs n} ((Template.joined closed).length + text.length) := by
  constructor
  · exact h.dangles_iff.mpr ⟨_, ⟨text, inner, rfl, hinner, rfl⟩, rfl⟩
  · rintro n hn
    obtain ⟨k, ⟨before, after, htail, -, rfl⟩, rfl⟩ := h.dangles_iff.mp hn
    have hle : text.length ≤ before.length := by
      by_contra hlt
      obtain ⟨mid, rfl, hmid⟩ | ⟨mid, rfl, hmid⟩ := List.append_eq_append_iff.mp htail
      · simp at hlt
      · cases mid with
        | nil => simp at hlt
        | cons c mid =>
          obtain ⟨rfl, -⟩ := List.cons.inj hmid
          exact htext (List.mem_append_right before List.mem_cons_self)
    omega

end Template

end Typist

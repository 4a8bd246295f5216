import Typist.Proofs.Template.Concatenation

/-!
# Outlines of templates

What a template says before any entry is looked at: actions that it fixes, and places that are left
for fields. Outlines are read off the text of a template alone, so a template compiles for every
entry or fails alike for every entry, and two entries differ in the texts at the places of fields,
nowhere else. Such a text is the field's, whatever stands in it: it is never read as a template.
-/

namespace Typist

/-! ## What an entry lends -/

/-- Whether a text is all that stands before the first line break of another one. -/
def IsFirstLine (line whole : String) : Prop :=
  ∃ rest, whole.toList = line.toList ++ rest ∧ (∀ c ∈ line.toList, c ≠ '\r' ∧ c ≠ '\n') ∧
    ∀ c ∈ rest.head?, c = '\r' ∨ c = '\n'

/-- Whether a text is what an entry lends to the placeholder of a field: the field as it stands, but
of the notes only the first line, and nothing for a password that is missing. -/
def Entry.Lends (e : Entry) (text : String) : Field → Prop
  | .title => text = e.title
  | .username => text = e.username
  | .url => text = e.url
  | .notes => IsFirstLine text e.notes
  | .password => text = e.password.getD ""

private theorem takeWhile_eq_of_append {p : Char → Bool} {line rest : List Char}
    (hline : ∀ c ∈ line, p c = true) (hrest : ∀ c ∈ rest.head?, p c = false) :
    (line ++ rest).takeWhile p = line := by
  rw [List.takeWhile_append_of_pos hline]
  cases rest with
  | nil => simp
  | cons c rest => simp [hrest c rfl]

/-- A text has one first line. -/
theorem isFirstLine_iff {line whole : String} :
    IsFirstLine line whole ↔ line = Entry.firstLine whole := by
  have hbreak (c : Char) : (c != '\r' && c != '\n') = true ↔ c ≠ '\r' ∧ c ≠ '\n' := by simp
  constructor
  · rintro ⟨rest, hwhole, hline, hrest⟩
    rw [Entry.firstLine, hwhole, takeWhile_eq_of_append, String.ofList_toList]
    · intro c hc
      exact (hbreak c).mpr (hline c hc)
    · intro c hc
      rcases hrest c hc with rfl | rfl <;> rfl
  · rintro rfl
    refine ⟨whole.toList.dropWhile fun c ↦ c != '\r' && c != '\n', ?_, ?_, ?_⟩
    · rw [Entry.firstLine, String.toList_ofList, List.takeWhile_append_dropWhile]
    · intro c hc
      exact Entry.not_break_of_mem_firstLine hc
    · intro c hc
      have := List.head?_dropWhile_not (fun c ↦ c != '\r' && c != '\n') whole.toList
      rw [Option.mem_def.mp hc] at this
      by_contra hnot
      rw [not_or] at hnot
      simp [hnot] at this

/-- An entry lends one text to a field. -/
theorem Entry.lends_iff {e : Entry} {text : String} {f : Field} :
    e.Lends text f ↔ text = e.value f := by
  cases f with
  | notes => exact isFirstLine_iff
  | _ => exact Iff.rfl

namespace Template

/-! ## Outlines -/

/-- A place of an outline. -/
inductive Slot
  /-- The action is the same for every entry. -/
  | fixed (a : Action)
  | field (f : Field)
  deriving DecidableEq, Repr

/-- Which place a placeholder makes: for a field, for a key, or for a delay, whose number stands
behind the word and at least one blank. -/
inductive Names (raw : List Char) : Slot → Prop
  | field (f : Field) : word raw ∈ f.spellings → Names raw (.field f)
  | key (k : Key) : word raw ∈ k.spellings → Names raw (.fixed (.press k))
  | delay {keyword gap digits : List Char} {ms : UInt64} :
      Text.trim raw = keyword ++ (gap ++ digits) → capitals keyword = "DELAY".toList →
      gap ≠ [] → (∀ c ∈ gap, Text.isBlank c = true) →
      Text.Numeral.value? digits = some ms.toNat → Names raw (.fixed (.delay ms))

/-- The places that literal text makes: one, unless it is empty. -/
def literalSlots (text : List Char) : List Slot :=
  if text = [] then [] else [.fixed (.text (String.ofList text))]

/-- Which places the text of a template makes, in order. -/
inductive Outlines : List Char → List Slot → Prop
  | literal {text : List Char} : '{' ∉ text → Outlines text (literalSlots text)
  | placeholder {text raw rest : List Char} {slot : Slot} {slots : List Slot} :
      '{' ∉ text → '}' ∉ raw → Names raw slot → Outlines rest slots →
      Outlines (text ++ '{' :: (raw ++ '}' :: rest)) (literalSlots text ++ slot :: slots)

/-- Whether actions fill the places of an outline for an entry: a fixed action as it is, and at the
place of a field the text that the entry lends to it, or nothing if that is empty. -/
inductive Fills (e : Entry) : List Slot → List Action → Prop
  | nil : Fills e [] []
  | fixed (a : Action) {slots : List Slot} {as : List Action} : Fills e slots as →
      Fills e (.fixed a :: slots) (a :: as)
  | text {f : Field} {t : String} {slots : List Slot} {as : List Action} : e.Lends t f → t ≠ "" →
      Fills e slots as → Fills e (.field f :: slots) (.text t :: as)
  | absent {f : Field} {slots : List Slot} {as : List Action} : e.Lends "" f →
      Fills e slots as → Fills e (.field f :: slots) as

/-! ## Placeholders -/

/-- The places that a part makes. -/
def Part.slots : Part → List Slot
  | literal t => literalSlots t
  | field f => [.field f]
  | key k => [.fixed (.press k)]
  | delay ms => [.fixed (.delay ms)]

private theorem not_blank_of_digit? {c : Char} {d : Nat} (h : Text.Numeral.digit? c = some d) :
    Text.isBlank c = false := by
  unfold Text.Numeral.digit? at h
  split at h
  · next hc =>
    have hlow : 48 ≤ c.toNat := UInt32.le_iff_toNat_le.mp hc.1
    have hhigh : c.toNat ≤ 57 := UInt32.le_iff_toNat_le.mp hc.2
    simp [Text.isBlank, Text.blankRanges]
    omega
  · cases h

theorem Part.slots_literal (t : List Char) : (literal t).slots = literalSlots t := rfl

/-- A numeral holds no blank. -/
theorem not_blank_of_value? {digits : List Char} {n : Nat}
    (h : Text.Numeral.value? digits = some n) : ∀ c ∈ digits, Text.isBlank c = false := by
  have hextend (m : Nat) (cs : List Char) (h : Text.Numeral.extend? m cs = some n) :
      ∀ c ∈ cs, Text.isBlank c = false := by
    induction cs generalizing m with
    | nil => simp
    | cons c cs ih =>
      rw [Text.Numeral.extend?] at h
      cases hd : Text.Numeral.digit? c with
      | none => simp [hd] at h
      | some d =>
        rw [hd] at h
        rw [List.forall_mem_cons]
        exact ⟨not_blank_of_digit? hd, ih _ h⟩
  cases digits with
  | nil => cases h
  | cons c cs => exact hextend 0 (c :: cs) h

/-- A delay's argument is what follows the word and the blanks behind it. -/
theorem delayArgument?_append {keyword gap digits : List Char} {n : Nat}
    (hkeyword : capitals keyword = "DELAY".toList) (hgap : gap ≠ [])
    (hblank : ∀ c ∈ gap, Text.isBlank c = true) (hdigits : Text.Numeral.value? digits = some n) :
    delayArgument? (keyword ++ (gap ++ digits)) = some digits := by
  have hlength : keyword.length = 5 := by
    have := congrArg List.length hkeyword
    rwa [capitals, List.length_map] at this
  have hnot := not_blank_of_value? hdigits
  have htrim : Text.trim (gap ++ digits) = digits := by
    rw [Text.trim_append hblank]
    exact Text.trim_eq_self (fun c hc ↦ hnot c (List.mem_of_mem_head? hc))
      fun c hc ↦ hnot c (List.mem_of_getLast? hc)
  obtain ⟨c, gap, rfl⟩ := List.exists_cons_of_ne_nil hgap
  rw [delayArgument?, ← hlength, List.take_left, if_pos hkeyword, List.drop_left]
  rw [List.cons_append] at htrim ⊢
  simp only [hblank c List.mem_cons_self, if_true, htrim]

/-- What is read as a delay is written as one. -/
theorem exists_delay {raw argument : List Char} {n : Nat}
    (h : delayArgument? (Text.trim raw) = some argument)
    (hvalue : Text.Numeral.value? argument = some n) :
    ∃ keyword gap, Text.trim raw = keyword ++ (gap ++ argument) ∧
      capitals keyword = "DELAY".toList ∧ gap ≠ [] ∧ ∀ c ∈ gap, Text.isBlank c = true := by
  have hlast : ∀ c ∈ (Text.trim raw).getLast?, Text.isBlank c = false :=
    Text.not_blank_of_mem_getLast?_trim
  have hinner := (List.take_append_drop 5 (Text.trim raw)).symm
  unfold delayArgument? at h
  split at h
  · next hkeyword =>
    split at h
    · cases h
      cases hvalue
    · next c rest hdrop =>
      split at h
      · next hc =>
        have hsplit := (List.takeWhile_append_dropWhile (p := Text.isBlank) (l := c :: rest)).symm
        have hgap := List.all_eq_true.mp (List.all_takeWhile (p := Text.isBlank) (l := c :: rest))
        have hfirst := List.head?_dropWhile_not Text.isBlank (c :: rest)
        rw [hdrop, hsplit, ← List.append_assoc] at hinner
        obtain rfl := Option.some.inj h
        rw [hsplit, Text.trim_append hgap] at hvalue ⊢
        -- the argument ends where the placeholder does, so only blanks in front of it are trimmed
        have hargument : Text.trim ((c :: rest).dropWhile Text.isBlank) =
            (c :: rest).dropWhile Text.isBlank := by
          apply Text.trim_eq_self
          · intro d hd
            rwa [Option.mem_def.mp hd] at hfirst
          · intro d hd
            apply hlast
            rw [hinner, List.getLast?_append, Option.mem_def.mp hd, Option.some_or]
            rfl
        refine ⟨(Text.trim raw).take 5, (c :: rest).takeWhile Text.isBlank, ?_, hkeyword, ?_, ?_⟩
        · rw [hargument, ← List.append_assoc]
          exact hinner
        · simp [hc]
        · exact hgap
      · cases h
  · cases h

/-- A part that a placeholder is resolved to makes one place, which the placeholder names. -/
theorem names_of_ofToken {raw : List Char} {p : Part} (h : Part.ofToken raw = .ok p) :
    ∃ slot, p.slots = [slot] ∧ Names raw slot := by
  have hword : String.ofList (capitals (Text.trim raw)) = word raw := rfl
  simp only [Part.ofToken, hword] at h
  split at h
  · next f hf =>
    cases h
    have hw := List.find?_some hf
    exact ⟨_, rfl, .field f (by simpa using hw)⟩
  · split at h
    · next k hk =>
      cases h
      have hw := List.find?_some hk
      rw [toUpper_word] at hw
      exact ⟨_, rfl, .key k (by simpa using hw)⟩
    · split at h
      · next argument ha =>
        unfold delayOfArgument at h
        split at h
        · next n hn =>
          split at h
          · next hsize =>
            cases h
            obtain ⟨keyword, gap, hraw, hkeyword, hgap, hblank⟩ := exists_delay ha hn
            refine ⟨_, rfl, .delay hraw hkeyword hgap hblank ?_⟩
            rw [hn, UInt64.toNat_ofNat_of_lt' hsize]
          · cases h
        · cases h
      · cases h

/-- A placeholder that names a place is resolved to a part that makes it. -/
theorem exists_ofToken_of_names {raw : List Char} {slot : Slot} (h : Names raw slot) :
    ∃ p, Part.ofToken raw = .ok p := by
  have hword : String.ofList (capitals (Text.trim raw)) = word raw := rfl
  have hfield (hnone : Field.ofName? (word raw) = none) (f : Field) : word raw ∉ f.spellings := by
    have := List.find?_eq_none.mp hnone f (by cases f <;> decide)
    simpa using this
  have hkey (hnone : Key.ofName? (word raw) = none) (k : Key) : word raw ∉ k.spellings := by
    have := List.find?_eq_none.mp hnone k (Key.mem_all k)
    rw [toUpper_word] at this
    simpa using this
  simp only [Part.ofToken, hword]
  split
  · exact ⟨_, rfl⟩
  · next hnofield =>
    split
    · exact ⟨_, rfl⟩
    · next hnokey =>
      cases h with
      | field f hf => exact absurd hf (hfield hnofield f)
      | key k hk => exact absurd hk (hkey hnokey k)
      | @delay keyword gap digits ms hraw hkeyword hgap hblank hdigits =>
        rw [hraw, delayArgument?_append hkeyword hgap hblank hdigits]
        simp only [delayOfArgument, hdigits, ms.toNat_lt, UInt64.size, if_true]
        exact ⟨_, rfl⟩

/-- A placeholder names one place. -/
theorem Names.unique {raw : List Char} {slot slot' : Slot} (h : Names raw slot)
    (h' : Names raw slot') : slot = slot' := by
  have hdelay {keyword gap digits : List Char} (hraw : Text.trim raw = keyword ++ (gap ++ digits))
      (hkeyword : capitals keyword = "DELAY".toList) : "DELAY".toList <+: (word raw).toList := by
    rw [word, hraw, String.toList_ofList (l := capitals (keyword ++ (gap ++ digits))), ← hkeyword]
    exact (List.prefix_append keyword (gap ++ digits)).map Char.toUpper
  cases h with
  | field f hf =>
    cases h' with
    | field g hg => rw [field_eq_of_spelling hf hg]
    | key k hk => exact (not_field_and_key hf hk).elim
    | delay hraw hkeyword => exact (not_delay_of_field hf (hdelay hraw hkeyword)).elim
  | key k hk =>
    cases h' with
    | field g hg => exact (not_field_and_key hg hk).elim
    | key j hj => rw [key_eq_of_spelling hk hj]
    | delay hraw hkeyword => exact (not_delay_of_key hk (hdelay hraw hkeyword)).elim
  | delay hraw hkeyword hgap hblank hdigits =>
    cases h' with
    | field g hg => exact (not_delay_of_field hg (hdelay hraw hkeyword)).elim
    | key j hj => exact (not_delay_of_key hj (hdelay hraw hkeyword)).elim
    | delay hraw' hkeyword' hgap' hblank' hdigits' =>
      have hargument := delayArgument?_append hkeyword hgap hblank hdigits
      rw [← hraw, hraw', delayArgument?_append hkeyword' hgap' hblank' hdigits'] at hargument
      cases hargument
      rw [UInt64.toNat_inj.mp (Option.some.inj (hdigits.symm.trans hdigits'))]

/-! ## Reading an outline -/

/-- A template has an outline exactly if it is read without a fault, and then the one that its parts
make. -/
theorem outlines_iff {cs : List Char} (n : Nat) {slots : List Slot} :
    Outlines cs slots ↔
      (readAt n cs).fault = none ∧ slots = (readAt n cs).parts.flatMap Part.slots := by
  constructor
  · intro h
    induction h generalizing n with
    | literal htext =>
      rw [readAt_literal htext]
      exact ⟨rfl, by simp [Part.slots]⟩
    | @placeholder text raw rest slot slots htext hraw hnames _ ih =>
      obtain ⟨p, hp⟩ := exists_ofToken_of_names hnames
      obtain ⟨slot', hslots, hnames'⟩ := names_of_ofToken hp
      obtain ⟨hfault, hrest⟩ := ih (n + text.length + raw.length + 2)
      rw [readAt_placeholder htext hraw hp]
      refine ⟨hfault, ?_⟩
      simp only [Reading.cons, List.flatMap_cons, Part.slots_literal, hslots, ← hrest,
        hnames.unique hnames', List.singleton_append]
  · rintro ⟨hfault, rfl⟩
    induction cs using shape_induction generalizing n with
    | literal text htext =>
      rw [readAt_literal htext]
      simpa [Part.slots] using Outlines.literal htext
    | dangling text inner htext hinner =>
      rw [readAt_dangling htext hinner] at hfault
      cases hfault
    | placeholder text inner rest htext hinner ih =>
      cases hp : Part.ofToken inner with
      | error fault =>
        rw [readAt_fault htext hinner hp] at hfault
        cases hfault
      | ok p =>
        obtain ⟨slot, hslots, hnames⟩ := names_of_ofToken hp
        rw [readAt_placeholder htext hinner hp] at hfault ⊢
        simp only [Reading.cons, List.flatMap_cons, Part.slots_literal, hslots,
          List.singleton_append]
        exact .placeholder htext hinner hnames (ih _ hfault)

/-- Actions that parts are filled to, but for the void ones, fill the places that the parts make. -/
theorem fills_ofActions (e : Entry) (ps : List Part) :
    Fills e (ps.flatMap Part.slots) (Sequence.ofActions (ps.map (Part.fill e))).actions := by
  rw [Sequence.actions_ofActions]
  induction ps with
  | nil => exact .nil
  | cons p ps ih =>
    rw [List.flatMap_cons, List.map_cons, List.filter_cons]
    cases p with
    | literal t =>
      by_cases ht : t = []
      · subst ht
        exact ih
      · have hvoid : (Part.fill e (.literal t)).isVoid = false := by
          simp [Part.fill, Action.isVoid, ht]
        simp only [Part.slots, literalSlots, ht, if_false, hvoid, Bool.not_false, if_true]
        exact .fixed _ ih
    | field f =>
      by_cases hf : e.value f = ""
      · have hvoid : (Part.fill e (.field f)).isVoid = true := by simp [Part.fill, Action.isVoid, hf]
        simp only [hvoid, Bool.not_true, Bool.false_eq_true, if_false]
        exact .absent (Entry.lends_iff.mpr hf.symm) ih
      · have hvoid : (Part.fill e (.field f)).isVoid = false := by
          simp [Part.fill, Action.isVoid, hf]
        simp only [hvoid, Bool.not_false, if_true]
        exact .text (Entry.lends_iff.mpr rfl) hf ih
    | key k => exact .fixed _ ih
    | delay ms => exact .fixed _ ih

/-- What a template compiles to is told by its outline, which no entry has a part in. A template
that has none fails for every entry, with one fault for all of them. One that has an outline compiles
for every entry, to the actions that it fixes and, at the places of fields, the texts that the entry
lends to them. -/
theorem compile_fills_outline (template : String) :
    ((¬ ∃ slots, Outlines template.toList slots) ∧
      ∃ fault, ∀ e, (compile template (some e)).result = .error fault) ∨
    ∃ slots, Outlines template.toList slots ∧
      ∀ e, ∃ s, (compile template (some e)).result = .ok s ∧ Fills e slots s.actions := by
  cases hfault : (readAt 0 template.toList).fault with
  | some fault =>
    refine .inl ⟨?_, fault, fun e ↦ (compile_error_iff e template).mpr hfault⟩
    rintro ⟨slots, h⟩
    rw [(outlines_iff 0).mp h |>.1] at hfault
    cases hfault
  | none =>
    refine .inr ⟨_, (outlines_iff 0).mpr ⟨hfault, rfl⟩, fun e ↦ ?_⟩
    obtain ⟨s, hs⟩ := (compile_ok_iff e template).mpr hfault
    obtain ⟨-, rfl⟩ := read_of_compile hs
    exact ⟨_, hs, fills_ofActions e _⟩

/-- A password that looks like a template is typed as it stands. -/
example : (compile "a\x7bPASSWORD\x7d\x7bnotes\x7d"
    (some { notes := "\nb", password := some "\x7bTAB\x7d\n" })).result =
    .ok (.ofActions [.text "a", .text "\x7bTAB\x7d\n"]) := by cbv

end Template

end Typist

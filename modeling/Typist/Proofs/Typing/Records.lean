import Mathlib
import Typist.Proofs.Text.Units
import Typist.Proofs.Typing.Released
import Typist.Proofs.Typing.Transcript

/-!
# The records of a text

What is read off the records into which a sender turns a text, between the two releases of the
modifiers. Key by key they are struck and released, and a character without a key is there in units;
whoever knows the layout, keeps track of Shift and joins neighbouring units reads the text back, its
line breaks in one spelling.
-/

namespace Typist

/-- A text with its line breaks in one spelling. -/
def foldBreaks : List Char → List Char
  | '\r' :: '\n' :: cs => '\n' :: foldBreaks cs
  | '\r' :: cs => '\n' :: foldBreaks cs
  | c :: cs => c :: foldBreaks cs
  | [] => []

/-- What the key of a character stands for: either half of a line break is struck as Enter. -/
def foldBreak (c : Char) : Char := if c = '\r' then '\n' else c

/-- What is typed is the text, its line breaks folded. -/
theorem map_foldBreak_typedChars (cs : List Char) :
    (Typing.typedChars cs).map foldBreak = foldBreaks cs := by
  fun_induction Typing.typedChars cs with
  | case1 cs ih => rw [List.map_cons, ih, foldBreaks, foldBreak, if_pos rfl]
  | case2 c cs hne ih =>
    rw [List.map_cons, ih]
    by_cases hc : c = '\r'
    · subst hc
      rw [foldBreaks.eq_2 cs fun rest h ↦ hne rest rfl h, foldBreak, if_pos rfl]
    · rw [foldBreaks.eq_3 c cs (fun rest h _ ↦ hc h) hc, foldBreak, if_neg hc]
  | case3 => rfl

namespace InputSender

/-! ## Records in pairs -/

/-- Whether records are of the same key, or of the same unit. -/
def Alike (r d : InputRecord) : Prop := r.virtualKey = d.virtualKey ∧ r.scan = d.scan

/-- Whether every down has its up: the first record behind it that is of the same key or unit. -/
def Paired (rs : List InputRecord) : Prop :=
  ∀ before d after, rs = before ++ d :: after → d.up = false →
    ∃ between rest, after = between ++ { d with up := true } :: rest ∧
      ∀ r ∈ between, ¬ Alike r d

theorem paired_nil : Paired [] := by
  intro before d after h
  simp at h

/-- Pairs behind pairs are pairs. -/
theorem Paired.append {rs ss : List InputRecord} (hrs : Paired rs) (hss : Paired ss) :
    Paired (rs ++ ss) := by
  intro before d after h hd
  rcases List.append_eq_append_iff.mp h with ⟨cs, rfl, hcs⟩ | ⟨cs, hcs, hss'⟩
  · exact hss cs d after hcs hd
  · cases cs with
    | nil => exact hss [] d after hss'.symm hd
    | cons d' cs =>
      obtain ⟨rfl, rfl⟩ := List.cons.inj hss'
      obtain ⟨between, rest, rfl, halike⟩ := hrs before d cs hcs hd
      exact ⟨between, rest ++ ss, by simp, halike⟩

theorem paired_flatten {rss : List (List InputRecord)} (h : ∀ rs ∈ rss, Paired rs) :
    Paired rss.flatten := by
  induction rss with
  | nil => exact paired_nil
  | cons rs rss ih =>
    obtain ⟨hrs, hrss⟩ := List.forall_mem_cons.mp h
    exact hrs.append (ih hrss)

/-- So are they between the two halves of a further pair. -/
theorem Paired.between {rs : List InputRecord} (h : Paired rs) {d : InputRecord}
    (hd : ∀ r ∈ rs, ¬ Alike r d) : Paired (d :: (rs ++ [{ d with up := true }])) := by
  have hinner : Paired (rs ++ [{ d with up := true }]) := by
    refine h.append fun before r after hr hup ↦ ?_
    obtain ⟨rfl, hr'⟩ | ⟨before, rfl, hr'⟩ := List.cons_eq_append_iff.mp hr
    · cases hr'
      cases hup
    · simp at hr'
  intro before r after hr hup
  obtain ⟨rfl, hr'⟩ | ⟨before, rfl, hr'⟩ := List.cons_eq_append_iff.mp hr
  · obtain ⟨rfl, rfl⟩ := List.cons.inj hr'
    exact ⟨rs, [], rfl, hd⟩
  · exact hinner before r after hr' hup

/-! ## Strokes -/

/-- The record of one half of a key press. -/
def half (code : KeyCode) (down : Bool) : InputRecord :=
  ⟨code, 0, Layout.extendedCodes.contains code, !down, false⟩

theorem records_key (code : KeyCode) (down : Bool) : records (.key code down) = [half code down] :=
  rfl

/-- The records of one unit. -/
def unitRecords (u : UInt16) : List InputRecord :=
  [⟨0, u, false, false, true⟩, ⟨0, u, false, true, true⟩]

theorem records_unicode (c : Char) : records (.unicode c) = (units c).flatMap unitRecords := rfl

/-- The code of Shift. -/
def shiftCode : KeyCode := 0x10

theorem code?_shift : layout.code? .shift = some shiftCode := rfl

/-- The records of a stroke. -/
def strokeRecords : Stroke → List InputRecord
  | ⟨code, false⟩ => [half code true, half code false]
  | ⟨code, true⟩ =>
    [half shiftCode true, half code true, half code false, half shiftCode false]

/-- The records of a character that is typed. -/
def charRecords (c : Char) : List InputRecord :=
  ((layout.steps c).map Typing.Step.call).flatMap records

/-- A character without a key goes out in units, -/
theorem charRecords_of_none {c : Char} (h : layout.stroke? c = none) :
    charRecords c = (units c).flatMap unitRecords := by
  rw [charRecords, Layout.steps, h]
  exact List.append_nil _

/-- and any other as the stroke of its key. -/
theorem charRecords_of_some {c : Char} {s : Stroke} (h : layout.stroke? c = some s) :
    charRecords c = strokeRecords s := by
  obtain ⟨code, shift⟩ := s
  rw [charRecords, Layout.steps, h]
  cases shift with
  | false => rfl
  | true =>
    simp only [if_true, code?_shift]
    rfl

/-- The character that the key of a stroke gives a reader: a table key its own, Tab and Enter
theirs. -/
def struck? (s : Stroke) : Option Char :=
  (layout.symbol? s.code s.shift).bind fun
    | .char c => some c
    | .key .tab => some '\t'
    | .key .enter => some '\n'
    | .key _ => none

/-- A character is read off its stroke, and the stroke is not one of Shift. -/
theorem struck?_of_stroke? {c : Char} {s : Stroke} (h : layout.stroke? c = some s) :
    struck? s = some (foldBreak c) ∧ s.code ≠ shiftCode := by
  have hregular : layout.Regular := Layout.regular_windowsUs
  unfold Layout.stroke? Layout.controlKey? at h
  by_cases ht : c = '\t'
  · subst ht
    cases h
    decide
  · by_cases hb : c = '\n' ∨ c = '\r'
    · rcases hb with rfl | rfl <;>
      · cases h
        decide
    · rw [if_neg ht, if_neg hb] at h
      have hfold : foldBreak c = c := if_neg fun hr ↦ hb (.inr hr)
      constructor
      · rw [struck?, Layout.symbol?, Layout.char?_of_stroke? hregular.nodup h, hfold]
        rfl
      · obtain ⟨e, he, hcode⟩ := Layout.mem_of_stroke? h
        have hshift : layout.key? shiftCode = some .shift := rfl
        intro heq
        have hmodifier := hregular.modifier?_of_mem he
        rw [hcode, heq, hshift] at hmodifier
        cases hmodifier

/-- Either half of a line break has a key. -/
theorem foldBreak_of_stroke? {c : Char} (h : layout.stroke? c = none) : foldBreak c = c := by
  refine if_neg ?_
  rintro rfl
  cases h

/-! ## Pairs -/

theorem paired_press (code : KeyCode) : Paired [half code true, half code false] :=
  paired_nil.between (by simp)

theorem paired_unitRecords (u : UInt16) : Paired (unitRecords u) := paired_nil.between (by simp)

theorem paired_charRecords (c : Char) : Paired (charRecords c) := by
  cases hs : layout.stroke? c with
  | none =>
    rw [charRecords_of_none hs, List.flatMap_def]
    refine paired_flatten fun rs hrs ↦ ?_
    obtain ⟨u, -, rfl⟩ := List.mem_map.mp hrs
    exact paired_unitRecords u
  | some s =>
    have hne := (struck?_of_stroke? hs).2
    rw [charRecords_of_some hs]
    obtain ⟨code, shift⟩ := s
    cases shift with
    | false => exact paired_press code
    | true =>
      refine (paired_press code).between fun r hr ↦ ?_
      rintro ⟨hcode, -⟩
      simp only [List.mem_cons, List.not_mem_nil, or_false] at hr
      rcases hr with rfl | rfl <;> exact hne hcode

/-! ## Units -/

/-- The units that are put down. -/
def unitsDown (rs : List InputRecord) : List UInt16 :=
  (rs.filter fun r ↦ r.unicode && !r.up).map InputRecord.scan

theorem unitsDown_flatMap_unitRecords (us : List UInt16) :
    unitsDown (us.flatMap unitRecords) = us := by
  induction us with
  | nil => rfl
  | cons u us ih => exact congrArg (u :: ·) ih

/-- They are those of the character if it has no key, and else there is none. -/
theorem unitsDown_charRecords (c : Char) :
    unitsDown (charRecords c) = if layout.stroke? c = none then units c else [] := by
  cases hs : layout.stroke? c with
  | none => rw [charRecords_of_none hs, unitsDown_flatMap_unitRecords, if_pos rfl]
  | some s =>
    rw [charRecords_of_some hs, if_neg nofun]
    obtain ⟨code, shift⟩ := s
    cases shift <;> rfl

/-! ## Reading -/

/-- What is read off records: Shift is held or not, and a run of units has been read that may still
go on. The run ends with the next key that goes down, or with the last record. -/
def reading (shift : Bool) (run : List UInt16) : List InputRecord → Option (List Char)
  | [] => utf16? run
  | r :: rs =>
    if r.unicode then reading shift (if r.up then run else run ++ [r.scan]) rs
    else if r.up then reading (shift && r.virtualKey ≠ shiftCode) run rs
    else do
      let before ← utf16? run
      if r.virtualKey = shiftCode then return before ++ (← reading true [] rs)
      else
        let c ← struck? ⟨r.virtualKey, shift⟩
        return before ++ c :: (← reading shift [] rs)

/-- The text that records give. -/
def read (rs : List InputRecord) : Option (List Char) := reading false [] rs

theorem reading_units (shift : Bool) (run us : List UInt16) (rs : List InputRecord) :
    reading shift run (us.flatMap unitRecords ++ rs) = reading shift (run ++ us) rs := by
  induction us generalizing run with
  | nil => rw [List.flatMap_nil, List.nil_append, List.append_nil]
  | cons u us ih =>
    rw [List.flatMap_cons, List.append_assoc]
    show reading shift (run ++ [u]) (us.flatMap unitRecords ++ rs) = _
    rw [ih, List.append_assoc, List.singleton_append]

/-- A stroke ends the run, and leaves Shift as it was. -/
theorem reading_stroke {run : List UInt16} {before : List Char} (hrun : utf16? run = some before)
    {s : Stroke} (hs : s.code ≠ shiftCode) {c : Char} (hc : struck? s = some c)
    (rs : List InputRecord) :
    reading false run (strokeRecords s ++ rs) = (reading false [] rs).map (before ++ c :: ·) := by
  obtain ⟨code, shift⟩ := s
  have hne : code ≠ shiftCode := hs
  cases shift with
  | false => simp [strokeRecords, reading, half, hrun, hne, hc, Option.map_eq_bind]
  | true =>
    simp [strokeRecords, reading, half, utf16?, hrun, hne, hc, Option.map_eq_bind,
      Option.bind_assoc]

/-- The characters that are typed are read off their records, behind any that were read as units. -/
theorem reading_charRecords (cs ds : List Char) :
    reading false (cs.flatMap units) (ds.flatMap charRecords) = some (cs ++ ds.map foldBreak) := by
  have hrun (cs : List Char) : utf16? (cs.flatMap units) = some cs := utf16?_flatMap_units cs
  induction ds generalizing cs with
  | nil => rw [List.flatMap_nil, reading, hrun, List.map_nil, List.append_nil]
  | cons d ds ih =>
    rw [List.flatMap_cons, List.map_cons]
    cases hs : layout.stroke? d with
    | none =>
      have hunits : cs.flatMap units ++ units d = (cs ++ [d]).flatMap units := by simp
      rw [charRecords_of_none hs, reading_units, hunits, ih, foldBreak_of_stroke? hs,
        List.append_assoc, List.singleton_append]
    | some s =>
      obtain ⟨hc, hcode⟩ := struck?_of_stroke? hs
      have hrest : reading false [] (ds.flatMap charRecords) = some (ds.map foldBreak) := ih []
      rw [charRecords_of_some hs, reading_stroke (hrun cs) hcode hc, hrest, Option.map_some]

/-! ## Runs -/

/-- What a sender is to a run: it answers a call by how many records of it were accepted. -/
def system (accepts : List Incident → NativeCall → Nat) : Script.System where
  reply past c := reply (accepts past c) (records c).length
  cancelled _ := false

/-- How the typing of a text ends, and its course. -/
def textCourse (accepts : List Incident → NativeCall → Nat) (hint : String) (pauseMs : Nat)
    (s : String) : TypingResult × List Incident :=
  ((Keyboard.mk layout hint).perform true pauseMs (.ofActions [.text s])).courseOn (system accepts)

/-- The records of calls, in order. -/
def stream (cs : List NativeCall) : List InputRecord := cs.flatMap records

/-- Whether all records of a call were accepted. -/
def Accepted (accepts : List Incident → NativeCall → Nat) (is : List Incident) : Prop :=
  ∀ before c r after, is = before ++ .called c r :: after → accepts before c = (records c).length

theorem calls_text (s : String) :
    (Sequence.ofActions [.text s]).actions.flatMap (Action.calls layout) =
      (Typing.typedChars s.toList).flatMap fun c ↦ (layout.steps c).map Typing.Step.call := by
  rw [Sequence.actions_ofActions]
  cases hs : Action.isVoid (.text s) with
  | true =>
    have hempty : s = "" := by simpa [Action.isVoid] using hs
    subst hempty
    rfl
  | false => simp [hs, Action.calls, Action.steps, List.map_flatMap]

variable {accepts : List Incident → NativeCall → Nat} {hint : String} {pauseMs : Nat} {s : String}

/-- Where all records are accepted, no call is refused, and nobody cancels. -/
theorem Accepted.quiet (h : Accepted accepts (textCourse accepts hint pauseMs s).2) :
    ∀ i ∈ (textCourse accepts hint pauseMs s).2, i.isRefusal = false ∧ i ≠ .looked true := by
  intro i hi
  obtain ⟨before, after, hcourse⟩ := List.append_of_mem hi
  have hshows : (system accepts).Shows before i := Script.shows_courseOn hcourse
  cases i with
  | looked b =>
    obtain rfl : b = false := hshows
    exact ⟨rfl, nofun⟩
  | called c r =>
    have hr : r = reply (accepts before c) (records c).length := hshows
    rw [h before c r after hcourse, reply, if_pos rfl] at hr
    rw [hr]
    exact ⟨by cases c <;> rfl, nofun⟩

/-- So the text is typed to its end. -/
theorem Accepted.calls (h : Accepted accepts (textCourse accepts hint pauseMs s).2) :
    (textCourse accepts hint pauseMs s).1 = .ok () ∧
      Incident.calls (textCourse accepts hint pauseMs s).2 =
        Script.releases layout ++
          (Typing.typedChars s.toList).flatMap (fun c ↦ (layout.steps c).map Typing.Step.call) ++
          Script.releases layout := by
  have hends : ((Keyboard.mk layout hint).perform true pauseMs (.ofActions [.text s])).Ends
      (textCourse accepts hint pauseMs s).2 (textCourse accepts hint pauseMs s).1 :=
    Script.ends_courseOn _ _
  have hquiet := h.quiet
  generalize textCourse accepts hint pauseMs s = course at hends hquiet ⊢
  obtain ⟨ht, -, -⟩ | ⟨-, lead, parts, trail, his, hlead, hparts, htrail⟩ :=
    Keyboard.ends_perform hends
  · cases ht
  · obtain ⟨n, done, rest, hflat, -, hwhole, hstops⟩ := hparts.exists_stops
    have hmem {i : Incident} (hi : i ∈ rest) : i ∈ course.2 := by
      rw [his, hflat]
      simp [hi]
    have hok : course.1 = .ok () :=
      hstops.result_iff.1.mpr ⟨fun i hi ↦ (hquiet i (hmem hi)).1,
        fun hi ↦ (hquiet _ (hmem hi)).2 rfl⟩
    refine ⟨hok, ?_⟩
    rw [hok] at hstops
    cases hstops with
    | finished hn =>
      rw [hn, List.take_length] at hwhole
      rw [his, hflat, List.append_nil, Incident.calls_append, Incident.calls_append,
        (Script.calls_releaseModifiers hlead).1, (Script.calls_releaseModifiers htrail).1,
        hwhole.calls_eq, calls_text]

/-- Whether records, one list of them for each character that is typed, carry a text intact. -/
structure Intact (s : String) (segments : List (List InputRecord)) : Prop where
  paired : Paired segments.flatten
  /-- A character goes out in its units exactly if it has no key. -/
  unitsDown : List.Forall₂
    (fun c rs ↦ unitsDown rs = if layout.stroke? c = none then units c else [])
    (Typing.typedChars s.toList) segments
  read : read segments.flatten = some (foldBreaks s.toList)

theorem intact_charRecords (s : String) :
    Intact s ((Typing.typedChars s.toList).map charRecords) where
  paired := by
    refine paired_flatten fun rs hrs ↦ ?_
    obtain ⟨c, -, rfl⟩ := List.mem_map.mp hrs
    exact paired_charRecords c
  unitsDown := by
    rw [List.forall₂_map_right_iff, List.forall₂_same]
    exact fun c _ ↦ unitsDown_charRecords c
  read := by
    rw [← List.flatMap_def, ← map_foldBreak_typedChars]
    exact reading_charRecords [] _

/-- The record of a key is marked as extended if its code is one of those that are, and the record of
a unit never is. -/
theorem extended_records {c : NativeCall} {r : InputRecord} (hr : r ∈ records c) :
    (r.unicode = false → (r.extended = true ↔ r.virtualKey ∈ Layout.extendedCodes)) ∧
      (r.unicode = true → r.extended = false) := by
  cases c with
  | key code down =>
    rw [records_key, List.mem_singleton] at hr
    subst hr
    exact ⟨fun _ ↦ List.contains_iff_mem, nofun⟩
  | unicode c =>
    rw [records_unicode, List.mem_flatMap] at hr
    obtain ⟨u, -, hr⟩ := hr
    simp only [unitRecords, List.mem_cons, List.not_mem_nil, or_false] at hr
    rcases hr with rfl | rfl <;> exact ⟨nofun, fun _ ↦ rfl⟩

/-- A text is typed intact where all records are accepted: what stands between the two releases of the
modifiers is paired, holds the units of just those characters that have no key, and reads as the text
with its line breaks folded. The extended keys are marked, and a call of which some records are not
accepted reports how many were. -/
theorem text_typed_intact (accepts : List Incident → NativeCall → Nat) (hint : String)
    (pauseMs : Nat) (s : String) :
    let course := textCourse accepts hint pauseMs s
    (Accepted accepts course.2 → course.1 = .ok () ∧ ∃ segments, Intact s segments ∧
      stream (Incident.calls course.2) = stream (Script.releases layout) ++ segments.flatten ++
        stream (Script.releases layout)) ∧
    (∀ r ∈ stream (Incident.calls course.2),
      (r.unicode = false → (r.extended = true ↔ r.virtualKey ∈ Layout.extendedCodes)) ∧
        (r.unicode = true → r.extended = false)) ∧
    ∀ before c r after, course.2 = before ++ .called c r :: after →
      accepts before c ≠ (records c).length →
      r.mapError InjectionError.synthesisFailed = .error (.synthesisFailed
        ("SendInput accepted " ++ toString (accepts before c) ++ " of " ++
          toString (records c).length ++ " events")) := by
  intro course
  refine ⟨fun h ↦ ?_, fun r hr ↦ ?_, fun before c r after hcourse hfew ↦ ?_⟩
  · obtain ⟨hok, hcalls⟩ := h.calls
    refine ⟨hok, _, intact_charRecords s, ?_⟩
    rw [hcalls, stream, List.flatMap_append, List.flatMap_append, List.flatMap_assoc,
      ← List.flatMap_def]
    rfl
  · obtain ⟨c, -, hrc⟩ := List.mem_flatMap.mp hr
    exact extended_records hrc
  · have hr : r = reply (accepts before c) (records c).length :=
      Script.shows_courseOn (o := system accepts) hcourse
    rw [hr, reply, if_neg hfew]
    rfl

/-- Two characters without keys stand between a small and a capital letter, and a line break in two
halves ends the text. Where one record of each call is accepted, the four of a pair of surrogates are
not. -/
theorem text_typed_intact_of_surrogates :
    (∃ segments, Intact "aß😀B\r\n" segments ∧
      read segments.flatten = some ['a', 'ß', '😀', 'B', '\n']) ∧
    ∃ before r after, (textCourse (fun _ _ ↦ 1) "" 0 "😀").2 =
        before ++ .called (.unicode '😀') r :: after ∧
      r.mapError InjectionError.synthesisFailed =
        .error (.synthesisFailed "SendInput accepted 1 of 4 events") := by
  constructor
  · have haccepted : Accepted (fun _ c ↦ (records c).length)
        (textCourse (fun _ c ↦ (records c).length) "" 0 "aß😀B\r\n").2 := fun _ _ _ _ _ ↦ rfl
    obtain ⟨-, segments, hintact, -⟩ := (text_typed_intact _ "" 0 _).1 haccepted
    exact ⟨segments, hintact, hintact.read.trans (by decide +kernel)⟩
  · have hcourse : (textCourse (fun _ _ ↦ 1) "" 0 "😀").2 =
        (textCourse (fun _ _ ↦ 1) "" 0 "😀").2.take 5 ++
          .called (.unicode '😀') (.error "SendInput accepted 1 of 4 events") ::
            (textCourse (fun _ _ ↦ 1) "" 0 "😀").2.drop 6 := by rfl
    exact ⟨_, _, _, hcourse, (text_typed_intact _ "" 0 _).2.2 _ _ _ _ hcourse (by decide)⟩

end InputSender

end Typist

import Mathlib.Data.List.TakeWhile
import Typist.Proofs.Typing.Faithful
import Typist.Template

/-!
# Templates one after the other

A template is text without an opening brace, such text in front of a placeholder and another
template, or such text in front of a brace that is never closed. Reading follows these three
shapes, so a template that is read to its end can be followed by another: what is typed is joined,
and a fault of the second is moved on by the length of the first.
-/

namespace Typist

/-! ## What a sequence types -/

/-- What is typed at a time: a character of a text, or any other action as a whole. -/
inductive Item
  | char (c : Char)
  | action (a : Action)
  deriving DecidableEq, Repr

/-- The items of an action. -/
def Action.items : Action → List Item
  | .text s => s.toList.map .char
  | a => [.action a]

/-- What a sequence types, with no trace of where one text ends and the next begins. -/
def Sequence.stream (s : Sequence) : List Item := s.actions.flatMap Action.items

/-- A void action types nothing. -/
theorem Action.items_of_isVoid {a : Action} (h : a.isVoid = true) : a.items = [] := by
  cases a with
  | text s =>
    have hs : s = "" := by simpa [isVoid] using h
    rw [hs]
    rfl
  | _ => cases h

/-- Void actions that are dropped are not missed. -/
theorem Sequence.stream_ofActions (l : List Action) :
    (Sequence.ofActions l).stream = l.flatMap Action.items := by
  rw [stream, actions_ofActions]
  induction l with
  | nil => rfl
  | cons a l ih =>
    cases ha : a.isVoid with
    | true => simp [ha, Action.items_of_isVoid ha, ih]
    | false => simp [ha, ih]

/-- The fault of a template that stands behind a number of characters. -/
def CompileError.moved (n : Nat) : CompileError → CompileError
  | .unterminated position => .unterminated (n + position)
  | fault => fault

namespace Template

/-! ## Shapes -/

private theorem takeWhile_append_cons {c : Char} {text : List Char} (h : c ∉ text)
    (rest : List Char) :
    (text ++ c :: rest).takeWhile (· != c) = text ∧
      (text ++ c :: rest).dropWhile (· != c) = c :: rest := by
  have hall : ∀ d ∈ text, (d != c) = true := by
    intro d hd
    rw [bne_iff_ne]
    rintro rfl
    exact h hd
  rw [List.takeWhile_append_of_pos hall, List.dropWhile_append_of_pos hall]
  simp

private theorem takeWhile_of_not_mem {c : Char} {text : List Char} (h : c ∉ text) :
    text.takeWhile (· != c) = text ∧ text.dropWhile (· != c) = [] := by
  have hall : ∀ d ∈ text, (d != c) = true := by
    intro d hd
    rw [bne_iff_ne]
    rintro rfl
    exact h hd
  rw [List.takeWhile_eq_self_iff, List.dropWhile_eq_nil_iff]
  exact ⟨hall, hall⟩

/-- Text without an opening brace is one literal. -/
theorem pieces_literal {text : List Char} (h : '{' ∉ text) (n : Nat) :
    pieces n text = [.literal text] := by
  obtain ⟨htake, hdrop⟩ := takeWhile_of_not_mem h
  rw [pieces]
  split
  · rw [htake]
  · next heq =>
    rw [hdrop] at heq
    cases heq

/-- A brace that is never closed dangles. -/
theorem pieces_dangling {text inner : List Char} (h : '{' ∉ text) (hi : '}' ∉ inner) (n : Nat) :
    pieces n (text ++ '{' :: inner) = [.literal text, .dangling (n + text.length)] := by
  obtain ⟨htake, hdrop⟩ := takeWhile_append_cons h inner
  rw [pieces]
  split
  · next heq =>
    rw [hdrop] at heq
    cases heq
  · next heq =>
    rw [hdrop] at heq
    cases heq
    split
    · rw [htake]
    · next heq =>
      rw [(takeWhile_of_not_mem hi).2] at heq
      cases heq

/-- A placeholder ends at the first closing brace. -/
theorem pieces_placeholder {text inner : List Char} (h : '{' ∉ text) (hi : '}' ∉ inner) (n : Nat)
    (rest : List Char) :
    pieces n (text ++ '{' :: (inner ++ '}' :: rest)) =
      .literal text :: .token inner :: pieces (n + text.length + inner.length + 2) rest := by
  obtain ⟨htake, hdrop⟩ := takeWhile_append_cons h (inner ++ '}' :: rest)
  obtain ⟨hitake, hidrop⟩ := takeWhile_append_cons hi rest
  rw [pieces]
  split
  · next heq =>
    rw [hdrop] at heq
    cases heq
  · next heq =>
    rw [hdrop] at heq
    cases heq
    split
    · next heq =>
      rw [hidrop] at heq
      cases heq
    · next heq =>
      rw [hidrop] at heq
      cases heq
      rw [htake, hitake]

/-- A list that has an element has a part in front of the first. -/
theorem exists_split {c : Char} {cs : List Char} (h : c ∈ cs) :
    ∃ text rest, cs = text ++ c :: rest ∧ c ∉ text := by
  obtain ⟨text, rest, hcs, hnot⟩ := List.eq_append_cons_of_mem h
  exact ⟨text, rest, hcs, hnot⟩

/-- What holds of every shape, given that it holds of the template behind a placeholder, holds of
every template. -/
theorem shape_induction {P : List Char → Prop}
    (literal : ∀ text, '{' ∉ text → P text)
    (dangling : ∀ text inner, '{' ∉ text → '}' ∉ inner → P (text ++ '{' :: inner))
    (placeholder : ∀ text inner rest, '{' ∉ text → '}' ∉ inner → P rest →
      P (text ++ '{' :: (inner ++ '}' :: rest)))
    (cs : List Char) : P cs := by
  by_cases hopen : '{' ∈ cs
  · obtain ⟨text, after, rfl, htext⟩ := exists_split hopen
    by_cases hclose : '}' ∈ after
    · obtain ⟨inner, rest, rfl, hinner⟩ := exists_split hclose
      exact placeholder text inner rest htext hinner
        (shape_induction literal dangling placeholder rest)
    · exact dangling text after htext hclose
  · exact literal cs hopen
termination_by cs.length
decreasing_by
  subst_vars
  simp only [List.length_append, List.length_cons]
  omega

/-! ## Readings -/

/-- No placeholder is resolved to the fault of a brace that is never closed. -/
theorem ofToken_ne_unterminated (raw : List Char) (position : Nat) :
    Part.ofToken raw ≠ .error (.unterminated position) := by
  intro h
  simp only [Part.ofToken, delayOfArgument] at h
  split at h
  · cases h
  · split at h
    · cases h
    · split at h
      · split at h
        · split at h <;> cases h
        · cases h
      · cases h

/-- A fault of a placeholder stays as it is wherever the template stands. -/
theorem moved_of_ofToken {raw : List Char} {fault : CompileError}
    (h : Part.ofToken raw = .error fault) (n : Nat) : fault.moved n = fault := by
  cases fault with
  | unterminated position => exact absurd h (ofToken_ne_unterminated raw position)
  | _ => rfl

/-- What is read of a template text that starts at a position. -/
def readAt (n : Nat) (cs : List Char) : Reading := .ofPieces (pieces n cs)

theorem readAt_literal {text : List Char} (h : '{' ∉ text) (n : Nat) :
    readAt n text = ⟨[.literal text], none⟩ := by
  rw [readAt, pieces_literal h]
  rfl

theorem readAt_dangling {text inner : List Char} (h : '{' ∉ text) (hi : '}' ∉ inner) (n : Nat) :
    readAt n (text ++ '{' :: inner) = ⟨[.literal text], some (.unterminated (n + text.length))⟩ := by
  rw [readAt, pieces_dangling h hi]
  rfl

/-- Reading goes on behind a placeholder that can be resolved. -/
theorem readAt_placeholder {text inner : List Char} (h : '{' ∉ text) (hi : '}' ∉ inner)
    {p : Part} (hp : Part.ofToken inner = .ok p) (n : Nat) (rest : List Char) :
    readAt n (text ++ '{' :: (inner ++ '}' :: rest)) =
      ((readAt (n + text.length + inner.length + 2) rest).cons p).cons (.literal text) := by
  rw [readAt, pieces_placeholder h hi]
  simp only [Reading.ofPieces, hp]
  rfl

/-- Reading stops at a placeholder that cannot be resolved. -/
theorem readAt_fault {text inner : List Char} (h : '{' ∉ text) (hi : '}' ∉ inner)
    {fault : CompileError} (hp : Part.ofToken inner = .error fault) (n : Nat) (rest : List Char) :
    readAt n (text ++ '{' :: (inner ++ '}' :: rest)) = ⟨[.literal text], some fault⟩ := by
  rw [readAt, pieces_placeholder h hi]
  simp only [Reading.ofPieces, hp]
  rfl

/-- Where a template starts matters for the position of its fault alone. -/
theorem readAt_add (k n : Nat) (cs : List Char) :
    readAt (k + n) cs = ⟨(readAt n cs).parts, (readAt n cs).fault.map (.moved k)⟩ := by
  induction cs using shape_induction generalizing n with
  | literal text h => simp only [readAt_literal h, Option.map_none]
  | dangling text inner h hi =>
    simp only [readAt_dangling h hi, Option.map_some, CompileError.moved, Nat.add_assoc]
  | placeholder text inner rest h hi ih =>
    cases hp : Part.ofToken inner with
    | ok p =>
      have hrest := ih (n + text.length + inner.length + 2)
      simp only [← Nat.add_assoc] at hrest
      simp only [readAt_placeholder h hi hp, hrest, Reading.cons]
    | error fault =>
      simp only [readAt_fault h hi hp, Option.map_some, moved_of_ofToken hp]

/-- What the parts of a reading type for an entry. -/
def Reading.stream (e : Entry) (r : Reading) : List Item :=
  r.parts.flatMap fun p ↦ (p.fill e).items

theorem Reading.stream_cons (e : Entry) (p : Part) (r : Reading) :
    (r.cons p).stream e = (p.fill e).items ++ r.stream e :=
  List.flatMap_cons

/-- Text in front of a template joins the text that this begins with. -/
theorem readAt_literal_append (e : Entry) {text : List Char} (h : '{' ∉ text) (n : Nat)
    (cs : List Char) :
    (readAt n (text ++ cs)).fault = (readAt (n + text.length) cs).fault ∧
      (readAt n (text ++ cs)).stream e =
        ((Part.literal text).fill e).items ++ (readAt (n + text.length) cs).stream e := by
  have hjoin {first : List Char} (hf : '{' ∉ first) : '{' ∉ text ++ first := by
    rw [List.mem_append]
    exact not_or.mpr ⟨h, hf⟩
  have hitems (first : List Char) : ((Part.literal (text ++ first)).fill e).items =
      ((Part.literal text).fill e).items ++ ((Part.literal first).fill e).items := by
    simp [Part.fill, Action.items]
  induction cs using shape_induction with
  | literal first hf =>
    rw [readAt_literal (hjoin hf), readAt_literal hf]
    exact ⟨rfl, by simp [Reading.stream, hitems]⟩
  | dangling first inner hf hi =>
    rw [← List.append_assoc, readAt_dangling (hjoin hf) hi, readAt_dangling hf hi,
      List.length_append, Nat.add_assoc]
    exact ⟨rfl, by simp [Reading.stream, hitems]⟩
  | placeholder first inner rest hf hi _ =>
    rw [← List.append_assoc]
    cases hp : Part.ofToken inner with
    | ok p =>
      rw [readAt_placeholder (hjoin hf) hi hp, readAt_placeholder hf hi hp, List.length_append,
        ← Nat.add_assoc]
      refine ⟨rfl, ?_⟩
      simp only [Reading.stream_cons, hitems, List.append_assoc]
    | error fault =>
      rw [readAt_fault (hjoin hf) hi hp, readAt_fault hf hi hp]
      exact ⟨rfl, by simp [Reading.stream, hitems]⟩

/-- A template behind one that is read to its end is read as if it stood alone, at its place. -/
theorem readAt_append (e : Entry) (n : Nat) (cs ds : List Char)
    (hread : (readAt n cs).fault = none) :
    (readAt n (cs ++ ds)).fault = (readAt (n + cs.length) ds).fault ∧
      (readAt n (cs ++ ds)).stream e =
        (readAt n cs).stream e ++ (readAt (n + cs.length) ds).stream e := by
  induction cs using shape_induction generalizing n with
  | literal text h =>
    obtain ⟨hfault, hstream⟩ := readAt_literal_append e h n ds
    refine ⟨hfault, hstream.trans ?_⟩
    rw [readAt_literal h]
    simp [Reading.stream]
  | dangling text inner h hi =>
    rw [readAt_dangling h hi] at hread
    cases hread
  | placeholder text inner rest h hi ih =>
    cases hp : Part.ofToken inner with
    | error fault =>
      rw [readAt_fault h hi hp] at hread
      cases hread
    | ok p =>
      rw [readAt_placeholder h hi hp] at hread
      obtain ⟨hfault, hstream⟩ := ih _ hread
      have hlength : n + (text ++ '{' :: (inner ++ '}' :: rest)).length =
          n + text.length + inner.length + 2 + rest.length := by
        simp only [List.length_append, List.length_cons]
        omega
      have happend : text ++ '{' :: (inner ++ '}' :: rest) ++ ds =
          text ++ '{' :: (inner ++ '}' :: (rest ++ ds)) := by simp
      rw [happend, hlength, readAt_placeholder h hi hp, readAt_placeholder h hi hp]
      refine ⟨hfault, ?_⟩
      simp only [Reading.stream_cons, hstream, List.append_assoc]

/-- A placeholder that cannot be resolved is where reading stops, whatever follows. -/
theorem fault_readAt_append (n : Nat) (cs ds : List Char) {fault : CompileError}
    (hread : (readAt n cs).fault = some fault)
    (hplaceholder : ∀ position, fault ≠ .unterminated position) :
    (readAt n (cs ++ ds)).fault = some fault := by
  induction cs using shape_induction generalizing n with
  | literal text h =>
    rw [readAt_literal h] at hread
    cases hread
  | dangling text inner h hi =>
    rw [readAt_dangling h hi] at hread
    cases hread
    exact absurd rfl (hplaceholder _)
  | placeholder text inner rest h hi ih =>
    have happend : text ++ '{' :: (inner ++ '}' :: rest) ++ ds =
        text ++ '{' :: (inner ++ '}' :: (rest ++ ds)) := by simp
    rw [happend]
    cases hp : Part.ofToken inner with
    | error other =>
      rw [readAt_fault h hi hp] at hread ⊢
      exact hread
    | ok p =>
      rw [readAt_placeholder h hi hp] at hread ⊢
      exact ih _ hread

/-! ## Compiling -/

section Compiling

variable (e : Entry) (template : String)

/-- Compiling fails with the fault that reading stops at. -/
theorem compile_error_iff {fault : CompileError} :
    (compile template (some e)).result = .error fault ↔
      (readAt 0 template.toList).fault = some fault := by
  simp only [compile, read, readAt]
  split <;> simp_all

/-- Compiling succeeds where reading comes to the end, and then types what was read. -/
theorem compile_ok_iff :
    (∃ s, (compile template (some e)).result = .ok s) ↔
      (readAt 0 template.toList).fault = none := by
  simp only [compile, read, readAt]
  split <;> simp_all

variable {e template} in
theorem stream_of_compile {s : Sequence} (h : (compile template (some e)).result = .ok s) :
    s.stream = (readAt 0 template.toList).stream e := by
  obtain ⟨-, rfl⟩ := read_of_compile h
  rw [Sequence.stream_ofActions, List.flatMap_map]
  rfl

end Compiling

/-- Compiling respects concatenation: behind a template that compiles, another one compiles exactly
if it does alone, and types what it types alone; its fault is its own, and the position of a brace
that is never closed counts on from the first template. A placeholder that cannot be resolved stays
the fault, whatever follows. -/
theorem compile_append (e : Entry) (a b : String) :
    (∀ s, (compile a (some e)).result = .ok s →
      ((∃ u, (compile (a ++ b) (some e)).result = .ok u) ↔
        ∃ t, (compile b (some e)).result = .ok t) ∧
      (∀ t u, (compile b (some e)).result = .ok t → (compile (a ++ b) (some e)).result = .ok u →
        u.stream = s.stream ++ t.stream) ∧
      ∀ fault, (compile b (some e)).result = .error fault →
        (compile (a ++ b) (some e)).result = .error (fault.moved a.length)) ∧
    ∀ fault, (compile a (some e)).result = .error fault →
      (∀ position, fault ≠ .unterminated position) →
      (compile (a ++ b) (some e)).result = .error fault := by
  constructor
  · intro s hs
    have hread := (compile_ok_iff e a).mp ⟨s, hs⟩
    obtain ⟨hfault, hstream⟩ := readAt_append e 0 a.toList b.toList hread
    rw [Nat.zero_add, ← String.toList_append] at hfault hstream
    have hmoved := readAt_add a.toList.length 0 b.toList
    rw [Nat.add_zero] at hmoved
    refine ⟨?_, ?_, ?_⟩
    · rw [compile_ok_iff, compile_ok_iff, hfault, hmoved, Option.map_eq_none_iff]
    · intro t u ht hu
      rw [stream_of_compile hu, hstream, stream_of_compile hs, stream_of_compile ht, hmoved]
      rfl
    · intro fault hb
      rw [compile_error_iff] at hb ⊢
      rw [hfault, hmoved, hb]
      rfl
  · intro fault ha hplaceholder
    rw [compile_error_iff] at ha ⊢
    rw [String.toList_append]
    exact fault_readAt_append 0 a.toList b.toList ha hplaceholder

/-- Two texts join at the seam, and a brace that is never closed is found behind them; a placeholder
that is unknown hides it. -/
theorem compile_append_of_seam :
    (compile "a\x7d\x7bUSER\x7dé" (some { username := "al" })).result =
      .ok (.ofActions [.text "a\x7d", .text "al", .text "é"]) ∧
    (compile "x\x7bDELAY 5\x7d" (some { username := "al" })).result =
      .ok (.ofActions [.text "x", .delay 5]) ∧
    (∃ u, (compile ("a\x7d\x7bUSER\x7dé" ++ "x\x7bDELAY 5\x7d") (some { username := "al" })).result =
        .ok u ∧
      u.stream = [.char 'a', .char '\x7d', .char 'a', .char 'l', .char 'é', .char 'x',
        .action (.delay 5)]) ∧
    (compile "x\x7bDELAY 5" (some { username := "al" })).result = .error (.unterminated 1) ∧
    (compile ("a\x7d\x7bUSER\x7dé" ++ "x\x7bDELAY 5") (some { username := "al" })).result =
      .error (.unterminated 10) ∧
    (compile "\x7bnope\x7d" (some { username := "al" })).result =
      .error (.unknownPlaceholder "NOPE") ∧
    (compile ("\x7bnope\x7d" ++ "x\x7bDELAY 5") (some { username := "al" })).result =
      .error (.unknownPlaceholder "NOPE") := by
  have ha : (compile "a\x7d\x7bUSER\x7dé" (some { username := "al" })).result =
      .ok (.ofActions [.text "a\x7d", .text "al", .text "é"]) := by cbv
  have hb : (compile "x\x7bDELAY 5\x7d" (some { username := "al" })).result =
      .ok (.ofActions [.text "x", .delay 5]) := by cbv
  have hdangling : (compile "x\x7bDELAY 5" (some { username := "al" })).result =
      .error (.unterminated 1) := by cbv
  have hunknown : (compile "\x7bnope\x7d" (some { username := "al" })).result =
      .error (.unknownPlaceholder "NOPE") := by cbv
  obtain ⟨hiff, hstream, -⟩ :=
    (compile_append { username := "al" } "a\x7d\x7bUSER\x7dé" "x\x7bDELAY 5\x7d").1 _ ha
  obtain ⟨u, hu⟩ := hiff.mpr ⟨_, hb⟩
  refine ⟨ha, hb, ⟨u, hu, ?_⟩, hdangling, ?_, hunknown, ?_⟩
  · rw [hstream _ _ hb hu, Sequence.stream_ofActions, Sequence.stream_ofActions]
    simp [Action.items]
  · exact ((compile_append { username := "al" } "a\x7d\x7bUSER\x7dé" "x\x7bDELAY 5").1 _ ha).2.2 _
      hdangling
  · exact (compile_append { username := "al" } "\x7bnope\x7d" "x\x7bDELAY 5").2 _ hunknown (by simp)

end Template

end Typist

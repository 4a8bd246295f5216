import Mathlib.Data.String.Basic
import Typist.Proofs.Template.Tokens
import Typist.Proofs.Text.Letters

/-!
# Compiling by byte offsets

The template compiler as a loop over bytes. A pass looks for braces in what is not yet read, cuts
texts off at byte offsets, where a cut within a character is an exit of its own, and asks a
credential that may answer as it likes. The loop ends on every template, never by such a cut, and
does what compiling by characters does.
-/

namespace Typist

/-! ## Byte offsets -/

namespace Text

/-- A text taken apart behind a number of bytes, unless that is within a character or beyond the
end. -/
def cut? (n : Nat) : List Char → Option (List Char × List Char)
  | [] => if n = 0 then some ([], []) else none
  | c :: cs =>
    if n = 0 then some ([], c :: cs)
    else if c.utf8Size ≤ n then (cut? (n - c.utf8Size) cs).map fun x ↦ (c :: x.1, x.2)
    else none

@[simp] theorem cut?_zero (cs : List Char) : cut? 0 cs = some ([], cs) := by
  cases cs <;> rfl

/-- A text can be cut behind any of its beginnings. -/
theorem cut?_append (before after : List Char) :
    cut? (String.utf8Len before) (before ++ after) = some (before, after) := by
  induction before with
  | nil => exact cut?_zero after
  | cons c before ih =>
    have hpos := c.utf8Size_pos
    have hle : c.utf8Size ≤ String.utf8Len before + c.utf8Size := Nat.le_add_left ..
    rw [List.cons_append, String.utf8Len_cons, cut?, if_neg (by omega), if_pos hle,
      Nat.add_sub_cancel, ih]
    rfl

theorem append_of_cut? {n : Nat} {cs before after : List Char}
    (h : cut? n cs = some (before, after)) : cs = before ++ after ∧ String.utf8Len before = n := by
  induction cs generalizing n before with
  | nil =>
    by_cases hn : n = 0
    · subst hn
      cases h
      exact ⟨rfl, rfl⟩
    · simp [cut?, hn] at h
  | cons c cs ih =>
    by_cases hn : n = 0
    · subst hn
      cases h
      exact ⟨rfl, rfl⟩
    · rw [cut?, if_neg hn] at h
      split at h
      · next hle =>
        obtain ⟨⟨before, after⟩, hcut, heq⟩ := Option.map_eq_some_iff.mp h
        cases heq
        obtain ⟨rfl, hlen⟩ := ih hcut
        exact ⟨rfl, by rw [String.utf8Len_cons, hlen, Nat.sub_add_cancel hle]⟩
      · cases h

/-- How a text is cut behind a number of bytes: into a beginning of that many and the rest. -/
theorem cut?_eq_some_iff {n : Nat} {cs before after : List Char} :
    cut? n cs = some (before, after) ↔ cs = before ++ after ∧ String.utf8Len before = n := by
  constructor
  · exact append_of_cut?
  · rintro ⟨rfl, rfl⟩
    exact cut?_append before after

/-- A text can be cut where a string has a position. -/
theorem isSome_cut?_iff {n : Nat} {cs : List Char} :
    (cut? n cs).isSome = true ↔ String.Pos.Raw.IsValid (String.ofList cs) ⟨n⟩ := by
  rw [Option.isSome_iff_exists, String.Pos.Raw.isValid_iff_exists_append]
  simp only [Prod.exists, cut?_eq_some_iff]
  constructor
  · rintro ⟨before, after, rfl, rfl⟩
    exact ⟨String.ofList before, String.ofList after, String.ofList_append, by simp⟩
  · rintro ⟨before, after, hcs, hn⟩
    refine ⟨before.toList, after.toList, ?_, ?_⟩
    · rw [← String.toList_append, ← hcs, String.toList_ofList]
    · have := congrArg String.Pos.Raw.byteIdx hn
      simpa using this.symm

/-- How many bytes are in front of the first of a character. -/
def offset? (c : Char) : List Char → Option Nat
  | [] => none
  | d :: cs => if d = c then some 0 else (offset? c cs).map (d.utf8Size + ·)

theorem offset?_of_not_mem {c : Char} {cs : List Char} (h : c ∉ cs) : offset? c cs = none := by
  induction cs with
  | nil => rfl
  | cons d cs ih =>
    obtain ⟨hne, hcs⟩ := List.ne_and_not_mem_of_not_mem_cons h
    rw [offset?, if_neg (Ne.symm hne), ih hcs]
    rfl

theorem offset?_append {c : Char} {before : List Char} (h : c ∉ before) (after : List Char) :
    offset? c (before ++ c :: after) = some (String.utf8Len before) := by
  induction before with
  | nil => simp [offset?]
  | cons d before ih =>
    obtain ⟨hne, hbefore⟩ := List.ne_and_not_mem_of_not_mem_cons h
    rw [List.cons_append, offset?, if_neg (Ne.symm hne), ih hbefore]
    simp [Nat.add_comm]

end Text

/-! ## Credentials -/

/-- What holds a credential. Its answer to an access may depend on all the accesses made before. -/
abbrev Credential := List Access → Access → String

/-- An entry answers with its fields, whatever was asked before. -/
def Entry.credential (e : Entry) : Credential
  | _, .read .title => e.title
  | _, .read .username => e.username
  | _, .read .url => e.url
  | _, .read .notes => e.notes
  | _, .read .password => ""
  | _, .unlock => e.unlocked
  | _, .lock => ""

namespace Template

/-! ## The compiler -/

/-- What can be seen of compiling: a placeholder begins to be expanded, or the credential is
accessed. -/
inductive Moment
  | expand (raw : List Char)
  | access (a : Access)
  deriving DecidableEq, Repr

/-- How far compiling has come: what was seen of it, and the sequence built. -/
structure Course where
  moments : List Moment := []
  sequence : Sequence := .empty

/-- The accesses among moments. -/
def accessesOf (moments : List Moment) : List Access :=
  moments.filterMap fun
    | .access a => some a
    | .expand _ => none

namespace Course

/-- One more moment. -/
def note (k : Course) (m : Moment) : Course := { k with moments := k.moments ++ [m] }

/-- One more action. -/
def push (k : Course) (a : Action) : Course := { k with sequence := k.sequence.push a }

/-- What a credential answers to the next access. -/
def answer (k : Course) (c : Credential) (a : Access) : String := c (accessesOf k.moments) a

end Course

/-- Why compiling is left early: by a fault of the template, or by a cut within a character. -/
inductive Exit
  | fault (e : CompileError)
  | miscut
  deriving DecidableEq, Repr

/-- Steps of compiling. -/
abbrev Compiler := ExceptT Exit (StateM Course)

/-- What a step leaves. -/
def Compiler.after {α : Type} (x : Compiler α) (k : Course) : Except Exit α × Course :=
  x.run.run k

/-- Notes a moment. -/
def note (m : Moment) : Compiler Unit := modify fun k ↦ k.note m

/-- Puts an action at the end of the sequence. -/
def push (a : Action) : Compiler Unit := modify fun k ↦ k.push a

/-- Accesses the credential. -/
def ask (c : Credential) (a : Access) : Compiler String := do
  let k ← get
  note (.access a)
  return k.answer c a

/-- Cuts a text behind a number of bytes. -/
def cut (n : Nat) (cs : List Char) : Compiler (List Char × List Char) :=
  match Text.cut? n cs with
  | some x => return x
  | none => throw .miscut

/-- Uses the password while it is unlocked. However the use ends, it is locked then. -/
def withPassword (c : Credential) (use : String → Compiler Unit) : Compiler Unit := do
  let plain ← ask c .unlock
  try use plain finally discard (ask c .lock)

/-- The argument of a trimmed delay token. -/
def delayArgument (inner : List Char) : Compiler (Option (List Char)) :=
  match Text.cut? 5 inner with
  | none => return none
  | some (keyword, _) => do
    if capitals keyword ≠ "DELAY".toList then
      return none
    let (_, rest) ← cut 5 inner
    match rest.head? with
    | none => return some []
    | some c => return if Text.isBlank c then some (Text.trim rest) else none

/-- The milliseconds that a delay's argument tells. -/
def milliseconds (argument : List Char) : Compiler UInt64 :=
  match Text.Numeral.value? argument with
  | some n =>
    if n < UInt64.size then return UInt64.ofNat n
    else throw (.fault (.invalidDelay (String.ofList argument)))
  | none => throw (.fault (.invalidDelay (String.ofList argument)))

/-- Expands a placeholder, given by the text between its braces. -/
def expand (c : Credential) (raw : List Char) : Compiler Unit := do
  note (.expand raw)
  let inner := Text.trim raw
  let token := String.ofList (capitals inner)
  match Field.ofName? token with
  | some .password => withPassword c fun plain ↦ push (.text plain)
  | some .notes =>
    let notes ← ask c (.read .notes)
    push (.text (Entry.firstLine notes))
  | some f =>
    let text ← ask c (.read f)
    push (.text text)
  | none =>
    match Key.ofName? token with
    | some k => push (.press k)
    | none =>
      match ← delayArgument inner with
      | some argument =>
        let ms ← milliseconds argument
        push (.delay ms)
      | none => throw (.fault (.unknownPlaceholder token))

/-- Where the loop stands: how many bytes are read, and what is not. -/
structure Cursor where
  offset : Nat
  rest : List Char
  deriving DecidableEq, Repr

/-- One pass of the loop: a text and the placeholder behind it. The loop goes on unless there was no
placeholder. -/
def pass (c : Credential) (template : List Char) (cursor : Cursor) : Compiler (Option Cursor) :=
  match Text.offset? '{' cursor.rest with
  | none => do
    push (.text (String.ofList cursor.rest))
    return none
  | some opened => do
    let (text, _) ← cut opened cursor.rest
    push (.text (String.ofList text))
    let (_, behind) ← cut (opened + 1) cursor.rest
    match Text.offset? '}' behind with
    | none =>
      let (before, _) ← cut (cursor.offset + opened) template
      throw (.fault (.unterminated before.length))
    | some closed =>
      let (raw, _) ← cut closed behind
      expand c raw
      let consumed := opened + 1 + closed + 1
      let (_, rest) ← cut consumed cursor.rest
      return some ⟨cursor.offset + consumed, rest⟩

/-- With which result, and after which moments, the loop ends. A sequence is left only if it ends
without an exit. -/
inductive Ends (c : Credential) (template : List Char) :
    Cursor → Course → Except Exit Sequence → List Moment → Prop
  | done {cursor : Cursor} {k k' : Course} :
      (pass c template cursor).after k = (.ok none, k') →
      Ends c template cursor k (.ok k'.sequence) k'.moments
  | exit {cursor : Cursor} {k k' : Course} {e : Exit} :
      (pass c template cursor).after k = (.error e, k') →
      Ends c template cursor k (.error e) k'.moments
  | again {cursor next : Cursor} {k k' : Course} {result : Except Exit Sequence}
      {moments : List Moment} :
      (pass c template cursor).after k = (.ok (some next), k') →
      Ends c template next k' result moments → Ends c template cursor k result moments

/-- With which result, and after which moments, compiling a template ends. -/
def Compiles (c : Credential) (template : String) (result : Except Exit Sequence)
    (moments : List Moment) : Prop :=
  Ends c template.toList ⟨0, template.toList⟩ {} result moments

/-! ## Steps -/

namespace Compiler

variable {α β : Type}

@[simp] theorem after_pure (a : α) (k : Course) : (pure a : Compiler α).after k = (.ok a, k) := rfl

@[simp] theorem after_throw (e : Exit) (k : Course) :
    (throw e : Compiler α).after k = (.error e, k) := rfl

@[simp] theorem after_bind (x : Compiler α) (f : α → Compiler β) (k : Course) :
    (x >>= f).after k = match x.after k with
      | (.ok a, k') => (f a).after k'
      | (.error e, k') => (.error e, k') := by
  have hbind : (x >>= f).after k = (match x.after k with
      | (r, k') => (ExceptT.bindCont f r : StateM Course _).run k') := rfl
  rw [hbind]
  cases x.after k with
  | mk r k' => cases r <;> rfl

/-- What is done finally is done after either end. -/
@[simp] theorem after_tryFinally (x : Compiler α) (y : Compiler β) (k : Course) :
    (tryFinally x y).after k = match x.after k with
      | (r, k') => match y.after k' with
        | (.ok _, k'') => (r, k'')
        | (.error e, k'') => (.error e, k'') := by
  cases hx : x.after k with
  | mk r k' =>
    cases hy : y.after k' with
    | mk r' k'' =>
      have hx : x k = (r, k') := hx
      have hy : y k' = (r', k'') := hy
      simp only [after, tryFinally, MonadFinally.tryFinally', ExceptT.run, ExceptT.mk, StateT.run,
        Functor.map, ExceptT.map, bind, StateT.bind, hx]
      cases r <;> simp only [hy] <;> cases r' <;> rfl

end Compiler

@[simp] theorem after_note (m : Moment) (k : Course) : (note m).after k = (.ok (), k.note m) := rfl

@[simp] theorem after_push (a : Action) (k : Course) : (push a).after k = (.ok (), k.push a) := rfl

@[simp] theorem after_ask (c : Credential) (a : Access) (k : Course) :
    (ask c a).after k = (.ok (k.answer c a), k.note (.access a)) := rfl

@[simp] theorem after_cut (before after : List Char) (k : Course) :
    (cut (String.utf8Len before) (before ++ after)).after k = (.ok (before, after), k) := by
  rw [cut, Text.cut?_append]
  rfl

theorem after_withPassword (c : Credential) (k : Course) :
    (withPassword c fun plain ↦ push (.text plain)).after k =
      (.ok (), ((k.note (.access .unlock)).push (.text (k.answer c .unlock))).note
        (.access .lock)) := by
  simp [withPassword]
  rfl

/-! ## Placeholders -/

/-- What filling a part leaves: its accesses, and an action unless it is void. -/
def Course.fill (c : Credential) (k : Course) : Part → Course
  | .literal t => k.push (.text (String.ofList t))
  | .field .password =>
    ((k.note (.access .unlock)).push (.text (k.answer c .unlock))).note (.access .lock)
  | .field .notes =>
    (k.note (.access (.read .notes))).push (.text (Entry.firstLine (k.answer c (.read .notes))))
  | .field f => (k.note (.access (.read f))).push (.text (k.answer c (.read f)))
  | .key j => k.push (.press j)
  | .delay ms => k.push (.delay ms)

theorem utf8Len_capitals (cs : List Char) : String.utf8Len (capitals cs) = String.utf8Len cs := by
  induction cs with
  | nil => rfl
  | cons c cs ih =>
    have hcons : capitals (c :: cs) = c.toUpper :: capitals cs := rfl
    rw [hcons, String.utf8Len_cons, String.utf8Len_cons, ih,
      Text.utf8Size_toUpper]

/-- The word of a delay is five bytes, in any case of its letters. -/
theorem cut?_word {keyword : List Char} (h : capitals keyword = "DELAY".toList)
    (rest : List Char) : Text.cut? 5 (keyword ++ rest) = some (keyword, rest) := by
  have hlen : String.utf8Len keyword = 5 := by
    rw [← utf8Len_capitals, h]
    rfl
  rw [← hlen]
  exact Text.cut?_append keyword rest

/-- Looking for the word of a delay by bytes finds it where it is. -/
theorem after_delayArgument (inner : List Char) (k : Course) :
    (delayArgument inner).after k = (.ok (delayArgument? inner), k) := by
  by_cases hword : capitals (inner.take 5) = "DELAY".toList
  · have hcut := cut?_word hword (inner.drop 5)
    rw [List.take_append_drop] at hcut
    simp only [delayArgument, delayArgument?, cut, hcut, hword, ne_eq, not_true_eq_false, if_false,
      if_true, Compiler.after_bind, Compiler.after_pure]
    cases inner.drop 5 <;> rfl
  · rw [delayArgument, delayArgument?, if_neg hword]
    cases hcut : Text.cut? 5 inner with
    | none => rfl
    | some x =>
      obtain ⟨keyword, rest⟩ := x
      obtain ⟨rfl, -⟩ := Text.append_of_cut? hcut
      have hkeyword : capitals keyword ≠ "DELAY".toList := by
        intro h
        have hlength : keyword.length = 5 := length_of_capitals h
        rw [← hlength, List.take_left] at hword
        exact hword h
      simp only [hkeyword, ne_eq, not_false_eq_true, if_true, Compiler.after_pure]

theorem after_push_delay (c : Credential) (argument : List Char) (k : Course) :
    (do push (.delay (← milliseconds argument))).after k = match delayOfArgument argument with
      | .ok p => (.ok (), k.fill c p)
      | .error e => (.error (.fault e), k) := by
  unfold milliseconds delayOfArgument
  cases Text.Numeral.value? argument with
  | none => rfl
  | some n =>
    by_cases h : n < UInt64.size
    · simp only [h, if_true]
      rfl
    · simp only [h, if_false]
      rfl

/-- A placeholder is expanded to the part that it is resolved to. -/
theorem after_expand (c : Credential) (raw : List Char) (k : Course) :
    (expand c raw).after k = match Part.ofToken raw with
      | .ok p => (.ok (), (k.note (.expand raw)).fill c p)
      | .error e => (.error (.fault e), k.note (.expand raw)) := by
  simp only [expand, Part.ofToken, Compiler.after_bind, after_note]
  cases Field.ofName? (String.ofList (capitals (Text.trim raw))) with
  | some f =>
    cases f with
    | password => exact after_withPassword c _
    | _ => simp; rfl
  | none =>
    cases Key.ofName? (String.ofList (capitals (Text.trim raw))) with
    | some j => rfl
    | none =>
      simp only [Compiler.after_bind, after_delayArgument]
      cases delayArgument? (Text.trim raw) with
      | some argument => exact after_push_delay c argument _
      | none => rfl

/-! ## One pass -/

/-- A pass over text that opens no brace is the last one. -/
theorem after_pass_literal (c : Credential) (template : List Char) {text : List Char}
    (h : '{' ∉ text) (offset : Nat) (k : Course) :
    (pass c template ⟨offset, text⟩).after k =
      (.ok none, k.push (.text (String.ofList text))) := by
  simp only [pass, Text.offset?_of_not_mem h, Compiler.after_bind, after_push, Compiler.after_pure]

/-- Cuts around a brace are between characters. -/
theorem cut_brace (text behind : List Char) (k : Course) :
    (cut (String.utf8Len text) (text ++ '{' :: behind)).after k = (.ok (text, '{' :: behind), k) ∧
      (cut (String.utf8Len text + 1) (text ++ '{' :: behind)).after k =
        (.ok (text ++ ['{'], behind), k) := by
  constructor
  · exact after_cut text ('{' :: behind) k
  · have := after_cut (text ++ ['{']) behind k
    rwa [List.append_assoc, String.utf8Len_append] at this

/-- A pass that finds a brace without a closing one counts the characters in front of it. -/
theorem after_pass_dangling (c : Credential) (done : List Char) {text inner : List Char}
    (h : '{' ∉ text) (hi : '}' ∉ inner) (k : Course) :
    (pass c (done ++ (text ++ '{' :: inner)) ⟨String.utf8Len done, text ++ '{' :: inner⟩).after k =
      (.error (.fault (.unterminated (done.length + text.length))),
        k.push (.text (String.ofList text))) := by
  have hbefore (k : Course) := after_cut (done ++ text) ('{' :: inner) k
  simp only [List.append_assoc, String.utf8Len_append] at hbefore
  simp only [pass, Text.offset?_append h, Text.offset?_of_not_mem hi, Compiler.after_bind,
    cut_brace, after_push, hbefore, Compiler.after_throw, List.length_append]

/-- A pass that finds a placeholder expands it, and goes on behind it unless that fails. -/
theorem after_pass_placeholder (c : Credential) (template : List Char) {text raw : List Char}
    (h : '{' ∉ text) (hr : '}' ∉ raw) (rest : List Char) (offset : Nat) (k : Course) :
    (pass c template ⟨offset, text ++ '{' :: (raw ++ '}' :: rest)⟩).after k =
      match Part.ofToken raw with
      | .ok p =>
        (.ok (some ⟨offset + String.utf8Len (text ++ '{' :: (raw ++ ['}'])), rest⟩),
          ((k.push (.text (String.ofList text))).note (.expand raw)).fill c p)
      | .error e =>
        (.error (.fault e), (k.push (.text (String.ofList text))).note (.expand raw)) := by
  have hconsumed : String.utf8Len (text ++ '{' :: (raw ++ ['}'])) =
      String.utf8Len text + 1 + String.utf8Len raw + 1 := by
    have hopening : '{'.utf8Size = 1 := rfl
    have hclosing : '}'.utf8Size = 1 := rfl
    simp only [String.utf8Len_append, String.utf8Len_cons, String.utf8Len_nil, hopening, hclosing]
    omega
  have hrest (k : Course) := after_cut (text ++ '{' :: (raw ++ ['}'])) rest k
  simp only [hconsumed, List.append_assoc, List.cons_append, List.nil_append] at hrest
  simp only [pass, Text.offset?_append h, Text.offset?_append hr, Compiler.after_bind, cut_brace,
    after_push, after_cut, after_expand, hconsumed]
  cases Part.ofToken raw with
  | ok p => simp only [hrest, Compiler.after_pure]
  | error e => rfl

/-! ## The loop -/

/-- What compiling pieces of a template leaves: they are filled up to the first fault, and the
placeholder at fault is begun. -/
def Course.over (c : Credential) (k : Course) : List Piece → Course
  | [] => k
  | .literal t :: ps => (k.fill c (.literal t)).over c ps
  | .token raw :: ps =>
    match Part.ofToken raw with
    | .ok p => ((k.note (.expand raw)).fill c p).over c ps
    | .error _ => k.note (.expand raw)
  | .dangling _ :: _ => k

/-- The result that a fault, or none, makes of a course. -/
def Course.verdict (k : Course) : Option CompileError → Except Exit Sequence
  | some e => .error (.fault e)
  | none => .ok k.sequence

/-- The loop ends in one way. -/
theorem Ends.unique {c : Credential} {template : List Char} {cursor : Cursor} {k : Course}
    {result result' : Except Exit Sequence} {moments moments' : List Moment}
    (h : Ends c template cursor k result moments) (h' : Ends c template cursor k result' moments') :
    result' = result ∧ moments' = moments := by
  induction h with
  | done h =>
    cases h' with
    | done h' => cases h.symm.trans h'; exact ⟨rfl, rfl⟩
    | exit h' => cases h.symm.trans h'
    | again h' _ => cases h.symm.trans h'
  | exit h =>
    cases h' with
    | done h' => cases h.symm.trans h'
    | exit h' => cases h.symm.trans h'; exact ⟨rfl, rfl⟩
    | again h' _ => cases h.symm.trans h'
  | again h _ ih =>
    cases h' with
    | done h' => cases h.symm.trans h'
    | exit h' => cases h.symm.trans h'
    | again h' hrest => cases h.symm.trans h'; exact ih hrest

/-- Behind what it has read, the loop ends with what the pieces of the rest make. -/
theorem ends_over (c : Credential) {template done rest : List Char} (h : template = done ++ rest)
    (k : Course) :
    Ends c template ⟨String.utf8Len done, rest⟩ k
      ((k.over c (pieces done.length rest)).verdict (readAt done.length rest).fault)
      (k.over c (pieces done.length rest)).moments := by
  induction rest using shape_induction generalizing done k with
  | literal text htext =>
    rw [pieces_literal htext, readAt_literal htext]
    exact .done (after_pass_literal c template htext _ k)
  | dangling text inner htext hinner =>
    rw [pieces_dangling htext hinner, readAt_dangling htext hinner]
    subst h
    exact .exit (after_pass_dangling c done htext hinner k)
  | placeholder text raw rest htext hraw ih =>
    rw [pieces_placeholder htext hraw]
    have hpass := after_pass_placeholder c template htext hraw rest (String.utf8Len done) k
    cases hp : Part.ofToken raw with
    | error e =>
      rw [hp] at hpass
      rw [readAt_fault htext hraw hp]
      simp only [Course.over, hp]
      exact .exit hpass
    | ok p =>
      rw [hp] at hpass
      rw [readAt_placeholder htext hraw hp]
      simp only [Course.over, hp]
      have hdone : template = done ++ (text ++ '{' :: (raw ++ ['}'])) ++ rest := by
        rw [h]
        simp
      have hlength : (done ++ (text ++ '{' :: (raw ++ ['}']))).length =
          done.length + text.length + raw.length + 2 := by
        simp
        omega
      have := ih hdone (((k.push (.text (String.ofList text))).note (.expand raw)).fill c p)
      rw [String.utf8Len_append, hlength] at this
      exact .again hpass this

/-! ## What is seen, and what is built -/

/-- What is seen of compiling pieces, whatever the credential answers. -/
def momentsOf : List Piece → List Moment
  | [] => []
  | .literal _ :: ps => momentsOf ps
  | .token raw :: ps =>
    .expand raw :: match Part.ofToken raw with
      | .ok p => p.accesses.map .access ++ momentsOf ps
      | .error _ => []
  | .dangling _ :: _ => []

theorem accessesOf_append (ms ms' : List Moment) :
    accessesOf (ms ++ ms') = accessesOf ms ++ accessesOf ms' :=
  List.filterMap_append

theorem accessesOf_map_access (as : List Access) : accessesOf (as.map .access) = as := by
  rw [accessesOf, List.filterMap_map]
  exact List.filterMap_some

theorem moments_fill (c : Credential) (k : Course) (p : Part) :
    (k.fill c p).moments = k.moments ++ p.accesses.map .access := by
  cases p with
  | field f =>
    cases f with
    | password => simp [Course.fill, Course.note, Course.push, Part.accesses, Field.accesses]
    | _ => rfl
  | _ => exact (List.append_nil _).symm

theorem moments_over (c : Credential) (k : Course) (ps : List Piece) :
    (k.over c ps).moments = k.moments ++ momentsOf ps := by
  induction ps generalizing k with
  | nil => exact (List.append_nil _).symm
  | cons piece ps ih =>
    cases piece with
    | literal t => exact ih _
    | token raw =>
      cases hp : Part.ofToken raw with
      | ok p =>
        simp only [Course.over, momentsOf, hp]
        rw [ih, moments_fill, Course.note]
        simp
      | error e => simp only [Course.over, momentsOf, hp, Course.note]
    | dangling n => exact (List.append_nil _).symm

/-- The accesses that are seen are those of the parts in front of the first fault. -/
theorem accessesOf_momentsOf (ps : List Piece) :
    accessesOf (momentsOf ps) = (Reading.ofPieces ps).parts.flatMap Part.accesses := by
  induction ps with
  | nil => rfl
  | cons piece ps ih =>
    cases piece with
    | literal t => exact ih
    | token raw =>
      cases hp : Part.ofToken raw with
      | ok p =>
        simp only [momentsOf, Reading.ofPieces, hp, Reading.cons, List.flatMap_cons, ← ih]
        rw [← accessesOf_map_access p.accesses, ← accessesOf_append, accessesOf_map_access]
        rfl
      | error e =>
        simp only [momentsOf, Reading.ofPieces, hp]
        rfl
    | dangling n => rfl

theorem sequence_fill (e : Entry) (k : Course) (p : Part) :
    (k.fill e.credential p).sequence = k.sequence.push (p.fill e) := by
  cases p with
  | field f => cases f <;> rfl
  | _ => rfl

/-- With the answers of an entry, the parts in front of the first fault are filled for it. -/
theorem sequence_over (e : Entry) {k : Course} {as : List Action} (h : k.sequence = .ofActions as)
    (ps : List Piece) : (k.over e.credential ps).sequence =
      .ofActions (as ++ (Reading.ofPieces ps).parts.map (Part.fill e)) := by
  induction ps generalizing k as with
  | nil => simpa [Course.over, Reading.ofPieces] using h
  | cons piece ps ih =>
    have hfill (k : Course) (p : Part) (h : k.sequence = .ofActions as) :
        (k.fill e.credential p).sequence = .ofActions (as ++ [p.fill e]) := by
      rw [sequence_fill, h, Sequence.ofActions_append_singleton]
    cases piece with
    | literal t =>
      rw [Course.over, ih (hfill k _ h), List.append_assoc]
      rfl
    | token raw =>
      cases hp : Part.ofToken raw with
      | ok p =>
        simp only [Course.over, Reading.ofPieces, hp]
        rw [ih (hfill (k.note (.expand raw)) p h), List.append_assoc]
        rfl
      | error fault => simpa [Course.over, Reading.ofPieces, hp, Course.note] using h
    | dangling n => simpa [Course.over, Reading.ofPieces] using h

/-! ## Compiling a template -/

/-- How compiling ends: with the first fault or with a sequence, and after moments that the
credential has no part in. -/
theorem compiles_iff {c : Credential} {template : String} {result : Except Exit Sequence}
    {moments : List Moment} : Compiles c template result moments ↔
      result = (({} : Course).over c (pieces 0 template.toList)).verdict (read template).fault ∧
        moments = momentsOf (pieces 0 template.toList) := by
  have hends := ends_over c (List.nil_append template.toList).symm {}
  rw [moments_over] at hends
  constructor
  · intro h
    exact Ends.unique hends h
  · rintro ⟨rfl, rfl⟩
    exact hends

/-- With the answers of an entry, compiling by bytes has the result of compiling by characters. -/
theorem compiles_entry_iff {e : Entry} {template : String} {result : Except Exit Sequence}
    {moments : List Moment} : Compiles e.credential template result moments ↔
      result = (compile template (some e)).result.mapError .fault ∧
        moments = momentsOf (pieces 0 template.toList) := by
  have hbegin : ({} : Course).sequence = .ofActions [] := rfl
  have hsequence : (({} : Course).over e.credential (pieces 0 template.toList)).sequence =
      .ofActions ((read template).parts.map (Part.fill e)) :=
    sequence_over e hbegin (pieces 0 template.toList)
  rw [compiles_iff, compile]
  cases (read template).fault with
  | some fault => rfl
  | none => simp only [Course.verdict, hsequence, Except.mapError]

/-- The accesses that compiling makes are those that are seen. -/
theorem accesses_compile (template : String) (e : Entry) :
    (compile template (some e)).accesses = accessesOf (momentsOf (pieces 0 template.toList)) :=
  (accessesOf_momentsOf _).symm

end Template

end Typist

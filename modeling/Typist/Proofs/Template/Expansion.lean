import Mathlib.Data.List.Nodup
import Mathlib.Data.List.Pairwise
import Typist.Proofs.Text.Letters
import Typist.Proofs.Typing.Keyboard
import Typist.Template

/-!
# What a template stands for

A template read as a pattern, without compiling it: its text stands for itself, and a placeholder
for the value of a field, for a key, or for nothing. Every template stands for at most one text,
and one that compiles stands for what its actions amount to.
-/

namespace Typist.Template

/-- The word of a placeholder: without blanks around it, and in capitals. -/
def word (raw : List Char) : String := String.ofList (capitals (Text.trim raw))

/-- What a placeholder stands for, given an entry. -/
inductive Means (e : Entry) (raw : List Char) : List Symbol → Prop
  | field (f : Field) : word raw ∈ f.spellings → Means e raw (Symbol.ofText (e.value f).toList)
  | key (k : Key) : word raw ∈ k.spellings → Means e raw (Symbol.ofKey k)
  | delay : "DELAY".toList <+: (word raw).toList → Means e raw []

/-- What the text of a template stands for, given an entry. -/
inductive Expands (e : Entry) : List Char → List Symbol → Prop
  | literal {text : List Char} : '{' ∉ text → Expands e text (Symbol.ofText text)
  | placeholder {text raw rest : List Char} {out outRest : List Symbol} :
      '{' ∉ text → '}' ∉ raw → Means e raw out → Expands e rest outRest →
      Expands e (text ++ '{' :: (raw ++ '}' :: rest)) (Symbol.ofText text ++ (out ++ outRest))

/-! ## Spellings -/

/-- No spelling names two fields, two keys, or a field and a key. -/
theorem spellings_nodup :
    (Field.all.flatMap Field.spellings ++ Key.all.flatMap Key.spellings).Nodup := by
  decide +kernel

private theorem field_mem_all (f : Field) : f ∈ Field.all := by cases f <;> decide

private theorem eq_of_spelling {α : Type} {names : α → List String} {all : List α} {s : String}
    (h : (all.flatMap names).Nodup) {a b : α} (ha : a ∈ all) (hb : b ∈ all)
    (hsa : s ∈ names a) (hsb : s ∈ names b) : a = b := by
  by_contra hne
  have : Std.Symm (Function.onFun List.Disjoint names) := ⟨fun _ _ hd _ ha hb ↦ hd hb ha⟩
  exact (List.nodup_flatMap.mp h).2.forall ha hb hne hsa hsb

theorem field_eq_of_spelling {s : String} {f g : Field} (hf : s ∈ f.spellings)
    (hg : s ∈ g.spellings) : f = g :=
  eq_of_spelling (List.nodup_append.mp spellings_nodup).1 (field_mem_all f) (field_mem_all g) hf hg

theorem key_eq_of_spelling {s : String} {k j : Key} (hk : s ∈ k.spellings)
    (hj : s ∈ j.spellings) : k = j :=
  eq_of_spelling (List.nodup_append.mp spellings_nodup).2.1 (Key.mem_all k) (Key.mem_all j) hk hj

theorem not_field_and_key {s : String} {f : Field} {k : Key} (hf : s ∈ f.spellings)
    (hk : s ∈ k.spellings) : False :=
  (List.nodup_append.mp spellings_nodup).2.2 s
    (List.mem_flatMap.mpr ⟨f, field_mem_all f, hf⟩) s
    (List.mem_flatMap.mpr ⟨k, Key.mem_all k, hk⟩) rfl

private theorem not_delay {s : String}
    (h : s ∈ Field.all.flatMap Field.spellings ++ Key.all.flatMap Key.spellings) :
    ¬ "DELAY".toList <+: s.toList := by
  revert s
  decide +kernel

theorem not_delay_of_field {s : String} {f : Field} (hf : s ∈ f.spellings) :
    ¬ "DELAY".toList <+: s.toList :=
  not_delay (List.mem_append_left _ (List.mem_flatMap.mpr ⟨f, field_mem_all f, hf⟩))

theorem not_delay_of_key {s : String} {k : Key} (hk : s ∈ k.spellings) :
    ¬ "DELAY".toList <+: s.toList :=
  not_delay (List.mem_append_right _ (List.mem_flatMap.mpr ⟨k, Key.mem_all k, hk⟩))

/-! ## One reading -/

/-- A placeholder stands for one thing. -/
theorem Means.unique {e : Entry} {raw : List Char} {out out' : List Symbol}
    (h : Means e raw out) (h' : Means e raw out') : out = out' := by
  cases h with
  | field f hf =>
    cases h' with
    | field g hg => rw [field_eq_of_spelling hf hg]
    | key k hk => exact (not_field_and_key hf hk).elim
    | delay hd => exact (not_delay_of_field hf hd).elim
  | key k hk =>
    cases h' with
    | field g hg => exact (not_field_and_key hg hk).elim
    | key j hj => rw [key_eq_of_spelling hk hj]
    | delay hd => exact (not_delay_of_key hk hd).elim
  | delay hd =>
    cases h' with
    | field g hg => exact (not_delay_of_field hg hd).elim
    | key j hj => exact (not_delay_of_key hj hd).elim
    | delay _ => rfl

/-- A list has one part in front of the first of an element. -/
theorem split_unique {c : Char} {as bs xs ys : List Char} (ha : c ∉ as) (hb : c ∉ bs)
    (h : as ++ c :: xs = bs ++ c :: ys) : as = bs ∧ xs = ys := by
  induction as generalizing bs with
  | nil =>
    cases bs with
    | nil => exact ⟨rfl, (List.cons.inj h).2⟩
    | cons b bs => exact (hb ((List.cons.inj h).1 ▸ List.mem_cons_self)).elim
  | cons a as ih =>
    cases bs with
    | nil => exact (ha ((List.cons.inj h).1 ▸ List.mem_cons_self)).elim
    | cons b bs =>
      obtain ⟨rfl, hrest⟩ := List.cons.inj h
      obtain ⟨rfl, rfl⟩ := ih (fun hm ↦ ha (List.mem_cons_of_mem _ hm))
        (fun hm ↦ hb (List.mem_cons_of_mem _ hm)) hrest
      exact ⟨rfl, rfl⟩

/-- A template stands for one text at most. -/
theorem Expands.unique {e : Entry} {cs : List Char} {out out' : List Symbol}
    (h : Expands e cs out) (h' : Expands e cs out') : out = out' := by
  induction h generalizing out' with
  | literal ht =>
    cases h' with
    | literal _ => rfl
    | placeholder _ _ _ _ => exact (ht (by simp)).elim
  | @placeholder text raw rest o oRest ht hr hm _ ih =>
    generalize hcs : text ++ '{' :: (raw ++ '}' :: rest) = cs at h'
    cases h' with
    | literal ht' => exact (ht' (by simp [← hcs])).elim
    | @placeholder text' raw' rest' o' oRest' ht' hr' hm' hrest' =>
      obtain ⟨rfl, htail⟩ := split_unique ht ht' hcs
      obtain ⟨rfl, rfl⟩ := split_unique hr hr' htail
      rw [hm.unique hm', ih hrest']

/-! ## Reading a template -/

/-- A word is in capitals. -/
theorem toUpper_word (raw : List Char) : (word raw).toUpper = word raw := by
  apply String.toList_inj.mp
  rw [String.toUpper, String.toList_map, word, String.toList_ofList, capitals, List.map_map]
  apply List.map_congr_left
  intro c _
  exact Text.toUpper_toUpper c

/-- What a part stands for. -/
def Part.symbols (e : Entry) : Part → List Symbol
  | literal t => Symbol.ofText t
  | field f => Symbol.ofText (e.value f).toList
  | key k => Symbol.ofKey k
  | delay _ => []

/-- What has a delay's argument begins with the word. -/
private theorem delay_of_delayArgument? {inner argument : List Char}
    (h : delayArgument? inner = some argument) : "DELAY".toList <+: capitals inner := by
  unfold delayArgument? at h
  split at h
  · next hw =>
    rw [← hw]
    exact (List.take_prefix 5 inner).map Char.toUpper
  · cases h

/-- A resolved placeholder stands for its part. -/
theorem means_of_ofToken (e : Entry) {raw : List Char} {p : Part}
    (h : Part.ofToken raw = .ok p) : Means e raw (p.symbols e) := by
  have hword : String.ofList (capitals (Text.trim raw)) = word raw := rfl
  simp only [Part.ofToken, hword] at h
  split at h
  · next f hf =>
    cases h
    have hw := List.find?_some hf
    exact .field f (by simpa using hw)
  · split at h
    · next k hk =>
      cases h
      have hw := List.find?_some hk
      rw [toUpper_word] at hw
      exact .key k (by simpa using hw)
    · split at h
      · next argument ha =>
        unfold delayOfArgument at h
        split at h
        · split at h
          · cases h
            have hd := delay_of_delayArgument? ha
            rw [← String.toList_ofList (l := capitals _)] at hd
            exact .delay hd
          · cases h
        · cases h
      · cases h

private theorem eq_takeWhile_append {c d : Char} {cs after : List Char}
    (h : cs.dropWhile (· != c) = d :: after) :
    d = c ∧ cs = cs.takeWhile (· != c) ++ c :: after := by
  have hd : d = c := by
    have := List.head?_dropWhile_not (· != c) cs
    simpa [h] using this
  subst hd
  exact ⟨rfl, by rw [← h, List.takeWhile_append_dropWhile]⟩

private theorem not_mem_takeWhile (c : Char) (cs : List Char) : c ∉ cs.takeWhile (· != c) := by
  intro h
  have := List.all_eq_true.mp (List.all_takeWhile (p := (· != c)) (l := cs)) c h
  simp at this

private theorem expands_of_pieces (e : Entry) (n : Nat) (cs : List Char)
    (h : (Reading.ofPieces (pieces n cs)).fault = none) :
    Expands e cs ((Reading.ofPieces (pieces n cs)).parts.flatMap (Part.symbols e)) := by
  fun_induction pieces n cs with
  | case1 n cs text hopen =>
    have hcs : cs.takeWhile (· != '{') = cs := by
      have := List.takeWhile_append_dropWhile (p := (· != '{')) (l := cs)
      rwa [hopen, List.append_nil] at this
    have hnot := not_mem_takeWhile '{' cs
    rw [hcs] at hnot
    simp only [Reading.ofPieces, Reading.cons, List.flatMap_cons, List.flatMap_nil,
      List.append_nil, Part.symbols, text, hcs]
    exact .literal hnot
  | case2 n cs text d after hopen hclose =>
    simp [Reading.ofPieces, Reading.cons] at h
  | case3 n cs text d after hopen inner d' rest hclose ih =>
    obtain ⟨_, hcs⟩ := eq_takeWhile_append hopen
    obtain ⟨_, hafter⟩ := eq_takeWhile_append hclose
    simp only [Reading.ofPieces, Reading.cons] at h ⊢
    cases hp : Part.ofToken inner with
    | error fault => simp [hp] at h
    | ok p =>
      simp only [hp, List.flatMap_cons] at h ⊢
      rw [hcs, hafter]
      exact .placeholder (not_mem_takeWhile '{' cs) (not_mem_takeWhile '}' after)
        (means_of_ofToken e hp) (ih h)

/-- A template read without a fault stands for what its parts stand for. -/
theorem expands_of_read (e : Entry) {template : String} (h : (read template).fault = none) :
    Expands e template.toList ((read template).parts.flatMap (Part.symbols e)) :=
  expands_of_pieces e 0 template.toList h

end Typist.Template

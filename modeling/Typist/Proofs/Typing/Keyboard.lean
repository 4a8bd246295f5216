import Typist.Injector.EventPoster
import Typist.Layout.WindowsUs

/-!
# The receiving keyboard

The second side of typing: what native calls bring about on a keyboard of a layout, which knows
the modifiers that are held. On a regular layout every named key is told from the others by its
code, and a character is typed where it is read; both shipped layouts are regular.
-/

namespace Typist

/-- What reaches a reader: a character, or the stroke of a key that has none. -/
inductive Symbol
  | char (c : Char)
  | key (k : Key)
  deriving DecidableEq, Repr

namespace Symbol

/-- What a named key stands for: a modifier alone for nothing, and the blank's key for the blank. -/
def ofKey (k : Key) : List Symbol :=
  if k.isModifier then [] else if k = .space then [.char ' '] else [.key k]

/-- What a text stands for: a line break, in each of its three spellings, is one Enter, and a tab
is one Tab. -/
def ofText : List Char → List Symbol
  | '\r' :: '\n' :: cs => .key .enter :: ofText cs
  | '\r' :: cs => .key .enter :: ofText cs
  | '\n' :: cs => .key .enter :: ofText cs
  | '\t' :: cs => .key .tab :: ofText cs
  | c :: cs => .char c :: ofText cs
  | [] => []

end Symbol

namespace Layout

/-- What a key-down brings about: the key's character under Shift or without it, or else the key
itself. -/
def symbol? (l : Layout) (code : KeyCode) (shift : Bool) : Option Symbol :=
  match l.char? ⟨code, shift⟩ with
  | some c => some (.char c)
  | none => (l.key? code).map .key

/-- One native call received: the modifiers held afterwards, and what it brings about. A modifier
key only changes what is held. -/
def receive (l : Layout) (held : Modifiers) : NativeCall → Modifiers × List Symbol
  | .unicode c => (held, [.char c])
  | .key code down =>
    match (l.key? code).bind Key.modifier? with
    | some m => (if down then held.insert m else held.erase m, [])
    | none => (held, if down then (l.symbol? code held.shift).toList else [])

/-- Native calls received in order. -/
def decode (l : Layout) (held : Modifiers) : List NativeCall → Modifiers × List Symbol
  | [] => (held, [])
  | c :: cs =>
    let (held, out) := l.receive held c
    let (held, rest) := l.decode held cs
    (held, out ++ rest)

@[simp] theorem decode_nil (l : Layout) (held : Modifiers) : l.decode held [] = (held, []) := rfl

theorem decode_cons (l : Layout) (held : Modifiers) (c : NativeCall) (cs : List NativeCall) :
    l.decode held (c :: cs) =
      ((l.decode (l.receive held c).1 cs).1,
        (l.receive held c).2 ++ (l.decode (l.receive held c).1 cs).2) := rfl

/-- Later calls are received under the modifiers that earlier ones left held. -/
theorem decode_append (l : Layout) (held : Modifiers) (cs ds : List NativeCall) :
    l.decode held (cs ++ ds) =
      ((l.decode (l.decode held cs).1 ds).1,
        (l.decode held cs).2 ++ (l.decode (l.decode held cs).1 ds).2) := by
  induction cs generalizing held with
  | nil => simp
  | cons c cs ih => rw [List.cons_append, decode_cons, decode_cons, ih, List.append_assoc]

/-- A layout on which typing can be read back. -/
structure Regular (l : Layout) : Prop where
  /-- Every named key has a code, and the code is its alone. -/
  key?_code? : ∀ k, (l.code? k).bind l.key? = some k
  /-- No two character keys share a code. -/
  nodup : (l.chars.map CharKey.code).Nodup
  /-- A character key is no named key, but for the blank's. -/
  apart : ∀ e ∈ l.chars, l.key? e.code = none ∨ l.key? e.code = some .space
  /-- The blank's key yields the blank. -/
  blank : (l.code? .space).bind (fun code ↦ l.char? ⟨code, false⟩) = some ' '

theorem regular_macAnsi : Regular macAnsi where
  key?_code? k := by cases k <;> decide
  nodup := by decide
  apart := by decide
  blank := by decide

theorem regular_windowsUs : Regular windowsUs where
  key?_code? k := by cases k <;> decide
  nodup := by decide
  apart := by decide
  blank := by decide

private theorem find?_code {es : List CharKey} (h : (es.map CharKey.code).Nodup) {e : CharKey}
    (he : e ∈ es) : es.find? (fun k ↦ k.code = e.code) = some e := by
  induction es with
  | nil => cases he
  | cons a es ih =>
    rw [List.map_cons, List.nodup_cons] at h
    rcases List.mem_cons.mp he with rfl | he
    · simp
    · have hne : a.code ≠ e.code := fun hc ↦ h.1 (hc ▸ List.mem_map_of_mem he)
      rw [List.find?_cons_of_neg (by simpa using hne)]
      exact ih h.2 he

/-- Where no two character keys share a code, a character is read where it is typed. -/
theorem char?_of_stroke? {l : Layout} (h : (l.chars.map CharKey.code).Nodup) {c : Char}
    {s : Stroke} (hs : l.chars.findSome? (·.stroke? c) = some s) : l.char? s = some c := by
  obtain ⟨e, he, hstroke⟩ := List.exists_of_findSome?_eq_some hs
  obtain ⟨hcode, hglyph⟩ := glyph_of_stroke? hstroke
  rw [char?, hcode, find?_code h he, Option.map_some, hglyph]

/-- A stroke for a character is made at a character key. -/
theorem mem_of_stroke? {l : Layout} {c : Char} {s : Stroke}
    (hs : l.chars.findSome? (·.stroke? c) = some s) : ∃ e ∈ l.chars, e.code = s.code := by
  obtain ⟨e, he, hstroke⟩ := List.exists_of_findSome?_eq_some hs
  exact ⟨e, he, (glyph_of_stroke? hstroke).1.symm⟩

namespace Regular

variable {l : Layout} (h : Regular l)

include h

/-- Every named key has a code that leads back to it. -/
theorem exists_code (k : Key) : ∃ code, l.code? k = some code ∧ l.key? code = some k :=
  Option.bind_eq_some_iff.mp (h.key?_code? k)

/-- A character key is no modifier. -/
theorem modifier?_of_mem {e : CharKey} (he : e ∈ l.chars) :
    (l.key? e.code).bind Key.modifier? = none := by
  rcases h.apart e he with hk | hk <;> rw [hk] <;> rfl

/-- A named key other than the blank's has no character. -/
theorem char?_of_ne_space {k : Key} {code : KeyCode} (hk : l.key? code = some k)
    (hs : k ≠ .space) (shift : Bool) : l.char? ⟨code, shift⟩ = none := by
  rw [char?, Option.map_eq_none_iff, List.find?_eq_none]
  intro e he hc
  have hcode : e.code = code := by simpa using hc
  have := h.apart e he
  rw [hcode, hk] at this
  simp [hs] at this

end Regular

end Layout

end Typist

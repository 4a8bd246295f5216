import Mathlib
import Typist.Proofs.Template.Expansion
import Typist.Proofs.Typing.Granted

/-!
# Typing is faithful

What is typed on a regular layout is what is received. Each typing step leaves no modifier held, so
the steps of a run add up; the main statement takes a template through compiling, typing and
receiving, and finds what the template stands for.
-/

namespace Typist

/-! ## Receiving a key -/

namespace Layout

variable {l : Layout}

/-- Pressing a key that is no modifier brings about what its key-down does. -/
theorem decode_press {code : KeyCode} (hm : (l.key? code).bind Key.modifier? = none)
    (held : Modifiers) :
    l.decode held [.key code true, .key code false] =
      (held, (l.symbol? code held.shift).toList) := by
  simp [decode, receive, hm]

/-- Pressing a modifier that is not held leaves it so, and brings about nothing. -/
theorem decode_press_modifier {code : KeyCode} {m : Modifier}
    (hm : (l.key? code).bind Key.modifier? = some m) :
    l.decode {} [.key code true, .key code false] = ({}, []) := by
  simp only [decode, receive, hm]
  cases m <;> rfl

/-- A key pressed between the halves of Shift is received under Shift. -/
theorem decode_shifted {shift code : KeyCode} (hs : l.key? shift = some .shift)
    (hm : (l.key? code).bind Key.modifier? = none) :
    l.decode {} [.key shift true, .key code true, .key code false, .key shift false] =
      ({}, (l.symbol? code true).toList) := by
  have hshift : (l.key? shift).bind Key.modifier? = some .shift := by rw [hs]; rfl
  simp [decode, receive, hm, hshift, Modifiers.insert, Modifiers.erase]

/-- Releasing the modifiers leaves none held, whatever was. -/
theorem Regular.decode_releases (h : Regular l) (held : Modifiers) :
    l.decode held (Script.releases l) = ({}, []) := by
  obtain ⟨s, hs, hs'⟩ := h.exists_code .shift
  obtain ⟨c, hc, hc'⟩ := h.exists_code .control
  obtain ⟨a, ha, ha'⟩ := h.exists_code .alt
  obtain ⟨m, hm, hm'⟩ := h.exists_code .command
  simp [Script.releases, Key.modifiers, hs, hc, ha, hm, decode, receive, hs', hc', ha', hm',
    Key.modifier?, Modifiers.erase]

end Layout

namespace Typing

open Layout

variable {l : Layout}

/-- Typing that, when everything is granted, ends well, brings about these symbols on a keyboard
with no modifier held, and leaves none held. -/
def Yields (l : Layout) (t : Typing Unit) (out : List Symbol) : Prop :=
  ∃ calls, Makes t calls ∧ l.decode {} calls = ({}, out)

theorem yields_pure : Yields l (pure ()) [] := ⟨[], makes_pure, rfl⟩

theorem Yields.bind {t u : Typing Unit} {out rest : List Symbol} (ht : Yields l t out)
    (hu : Yields l u rest) : Yields l (t >>= fun _ ↦ u) (out ++ rest) := by
  obtain ⟨cs, hcs, hout⟩ := ht
  obtain ⟨ds, hds, hrest⟩ := hu
  refine ⟨cs ++ ds, hcs.bind hds, ?_⟩
  rw [decode_append, hout, hrest]

theorem yields_pause (ms : Nat) : Yields l (ExceptT.lift (Script.pause ms)) [] :=
  ⟨[], makes_lift (Script.granted_pause ms), rfl⟩

/-- Pressing a named key yields what the key stands for. -/
theorem yields_press (h : Regular l) (k : Key) : Yields l (withKey l k press) (Symbol.ofKey k) := by
  obtain ⟨code, hcode, hkey⟩ := h.exists_code k
  refine ⟨[.key code true, .key code false], ?_, ?_⟩
  · rw [withKey, hcode]
    exact makes_press code
  · cases hm : k.modifier? with
    | some m =>
      have hmod : Symbol.ofKey k = [] := by cases k <;> first | rfl | cases hm
      rw [decode_press_modifier (by rw [hkey, Option.bind_some, hm]), hmod]
    | none =>
      have hmod : k.isModifier = false := by cases k <;> first | rfl | cases hm
      rw [decode_press (by rw [hkey, Option.bind_some, hm]), Symbol.ofKey, hmod]
      by_cases hs : k = .space
      · subst hs
        have hblank := h.blank
        rw [hcode, Option.bind_some] at hblank
        simp [symbol?, hblank]
      · simp [symbol?, h.char?_of_ne_space hkey hs, hkey, hs]

private theorem ofText_singleton_of_controlKey? {c : Char} {k : Key}
    (hk : controlKey? c = some k) : Symbol.ofText [c] = Symbol.ofKey k := by
  unfold controlKey? at hk
  split at hk
  · next hc =>
    cases hk
    subst hc
    rfl
  · split at hk
    · next hc =>
      cases hk
      rcases hc with rfl | rfl <;> rfl
    · cases hk

private theorem ofText_cons {c : Char} (hc : controlKey? c = none) (cs : List Char) :
    Symbol.ofText (c :: cs) = .char c :: Symbol.ofText cs := by
  unfold controlKey? at hc
  split at hc
  · cases hc
  · next ht =>
    split at hc
    · cases hc
    · next hb =>
      rw [not_or] at hb
      exact Symbol.ofText.eq_5 c cs (fun _ h _ ↦ hb.2 h) hb.2 hb.1 ht

/-- Typing one character yields what the character stands for. -/
theorem yields_char (h : Regular l) (c : Char) : Yields l (char l c) (Symbol.ofText [c]) := by
  cases hk : controlKey? c with
  | some k =>
    obtain ⟨code, hcode, _⟩ := h.exists_code k
    have hchar : char l c = withKey l k press := by simp [char, stroke?, hk, hcode, withKey]
    rw [hchar, ofText_singleton_of_controlKey? hk]
    exact yields_press h k
  | none =>
    rw [ofText_cons hk]
    cases hs : l.chars.findSome? (·.stroke? c) with
    | none =>
      refine ⟨[.unicode c], ?_, rfl⟩
      simp only [char, stroke?, hk, hs]
      exact makes_unicode c
    | some s =>
      obtain ⟨e, he, hcode⟩ := mem_of_stroke? hs
      have hm : (l.key? s.code).bind Key.modifier? = none := hcode ▸ h.modifier?_of_mem he
      have hsymbol : l.symbol? s.code s.shift = some (.char c) := by
        rw [symbol?, char?_of_stroke? h.nodup hs]
      cases hshift : s.shift with
      | false =>
        refine ⟨[.key s.code true, .key s.code false], ?_, ?_⟩
        · simp only [char, stroke?, hk, hs, hshift, Bool.false_eq_true, if_false]
          exact makes_press s.code
        · rw [hshift] at hsymbol
          rw [decode_press hm, hsymbol]
          rfl
      | true =>
        obtain ⟨shift, hcode, hkey⟩ := h.exists_code .shift
        refine ⟨[.key shift true, .key s.code true, .key s.code false, .key shift false], ?_, ?_⟩
        · simp only [char, stroke?, hk, hs, hshift, if_true, hcode]
          exact makes_holding (makes_press s.code)
        · rw [hshift] at hsymbol
          rw [decode_shifted hkey hm, hsymbol]
          rfl

private theorem ofText_cons_append {c : Char} {cs : List Char}
    (hne : ∀ rest, c = '\r' → cs = '\n' :: rest → False) :
    Symbol.ofText (c :: cs) = Symbol.ofText [c] ++ Symbol.ofText cs := by
  by_cases hr : c = '\r'
  · subst hr
    rw [Symbol.ofText.eq_2 cs fun rest h ↦ hne rest rfl h]
    rfl
  · by_cases hn : c = '\n'
    · subst hn
      rfl
    · by_cases ht : c = '\t'
      · subst ht
        rfl
      · have hk : controlKey? c = none := by simp [controlKey?, hr, hn, ht]
        rw [ofText_cons hk, ofText_cons hk]
        rfl

private theorem yields_typedChars (h : Regular l) (cs : List Char) :
    Yields l ((typedChars cs).forM (char l)) (Symbol.ofText cs) := by
  fun_induction typedChars cs with
  | case1 cs ih => exact (yields_char h '\r').bind ih
  | case2 c cs hne ih =>
    rw [ofText_cons_append hne]
    exact (yields_char h c).bind ih
  | case3 => exact yields_pure

/-- Typing a text yields what the text stands for. -/
theorem yields_text (h : Regular l) (s : String) :
    Yields l (text l s) (Symbol.ofText s.toList) :=
  yields_typedChars h s.toList

/-- Carrying out what a part of a template is filled to yields what the part stands for. -/
theorem yields_fill (h : Regular l) (e : Entry) (p : Template.Part) :
    Yields l (action l (p.fill e)) (p.symbols e) := by
  cases p with
  | literal t =>
    have := yields_text h (String.ofList t)
    rwa [String.toList_ofList] at this
  | field f => exact yields_text h (e.value f)
  | key k => exact yields_press h k
  | delay ms => exact yields_pause ms.toNat

private theorem symbols_of_isVoid {e : Entry} {p : Template.Part}
    (hv : (p.fill e).isVoid = true) : p.symbols e = [] := by
  cases p with
  | literal t =>
    have : t = [] := by simpa [Template.Part.fill, Action.isVoid] using hv
    subst this
    rfl
  | field f =>
    have : e.value f = "" := by simpa [Template.Part.fill, Action.isVoid] using hv
    rw [Template.Part.symbols, this]
    rfl
  | key k => cases hv
  | delay ms => rfl

/-- Carrying out the actions of a template's parts yields what the parts stand for. -/
theorem yields_actions (h : Regular l) (e : Entry) (pauseMs : Nat) (ps : List Template.Part) :
    Yields l (actions l pauseMs (Sequence.ofActions (ps.map (Template.Part.fill e))).actions)
      (ps.flatMap (Template.Part.symbols e)) := by
  rw [Sequence.actions_ofActions]
  induction ps with
  | nil => exact yields_pure
  | cons p ps ih =>
    rw [List.map_cons, List.flatMap_cons]
    cases hv : (p.fill e).isVoid with
    | true =>
      rw [List.filter_cons_of_neg (by simp [hv]), symbols_of_isVoid hv, List.nil_append]
      exact ih
    | false =>
      rw [List.filter_cons_of_pos (by simp [hv])]
      obtain ⟨cs, hcs, hout⟩ := yields_fill h e p
      obtain ⟨ds, hds, hrest⟩ := ih
      refine ⟨cs ++ ds, makes_actions_cons hcs hds, ?_⟩
      rw [decode_append, hout, hrest]

end Typing

namespace Template

/-- A template that compiles was read without a fault, and its sequence holds its parts. -/
theorem read_of_compile {template : String} {e : Entry} {s : Sequence}
    (h : (compile template (some e)).result = .ok s) :
    (read template).fault = none ∧ s = .ofActions ((read template).parts.map (Part.fill e)) := by
  simp only [compile] at h
  cases hf : (read template).fault with
  | some fault => simp [hf] at h
  | none => simp_all

/-- Typing is faithful: on both shipped layouts, for every entry, what is received of a template's
run is what the template stands for, and nothing else. The run ends well, and stands between two
releases of all modifiers; so it is received alike whatever is held before it, and nothing is held
after it. -/
theorem decode_perform {k : Keyboard} (hk : k.layout = .macAnsi ∨ k.layout = .windowsUs)
    {template : String} {e : Entry} {s : Sequence}
    (hs : (compile template (some e)).result = .ok s) (pauseMs : Nat) :
    ∃ body out,
      (k.perform true pauseMs s).granted =
        (.ok (), Script.releases k.layout ++ body ++ Script.releases k.layout) ∧
      k.layout.decode {} body = ({}, out) ∧
      (∀ held, k.layout.decode held
        (Script.releases k.layout ++ body ++ Script.releases k.layout) = ({}, out)) ∧
      ∀ symbols, Expands e template.toList symbols ↔ symbols = out := by
  have hl : k.layout.Regular := by
    rcases hk with hk | hk <;> rw [hk]
    · exact Layout.regular_macAnsi
    · exact Layout.regular_windowsUs
  obtain ⟨hread, rfl⟩ := read_of_compile hs
  obtain ⟨body, hbody, hdecode⟩ := Typing.yields_actions hl e pauseMs (read template).parts
  refine ⟨body, _, Keyboard.granted_perform hbody, hdecode, ?_, ?_⟩
  · intro held
    simp only [Layout.decode_append, hl.decode_releases, hdecode, List.nil_append, List.append_nil]
  · intro symbols
    have hexpands := expands_of_read e hread
    constructor
    · intro h
      exact h.unique hexpands
    · rintro rfl
      exact hexpands

/-- A user name, a line break and a password are received so. -/
theorem decode_perform_credentials :
    (compile "\x7bUSERNAME\x7d\r\n\x7bPASSWORD\x7d"
        (some { username := "al", password := some "P4 " })).result =
      .ok (.ofActions [.text "al", .text "\r\n", .text "P4 "]) ∧
    ∃ body, ((Keyboard.mk .macAnsi "").perform true 0
        (.ofActions [.text "al", .text "\r\n", .text "P4 "])).granted =
        (.ok (), Script.releases .macAnsi ++ body ++ Script.releases .macAnsi) ∧
      Layout.macAnsi.decode {} body =
        ({}, [.char 'a', .char 'l', .key .enter, .char 'P', .char '4', .char ' ']) := by
  have hs : (compile "\x7bUSERNAME\x7d\r\n\x7bPASSWORD\x7d"
      (some { username := "al", password := some "P4 " })).result =
      .ok (.ofActions [.text "al", .text "\r\n", .text "P4 "]) := by cbv
  have hread : read "\x7bUSERNAME\x7d\r\n\x7bPASSWORD\x7d" =
      ⟨[.literal [], .field .username, .literal ['\r', '\n'], .field .password, .literal []],
        none⟩ := by cbv
  refine ⟨hs, ?_⟩
  obtain ⟨body, out, hmade, hout, -, hmeans⟩ :=
    decode_perform (k := Keyboard.mk .macAnsi "") (.inl rfl) hs 0
  refine ⟨body, hmade, ?_⟩
  rw [hout, ← (hmeans _).mp (expands_of_read _ (congrArg Reading.fault hread)), hread]
  cbv

end Template

end Typist

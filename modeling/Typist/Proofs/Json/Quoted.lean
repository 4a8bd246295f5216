import Mathlib.Tactic.IntervalCases
import Typist.Json.Reader
import Typist.Json.Writer

/-!
# Reading what was written

A text in quotes is read as it was written: an escape names the character that it was written for,
and every other character stands for itself, in one byte or in several that are all beyond ASCII.
So is a whole number, and an object, if its members are.
-/

namespace Typist

namespace Text

/-- The bytes of characters. -/
def utf8 (cs : List Char) : List UInt8 := cs.flatMap String.utf8EncodeChar

@[simp] theorem utf8_append (cs ds : List Char) : utf8 (cs ++ ds) = utf8 cs ++ utf8 ds :=
  List.flatMap_append

theorem utf8_cons (c : Char) (cs : List Char) :
    utf8 (c :: cs) = String.utf8EncodeChar c ++ utf8 cs :=
  List.flatMap_cons

theorem utf8_singleton (c : Char) : utf8 [c] = String.utf8EncodeChar c := List.flatMap_singleton ..

/-- A character of ASCII is one byte. -/
theorem utf8EncodeChar_of_le {c : Char} (h : c.toNat ≤ 127) :
    String.utf8EncodeChar c = [UInt8.ofNat c.toNat] :=
  if_pos h

/-- A character beyond ASCII has no byte of ASCII. -/
theorem le_of_mem_utf8EncodeChar {c : Char} (h : 127 < c.toNat) {b : UInt8}
    (hb : b ∈ String.utf8EncodeChar c) : 128 ≤ b.toNat := by
  have hv : ¬ c.val.toNat ≤ 127 := Nat.not_le.mpr h
  rw [String.utf8EncodeChar, if_neg hv] at hb
  split at hb
  case isTrue =>
    simp only [List.mem_cons, List.not_mem_nil, or_false] at hb
    rcases hb with rfl | rfl <;> rw [UInt8.toNat_ofNat'] <;> omega
  case isFalse =>
    split at hb <;> simp only [List.mem_cons, List.not_mem_nil, or_false] at hb
    · rcases hb with rfl | rfl | rfl <;> rw [UInt8.toNat_ofNat'] <;> omega
    · rcases hb with rfl | rfl | rfl | rfl <;> rw [UInt8.toNat_ofNat'] <;> omega

theorem data_toUTF8 (cs : List Char) : (String.ofList cs).toUTF8.data.toList = utf8 cs := by
  rw [String.toUTF8_eq_toByteArray, String.toByteArray_ofList, List.utf8Encode,
    List.toList_data_toByteArray, utf8]

theorem fromUTF8_utf8 (cs : List Char) :
    String.fromUTF8? ⟨(utf8 cs).toArray⟩ = some (String.ofList cs) := by
  have hbytes : (⟨(utf8 cs).toArray⟩ : ByteArray) = (String.ofList cs).toByteArray := by
    rw [← data_toUTF8, Array.toArray_toList, String.toUTF8_eq_toByteArray]
  rw [hbytes, String.fromUTF8?, dif_pos (String.ofList cs).isValidUTF8]
  rfl

end Text

namespace Json

/-! ## Characters within quotes -/

/-- Whether characters within quotes are read as a text, whatever stands around them. -/
def ReadsAs (quoted text : List Char) : Prop :=
  ∃ ps : List Part,
    (∀ found rest,
      scanParts found (Text.utf8 quoted ++ rest) = scanParts (ps.reverse ++ found) rest) ∧
    ∀ taken others, partBytes taken (ps ++ others) =
      partBytes ((Text.utf8 text).reverse ++ taken) others

theorem readsAs_nil : ReadsAs [] [] := ⟨[], fun _ _ ↦ rfl, fun _ _ ↦ rfl⟩

theorem ReadsAs.append {quoted quoted' text text' : List Char} (h : ReadsAs quoted text)
    (h' : ReadsAs quoted' text') : ReadsAs (quoted ++ quoted') (text ++ text') := by
  obtain ⟨ps, hscan, hbytes⟩ := h
  obtain ⟨ps', hscan', hbytes'⟩ := h'
  refine ⟨ps ++ ps', fun found rest ↦ ?_, fun taken others ↦ ?_⟩
  · rw [Text.utf8_append, List.append_assoc, hscan, hscan', List.reverse_append, List.append_assoc]
  · rw [List.append_assoc, hbytes, hbytes', Text.utf8_append, List.reverse_append,
      List.append_assoc]

/-- Bytes that are neither quotes nor backslashes nor control characters stand for themselves. -/
theorem scanParts_bytes {bs : List UInt8} (h : ∀ b ∈ bs, b ≠ 34 ∧ b ≠ 92 ∧ ¬ b < 32)
    (found : List Part) (rest : List UInt8) :
    scanParts found (bs ++ rest) = scanParts ((bs.map Part.byte).reverse ++ found) rest := by
  induction bs generalizing found with
  | nil => rfl
  | cons b bs ih =>
    rw [List.forall_mem_cons] at h
    obtain ⟨⟨hquote, hbackslash, hcontrol⟩, hbs⟩ := h
    have hstep :
        scanParts found (b :: (bs ++ rest)) = scanParts (.byte b :: found) (bs ++ rest) := by
      rw [scanParts.eq_def]
      dsimp only
      rw [if_neg hquote, if_neg hbackslash, if_neg hcontrol]
    rw [List.cons_append, hstep, ih hbs, List.map_cons, List.reverse_cons, List.append_assoc]
    rfl

theorem partBytes_bytes (bs taken : List UInt8) (others : List Part) :
    partBytes taken (bs.map .byte ++ others) = partBytes (bs.reverse ++ taken) others := by
  induction bs generalizing taken with
  | nil => rfl
  | cons b bs ih =>
    rw [List.map_cons, List.cons_append, partBytes, ih, List.reverse_cons, List.append_assoc]
    rfl

/-- A unit that is half of no pair stands for its character. -/
theorem partBytes_unit {n : Nat} (h : n < 0xd800) (taken : List UInt8) (others : List Part) :
    partBytes taken (.unit n :: others) =
      partBytes ((String.utf8EncodeChar (Char.ofNat n)).reverse ++ taken) others := by
  have hhigh : isHighHalf n = false := by simp [isHighHalf]; omega
  have hlow : isLowHalf n = false := by simp [isLowHalf]; omega
  cases others with
  | nil => simp [partBytes, hhigh, hlow]
  | cons p others => cases p <;> simp [partBytes, hhigh, hlow]

/-- A character that needs no escape. -/
theorem readsAs_plain {c : Char} (hquote : c ≠ '"') (hbackslash : c ≠ '\\') (hcontrol : ¬ c < ' ') :
    ReadsAs [c] [c] := by
  refine ⟨(String.utf8EncodeChar c).map .byte, fun found rest ↦ ?_, fun taken others ↦ ?_⟩
  · rw [Text.utf8_singleton]
    refine scanParts_bytes (fun b hb ↦ ?_) found rest
    have hquote : c.toNat ≠ 34 := fun h ↦ hquote (Char.toNat_inj.mp h)
    have hbackslash : c.toNat ≠ 92 := fun h ↦ hbackslash (Char.toNat_inj.mp h)
    have hcontrol : 32 ≤ c.toNat := Char.not_lt.mp hcontrol
    have hcode : b.toNat = c.toNat ∨ 128 ≤ b.toNat := by
      by_cases hascii : c.toNat ≤ 127
      · rw [Text.utf8EncodeChar_of_le hascii, List.mem_singleton] at hb
        rw [hb, UInt8.toNat_ofNat']
        omega
      · exact .inr (Text.le_of_mem_utf8EncodeChar (Nat.not_le.mp hascii) hb)
    rw [Ne, Ne, ← UInt8.toNat_inj, ← UInt8.toNat_inj, UInt8.lt_iff_toNat_lt]
    show b.toNat ≠ 34 ∧ b.toNat ≠ 92 ∧ ¬ b.toNat < 32
    omega
  · rw [Text.utf8_singleton]
    exact partBytes_bytes _ taken others

/-- A character that stands for another behind a backslash. -/
theorem readsAs_short {e c : Char} {b b' : UInt8} (he : String.utf8EncodeChar e = [b])
    (hc : String.utf8EncodeChar c = [b']) (hb : b ≠ 117) (hshort : shortEscape? b = some b') :
    ReadsAs ['\\', e] [c] := by
  refine ⟨[.byte b'], fun found rest ↦ ?_, fun taken others ↦ ?_⟩
  · rw [Text.utf8_cons, Text.utf8_singleton, he]
    show scanParts found (92 :: b :: rest) = scanParts (.byte b' :: found) rest
    rw [scanParts.eq_def]
    dsimp only
    rw [if_neg (by decide), if_pos rfl]
    split
    · next heq =>
      cases heq
      exact absurd rfl hb
    · next heq =>
      cases heq
      rw [hshort]
    · next heq => cases heq
  · rw [Text.utf8_singleton, hc]
    exact partBytes_bytes [b'] taken others

/-- The byte of a hexadecimal digit. -/
def digitByte (n : Nat) : UInt8 := UInt8.ofNat (Nat.digitChar n).toNat

/-- A control character that is named by its number. -/
theorem readsAs_unit {c : Char} (h : c < ' ') :
    ReadsAs (['\\', 'u', '0', '0'] ++ hexPair c.toNat) [c] := by
  have hdigits : ∀ n < 32, Text.utf8 (hexPair n) = [digitByte (n / 16), digitByte (n % 16)] ∧
      hexUnit? 48 48 (digitByte (n / 16)) (digitByte (n % 16)) = some n := by
    decide
  have hc : c.toNat < 32 := h
  obtain ⟨hpair, hunit⟩ := hdigits c.toNat hc
  refine ⟨[.unit c.toNat], fun found rest ↦ ?_, fun taken others ↦ ?_⟩
  · rw [Text.utf8_append, hpair]
    show scanParts found (92 :: 117 :: 48 :: 48 :: _ :: _ :: rest) =
      scanParts (.unit _ :: found) rest
    rw [scanParts.eq_def]
    dsimp only
    rw [if_neg (by decide), if_pos rfl]
    simp only [hunit]
  · rw [Text.utf8_singleton, List.singleton_append, partBytes_unit (by omega), Char.ofNat_toNat]

theorem readsAs_escaped (c : Char) : ReadsAs (escaped c) [c] := by
  unfold escaped
  split
  case h_8 hquote hbackslash _ _ _ _ _ =>
    split
    · next hcontrol => exact readsAs_unit hcontrol
    · next hcontrol => exact readsAs_plain hquote hbackslash hcontrol
  all_goals exact readsAs_short rfl rfl (by decide) (by decide)

theorem readsAs_flatMap (cs : List Char) : ReadsAs (cs.flatMap escaped) cs := by
  induction cs with
  | nil => exact readsAs_nil
  | cons c cs ih => exact (readsAs_escaped c).append ih

/-- Whatever follows it, a text in quotes is the next token. -/
theorem Token.next_quotedChars (s : String) (rest : List UInt8) :
    Token.next? (Text.utf8 (quotedChars s) ++ rest) = some (.scalar (text s), rest) := by
  obtain ⟨ps, hscan, hbytes⟩ := readsAs_flatMap s.toList
  have hparts :
      scanParts [] (Text.utf8 (s.toList.flatMap escaped) ++ 34 :: rest) = some (ps, rest) := by
    rw [hscan, List.append_nil, scanParts.eq_def]
    dsimp only
    rw [if_pos rfl, List.reverse_reverse]
  have htext : partText? ps = some s := by
    have hall := hbytes [] []
    rw [List.append_nil, List.append_nil, partBytes, List.reverse_reverse] at hall
    rw [partText?, hall]
    exact (Text.fromUTF8_utf8 s.toList).trans (congrArg some String.ofList_toList)
  have hopen : Text.utf8 (quotedChars s) ++ rest =
      34 :: (Text.utf8 (s.toList.flatMap escaped) ++ 34 :: rest) := by
    rw [quotedChars, List.cons_append, Text.utf8_cons, Text.utf8_append, Text.utf8_singleton]
    show 34 :: ((Text.utf8 (s.toList.flatMap escaped) ++ [34]) ++ rest) = _
    rw [List.append_assoc]
    rfl
  rw [hopen]
  show (scanParts [] _).map (fun x ↦ (Token.scalar (.string (partText? x.1)), x.2)) = _
  rw [hparts]
  exact congrArg (fun s? ↦ some (Token.scalar (.string s?), rest)) htext

/-! ## Digits -/

theorem utf8_map_digitChar {ds : List Nat} (h : ∀ d ∈ ds, d < 10) :
    Text.utf8 (ds.map Nat.digitChar) = ds.map digitByte := by
  have hdigit : ∀ d < 10, String.utf8EncodeChar (Nat.digitChar d) = [digitByte d] := by decide
  induction ds with
  | nil => rfl
  | cons d ds ih =>
    obtain ⟨hd, hds⟩ := List.forall_mem_cons.mp h
    rw [List.map_cons, Text.utf8_cons, ih hds, List.map_cons, hdigit d hd]
    rfl

/-- Digits end in front of anything that is none. -/
theorem leadingDigits_digits {ds : List Nat} (h : ∀ d ∈ ds, d < 10) {rest : List UInt8}
    (hrest : ∀ b ∈ rest.head?, isDigit b = false) :
    leadingDigits (ds.map digitByte ++ rest) = ds ∧
      afterDigits (ds.map digitByte ++ rest) = rest := by
  have hdigit : ∀ d < 10, isDigit (digitByte d) = true ∧ (digitByte d).toNat - 48 = d := by decide
  have hall : ∀ b ∈ ds.map digitByte, isDigit b = true := by
    intro b hb
    obtain ⟨d, hd, rfl⟩ := List.mem_map.mp hb
    exact (hdigit d (h d hd)).1
  have hnone : rest.takeWhile isDigit = [] ∧ rest.dropWhile isDigit = rest := by
    cases rest with
    | nil => exact ⟨rfl, rfl⟩
    | cons b rest => simp [hrest b rfl]
  constructor
  · rw [leadingDigits, List.takeWhile_append_of_pos hall, hnone.1, List.append_nil, List.map_map]
    exact List.map_congr_left (fun d hd ↦ (hdigit d (h d hd)).2) |>.trans (List.map_id ds)
  · rw [afterDigits, List.dropWhile_append_of_pos hall, hnone.2]

/-- A digit begins a number. -/
theorem startingWith_digitByte {d : Nat} (hd : d < 10) :
    isGap (digitByte d) = false ∧ ∀ bs, Token.startingWith (digitByte d) bs =
      (scanUnsigned false (digitByte d :: bs)).map fun scanned ↦
        (.scalar (.number scanned.1), scanned.2) := by
  interval_cases d <;> exact ⟨rfl, fun _ ↦ rfl⟩

/-! ## Building values -/

section Building

variable {stack : List Open} {bytes inner rest : List UInt8} {j : Json}
  {members : List (Option String × Json)} {name name' : Option String}

theorem build_scalar (h : Token.next? bytes = some (.scalar j, rest)) :
    build stack none bytes = build stack (some j) rest := by
  rw [build.eq_def]
  dsimp only
  split <;> simp_all

theorem build_empty (h : Token.next? bytes = some (.objectOpen, inner))
    (hclose : Token.next? inner = some (.objectClose, rest)) :
    build stack none bytes = build stack (some (.object [])) rest := by
  rw [build.eq_def]
  dsimp only
  split
  case h_3 heq =>
    cases h.symm.trans heq
    split <;> simp_all
  all_goals simp_all

theorem build_open (h : Token.next? bytes = some (.objectOpen, inner))
    (hname : Named.read inner = .named name rest) :
    build stack none bytes = build (.object [] name :: stack) none rest := by
  have hclose (r : List UInt8) : Token.next? inner ≠ some (.objectClose, r) := by
    intro hr
    rw [Named.read, hr] at hname
    cases hname
  rw [build.eq_def]
  dsimp only
  split
  case h_3 heq =>
    cases h.symm.trans heq
    split
    · next heq => exact absurd heq (hclose _)
    · split <;> simp_all
  all_goals simp_all

theorem build_comma (h : Token.next? bytes = some (.comma, inner))
    (hname : Named.read inner = .named name' rest) :
    build (.object members name :: stack) (some j) bytes =
      build (.object ((name, j) :: members) name' :: stack) none rest := by
  rw [build.eq_def]
  dsimp only
  split
  case h_1 heq =>
    cases h.symm.trans heq
    split <;> simp_all
  all_goals simp_all

theorem build_close (h : Token.next? bytes = some (.objectClose, rest)) :
    build (.object members name :: stack) (some j) bytes =
      build stack (some (.object ((name, j) :: members).reverse)) rest := by
  rw [build.eq_def]
  dsimp only
  split <;> simp_all [Open.ending]

end Building

/-! ## Values -/

/-- Whether a value ends where a text begins: at its end, or at what closes or goes on. -/
def EndsBefore (rest : List UInt8) : Prop := ∀ b ∈ rest.head?, b = 44 ∨ b = 93 ∨ b = 125

/-- Whether a value is read as it is written, wherever it stands. -/
def IsReadBack (j : Json) : Prop :=
  ∀ stack rest, EndsBefore rest →
    build stack none (Text.utf8 j.chars ++ rest) = build stack (some j) rest

theorem isReadBack_text (s : String) : (text s).IsReadBack :=
  fun _ rest _ ↦ build_scalar (Token.next_quotedChars s rest)

theorem isReadBack_null : null.IsReadBack := fun _ _ _ ↦ build_scalar rfl

/-- A whole number is read as it is written, if only zero itself begins with a zero. -/
theorem isReadBack_digits {ds : List Nat} (h : ∀ d ∈ ds, d < 10) (hne : ds ≠ [])
    (hzero : ds.head? = some 0 → ds = [0]) : (number ⟨false, ds, none, none⟩).IsReadBack := by
  intro stack rest hrest
  obtain ⟨d, ds, rfl⟩ := List.exists_cons_of_ne_nil hne
  have hchars : (number ⟨false, d :: ds, none, none⟩).chars = (d :: ds).map Nat.digitChar := by
    simp [chars, Literal.chars]
  obtain ⟨hgap, hstarts⟩ := startingWith_digitByte (h d List.mem_cons_self)
  have hends : ∀ b ∈ rest.head?, isDigit b = false ∧ b ≠ 46 ∧ b ≠ 101 ∧ b ≠ 69 := by
    intro b hb
    rcases hrest b hb with rfl | rfl | rfl <;> decide
  obtain ⟨hlead, hafter⟩ := leadingDigits_digits h fun b hb ↦ (hends b hb).1
  rw [hchars, utf8_map_digitChar h]
  refine build_scalar ?_
  rw [Token.next?, List.map_cons, List.cons_append, List.dropWhile_cons_of_neg (by simp [hgap])]
  dsimp only
  rw [hstarts, ← List.cons_append, ← List.map_cons, scanUnsigned, hlead, hafter]
  have hd : d = 0 → ds = [] := fun hd ↦ (List.cons.inj (hzero (by rw [hd]; rfl))).2
  -- nothing that may follow a value goes on with a number
  have hscan : scanFraction rest = some (none, rest) ∧ scanExponent rest = some (none, rest) := by
    cases rest with
    | nil => exact ⟨rfl, rfl⟩
    | cons b rest =>
      obtain ⟨-, hpoint, hsmall, hcapital⟩ := hends b rfl
      refine ⟨?_, by rw [scanExponent, if_neg (by simp [hsmall, hcapital])]⟩
      unfold scanFraction
      split
      · next heq => exact absurd (List.cons.inj heq).1 hpoint
      · rfl
  split
  · next heq => cases heq
  · next heq => simp_all
  · simp [hscan]

theorem isReadBack_whole {ds : List Nat} (h : ∀ d ∈ ds, d < 10) (hne : ds ≠ [])
    (hzero : ds.head? ≠ some 0) : (number ⟨false, ds, none, none⟩).IsReadBack :=
  isReadBack_digits h hne fun hhead ↦ absurd hhead hzero

/-- A name and its colon in front of anything. -/
theorem Named.read_quotedChars (name : String) (cs : List Char) (rest : List UInt8) :
    Named.read (Text.utf8 (quotedChars name ++ ':' :: cs) ++ rest) =
      .named (some name) (Text.utf8 cs ++ rest) := by
  rw [Text.utf8_append, List.append_assoc, Named.read, Token.next_quotedChars]
  rfl

/-- Members up to the brace behind them, from the first name on. -/
theorem exists_read_memberChars (m : String × Json) (ms : List (String × Json)) (rest : List UInt8)
    (h : ∀ x ∈ m :: ms, x.2.IsReadBack) :
    ∃ bytes, Named.read (Text.utf8 (memberChars ((m :: ms).map fun x ↦ (some x.1, x.2))) ++
        125 :: rest) = .named (some m.1) bytes ∧
      ∀ stack found, build (.object found (some m.1) :: stack) none bytes =
        build stack
          (some (.object (found.reverse ++ (m :: ms).map fun x ↦ (some x.1, x.2)))) rest := by
  induction ms generalizing m with
  | nil =>
    refine ⟨_, Named.read_quotedChars m.1 m.2.chars (125 :: rest), fun stack found ↦ ?_⟩
    have hvalue := h m List.mem_cons_self (.object found (some m.1) :: stack) (125 :: rest)
      (fun b hb ↦ .inr (.inr (Option.some.inj hb).symm))
    rw [hvalue, build_close rfl, List.reverse_cons]
    rfl
  | cons m' ms ih =>
    rw [List.forall_mem_cons] at h
    obtain ⟨bytes, hname, hmembers⟩ := ih m' h.2
    let more := Text.utf8 (memberChars ((m' :: ms).map fun x ↦ (some x.1, x.2))) ++ 125 :: rest
    refine ⟨Text.utf8 m.2.chars ++ 44 :: more, ?_, fun stack found ↦ ?_⟩
    · have hchars : memberChars ((m :: m' :: ms).map fun x ↦ (some x.1, x.2)) =
          (quotedChars m.1 ++ ':' :: m.2.chars) ++
            ',' :: memberChars ((m' :: ms).map fun x ↦ (some x.1, x.2)) := rfl
      rw [hchars, Text.utf8_append, List.append_assoc, Named.read_quotedChars, Text.utf8_cons]
      rfl
    · have hvalue := h.1 (.object found (some m.1) :: stack) (44 :: more)
        (fun b hb ↦ .inl (Option.some.inj hb).symm)
      rw [hvalue, build_comma rfl hname, hmembers, List.reverse_cons, List.append_assoc]
      rfl

theorem isReadBack_record {ms : List (String × Json)} (h : ∀ m ∈ ms, m.2.IsReadBack) :
    (record ms).IsReadBack := by
  intro stack rest _
  have hchars : Text.utf8 (record ms).chars ++ rest =
      123 :: (Text.utf8 (memberChars (ms.map fun m ↦ (some m.1, m.2))) ++ 125 :: rest) := by
    rw [record, chars, List.cons_append, Text.utf8_cons, Text.utf8_append, List.append_assoc,
      List.append_assoc]
    rfl
  rw [hchars]
  cases ms with
  | nil => exact build_empty rfl rfl
  | cons m ms =>
    obtain ⟨bytes, hname, hmembers⟩ := exists_read_memberChars m ms rest h
    rw [build_open rfl hname, hmembers]
    rfl

/-- A text of one value is that value and nothing else. -/
theorem IsReadBack.read_bytes {j : Json} (h : j.IsReadBack) : read j.bytes = ⟨j, false⟩ := by
  have hbuild := h [] [] nofun
  rw [List.append_nil] at hbuild
  rw [read, bytes, render, Text.data_toUTF8, hbuild, build]
  rfl

end Json

end Typist

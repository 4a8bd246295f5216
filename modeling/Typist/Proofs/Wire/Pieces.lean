import Mathlib.Data.List.Basic
import Typist.Proofs.Wire.Frames

/-!
# Streams that arrive in pieces

The bytes of a stream arrive in pieces that have nothing to do with its frames, and whoever reads a
frame reads on until the bytes that it needs are there. How the stream was cut does not matter: what
is read is what stands in the bytes. So frames are read back as they were written, and behind them
the end of the stream or what is wrong with it. Only a length that is cut short is taken for the end.
-/

namespace Typist.Frame

/-- What reading a frame gives: a message, or none where the stream is over. -/
abbrev Reading := Except FrameError (Option (List UInt8))

/-! ## Reading -/

/-- Reads until as many bytes as were asked for are there, behind those taken already, and tells which
pieces are left. Each read finds one piece and takes no more of it than is missing; where the stream
ends before, the bytes that were taken are lost. -/
def gather? (taken : List UInt8) (n : Nat) :
    List (List UInt8) → Option (List UInt8) × List (List UInt8)
  | [] => (if n = 0 then some taken else none, [])
  | piece :: pieces =>
    if n ≤ piece.length then (some (taken ++ piece.take n), piece.drop n :: pieces)
    else gather? (taken ++ piece) (n - piece.length) pieces

/-- The number that bytes stand for, the lowest first. -/
def valueOf (bytes : List UInt8) : Nat := bytes.foldr (fun b n ↦ b.toNat + 256 * n) 0

/-- Reads one frame, and tells which pieces are left. -/
def read (pieces : List (List UInt8)) : Reading × List (List UInt8) :=
  match gather? [] 4 pieces with
  | (none, pieces) => (.ok none, pieces)
  | (some head, pieces) =>
    if maxFrame < valueOf head then (.error (.tooLarge (valueOf head)), pieces)
    else
      match gather? [] (valueOf head) pieces with
      | (none, pieces) => (.error .truncated, pieces)
      | (some message, pieces) => (.ok (some message), pieces)

/-- Reads a number of times, one after the other. -/
def readTimes : Nat → List (List UInt8) → List Reading × List (List UInt8)
  | 0, pieces => ([], pieces)
  | n + 1, pieces =>
    let (r, pieces) := read pieces
    let (rs, pieces) := readTimes n pieces
    (r :: rs, pieces)

/-! ## The cuts do not matter -/

/-- As many bytes are read as were asked for, wherever they were cut, if there are as many. -/
theorem gather?_eq (taken : List UInt8) (n : Nat) (pieces : List (List UInt8)) :
    (gather? taken n pieces).1 =
        (if n ≤ pieces.flatten.length then some (taken ++ pieces.flatten.take n) else none) ∧
      (gather? taken n pieces).2.flatten = pieces.flatten.drop n := by
  induction pieces generalizing taken n with
  | nil =>
    cases n with
    | zero => simp [gather?]
    | succ n => simp [gather?]
  | cons piece pieces ih =>
    rw [gather?, List.flatten_cons, List.length_append]
    split
    · next hle =>
      rw [if_pos (Nat.le_add_right_of_le hle), List.take_append_of_le_length hle,
        List.drop_append_of_le_length hle, List.flatten_cons]
      exact ⟨rfl, rfl⟩
    · next hlt =>
      obtain ⟨hbytes, hleft⟩ := ih (taken ++ piece) (n - piece.length)
      have hpast : piece.length ≤ n := Nat.le_of_lt (Nat.lt_of_not_le hlt)
      rw [hbytes, hleft, List.take_append, List.drop_append, List.take_of_length_le hpast,
        List.drop_of_length_le hpast, List.append_assoc, List.nil_append]
      simp only [Nat.sub_le_iff_le_add']
      exact ⟨trivial, trivial⟩

/-- What is offered next, as whoever reads a frame hears of it. -/
def Next.reading : Next → Reading
  | .finished => .ok none
  | .frame message _ => .ok (some message)
  | .failed e _ => .error e

/-- What is left of the stream then. -/
def Next.left : Next → List UInt8
  | .finished => []
  | .frame _ rest => rest
  | .failed _ rest => rest

theorem gather?_none {n : Nat} {pieces : List (List UInt8)} (h : pieces.flatten.length < n) :
    (gather? [] n pieces).1 = none ∧ (gather? [] n pieces).2.flatten = [] := by
  obtain ⟨hbytes, hleft⟩ := gather?_eq [] n pieces
  rw [hbytes, hleft, if_neg (Nat.not_le_of_lt h)]
  exact ⟨rfl, List.drop_of_length_le (Nat.le_of_lt h)⟩

theorem gather?_some {bytes rest : List UInt8} {pieces : List (List UInt8)}
    (h : pieces.flatten = bytes ++ rest) :
    (gather? [] bytes.length pieces).1 = some bytes ∧
      (gather? [] bytes.length pieces).2.flatten = rest := by
  obtain ⟨hbytes, hleft⟩ := gather?_eq [] bytes.length pieces
  rw [hbytes, hleft, h, List.length_append, if_pos (Nat.le_add_right _ _), List.take_left,
    List.drop_left]
  exact ⟨rfl, rfl⟩

/-- What is read, and what is left, is what the bytes offer next. -/
theorem read_eq_next (pieces : List (List UInt8)) :
    (read pieces).1 = (next pieces.flatten).reading ∧
      (read pieces).2.flatten = (next pieces.flatten).left := by
  rw [read]
  match hbytes : pieces.flatten with
  | a :: b :: c :: d :: rest =>
    have hvalue : valueOf [a, b, c, d] = lengthOf a b c d := by
      simp only [valueOf, lengthOf, List.foldr]
      omega
    have hsplit : pieces.flatten = [a, b, c, d] ++ rest := hbytes
    obtain ⟨hhead, hbehind⟩ := gather?_some hsplit
    rcases hgather : gather? [] 4 pieces with ⟨head, behind⟩
    rw [List.length_cons, List.length_cons, List.length_cons, List.length_cons, List.length_nil,
      hgather] at hhead hbehind
    obtain rfl : head = some [a, b, c, d] := hhead
    obtain rfl : behind.flatten = rest := hbehind
    simp only [hvalue, next_cons]
    split
    · exact ⟨rfl, rfl⟩
    · obtain ⟨hmessage, hleft⟩ := gather?_eq [] (lengthOf a b c d) behind
      rcases hbody : gather? [] (lengthOf a b c d) behind with ⟨message, left⟩
      rw [hbody] at hmessage hleft
      by_cases hle : lengthOf a b c d ≤ behind.flatten.length
      · rw [if_pos hle] at hmessage ⊢
        obtain rfl : message = some (behind.flatten.take (lengthOf a b c d)) := hmessage
        exact ⟨rfl, hleft⟩
      · rw [if_neg hle] at hmessage ⊢
        obtain rfl : message = none := hmessage
        exact ⟨rfl, hleft.trans (List.drop_of_length_le (by omega))⟩
  | [] | [_] | [_, _] | [_, _, _] =>
    have hshort : pieces.flatten.length < 4 := by simp [hbytes]
    obtain ⟨hnone, hleft⟩ := gather?_none hshort
    rcases hgather : gather? [] 4 pieces with ⟨head, left⟩
    rw [hgather] at hnone hleft
    obtain rfl : head = none := hnone
    exact ⟨rfl, hleft⟩

/-- Reading once more. -/
theorem readTimes_succ (n : Nat) (pieces : List (List UInt8)) :
    (readTimes (n + 1) pieces).1 =
      (readTimes n pieces).1 ++ [(read (readTimes n pieces).2).1] := by
  induction n generalizing pieces with
  | zero => rfl
  | succ n ih => exact congrArg (_ :: ·) (ih _)

/-- Frames are read back as they were written, and what is behind them is left. -/
theorem readTimes_frames {messages : List (List UInt8)} (h : ∀ m ∈ messages, m.length ≤ maxFrame)
    {tail : List UInt8} {pieces : List (List UInt8)}
    (hcut : pieces.flatten = messages.flatMap encode ++ tail) :
    (readTimes messages.length pieces).1 = messages.map (.ok ∘ some) ∧
      (readTimes messages.length pieces).2.flatten = tail := by
  induction messages generalizing pieces with
  | nil => exact ⟨rfl, hcut⟩
  | cons m messages ih =>
    rw [List.forall_mem_cons] at h
    rw [List.flatMap_cons, List.append_assoc] at hcut
    obtain ⟨hfirst, hleft⟩ := read_eq_next pieces
    rw [hcut, next_encode_append_iff.mpr h.1] at hfirst hleft
    obtain ⟨hmessages, htail⟩ := ih h.2 hleft
    rw [List.length_cons, readTimes, List.map_cons]
    exact ⟨List.cons_eq_cons.mpr ⟨hfirst, hmessages⟩, htail⟩

/-- So behind the frames comes what the rest of the bytes offers. -/
theorem readTimes_frames_succ {messages : List (List UInt8)}
    (h : ∀ m ∈ messages, m.length ≤ maxFrame) {tail : List UInt8} {pieces : List (List UInt8)}
    (hcut : pieces.flatten = messages.flatMap encode ++ tail) :
    (readTimes (messages.length + 1) pieces).1 =
      messages.map (.ok ∘ some) ++ [(next tail).reading] := by
  obtain ⟨hmessages, htail⟩ := readTimes_frames h hcut
  rw [readTimes_succ, hmessages, (read_eq_next _).1, htail]

/-! ## How a stream ends -/

/-- What a length offers, with whatever is behind it. -/
theorem next_lengthBytes_append {n : Nat} (h : n < 4294967296) (rest : List UInt8) :
    next (lengthBytes n ++ rest) =
      if maxFrame < n then .failed (.tooLarge n) rest
      else if n ≤ rest.length then .frame (rest.take n) (rest.drop n)
      else .failed .truncated [] := by
  rw [lengthBytes]
  simp only [List.cons_append, List.nil_append]
  rw [next_cons, lengthOf_lengthBytes, Nat.mod_eq_of_lt h]

/-- Bytes hold no length, or a length comes first. -/
theorem length_cases (bytes : List UInt8) :
    bytes.length < 4 ∨ ∃ n rest, n < 4294967296 ∧ bytes = lengthBytes n ++ rest := by
  match bytes with
  | a :: b :: c :: d :: rest =>
    have ha := a.toNat_lt
    have hb := b.toNat_lt
    have hc := c.toNat_lt
    have hd := d.toNat_lt
    refine .inr ⟨lengthOf a b c d, rest, ?_, by rw [lengthBytes_lengthOf]; rfl⟩
    simp only [lengthOf]
    omega
  | [] | [_] | [_, _] | [_, _, _] =>
    left
    simp

/-- What stands behind the last whole frame of a stream, and how reading ends there if nothing is
amiss: at the end of the stream, or for a reason. -/
inductive Ends : List UInt8 → Reading → Prop
  | clean : Ends [] (.ok none)
  | tooLarge {n : Nat} (rest : List UInt8) : maxFrame < n → n < 4294967296 →
      Ends (lengthBytes n ++ rest) (.error (.tooLarge n))
  | cut {n : Nat} {body : List UInt8} : n ≤ maxFrame → body.length < n →
      Ends (lengthBytes n ++ body) (.error .truncated)

/-- Reading ends as it should. -/
theorem Ends.reading {tail : List UInt8} {r : Reading} (h : Ends tail r) :
    (next tail).reading = r := by
  cases h with
  | clean => rfl
  | tooLarge rest hlarge hword =>
    rw [next_lengthBytes_append hword, if_pos hlarge]
    rfl
  | cut hsmall hshort =>
    rw [next_lengthBytes_append (Nat.lt_of_le_of_lt hsmall (by decide)),
      if_neg (Nat.not_lt.mpr hsmall), if_neg (Nat.not_le.mpr hshort)]
    rfl

/-- Frames are read back as they were written, in order and however the bytes were cut, and behind
them the end of the stream, or what is wrong with it: a length that is too large, or fewer bytes than
a length tells. -/
theorem reads_back {messages : List (List UInt8)} (h : ∀ m ∈ messages, m.length ≤ maxFrame)
    {tail : List UInt8} {r : Reading} (hends : Ends tail r) {pieces : List (List UInt8)}
    (hcut : pieces.flatten = messages.flatMap encode ++ tail) :
    (readTimes (messages.length + 1) pieces).1 = messages.map (.ok ∘ some) ++ [r] := by
  rw [readTimes_frames_succ h hcut, hends.reading]

/-- No message and the largest one, byte by byte, and behind them a length that is too large by one. -/
theorem reads_back_of_largest :
    (∀ m ∈ [[], List.replicate maxFrame (7 : UInt8)], m.length ≤ maxFrame) ∧
      Ends (lengthBytes 1048577 ++ []) (.error (.tooLarge 1048577)) ∧
      (readTimes 3 (([[], List.replicate maxFrame 7].flatMap encode ++
        (lengthBytes 1048577 ++ [])).map fun b ↦ [b])).1 =
        [.ok (some []), .ok (some (List.replicate maxFrame 7)), .error (.tooLarge 1048577)] := by
  have hsmall : ∀ m ∈ [[], List.replicate maxFrame (7 : UInt8)], m.length ≤ maxFrame := by
    simp
  have hends : Ends (lengthBytes 1048577 ++ []) (.error (.tooLarge 1048577)) :=
    .tooLarge [] (by decide) (by decide)
  refine ⟨hsmall, hends, reads_back hsmall hends ?_⟩
  rw [← List.flatMap_def, List.flatMap_singleton']

/-- A stream is frames, and behind them bytes that offer no further one. -/
theorem exists_frames (bytes : List UInt8) :
    ∃ (messages : List (List UInt8)) (tail : List UInt8), (∀ m ∈ messages, m.length ≤ maxFrame) ∧
      bytes = messages.flatMap encode ++ tail ∧ ∀ m rest, next tail ≠ .frame m rest := by
  induction h : bytes.length using Nat.strongRecOn generalizing bytes with
  | _ n ih =>
    match hnext : next bytes with
    | .frame m rest =>
      obtain ⟨hbytes, hsmall⟩ := next_eq_frame_iff.mp hnext
      obtain ⟨messages, tail, hmessages, hrest, htail⟩ :=
        ih rest.length (h ▸ length_of_next hnext) rest rfl
      refine ⟨m :: messages, tail, List.forall_mem_cons.mpr ⟨hsmall, hmessages⟩, ?_, htail⟩
      rw [hbytes, hrest, List.flatMap_cons, List.append_assoc]
    | .finished => exact ⟨[], bytes, nofun, rfl, fun m rest ↦ by simp [hnext]⟩
    | .failed e rest => exact ⟨[], bytes, nofun, rfl, fun m rest ↦ by simp [hnext]⟩

/-- Reading finds the end of the stream where fewer bytes are left than a length has. -/
theorem reading_none_iff (bytes : List UInt8) :
    (next bytes).reading = .ok none ↔ bytes.length < 4 := by
  rcases length_cases bytes with hshort | ⟨n, rest, hword, rfl⟩
  · refine iff_of_true ?_ hshort
    rcases bytes with _ | ⟨a, _ | ⟨b, _ | ⟨c, _ | ⟨d, rest⟩⟩⟩⟩
    case cons.cons.cons.cons =>
      simp only [List.length_cons] at hshort
      omega
    all_goals rfl
  · refine iff_of_false ?_ (by simp [lengthBytes])
    rw [next_lengthBytes_append hword]
    split
    · simp [Next.reading]
    · split <;> simp [Next.reading]

/-- Bytes that offer no frame end a stream as they should, unless a length is cut short. -/
theorem ends_reading_iff {tail : List UInt8} (h : ∀ m rest, next tail ≠ .frame m rest) :
    Ends tail (next tail).reading ↔ tail = [] ∨ 4 ≤ tail.length := by
  constructor
  · generalize (next tail).reading = r
    intro hends
    cases hends with
    | clean => exact .inl rfl
    | tooLarge => exact .inr (by simp [lengthBytes])
    | cut => exact .inr (by simp [lengthBytes])
  · rintro (rfl | hlength)
    · exact .clean
    · rcases length_cases tail with hshort | ⟨n, rest, hword, rfl⟩
      · exact absurd hlength (Nat.not_le.mpr hshort)
      · rw [next_lengthBytes_append hword] at h ⊢
        split
        · next hlarge => exact .tooLarge rest hlarge hword
        · next hsmall =>
          rw [if_neg hsmall] at h
          split
          · next hle => exact absurd (if_pos hle) (h _ _)
          · next hlt => exact .cut (Nat.le_of_not_lt hsmall) (Nat.lt_of_not_le hlt)

/-- Reading finds the end of a stream where fewer bytes are left than a length has. So every stream is
frames, which are read in order, and behind them bytes where reading ends as it should exactly if
they are not a length that is cut short: such a length is taken for the end of the stream. -/
theorem stream_ends_iff (pieces : List (List UInt8)) :
    ((read pieces).1 = .ok none ↔ pieces.flatten.length < 4) ∧
      ∃ (messages : List (List UInt8)) (tail : List UInt8) (r : Reading),
        (∀ m ∈ messages, m.length ≤ maxFrame) ∧
        pieces.flatten = messages.flatMap encode ++ tail ∧
        (readTimes (messages.length + 1) pieces).1 = messages.map (.ok ∘ some) ++ [r] ∧
        (r = .ok none ↔ tail.length < 4) ∧ (Ends tail r ↔ tail = [] ∨ 4 ≤ tail.length) := by
  constructor
  · rw [(read_eq_next pieces).1, reading_none_iff]
  · obtain ⟨messages, tail, hsmall, hcut, htail⟩ := exists_frames pieces.flatten
    exact ⟨messages, tail, (next tail).reading, hsmall, hcut, readTimes_frames_succ hsmall hcut,
      reading_none_iff tail, ends_reading_iff htail⟩

/-- One byte of a length, and nothing more: the stream ends within a length, and reading takes this for
its end. -/
theorem lone_byte_taken_for_end :
    (read [[1]]).1 = .ok none ∧ [[(1 : UInt8)]].flatten ≠ [] ∧
      ∀ e, (read [[1]]).1 ≠ .error e := by
  refine ⟨rfl, by decide, ?_⟩
  rintro e ⟨⟩

end Typist.Frame

import Mathlib.Data.List.Basic
import Typist.Frame

/-!
# Frames on a stream

What stands at the front of a stream, and what bytes that follow can change about it. A frame that
is complete, and a length that is too large, stand whatever follows; only where bytes are missing do
more of them matter.
-/

namespace Typist.Frame

/-! ## Lengths -/

theorem lengthOf_lengthBytes (n : Nat) :
    lengthOf (UInt8.ofNat n) (UInt8.ofNat (n / 256)) (UInt8.ofNat (n / 65536))
      (UInt8.ofNat (n / 16777216)) = n % 4294967296 := by
  simp only [lengthOf, UInt8.toNat_ofNat']
  omega

/-- Four bytes are those of the length that they stand for. -/
theorem lengthBytes_lengthOf (a b c d : UInt8) : lengthBytes (lengthOf a b c d) = [a, b, c, d] := by
  have ha := a.toNat_lt
  have hb := b.toNat_lt
  have hc := c.toNat_lt
  have hd := d.toNat_lt
  simp only [lengthBytes, lengthOf, List.cons.injEq, and_true, ← UInt8.toNat_inj,
    UInt8.toNat_ofNat']
  omega

/-! ## Taking bytes -/

/-- Bytes are taken if there are as many. -/
theorem takeExactly?_eq (taken : List UInt8) (n : Nat) (bytes : List UInt8) :
    takeExactly? taken n bytes =
      if n ≤ bytes.length then some (taken.reverse ++ bytes.take n, bytes.drop n) else none := by
  fun_induction takeExactly? taken n bytes with
  | case1 taken rest => simp
  | case2 taken n => simp
  | case3 taken n b rest ih => simp [ih]

/-! ## The front of a stream -/

/-- What stands behind a length. -/
theorem next_cons (a b c d : UInt8) (bytes : List UInt8) :
    next (a :: b :: c :: d :: bytes) =
      if maxFrame < lengthOf a b c d then .failed (.tooLarge (lengthOf a b c d)) bytes
      else if lengthOf a b c d ≤ bytes.length then
        .frame (bytes.take (lengthOf a b c d)) (bytes.drop (lengthOf a b c d))
      else .failed .truncated [] := by
  simp only [next, takeExactly?_eq]
  by_cases h : lengthOf a b c d ≤ bytes.length
  · rw [if_pos h, if_pos h]
    rfl
  · rw [if_neg h, if_neg h]

/-- A stream offers something where a length is complete. -/
theorem next_cases (bytes : List UInt8) :
    next bytes = .finished ∨ ∃ a b c d rest, bytes = a :: b :: c :: d :: rest := by
  match bytes with
  | a :: b :: c :: d :: rest => exact .inr ⟨a, b, c, d, rest, rfl⟩
  | [] | [_] | [_, _] | [_, _, _] => exact .inl rfl

/-- A message is read as it was written if it is small enough, and only then. -/
theorem next_encode_append_iff {message rest : List UInt8} :
    next (encode message ++ rest) = .frame message rest ↔ message.length ≤ maxFrame := by
  rw [encode, lengthBytes, List.append_assoc]
  simp only [List.cons_append, List.nil_append]
  rw [next_cons, lengthOf_lengthBytes, List.length_append]
  constructor
  · intro h
    split at h
    · cases h
    · next hle =>
      rw [if_pos (by omega)] at h
      -- as many bytes are taken as the length says, so it is the length of the message
      have htake := congrArg List.length (Next.frame.inj h).1
      rw [List.length_take, List.length_append] at htake
      omega
  · intro h
    have hsmall : message.length % 4294967296 = message.length :=
      Nat.mod_eq_of_lt (Nat.lt_of_le_of_lt h (by decide))
    rw [hsmall, if_neg (Nat.not_lt.mpr h), if_pos (Nat.le_add_right _ _), List.take_left,
      List.drop_left]

/-- A frame is read exactly where one was written. -/
theorem next_eq_frame_iff {bytes message rest : List UInt8} :
    next bytes = .frame message rest ↔
      bytes = encode message ++ rest ∧ message.length ≤ maxFrame := by
  constructor
  · intro h
    suffices hbytes : bytes = encode message ++ rest by
      refine ⟨hbytes, ?_⟩
      rw [hbytes] at h
      exact next_encode_append_iff.mp h
    obtain hfinished | ⟨a, b, c, d, tail, rfl⟩ := next_cases bytes
    · rw [hfinished] at h
      cases h
    · rw [next_cons] at h
      split at h
      · cases h
      · split at h
        · next htake =>
          cases h
          rw [encode, List.length_take, Nat.min_eq_left htake, lengthBytes_lengthOf,
            List.append_assoc, List.take_append_drop]
          rfl
        · cases h
  · rintro ⟨rfl, h⟩
    exact next_encode_append_iff.mpr h

/-- A length that is too large stands whatever follows. -/
theorem next_append_of_tooLarge {bytes rest : List UInt8} {n : Nat}
    (h : next bytes = .failed (.tooLarge n) rest) (more : List UInt8) :
    next (bytes ++ more) = .failed (.tooLarge n) (rest ++ more) := by
  obtain hfinished | ⟨a, b, c, d, tail, rfl⟩ := next_cases bytes
  · rw [hfinished] at h
    cases h
  · rw [next_cons] at h
    split at h
    · next hlarge =>
      cases h
      simp only [List.cons_append, next_cons, if_pos hlarge]
    · split at h <;> cases h

/-! ## Whole streams -/

theorem readBehind_eq (messages : List (List UInt8)) (bytes : List UInt8) :
    readBehind messages bytes =
      { readAll bytes with messages := messages.reverse ++ (readAll bytes).messages } := by
  unfold readAll
  induction h : bytes.length using Nat.strongRecOn generalizing messages bytes with
  | _ n ih =>
    rw [readBehind.eq_def, readBehind.eq_def []]
    split
    · simp
    · simp
    · next message rest hnext =>
      have hlt : rest.length < n := h ▸ length_of_next hnext
      rw [ih _ hlt (message :: messages) rest rfl, ih _ hlt [message] rest rfl]
      simp

theorem readAll_of_frame {bytes message rest : List UInt8} (h : next bytes = .frame message rest) :
    (readAll bytes).messages = message :: (readAll rest).messages ∧
      (readAll bytes).error = (readAll rest).error := by
  have hread : readAll bytes = readBehind [message] rest := by
    rw [readAll, readBehind.eq_def]
    split <;> simp_all
  rw [hread, readBehind_eq]
  exact ⟨rfl, rfl⟩

theorem readAll_of_failed {bytes rest : List UInt8} {e : FrameError}
    (h : next bytes = .failed e rest) :
    (readAll bytes).messages = [] ∧ (readAll bytes).error = some e := by
  rw [readAll, readBehind.eq_def]
  split <;> simp_all

theorem readAll_of_finished {bytes : List UInt8} (h : next bytes = .finished) :
    (readAll bytes).messages = [] ∧ (readAll bytes).error = none := by
  rw [readAll, readBehind.eq_def]
  split <;> simp_all

/-- Frames at the front of a stream are its first messages. -/
theorem readAll_flatMap_encode_append {messages : List (List UInt8)}
    (h : ∀ m ∈ messages, m.length ≤ maxFrame) (rest : List UInt8) :
    (readAll (messages.flatMap encode ++ rest)).messages = messages ++ (readAll rest).messages ∧
      (readAll (messages.flatMap encode ++ rest)).error = (readAll rest).error := by
  induction messages with
  | nil => exact ⟨rfl, rfl⟩
  | cons m messages ih =>
    rw [List.forall_mem_cons] at h
    obtain ⟨hmessages, herror⟩ := ih h.2
    obtain ⟨hfirst, hsame⟩ := readAll_of_frame
      ((@next_encode_append_iff m (messages.flatMap encode ++ rest)).mpr h.1)
    rw [List.flatMap_cons, List.append_assoc, hfirst, hsame, hmessages, herror]
    exact ⟨rfl, rfl⟩

end Typist.Frame

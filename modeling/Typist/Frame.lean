/-!
# Frames

Messages travel as frames: the length of the message in four bytes, the lowest first, and then the
message. A stream ends where no further length is complete.
-/

namespace Typist

/-- The largest message that is accepted. -/
def maxFrame : Nat := 1024 * 1024

/-- Why a stream of frames cannot be read on. -/
inductive FrameError
  | tooLarge (length : Nat)
  | truncated
  deriving DecidableEq, Repr

/-- The wording of a frame error. -/
def FrameError.message : FrameError → String
  | .tooLarge length => "message too large (" ++ toString length ++ " bytes)"
  | .truncated => "truncated message body"

namespace Frame

/-- A length in four bytes, the lowest first; only its lowest 32 bits are kept. -/
def lengthBytes (n : Nat) : List UInt8 :=
  [UInt8.ofNat n, UInt8.ofNat (n / 256), UInt8.ofNat (n / 65536), UInt8.ofNat (n / 16777216)]

/-- The length that four bytes stand for. -/
def lengthOf (a b c d : UInt8) : Nat :=
  a.toNat + 256 * b.toNat + 65536 * c.toNat + 16777216 * d.toNat

/-- A message as a frame. -/
def encode (message : List UInt8) : List UInt8 := lengthBytes message.length ++ message

/-- Exactly as many bytes as were asked for, behind those taken already, latest first; and what
follows them. -/
def takeExactly? (taken : List UInt8) : Nat → List UInt8 → Option (List UInt8 × List UInt8)
  | 0, rest => some (taken.reverse, rest)
  | _ + 1, [] => none
  | n + 1, b :: rest => takeExactly? (b :: taken) n rest

/-- What a stream offers next. -/
inductive Next
  /-- The stream has no further length. -/
  | finished
  | frame (message rest : List UInt8)
  /-- The stream cannot be read on; the rest was not looked at. -/
  | failed (e : FrameError) (rest : List UInt8)
  deriving DecidableEq, Repr

/-- Reads one frame. -/
def next : List UInt8 → Next
  | a :: b :: c :: d :: rest =>
    let length := lengthOf a b c d
    if maxFrame < length then .failed (.tooLarge length) rest
    else
      match takeExactly? [] length rest with
      | some (message, rest) => .frame message rest
      | none => .failed .truncated []
  | _ => .finished

/-- Taking bytes leaves no more than there were. -/
theorem length_of_takeExactly {taken message rest : List UInt8} {n : Nat} {bytes : List UInt8}
    (h : takeExactly? taken n bytes = some (message, rest)) : rest.length ≤ bytes.length := by
  fun_induction takeExactly? taken n bytes <;> simp_all <;> omega

/-- A frame takes at least its length. -/
theorem length_of_next {bytes message rest : List UInt8} (h : next bytes = .frame message rest) :
    rest.length < bytes.length := by
  rw [next.eq_def] at h
  split at h
  · dsimp only at h
    split at h
    · simp at h
    · split at h
      · next ht =>
        have := length_of_takeExactly ht
        simp only [Next.frame.injEq] at h
        rw [← h.2]
        simp only [List.length_cons]
        omega
      · simp at h
  · simp at h

/-- A stream read to its end: the messages in order, and the error if it ends with one. -/
structure Stream where
  messages : List (List UInt8)
  error : Option FrameError
  /-- What was not looked at. -/
  rest : List UInt8
  deriving DecidableEq, Repr

/-- Reads frames behind those read already, latest first. -/
def readBehind (messages : List (List UInt8)) (bytes : List UInt8) : Stream :=
  match _h : next bytes with
  | .finished => ⟨messages.reverse, none, []⟩
  | .failed e rest => ⟨messages.reverse, some e, rest⟩
  | .frame message rest => readBehind (message :: messages) rest
termination_by bytes.length
decreasing_by exact length_of_next _h

/-- Reads every frame of a stream. -/
def readAll (bytes : List UInt8) : Stream := readBehind [] bytes

end Frame

end Typist

/-!
# Failures

A failure that ends the program is told with its causes, the nearest first. Of several causes each
bears its number, and the lines of a cause are indented alike.
-/

namespace Typist

/-- A failure: what could not be done, and the causes beneath it. -/
structure Failure where
  message : String
  causes : List String := []
  deriving DecidableEq, Repr

/-- The first line of a text. A line ends before a line feed, and before a carriage return that a
line feed follows; a carriage return alone is part of its line. -/
def Text.firstLine : List Char → List Char
  | [] | '\n' :: _ | '\r' :: '\n' :: _ => []
  | c :: cs => c :: firstLine cs

/-- A first line holds no line feed. -/
theorem Text.lineFeed_not_mem_firstLine (cs : List Char) : '\n' ∉ Text.firstLine cs := by
  fun_induction Text.firstLine cs with
  | case1 => simp
  | case2 => simp
  | case3 => simp
  | case4 c cs h _ ih =>
    rw [List.mem_cons, not_or]
    exact ⟨fun hc ↦ h hc.symm, ih⟩

namespace Failure

/-- A text behind a label, its further lines indented as far. -/
def hanging (label text : List Char) : List Char :=
  label ++ text.flatMap fun c ↦ if c = '\n' then c :: List.replicate label.length ' ' else [c]

/-- What stands before the cause of a number, which takes up five places. -/
def label (i : Nat) : List Char :=
  let digits := Nat.toDigits 10 i
  List.replicate (5 - digits.length) ' ' ++ digits ++ [':', ' ']

/-- The causes, each on a line of its own. A single one bears no number. -/
def causeLines : List String → List Char
  | [cause] => '\n' :: hanging (List.replicate 4 ' ') cause.toList
  | causes => causes.zipIdx.flatMap fun c ↦ '\n' :: hanging (label c.2) c.1.toList

/-- The text that tells a failure. -/
def report (f : Failure) : String :=
  "Error: " ++ f.message ++
    if f.causes.isEmpty then "" else "\n\nCaused by:" ++ String.ofList (causeLines f.causes)

/-- The first line of the text. -/
def headline (f : Failure) : String := String.ofList (Text.firstLine f.report.toList)

end Failure

end Typist

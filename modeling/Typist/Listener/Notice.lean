/-!
# Notices

What a listener tells the daemon, and the bounded queue through which it does. Posting never
waits: a notice that finds the queue full is dropped.
-/

namespace Typist

/-- A listener's news. -/
inductive Notice
  /-- The registered chord was pressed. -/
  | triggered
  /-- The system had disabled the listener, and it is on again. -/
  | restarted
  deriving DecidableEq, Repr

/-- A bounded queue of notices. -/
structure NoticeQueue where
  capacity : Nat
  waiting : List Notice := []
  deriving Repr

namespace NoticeQueue

/-- Whether a notice would be dropped. -/
def isFull (q : NoticeQueue) : Bool := decide (q.capacity ≤ q.waiting.length)

/-- Post a notice, which is dropped if the queue is full. -/
def post (q : NoticeQueue) (n : Notice) : NoticeQueue :=
  if q.isFull then q else { q with waiting := q.waiting ++ [n] }

/-- Post notices one after the other. -/
def postAll (q : NoticeQueue) (ns : List Notice) : NoticeQueue := ns.foldl post q

/-- Take the oldest notice. -/
def take? (q : NoticeQueue) : Option (Notice × NoticeQueue) :=
  match q.waiting with
  | [] => none
  | n :: ns => some (n, { q with waiting := ns })

/-- The queue without its notices. -/
def cleared (q : NoticeQueue) : NoticeQueue := { q with waiting := [] }

/-- A post that is not dropped is the newest notice; one that is dropped changes nothing. -/
theorem waiting_post (q : NoticeQueue) (n : Notice) :
    (q.post n).waiting = if q.isFull then q.waiting else q.waiting ++ [n] := by
  unfold post
  split <;> simp_all

/-- Posting keeps the queue within its capacity. -/
theorem length_post_le {q : NoticeQueue} (h : q.waiting.length ≤ q.capacity) (n : Notice) :
    (q.post n).waiting.length ≤ (q.post n).capacity := by
  unfold post isFull
  split
  · exact h
  · rename_i hfull
    simp only [decide_eq_true_eq, Nat.not_le] at hfull
    simp only [List.length_append, List.length_singleton]
    omega

end NoticeQueue

end Typist

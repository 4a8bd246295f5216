import Mathlib.Data.List.Basic
import Typist.Listener.Notice

/-!
# Dropped notices

A listener posts presses and restarts to one bounded queue, from which they are received in order. A
notice that finds the queue full is dropped. For a press this does no harm while another press waits;
but restarts take up the same room, and where they take up all of it the press is lost.
-/

namespace Typist.NoticeQueue

/-- What happens to a queue. -/
inductive Act
  | post (n : Notice)
  /-- The oldest notice is received, if there is one. -/
  | take
  deriving DecidableEq, Repr

/-- An empty queue. -/
def ofCapacity (capacity : Nat) : NoticeQueue := { capacity }

/-- The queue after one act. -/
def act (q : NoticeQueue) : Act → NoticeQueue
  | .post n => q.post n
  | .take => (q.take?.map Prod.snd).getD q

/-- The queue after acts. -/
def run (q : NoticeQueue) (as : List Act) : NoticeQueue := as.foldl act q

/-- The notices that acts let in, in order. -/
def admitted (q : NoticeQueue) : List Act → List Notice
  | [] => []
  | .post n :: as => (if q.isFull then [] else [n]) ++ (q.post n).admitted as
  | .take :: as => (q.act .take).admitted as

/-- The notices that are received, in order. -/
def received (q : NoticeQueue) : List Act → List Notice
  | [] => []
  | .post n :: as => (q.post n).received as
  | .take :: as => (q.take?.map Prod.fst).toList ++ (q.act .take).received as

/-- Whether restarts take up all the room of a queue. -/
def IsStuffed (q : NoticeQueue) : Prop := q.waiting = List.replicate q.capacity .restarted

/-! ## One act -/

theorem capacity_post (q : NoticeQueue) (n : Notice) : (q.post n).capacity = q.capacity := by
  unfold post
  split <;> rfl

/-- A post is dropped exactly if the queue is full. -/
theorem post_eq_self_iff (q : NoticeQueue) (n : Notice) : q.post n = q ↔ q.isFull = true := by
  constructor
  · intro h
    by_contra hfull
    have hwaiting := congrArg NoticeQueue.waiting h
    rw [waiting_post, if_neg hfull] at hwaiting
    exact List.cons_ne_nil _ _ (List.append_right_eq_self.mp hwaiting)
  · intro h
    rw [post, if_pos h]

theorem act_take_nil {q : NoticeQueue} (h : q.waiting = []) :
    q.take? = none ∧ q.act .take = q := by
  have hnone : q.take? = none := by rw [take?, h]
  exact ⟨hnone, by rw [act, hnone]; rfl⟩

theorem act_take_cons {q : NoticeQueue} {n : Notice} {ns : List Notice} (h : q.waiting = n :: ns) :
    q.take? = some (n, { q with waiting := ns }) ∧ q.act .take = { q with waiting := ns } := by
  have hsome : q.take? = some (n, { q with waiting := ns }) := by rw [take?, h]
  exact ⟨hsome, by rw [act, hsome]; rfl⟩

/-- A queue keeps to its capacity. -/
theorem length_act_le {q : NoticeQueue} (h : q.waiting.length ≤ q.capacity) (a : Act) :
    (q.act a).capacity = q.capacity ∧ (q.act a).waiting.length ≤ q.capacity := by
  cases a with
  | post n => exact ⟨q.capacity_post n, q.capacity_post n ▸ length_post_le h n⟩
  | take =>
    cases hq : q.waiting with
    | nil =>
      rw [(act_take_nil hq).2]
      exact ⟨rfl, h⟩
    | cons n ns =>
      rw [(act_take_cons hq).2]
      rw [hq, List.length_cons] at h
      exact ⟨rfl, Nat.le_of_succ_le h⟩

/-! ## Runs -/

theorem length_run_le {q : NoticeQueue} (h : q.waiting.length ≤ q.capacity) (as : List Act) :
    (q.run as).capacity = q.capacity ∧ (q.run as).waiting.length ≤ q.capacity := by
  induction as generalizing q with
  | nil => exact ⟨rfl, h⟩
  | cons a as ih =>
    obtain ⟨hcapacity, hlength⟩ := length_act_le h a
    rw [← hcapacity] at hlength ⊢
    exact ih hlength

/-- What was waiting and what was let in has been received, or waits. -/
theorem waiting_append_admitted (q : NoticeQueue) (as : List Act) :
    q.waiting ++ q.admitted as = q.received as ++ (q.run as).waiting := by
  induction as generalizing q with
  | nil => simp [admitted, received, run]
  | cons a as ih =>
    cases a with
    | post n =>
      have hwaiting := q.waiting_post n
      rw [admitted, received, ← List.append_assoc]
      refine Eq.trans ?_ (ih (q.post n))
      rw [hwaiting]
      split <;> simp
    | take =>
      rw [admitted, received, run, List.foldl_cons]
      cases hq : q.waiting with
      | nil =>
        obtain ⟨hnone, hsame⟩ := act_take_nil hq
        have hrest := ih q
        rw [hq] at hrest
        rw [hnone, hsame]
        exact hrest
      | cons n ns =>
        obtain ⟨hsome, hnext⟩ := act_take_cons hq
        rw [hsome, hnext, List.cons_append]
        exact congrArg (n :: ·) (ih { q with waiting := ns })

/-- As many notices as are taken are received from the front of the queue. -/
theorem take_waiting_prefix_received (q : NoticeQueue) (as : List Act) :
    q.waiting.take (as.count .take) <+: q.received as := by
  induction as generalizing q with
  | nil => exact List.nil_prefix
  | cons a as ih =>
    cases a with
    | post n =>
      rw [received, List.count_cons_of_ne (by simp)]
      refine List.IsPrefix.trans ?_ (ih (q.post n))
      rw [waiting_post]
      split
      · exact List.prefix_refl _
      · rw [List.take_append]
        exact List.prefix_append _ _
    | take =>
      rw [received, List.count_cons_self]
      cases hq : q.waiting with
      | nil => exact List.nil_prefix
      | cons n ns =>
        obtain ⟨hsome, hnext⟩ := act_take_cons hq
        rw [hsome, hnext, List.take_succ_cons]
        exact (List.cons_prefix_cons.mpr ⟨rfl, ih { q with waiting := ns }⟩)

/-- Only what is posted is let in. -/
theorem count_admitted_le (q : NoticeQueue) (as : List Act) (n : Notice) :
    (q.admitted as).count n ≤ as.count (.post n) := by
  induction as generalizing q with
  | nil => exact Nat.le_refl _
  | cons a as ih =>
    cases a with
    | post m =>
      have hone : (if q.isFull then [] else [m]).count n ≤ [Act.post m].count (.post n) := by
        split
        · exact Nat.zero_le _
        · simp only [List.count_singleton, beq_iff_eq, Act.post.injEq]
          exact Nat.le_refl _
      rw [admitted, List.count_append, List.count_cons, Nat.add_comm]
      refine Nat.add_le_add (ih (q.post m)) (Nat.le_trans hone (Nat.le_of_eq ?_))
      exact List.count_singleton
    | take =>
      rw [admitted, List.count_cons_of_ne (by simp)]
      exact ih (q.act .take)

/-- So a notice that neither waits nor is posted again is not received. -/
theorem not_mem_received {q : NoticeQueue} {as : List Act} {n : Notice} (hwaits : n ∉ q.waiting)
    (hposted : .post n ∉ as) : n ∉ q.received as := by
  intro hmem
  have hall : n ∈ q.waiting ++ q.admitted as :=
    q.waiting_append_admitted as ▸ List.mem_append_left _ hmem
  rcases List.mem_append.mp hall with h | h
  · exact hwaits h
  · have hcount := Nat.lt_of_lt_of_le (List.count_pos_iff.mpr h) (q.count_admitted_le as n)
    exact hposted (List.count_pos_iff.mp hcount)

/-! ## Presses -/

/-- A queue is stuffed exactly if a press would be dropped and no press waits. -/
theorem isStuffed_iff {q : NoticeQueue} (h : q.waiting.length ≤ q.capacity) :
    q.IsStuffed ↔ q.isFull = true ∧ .triggered ∉ q.waiting := by
  rw [IsStuffed, List.eq_replicate_iff, isFull, decide_eq_true_eq]
  constructor
  · rintro ⟨hlength, hall⟩
    exact ⟨Nat.le_of_eq hlength.symm, fun hmem ↦ nomatch hall _ hmem⟩
  · rintro ⟨hfull, hnone⟩
    refine ⟨Nat.le_antisymm h hfull, fun n hn ↦ ?_⟩
    cases n with
    | triggered => exact absurd hn hnone
    | restarted => rfl

/-- At every moment of every run, what waits is what was let in and not received yet. A press that is
dropped then finds another one waiting, unless the queue is stuffed with restarts; so it comes to be
received when as many notices are taken as there were, and in a stuffed queue it is not, unless there
is another press. It takes as many restarts as there is room to stuff a queue. -/
theorem press_kept_iff (capacity : Nat) (as : List Act) :
    let q := (ofCapacity capacity).run as
    (ofCapacity capacity).admitted as = (ofCapacity capacity).received as ++ q.waiting ∧
      ((q.post .triggered = q → .triggered ∈ q.waiting) ↔ ¬ q.IsStuffed) ∧
      (¬ q.IsStuffed → ∀ later : List Act, q.waiting.length < later.count .take →
        .triggered ∈ (q.post .triggered).received later) ∧
      (q.IsStuffed → ∀ later : List Act, .post .triggered ∉ later →
        .triggered ∉ (q.post .triggered).received later) ∧
      (q.IsStuffed → capacity ≤ as.count (.post .restarted)) := by
  intro q
  obtain ⟨hcapacity, hbound⟩ :=
    length_run_le (q := ofCapacity capacity) (Nat.zero_le _) as
  have hstuffed := isStuffed_iff (q := q) (hcapacity ▸ hbound)
  have hadmitted := (ofCapacity capacity).waiting_append_admitted as
  refine ⟨hadmitted, ?_, ?_, ?_, ?_⟩
  · rw [post_eq_self_iff, hstuffed, not_and_not_right]
  · intro hroom later hlater
    have hwaits : .triggered ∈ (q.post .triggered).waiting := by
      rw [waiting_post]
      split
      · next hfull =>
        by_contra hnone
        exact hroom (hstuffed.mpr ⟨hfull, hnone⟩)
      · exact List.mem_append_right _ (List.mem_singleton_self _)
    have hlength : (q.post .triggered).waiting.length ≤ later.count .take := by
      rw [waiting_post]
      split
      · exact Nat.le_of_lt hlater
      · rw [List.length_append]
        exact hlater
    have hprefix := (q.post .triggered).take_waiting_prefix_received later
    rw [List.take_of_length_le hlength] at hprefix
    exact hprefix.subset hwaits
  · intro h later hposted
    obtain ⟨hfull, hnone⟩ := hstuffed.mp h
    rw [(post_eq_self_iff q .triggered).mpr hfull]
    exact not_mem_received hnone hposted
  · intro h
    calc capacity = q.waiting.count .restarted := by rw [h, List.count_replicate_self, hcapacity]; rfl
      _ ≤ ((ofCapacity capacity).received as ++ q.waiting).count .restarted := by
        rw [List.count_append]
        exact Nat.le_add_left _ _
      _ = ((ofCapacity capacity).admitted as).count .restarted := by rw [← hadmitted]; rfl
      _ ≤ as.count (.post .restarted) := count_admitted_le _ as .restarted

/-- A restart in a queue with room for one notice: the press is dropped, no other press waits, and
nothing is heard of it. -/
theorem press_lost_behind_restart :
    let q := (ofCapacity 1).run [.post .restarted]
    q.post .triggered = q ∧ .triggered ∉ q.waiting ∧
      (ofCapacity 1).received [.post .restarted, .post .triggered, .take, .take] = [.restarted] := by
  refine ⟨rfl, ?_, ?_⟩
  · decide
  · decide

end Typist.NoticeQueue

import Typist.Proofs.Daemon.Completion
import Typist.Proofs.Wire.Answering

/-!
# To the last frame

Wherever a run of the server has come to, it can go on, although nobody sends anything more, until
no frame of a client is left without a response: the daemon answers, the reader reads what it can,
and the connection handles it, frame by frame.
-/

namespace Typist

namespace ReadingServer

variable {σ : Type} (w : Surroundings σ) (crashReason : String)

/-! ## Steps without the outside -/

/-- Steps in which nobody outside has a part. -/
def Choice.isInner : Choice → Bool
  | .server (.daemon ..) | .read _ | .post _ | .serve .. => true
  | _ => false

/-- Nothing more is sent by a client in them. -/
theorem feed_append {i : Nat} {cs more : List Choice} (h : ∀ c ∈ more, c.isInner = true) :
    feed i (cs ++ more) = feed i cs := by
  unfold feed Server.feed
  rw [List.filterMap_append, List.foldl_append]
  generalize (cs.filterMap Choice.server?).foldl (Server.Feed.after i) {} = f
  induction more with
  | nil => rfl
  | cons c more ih =>
    rw [List.forall_mem_cons] at h
    cases c with
    | server c =>
      cases c with
      | daemon => exact ih h.2
      | _ => exact nomatch h.1
    | _ => exact ih h.2

theorem frames_append {i : Nat} {cs more : List Choice} (h : ∀ c ∈ more, c.isInner = true) :
    frames i (cs ++ more) = frames i cs := by
  rw [frames, feed_append h, ← frames]

/-- What moves in the daemon, as steps of the server. -/
def ofMoves (ms : List Daemon.Choice) : List Choice := ms.map fun m ↦ .server (.daemon m 0)

theorem isInner_ofMoves {ms : List Daemon.Choice} {c : Choice} (h : c ∈ ofMoves ms) :
    c.isInner = true := by
  obtain ⟨m, -, rfl⟩ := List.mem_map.mp h
  rfl

theorem taken_append (r : ReadingServer σ) (i : Nat) (cs rest : List Choice) :
    r.taken w crashReason i (cs ++ rest) =
      r.taken w crashReason i cs ++ (r.run w crashReason cs).1.taken w crashReason i rest :=
  history_append w crashReason _ r cs rest

theorem taken_singleton (r : ReadingServer σ) (i : Nat) (c : Choice) :
    r.taken w crashReason i [c] = r.takes i c := List.append_nil _

theorem taken_ofMoves (r : ReadingServer σ) (i : Nat) (cs : List Choice) (ms : List Daemon.Choice) :
    r.taken w crashReason i (cs ++ ofMoves ms) = r.taken w crashReason i cs := by
  have hnone (r : ReadingServer σ) : r.taken w crashReason i (ofMoves ms) = [] := by
    induction ms generalizing r with
    | nil => rfl
    | cons m ms ih => exact ih _
  rw [taken_append, hnone, List.append_nil]

/-- They are steps of the daemon, unless somebody sends a command. -/
theorem daemonRun_ofMoves (r : ReadingServer σ) (cs : List Choice) {ms : List Daemon.Choice}
    (hms : Daemon.sends ms = []) :
    r.daemonRun w crashReason (cs ++ ofMoves ms) = r.daemonRun w crashReason cs ++ ms := by
  have hmoves (s : Server σ) :
      s.daemonRun w crashReason (ms.map (Server.Choice.daemon · 0)) = ms := by
    induction ms generalizing s with
    | nil => rfl
    | cons m ms ih =>
      cases m with
      | send => exact nomatch hms
      | _ => exact congrArg (_ :: ·) (ih hms _)
  have hplain (r : ReadingServer σ) :
      r.plainRun w crashReason (ofMoves ms) = ms.map (Server.Choice.daemon · 0) := by
    clear hms hmoves
    induction ms generalizing r with
    | nil => rfl
    | cons m ms ih => exact congrArg (_ :: ·) (ih _)
  rw [daemonRun, plainRun, history_append, ← plainRun, ← plainRun, hplain, Server.daemonRun,
    Server.history_append, ← Server.daemonRun, ← Server.daemonRun, hmoves, ← daemonRun]

end ReadingServer

namespace Reader

/-- What is in the queue stays there until it is handled. -/
theorem queue_post_ne_nil {r : Reader} (h : r.queue ≠ []) : r.post.queue ≠ [] := by
  unfold post
  split
  · split
    · exact List.append_ne_nil_of_left_ne_nil h _
    · exact h
  · exact h

theorem read_frame (r : Reader) (c : Connection) :
    (r.read c).1.queue = r.queue ∧ (r.read c).2.isIdle = c.isIdle := by
  obtain h | ⟨-, -, ⟨m, rest, -, h⟩ | ⟨e?, -, h⟩⟩ := r.read_cases c
  all_goals
    rw [h]
    exact ⟨rfl, rfl⟩

/-- Where the queue is empty there is room for what is in hand. -/
theorem hand_post {r : Reader} (h : r.post.queue = []) : r.post.hand = none := by
  unfold post at h ⊢
  split
  · next d hd =>
    rw [hd] at h
    dsimp only at h
    split at h
    · exact absurd h (List.append_ne_nil_of_right_ne_nil _ (List.cons_ne_nil _ _))
    · next hroom =>
      rw [h] at hroom
      exact absurd (by decide) hroom
  · next hd => exact hd

/-- Once everything was read that can be read at once, there is something to be handled, or all is
handled and more can follow. -/
theorem ready_or_exhausted (r : Reader) {c : Connection} (hidle : c.isIdle = true) :
    (r.post.read c).1.post.isReady (r.post.read c).2 = true ∨
      (r.post.read c).1.post.held = [] ∧ (r.post.read c).2 = c ∧
        ¬ Frame.IsOver c.ended c.unread ∧ ∀ m rest, Frame.next c.unread ≠ .frame m rest := by
  by_cases hq : r.post.queue = []
  · have hhand := hand_post hq
    have hopen : c.isOpen = true := (Bool.and_eq_true_iff.mp hidle).1
    generalize r.post = r at hq hhand
    obtain ⟨hand, queue, stopped⟩ := r
    obtain rfl : hand = none := hhand
    obtain rfl : queue = [] := hq
    cases stopped with
    | true => exact .inl (by simp [read, post, isReady, isDone, hidle])
    | false =>
      cases hnext : Frame.next c.unread with
      | frame m rest =>
        left
        simpa [read, post, isReady, room, hopen, hnext, Connection.isIdle] using hidle
      | failed e rest =>
        cases e with
        | tooLarge n => exact .inl (by simp [read, post, isReady, room, hopen, hnext, hidle])
        | truncated =>
          cases hended : c.ended with
          | true => exact .inl (by simp [read, post, isReady, room, hopen, hnext, hidle, hended])
          | false =>
            refine .inr ⟨?_, ?_, ?_, by simp⟩
            · simp [read, post, held, hopen, hnext, hended]
            · simp [read, hopen, hnext, hended]
            · simp [Frame.IsOver, hnext]
      | finished =>
        cases hended : c.ended with
        | true => exact .inl (by simp [read, post, isReady, isDone, hopen, hnext, hidle, hended])
        | false =>
          refine .inr ⟨?_, ?_, ?_, by simp⟩
          · simp [read, post, held, hopen, hnext, hended]
          · simp [read, hopen, hnext, hended]
          · simp [Frame.IsOver, hnext]
  · obtain ⟨hqueue, hsame⟩ := r.post.read_frame c
    left
    have hne := queue_post_ne_nil (hqueue ▸ hq)
    simp [isReady, hsame, hidle, hne]

end Reader

namespace ReadingServer

variable {σ : Type} (w : Surroundings σ) (crashReason : String)

/-- A reader reads what it can. -/
def fetch (i : Nat) : List Choice := [.post i, .read i, .post i]

theorem taken_fetch (r : ReadingServer σ) (i : Nat) : r.taken w crashReason i (fetch i) = [] := rfl

theorem run_fetch {r : ReadingServer σ} {i : Nat} {c : Connection}
    (hc : r.connections[i]? = some c) :
    (r.run w crashReason (fetch i)).1.connections[i]? = some ((r.readers i).post.read c).2 ∧
      (r.run w crashReason (fetch i)).1.readers i = ((r.readers i).post.read c).1.post := by
  obtain ⟨hlt, rfl⟩ := List.getElem?_eq_some_iff.mp hc
  simp [run, fetch, step, put, hlt]

/-- A connection with something to handle takes a frame, or closes. -/
theorem serve_of_ready {r : ReadingServer σ} {i : Nat} {c : Connection}
    (hc : r.connections[i]? = some c) (h : (r.readers i).isReady c = true) :
    (∃ x, r.takes i (.serve i 0) = [x]) ∨
      ∃ c', (r.step w crashReason (.serve i 0)).1.connections[i]? = some c' ∧ c'.isOpen = false := by
  obtain ⟨hlt, rfl⟩ := List.getElem?_eq_some_iff.mp hc
  rw [Reader.isReady, Bool.and_eq_true] at h
  cases hq : (r.readers i).queue with
  | cons x queue =>
    cases x with
    | frame m => exact .inl ⟨(m, ⟨r.issued⟩), by simp [takes, hlt, h.1, hq]⟩
    | failed e =>
      refine .inr ⟨r.connections[i].close, ?_, rfl⟩
      simp [step, serve, Reader.serve, put, hlt, h.1, hq]
  | nil =>
    have hdone : (r.readers i).isDone = true := by simpa [hq] using h.2
    refine .inr ⟨r.connections[i].close, ?_, rfl⟩
    simp [step, serve, Reader.serve, put, hlt, h.1, hq, hdone]

/-- Whether a client has got all its responses, and the connection is closed if no frame can
follow. -/
structure IsDone (r : ReadingServer σ) (i : Nat) (cs : List Choice) : Prop where
  answered : (r.responsesTo w crashReason i cs).length = (frames i cs).length
  closed : IsOver (feed i cs) → ∀ c, (r.run w crashReason cs).1.connections[i]? = some c →
    c.isOpen = false

section Done

variable {w crashReason} in
theorem Answers.done_of_closed {r : ReadingServer σ} {i : Nat} {cs : List Choice}
    (h : r.Answers w crashReason i cs) {c : Connection}
    (hc : (r.run w crashReason cs).1.connections[i]? = some c) (hclosed : c.isOpen = false) :
    r.IsDone w crashReason i cs where
  answered := (h.closed c hc hclosed).1
  closed _ c' hc' := by
    obtain rfl : c = c' := Option.some.inj (hc.symm.trans hc')
    exact hclosed

variable {s : Server σ} (hs : s.Unused) {i : Nat}

variable {w crashReason} in
/-- Steps in which nobody outside has a part leave the client there, and the server going. -/
theorem isInner_append {cs more : List Choice} (hinner : ∀ c ∈ more, c.isInner = true)
    (hcs : .server .shutDown ∉ cs) (hleave : .server (.leave i) ∉ cs) :
    .server .shutDown ∉ cs ++ more ∧ .server (.leave i) ∉ cs ++ more := by
  simp only [List.mem_append, not_or]
  exact ⟨⟨hcs, fun h ↦ nomatch hinner _ h⟩, hleave, fun h ↦ nomatch hinner _ h⟩

include hs in
theorem length_append (cs : List Choice) {more : List Choice}
    (hinner : ∀ c ∈ more, c.isInner = true) :
    (s.reading.run w crashReason (cs ++ more)).1.connections.length =
      (s.reading.run w crashReason cs).1.connections.length := by
  have hfeed := feed_eq w crashReason hs 0 (cs ++ more)
  rw [feed_append hinner, feed_eq w crashReason hs] at hfeed
  exact (Server.Feed.mk.inj hfeed).1.symm

include hs in
/-- The daemon can come to owe nobody an answer. -/
theorem exists_settled (cs : List Choice) : ∃ ms, Daemon.sends ms = [] ∧
    (s.reading.run w crashReason (cs ++ ofMoves ms)).1.daemon.outstanding = [] := by
  obtain ⟨ms, hms, hend⟩ :=
    hs.daemon.exists_settled w crashReason (s.reading.daemonRun w crashReason cs)
  refine ⟨ms, hms, ?_⟩
  have hplain := (run_reading w crashReason s (cs ++ ofMoves ms)).1
  have hrun := daemonRun_ofMoves w crashReason s.reading cs hms
  have hdaemon := (s.daemon_run w crashReason
    (s.reading.plainRun w crashReason (cs ++ ofMoves ms))).1
  rw [daemonRun, plain_reading] at hrun
  rw [← hplain, hrun] at hdaemon
  show (s.reading.run w crashReason (cs ++ ofMoves ms)).1.plain.daemon.outstanding = []
  rw [hdaemon]
  exact hend

section Going

variable {cs : List Choice} (hcs : .server .shutDown ∉ cs) (hleave : .server (.leave i) ∉ cs)

include hs hcs hleave in
/-- Where a connection has handled everything, and no frame is next, the stream is over as far as
the connection knows, if it is over. -/
theorem over_of_isOver {c : Connection}
    (hc : (s.reading.run w crashReason cs).1.connections[i]? = some c) (hopen : c.isOpen = true)
    (hheld : ((s.reading.run w crashReason cs).1.readers i).held = [])
    (hnext : ∀ m rest, Frame.next c.unread ≠ .frame m rest) (h : IsOver (feed i cs)) :
    Frame.IsOver c.ended c.unread := by
  have hcourse := course w crashReason hs hcs hleave hc
  obtain ⟨tail, -, herror, htail⟩ := frames_of_course hcourse
  rw [show (c.behind _).isOpen = true from hopen, if_pos rfl, Reader.bytes, hheld] at htail
  have htail : tail = c.unread := htail
  rw [IsOver, feed_eq w crashReason hs] at h
  rw [← hcourse.ended, herror, htail] at h
  exact .of_error hnext h

include hs hcs hleave in
/-- A connection that is idle handles a further frame, if there is one. -/
theorem exists_taken {c : Connection}
    (hc : (s.reading.run w crashReason cs).1.connections[i]? = some c) (hidle : c.isIdle = true) :
    ∃ more, (∀ c ∈ more, c.isInner = true) ∧ (s.reading.IsDone w crashReason i (cs ++ more) ∨
      (s.reading.taken w crashReason i (cs ++ more)).length =
        (s.reading.taken w crashReason i cs).length + 1) := by
  have hi := (List.getElem?_eq_some_iff.mp hc).1
  have hinner : ∀ c ∈ fetch i, c.isInner = true := by simp [fetch, Choice.isInner]
  have hserve : ∀ c ∈ fetch i ++ [.serve i 0], c.isInner = true := by simp [fetch, Choice.isInner]
  obtain ⟨hfetched, hreader⟩ := run_fetch w crashReason hc
  have hrun : (s.reading.run w crashReason (cs ++ fetch i)).1 =
      ((s.reading.run w crashReason cs).1.run w crashReason (fetch i)).1 := by rw [run_append]
  rw [← hrun] at hfetched hreader
  obtain hready | ⟨hheld, hsame, hover, hnext⟩ :=
    ((s.reading.run w crashReason cs).1.readers i).ready_or_exhausted hidle
  · refine ⟨fetch i ++ [.serve i 0], hserve, ?_⟩
    rw [← hreader] at hready
    rw [← List.append_assoc]
    obtain ⟨x, hx⟩ | ⟨c', hc', hclosed⟩ := serve_of_ready w crashReason hfetched hready
    · right
      rw [taken_append, taken_append, taken_fetch, List.append_nil, taken_singleton, hx,
        List.length_append]
      rfl
    · left
      obtain ⟨hcs', hleave'⟩ := isInner_append hserve hcs hleave
      have hi' := (length_append w crashReason hs cs hserve).symm ▸ hi
      rw [← List.append_assoc] at hcs' hleave' hi'
      refine (answers w crashReason hs hcs' hleave' hi').done_of_closed (c := c') ?_ hclosed
      rw [run_append]
      exact hc'
  · refine ⟨fetch i, hinner, .inl ?_⟩
    obtain ⟨hcs', hleave'⟩ := isInner_append hinner hcs hleave
    have hi' := (length_append w crashReason hs cs hinner).symm ▸ hi
    have hanswers := answers w crashReason hs hcs' hleave' hi'
    rw [hsame] at hfetched
    rw [← hreader] at hheld
    refine ⟨hanswers.settled c hfetched hidle hheld hnext, fun h ↦ absurd ?_ hover⟩
    have hopen : c.isOpen = true := (Bool.and_eq_true_iff.mp hidle).1
    exact over_of_isOver w crashReason hs hcs' hleave' hfetched hopen hheld hnext h

end Going

include hs in
/-- Wherever a run has come to, it can go on until all frames have their responses, although nobody
sends anything more. -/
theorem exists_done {cs : List Choice} (hcs : .server .shutDown ∉ cs)
    (hleave : .server (.leave i) ∉ cs)
    (hi : i < (s.reading.run w crashReason cs).1.connections.length) :
    ∃ more, (∀ c ∈ more, c.isInner = true) ∧ s.reading.IsDone w crashReason i (cs ++ more) := by
  induction hn : (frames i cs).length - (s.reading.taken w crashReason i cs).length using
    Nat.strongRecOn generalizing cs with
  | _ n ih =>
    -- first the daemon answers, so that the connection can turn to something new
    obtain ⟨ms, -, hsettled⟩ := exists_settled w crashReason hs cs
    have hmoves : ∀ c ∈ ofMoves ms, c.isInner = true := fun _ ↦ isInner_ofMoves
    obtain ⟨hcs₁, hleave₁⟩ := isInner_append hmoves hcs hleave
    have hi₁ := (length_append w crashReason hs cs hmoves).symm ▸ hi
    have hanswers₁ := answers w crashReason hs hcs₁ hleave₁ hi₁
    obtain ⟨c, hc⟩ : ∃ c, (s.reading.run w crashReason (cs ++ ofMoves ms)).1.connections[i]? =
        some c := ⟨_, List.getElem?_eq_getElem hi₁⟩
    cases hopen : c.isOpen with
    | false => exact ⟨_, hmoves, hanswers₁.done_of_closed hc hopen⟩
    | true =>
      have hidle : c.isIdle = true := by
        rw [Connection.isIdle, hopen, Bool.true_and, Option.isNone_iff_eq_none,
          Option.eq_none_iff_forall_ne_some]
        intro t ht
        have howed := (hanswers₁.owed c hc).2 t ht
        rw [hsettled] at howed
        cases howed
      -- then it handles a frame, and with every frame fewer are left
      obtain ⟨more, hmore, hnext⟩ := exists_taken w crashReason hs hcs₁ hleave₁ hc hidle
      have hall : ∀ c ∈ ofMoves ms ++ more, c.isInner = true :=
        List.forall_mem_append.mpr ⟨hmoves, hmore⟩
      rw [taken_ofMoves, List.append_assoc] at hnext
      obtain hdone | htaken := hnext
      · exact ⟨_, hall, hdone⟩
      · obtain ⟨hcs₂, hleave₂⟩ := isInner_append hall hcs hleave
        have hi₂ := (length_append w crashReason hs cs hall).symm ▸ hi
        have hle := (answers w crashReason hs hcs₂ hleave₂ hi₂).inOrder.length_le
        rw [List.length_map, htaken, frames_append hall] at hle
        obtain ⟨rest, hrest, hdone⟩ := ih _ (by rw [htaken, frames_append hall]; omega) hcs₂ hleave₂
          hi₂ rfl
        rw [List.append_assoc] at hdone
        exact ⟨_, List.forall_mem_append.mpr ⟨hall, hrest⟩, hdone⟩

variable {w crashReason} in
include hs in
/-- Every frame of every client is answered: while the server is not shut down, and the client takes
what it is sent, the responses are those to the frames, one for each and in order, and whatever has
happened the run can go on to the response to the last frame. -/
theorem every_frame_answered {cs : List Choice} (hcs : .server .shutDown ∉ cs)
    (hleave : .server (.leave i) ∉ cs) (hi : i < (feed i cs).clients) :
    s.reading.Answers w crashReason i cs ∧
      ∃ more, (∀ c ∈ more, c.isInner = true) ∧
        s.reading.Answers w crashReason i (cs ++ more) ∧
        s.reading.IsDone w crashReason i (cs ++ more) := by
  rw [feed_eq w crashReason hs] at hi
  obtain ⟨more, hmore, hdone⟩ := exists_done w crashReason hs hcs hleave hi
  obtain ⟨hcs', hleave'⟩ := isInner_append hmore hcs hleave
  have hi' := (length_append w crashReason hs cs hmore).symm ▸ hi
  exact ⟨answers w crashReason hs hcs hleave hi, more, hmore,
    answers w crashReason hs hcs' hleave' hi', hdone⟩

end Done

/-- A client's stream: it subscribes, cancels, and sends an empty frame and a length that is too
large. -/
def disorderly : List UInt8 :=
  Frame.encode "\x7b\"type\":\"subscribe\"\x7d".toUTF8.toList ++
    Frame.encode "\x7b\"type\":\"cancel\"\x7d".toUTF8.toList ++ [0, 0, 0, 0, 255, 255, 255, 255]

/-- The stream comes in three pieces, and the connection turns to it when it can. -/
def disorder : List Choice :=
  List.flatten
    [[.server .connect, .server (.arrive 0 (disorderly.take 9)), .read 0],
      [.server (.arrive 0 ((disorderly.drop 9).take 40)), .read 0, .post 0, .read 0, .post 0],
      [.serve 0 0, .server (.arrive 0 (disorderly.drop 49)), .serve 0 0, .read 0, .post 0],
      [.serve 0 0, .server (.daemon .takeCommand 0), .read 0, .serve 0 0, .post 0, .serve 0 0]]

/-- Three frames are answered, the last one with what is wrong with it. -/
theorem every_frame_answered_of_disorder :
    (Server.fresh .macAnsi 4).Unused ∧ (frames 0 disorder).length = 3 ∧
      (Server.fresh .macAnsi 4).reading.responsesTo (Daemon.permissive .macAnsi) "" 0 disorder =
        [.subscribed, .cancelled false, .error "invalid_request" "syntax"] ∧
      (Server.fresh .macAnsi 4).reading.Answers (Daemon.permissive .macAnsi) "" 0 disorder := by
  have hs := Server.unused_fresh .macAnsi 4
  refine ⟨hs, by decide +kernel, by decide +kernel, ?_⟩
  exact (every_frame_answered hs (by simp [disorder]) (by simp [disorder]) (by decide +kernel)).1

end ReadingServer

end Typist

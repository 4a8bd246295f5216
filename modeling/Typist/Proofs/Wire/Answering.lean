import Mathlib.Data.List.Basic
import Typist.Proofs.Daemon.Answers
import Typist.Proofs.Wire.ReadAhead

/-!
# Every frame is answered

What a client sends is a stream of frames. Whatever else happens, however the stream is cut and
whenever events are sent, the responses that a client gets are those to its frames, one for each and
in order.
-/

namespace Typist

open Connection (Act)

/-! ## What clients send -/

namespace Connection.Act

theorem arrived_map_pass (uptimeSecs : UInt64) (os : List Daemon.Output) :
    arrived (os.map (.pass uptimeSecs)) = [] := by
  induction os with
  | nil => rfl
  | cons o os ih => exact ih

theorem ended_map_pass (uptimeSecs : UInt64) (os : List Daemon.Output) :
    ended (os.map (.pass uptimeSecs)) = false := by
  induction os with
  | nil => rfl
  | cons o os ih => exact ih

end Connection.Act

namespace Server

variable {σ : Type}

/-- What a client has sent. -/
structure Feed where
  /-- How many clients have connected. -/
  clients : Nat := 0
  bytes : List UInt8 := []
  /-- Whether the client has stopped sending. -/
  ended : Bool := false

/-- What a client has sent after a further step. -/
def Feed.after (i : Nat) (f : Feed) : Choice → Feed
  | .connect => { f with clients := f.clients + 1 }
  | .arrive j bytes =>
    if j = i && decide (i < f.clients) && !f.ended then { f with bytes := f.bytes ++ bytes } else f
  | .finish j => if j = i && decide (i < f.clients) then { f with ended := true } else f
  | _ => f

/-- What a client sends in a run. -/
def feed (i : Nat) (cs : List Choice) : Feed := cs.foldl (Feed.after i) {}

variable (w : Surroundings σ) (crashReason : String)

/-- The bytes that a step brings. -/
theorem arrived_actsIn (s : Server σ) (i : Nat) (c : Choice) :
    Act.arrived (s.actsIn w crashReason i c) =
      match c with | .arrive j bytes => if j = i then bytes else [] | _ => [] := by
  rw [actsIn, Act.arrived_append, Act.arrived_map_pass, ite_self, List.append_nil]
  cases c with
  | arrive j bytes =>
    simp only [ownActs]
    split
    · exact List.append_nil bytes
    · rfl
  | finish | leave | notify | takeFrame =>
    simp only [ownActs]
    split <;> rfl
  | _ => rfl

/-- Whether the client stops sending in a step. -/
theorem ended_actsIn (s : Server σ) (i : Nat) (c : Choice) :
    Act.ended (s.actsIn w crashReason i c) = match c with | .finish j => j = i | _ => false := by
  rw [actsIn, Act.ended_append, Act.ended_map_pass, Bool.or_false]
  cases c with
  | arrive | finish | leave | notify | takeFrame =>
    simp only [ownActs]
    split <;> simp_all [Act.ended]
  | _ => rfl

theorem length_step (s : Server σ) (c : Choice) :
    (s.step w crashReason c).1.connections.length =
      s.connections.length + match c with | .connect => 1 | _ => 0 := by
  by_cases hc : c = .connect
  · subst hc
    exact List.length_append
  · rw [(s.turns_step w crashReason hc).length]
    cases c with
    | connect => exact absurd rfl hc
    | _ => rfl

/-- What a client sends in a run is what arrives in its conversation. -/
theorem Unused.feed {s : Server σ} (hs : s.Unused) (i : Nat) (cs : List Choice) :
    Server.feed i cs = {
      clients := (s.run w crashReason cs).1.connections.length
      bytes := Act.arrived (s.conversation w crashReason i cs)
      ended := Act.ended (s.conversation w crashReason i cs) } := by
  induction cs using List.reverseRecOn with
  | nil => rw [run, hs.connections]; rfl
  | append_singleton cs c ih =>
    have hclient : (s.run w crashReason cs).1.connections[i]?.isSome =
        decide (i < (s.run w crashReason cs).1.connections.length) := by
      rw [Bool.eq_iff_iff]
      simp
    rw [conversation, history_concat, ← conversation, run_concat, length_step, hclient,
      Act.arrived_append, Act.ended_append, Server.feed, List.foldl_concat, ← Server.feed, ih]
    generalize (s.run w crashReason cs).1.connections.length = clients
    cases hi : decide (i < clients) with
    | false =>
      simp only [Bool.false_eq_true, if_false]
      cases c <;> simp [Feed.after, hi, Act.arrived, Act.ended]
    | true =>
      simp only [if_true, arrived_actsIn, ended_actsIn]
      cases c with
      | arrive j bytes =>
        cases Act.ended (s.conversation w crashReason i cs) <;> by_cases hj : j = i <;>
          simp [Feed.after, hi, hj]
      | finish j => by_cases hj : j = i <;> simp [Feed.after, hi, hj]
      | _ => simp [Feed.after]

/-! ## The course of every conversation -/

theorem not_mem_conversation {s : Server σ} {i : Nat} {cs : List Choice} {a : Act}
    (h : ∀ s : Server σ, ∀ c ∈ cs, a ∉ s.actsIn w crashReason i c) :
    a ∉ s.conversation w crashReason i cs := by
  induction cs generalizing s with
  | nil => exact List.not_mem_nil
  | cons c cs ih =>
    rw [conversation, history, ← conversation, List.mem_append, not_or]
    refine ⟨?_, ih fun s c hc ↦ h s c (List.mem_cons_of_mem _ hc)⟩
    split
    · exact h s c List.mem_cons_self
    · exact List.not_mem_nil

/-- A connection takes its course as long as the server is not shut down and the client is there. -/
theorem Unused.course {s : Server σ} (hs : s.Unused) {i : Nat} {cs : List Choice}
    (hcs : .shutDown ∉ cs) (hleave : .leave i ∉ cs) {c : Connection}
    (hc : (s.run w crashReason cs).1.connections[i]? = some c) :
    c.Course (s.conversation w crashReason i cs) (s.taken w crashReason i cs)
      (sentTo i (s.run w crashReason cs).2) := by
  have htalks := (hs.talks w crashReason hcs).2.2 i
  rw [hc] at htalks
  obtain ⟨rfl, hsent⟩ := htalks.eq
  rw [hsent, ← hs.taken w crashReason hcs]
  apply Connection.course
  · apply not_mem_conversation
    intro s' c' hmem h
    obtain rfl : c' = .leave i := causes_of_mem_actsIn w crashReason h
    exact hleave hmem
  · apply not_mem_conversation
    intro s' c' hmem h
    obtain rfl : c' = .shutDown := causes_of_mem_actsIn w crashReason h
    exact hcs hmem

theorem mem_ofDaemon_iff {out : List Output} {o : Daemon.Output} :
    o ∈ ofDaemon out ↔ .daemon o ∈ out := by
  simp only [ofDaemon, List.mem_filterMap]
  constructor
  · rintro ⟨x, hx, ho⟩
    cases x with
    | sent => cases ho
    | daemon o' =>
      cases ho
      exact hx
  · exact fun h ↦ ⟨_, h, rfl⟩

/-- What is passed on in a conversation is what the daemon does. -/
theorem mem_ofDaemon {s : Server σ} {i : Nat} {cs : List Choice} {uptimeSecs : UInt64}
    {o : Daemon.Output} (h : .pass uptimeSecs o ∈ s.conversation w crashReason i cs) :
    o ∈ ofDaemon (s.run w crashReason cs).2 := by
  induction cs generalizing s with
  | nil => cases h
  | cons c cs ih =>
    rw [conversation, history, ← conversation] at h
    rw [run, ofDaemon_append, List.mem_append]
    rcases List.mem_append.mp h with h | h
    · rw [(s.daemon_step w crashReason c).2]
      left
      split at h
      · exact causes_of_mem_actsIn w crashReason h
      · cases h
    · exact .inr (ih h)

end Server

/-! ## Frames and responses -/

/-- The server in which nothing is read ahead yet. -/
def Server.reading {σ : Type} (s : Server σ) : ReadingServer σ := { toServer := s }

namespace ReadingServer

variable {σ : Type}

/-- The step of the server, where one is chosen. -/
def Choice.server? : Choice → Option Server.Choice
  | .server c => some c
  | _ => none

/-- What a client sends in a run. -/
def feed (i : Nat) (cs : List Choice) : Server.Feed := Server.feed i (cs.filterMap Choice.server?)

/-- The frames that a client sends in a run, up to the first one that is too large. -/
def frames (i : Nat) (cs : List Choice) : List (List UInt8) :=
  (Frame.readAll (feed i cs).bytes).messages

/-- Whether no frame can follow what a client has sent. -/
def IsOver (f : Server.Feed) : Prop :=
  f.ended = true ∨ ∃ n, (Frame.readAll f.bytes).error = some (.tooLarge n)

variable (w : Surroundings σ) (crashReason : String)

/-- The responses that a client gets in a run, in order. -/
def responsesTo (r : ReadingServer σ) (i : Nat) (cs : List Choice) : List Response :=
  responses (Server.sentTo i (r.run w crashReason cs).2)

/-- What moves in the daemon in a run. -/
def daemonRun (r : ReadingServer σ) (cs : List Choice) : List Daemon.Choice :=
  r.plain.daemonRun w crashReason (r.plainRun w crashReason cs)

/-- Whether the daemon has answered a ticket in a run, and the response says so. -/
def Given (r : ReadingServer σ) (cs : List Choice) (t : Ticket) (response : Response) : Prop :=
  ∃ uptimeSecs a, .daemon (.answered t a) ∈ (r.run w crashReason cs).2 ∧
    response = .ofAnswer uptimeSecs a

/-! ## Runs without reading ahead -/

theorem plain_reading (s : Server σ) : s.reading.plain = s := by
  have hsame : s.reading.plain.connections = s.connections := by
    apply List.ext_getElem?
    intro i
    rw [plain, Server.getElem?_behind]
    exact Option.map_id'
  exact congrArg (fun connections ↦ { s with connections }) hsame

theorem sound_reading (s : Server σ) : s.reading.Sound where
  reader _ c _ := Reader.sound_new c
  new _ _ := rfl

/-- A run in which frames are read ahead, and the same one in which they are not. -/
theorem run_reading (s : Server σ) (cs : List Choice) :
    (s.reading.run w crashReason cs).1.plain =
        (s.run w crashReason (s.reading.plainRun w crashReason cs)).1 ∧
      (s.reading.run w crashReason cs).2 =
        (s.run w crashReason (s.reading.plainRun w crashReason cs)).2 ∧
      ∀ i, s.reading.taken w crashReason i cs =
        s.taken w crashReason i (s.reading.plainRun w crashReason cs) := by
  obtain ⟨-, hrun, htaken⟩ := (sound_reading s).run w crashReason cs
  rw [plain_reading] at hrun htaken
  exact ⟨congrArg Prod.fst hrun, congrArg Prod.snd hrun, htaken⟩

/-- Nothing is added but that frames are taken. -/
theorem mem_plainRun {r : ReadingServer σ} {cs : List Choice} {c : Server.Choice}
    (h : c ∈ r.plainRun w crashReason cs) :
    .server c ∈ cs ∨ ∃ i uptimeSecs, c = .takeFrame i uptimeSecs := by
  induction cs generalizing r with
  | nil => cases h
  | cons x cs ih =>
    rw [plainRun, history, ← plainRun] at h
    rcases List.mem_append.mp h with h | h
    · unfold plainly at h
      split at h
      · cases h
      · rw [List.mem_singleton.mp h]
        exact .inl List.mem_cons_self
      · split at h
        · exact .inr ⟨_, _, List.mem_singleton.mp h⟩
        · cases h
      · cases h
    · exact (ih h).imp_left (List.mem_cons_of_mem _)

theorem feed_plainRun (r : ReadingServer σ) (i : Nat) (cs : List Choice) :
    Server.feed i (r.plainRun w crashReason cs) = feed i cs := by
  unfold feed Server.feed
  generalize ({} : Server.Feed) = f
  induction cs generalizing r f with
  | nil => rfl
  | cons c cs ih =>
    have hstep : (r.plainly c).foldl (Server.Feed.after i) f =
        ([c].filterMap Choice.server?).foldl (Server.Feed.after i) f := by
      cases c with
      | server c => cases c <;> rfl
      | serve j uptimeSecs =>
        simp only [plainly]
        split <;> rfl
      | _ => rfl
    rw [plainRun, history, ← plainRun, List.foldl_append, hstep, ih, ← List.foldl_append,
      ← List.filterMap_append]
    rfl

/-- The frames that a connection has handled are the first of those that were sent; the others are
in what it has yet to read, unless no frame can follow. -/
theorem frames_of_course {c : Connection} {as : List Act} {taken : List (List UInt8 × Ticket)}
    {sent : List Sent} (h : c.Course as taken sent) :
    ∃ tail, (Frame.readAll (Act.arrived as)).messages =
        taken.map Prod.fst ++ (Frame.readAll tail).messages ∧
      (Frame.readAll (Act.arrived as)).error = (Frame.readAll tail).error ∧
      if c.isOpen then tail = c.unread else Frame.IsOver c.ended tail := by
  obtain ⟨tail, hstream, htail⟩ := h.stream
  have hsmall : ∀ m ∈ taken.map Prod.fst, m.length ≤ maxFrame := by
    intro m hm
    obtain ⟨x, hx, rfl⟩ := List.mem_map.mp hm
    exact h.small x hx
  obtain ⟨hmessages, herror⟩ := Frame.readAll_flatMap_encode_append hsmall tail
  rw [← hstream] at hmessages herror
  exact ⟨tail, hmessages, herror, htail⟩

/-- The front that was handled is all there is where nothing can follow it. -/
theorem length_of_course {c : Connection} {as : List Act} {taken : List (List UInt8 × Ticket)}
    {sent : List Sent} (h : c.Course as taken sent) (hawaiting : c.awaiting = none)
    {tail : List UInt8} (hmessages : (Frame.readAll (Act.arrived as)).messages =
      taken.map Prod.fst ++ (Frame.readAll tail).messages)
    (hnone : (Frame.readAll tail).messages = []) :
    (responses sent).length = (Frame.readAll (Act.arrived as)).messages.length := by
  have hlength := h.progress.take.2
  rw [hawaiting] at hlength
  rw [hmessages, hnone, List.append_nil, List.length_map]
  exact hlength.symm

/-- A connection that is closed has answered every frame, and no frame can follow. -/
theorem over_of_course {c : Connection} {as : List Act} {taken : List (List UInt8 × Ticket)}
    {sent : List Sent} (h : c.Course as taken sent) (hclosed : c.isOpen = false) :
    (responses sent).length = (Frame.readAll (Act.arrived as)).messages.length ∧
      (Act.ended as = true ∨ ∃ n, (Frame.readAll (Act.arrived as)).error = some (.tooLarge n)) := by
  obtain ⟨tail, hmessages, herror, htail⟩ := frames_of_course h
  rw [hclosed, if_neg Bool.false_ne_true] at htail
  obtain ⟨hnone, hover⟩ := htail.messages
  refine ⟨length_of_course h (h.idle_of_closed hclosed) hmessages hnone, ?_⟩
  rw [← h.ended, herror]
  exact hover

/-- So has one that is idle and has nothing to turn to. -/
theorem settled_of_course {c : Connection} {as : List Act} {taken : List (List UInt8 × Ticket)}
    {sent : List Sent} (h : c.Course as taken sent) (hidle : c.isIdle = true)
    (hnext : ∀ m rest, Frame.next c.unread ≠ .frame m rest) :
    (responses sent).length = (Frame.readAll (Act.arrived as)).messages.length := by
  obtain ⟨tail, hmessages, -, htail⟩ := frames_of_course h
  rw [Connection.isIdle, Bool.and_eq_true, Option.isNone_iff_eq_none] at hidle
  rw [if_pos hidle.1] at htail
  refine length_of_course h hidle.2 hmessages ?_
  rw [htail]
  exact (Frame.IsOver.messages (.inr ⟨rfl, hnext⟩)).1

section Course

variable {s : Server σ} (hs : s.Unused) {i : Nat} {cs : List Choice}
  (hcs : .server .shutDown ∉ cs) (hleave : .server (.leave i) ∉ cs)

include hs hcs hleave in
/-- A connection takes its course although its frames are read ahead. -/
theorem course {c : Connection}
    (hc : (s.reading.run w crashReason cs).1.connections[i]? = some c) :
    (c.behind ((s.reading.run w crashReason cs).1.readers i).bytes).Course
      (s.conversation w crashReason i (s.reading.plainRun w crashReason cs))
      (s.reading.taken w crashReason i cs) (Server.sentTo i (s.reading.run w crashReason cs).2) := by
  obtain ⟨hplain, hout, htaken⟩ := run_reading w crashReason s cs
  rw [htaken, hout]
  apply hs.course w crashReason
  · intro h
    obtain h | ⟨j, uptimeSecs, h⟩ := mem_plainRun w crashReason h
    · exact hcs h
    · cases h
  · intro h
    obtain h | ⟨j, uptimeSecs, h⟩ := mem_plainRun w crashReason h
    · exact hleave h
    · cases h
  · rw [← hplain]
    exact plain_connection hc

variable (i cs) in
include hs in
theorem feed_eq : feed i cs = {
    clients := (s.reading.run w crashReason cs).1.connections.length
    bytes := Act.arrived (s.conversation w crashReason i (s.reading.plainRun w crashReason cs))
    ended := Act.ended (s.conversation w crashReason i (s.reading.plainRun w crashReason cs)) } := by
  rw [← feed_plainRun w crashReason s.reading i cs, hs.feed w crashReason,
    ← (run_reading w crashReason s cs).1, plain, Server.length_behind]

omit hs in
/-- The command of a frame that asks for something is sent. -/
theorem sent_of_taken {m : List UInt8} {t : Ticket} {command : Command}
    (hm : (m, t) ∈ s.reading.taken w crashReason i cs) (hask : Reception.ofFrame m = .ask command) :
    (t, command) ∈ Daemon.sends (s.reading.daemonRun w crashReason cs) := by
  rw [(run_reading w crashReason s cs).2.2] at hm
  rw [daemonRun, plain_reading]
  exact Server.sent_of_taken hm hask

include hs hcs hleave in
/-- The daemon owes what a connection awaits. -/
theorem outstanding_of_awaiting {c : Connection} {t : Ticket}
    (hc : (s.reading.run w crashReason cs).1.connections[i]? = some c) (ht : c.awaiting = some t) :
    t ∈ (s.reading.run w crashReason cs).1.daemon.outstanding := by
  have hcourse := course w crashReason hs hcs hleave hc
  have hopen : c.isOpen = true := by
    by_contra hclosed
    have hnone : c.awaiting = none := hcourse.idle_of_closed (Bool.eq_false_iff.mpr hclosed)
    cases hnone.symm.trans ht
  have hprogress := hcourse.progress
  have hawaiting : (c.behind ((s.reading.run w crashReason cs).1.readers i).bytes).awaiting =
      some t := ht
  rw [hawaiting] at hprogress
  obtain ⟨m, command, hm, hask⟩ := hprogress.asked
  have hsent := sent_of_taken w crashReason hm hask
  rw [daemonRun, plain_reading] at hsent
  have hplain := (run_reading w crashReason s cs).1
  have hsame := plain_connection hc
  rw [hplain] at hsame
  have howed := hs.owed hsame ⟨hopen, ht⟩
    (Daemon.mem_awaiting hsent (Connection.ne_shutdown_of_ask hask))
  rw [← hplain] at howed
  exact howed

end Course

/-- How a client is answered in a run. -/
structure Answers (r : ReadingServer σ) (i : Nat) (cs : List Choice) : Prop where
  /-- Frames are handled in the order in which they were sent. -/
  inOrder : (r.taken w crashReason i cs).map Prod.fst <+: frames i cs
  /-- The responses are those to the frames that were handled first, one for each and in order. -/
  replies : List.Forall₂ (Replies (r.Given w crashReason cs))
    ((r.taken w crashReason i cs).take (r.responsesTo w crashReason i cs).length)
    (r.responsesTo w crashReason i cs)
  /-- All that were handled have one, but for the last one while the daemon owes it. -/
  owed : ∀ c, (r.run w crashReason cs).1.connections[i]? = some c →
    (r.taken w crashReason i cs).length =
        (r.responsesTo w crashReason i cs).length + c.awaiting.toList.length ∧
      ∀ t, c.awaiting = some t → t ∈ (r.run w crashReason cs).1.daemon.outstanding
  /-- A frame that asks for something has a command of its own sent, under a ticket of its own, -/
  asked : ∀ m t command, (m, t) ∈ r.taken w crashReason i cs → Reception.ofFrame m = .ask command →
    (t, command) ∈ Daemon.sends (r.daemonRun w crashReason cs)
  tickets : ((Daemon.sends (r.daemonRun w crashReason cs)).map Prod.fst).Nodup
  /-- which the daemon answers at most once, -/
  once : (Daemon.answered (Server.ofDaemon (r.run w crashReason cs).2)).Nodup
  /-- and as befits the command. -/
  befitting : ∀ t command a, (t, command) ∈ Daemon.sends (r.daemonRun w crashReason cs) →
    command ≠ .shutdown → .daemon (.answered t a) ∈ (r.run w crashReason cs).2 → command.Answers a
  /-- The connection is closed only when no frame can follow, and behind the last response. -/
  closed : ∀ c, (r.run w crashReason cs).1.connections[i]? = some c → c.isOpen = false →
    (r.responsesTo w crashReason i cs).length = (frames i cs).length ∧ IsOver (feed i cs)
  /-- Where nothing is left to be done every frame has its response. -/
  settled : ∀ c, (r.run w crashReason cs).1.connections[i]? = some c → c.isIdle = true →
    ((r.run w crashReason cs).1.readers i).held = [] →
    (∀ m rest, Frame.next c.unread ≠ .frame m rest) →
    (r.responsesTo w crashReason i cs).length = (frames i cs).length
  /-- No event is sent before the response that events will be. -/
  quiet : IsQuiet (Server.sentTo i (r.run w crashReason cs).2)

/-- Every client is answered, frame by frame, while the server is not shut down and the client takes
what it is sent. -/
theorem answers {s : Server σ} (hs : s.Unused) {i : Nat} {cs : List Choice}
    (hcs : .server .shutDown ∉ cs) (hleave : .server (.leave i) ∉ cs)
    (hi : i < (s.reading.run w crashReason cs).1.connections.length) :
    s.reading.Answers w crashReason i cs := by
  obtain ⟨c, hc⟩ : ∃ c, (s.reading.run w crashReason cs).1.connections[i]? = some c :=
    ⟨_, List.getElem?_eq_getElem hi⟩
  have hcourse := course w crashReason hs hcs hleave hc
  have hfeed := feed_eq w crashReason hs i cs
  obtain ⟨hplain, hout, htaken⟩ := run_reading w crashReason s cs
  have hdaemonRun : s.reading.daemonRun w crashReason cs =
      s.daemonRun w crashReason (s.reading.plainRun w crashReason cs) := by
    rw [daemonRun, plain_reading]
  have hframes : frames i cs = (Frame.readAll (Act.arrived
      (s.conversation w crashReason i (s.reading.plainRun w crashReason cs)))).messages := by
    rw [frames, hfeed]
  obtain ⟨hreplies, hlength⟩ := hcourse.progress.take
  constructor
  case inOrder =>
    obtain ⟨tail, hmessages, -⟩ := frames_of_course hcourse
    exact ⟨_, (hframes.trans hmessages).symm⟩
  case replies =>
    refine hreplies.imp fun _ _ ↦ Replies.imp ?_
    rintro t response ⟨uptimeSecs, a, hmem, rfl⟩
    refine ⟨uptimeSecs, a, ?_, rfl⟩
    rw [hout, ← Server.mem_ofDaemon_iff]
    exact Server.mem_ofDaemon w crashReason hmem
  case owed =>
    intro c' hc'
    obtain rfl : c = c' := Option.some.inj (hc.symm.trans hc')
    exact ⟨hlength, fun t ht ↦ outstanding_of_awaiting w crashReason hs hcs hleave hc ht⟩
  case asked => exact fun m t command ↦ sent_of_taken w crashReason
  case tickets =>
    rw [hdaemonRun]
    exact (Server.tickets_run w crashReason s _).1
  case once =>
    rw [hout, (s.daemon_run w crashReason _).2]
    exact hs.daemon.answered_nodup w crashReason (s.awaiting_nodup w crashReason _)
  case befitting =>
    intro t command a hsent hcommand ha
    rw [hdaemonRun] at hsent
    rw [hout, ← Server.mem_ofDaemon_iff, (s.daemon_run w crashReason _).2] at ha
    exact hs.daemon.answers w crashReason (fun _ ↦ id) (s.awaiting_nodup w crashReason _) hsent
      hcommand ha
  case closed =>
    intro c' hc' hclosed
    obtain rfl : c = c' := Option.some.inj (hc.symm.trans hc')
    rw [hframes, IsOver, hfeed]
    exact over_of_course hcourse hclosed
  case settled =>
    intro c' hc' hidle hheld hnext
    obtain rfl : c = c' := Option.some.inj (hc.symm.trans hc')
    have hbytes : ((s.reading.run w crashReason cs).1.readers i).bytes = [] := by
      rw [Reader.bytes, hheld]
      rfl
    rw [hbytes, Connection.behind_nil] at hcourse
    rw [hframes]
    exact settled_of_course hcourse hidle hnext
  case quiet => exact hcourse.quiet

end ReadingServer

end Typist

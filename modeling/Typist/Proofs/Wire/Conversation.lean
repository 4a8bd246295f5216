import Mathlib.Data.List.Forall2
import Mathlib.Data.List.Induction
import Typist.Daemon
import Typist.Connection
import Typist.Proofs.Wire.Frames

/-!
# Conversations

What happens on one connection, as a list of acts: bytes arrive, a frame is taken, an event is sent,
or something that the daemon does is passed on. Whatever the acts, frames are taken in order from
what has arrived, and the responses are those to the frames that were taken, in this order.
-/

namespace Typist

/-! ## Responses to frames -/

/-- What a frame, taken with a ticket at hand, is answered with; `given` tells which responses have
come for a ticket. -/
inductive Replies (given : Ticket → Response → Prop) : List UInt8 × Ticket → Response → Prop
  | invalid {m : List UInt8} {t : Ticket} {e : Json.Mismatch} : Request.ofBytes m = .error e →
      Replies given (m, t) (.error "invalid_request" e.message)
  | told {m : List UInt8} {t : Ticket} {q : Request} {r : Response} : Request.ofBytes m = .ok q →
      q.reception = .respond r → Replies given (m, t) r
  | subscribed {m : List UInt8} {t : Ticket} {q : Request} : Request.ofBytes m = .ok q →
      q.reception = .subscribe → Replies given (m, t) .subscribed
  | asked {m : List UInt8} {t : Ticket} {q : Request} {c : Command} {r : Response} :
      Request.ofBytes m = .ok q → q.reception = .ask c → given t r → Replies given (m, t) r

theorem Replies.imp {given given' : Ticket → Response → Prop} (h : ∀ t r, given t r → given' t r)
    {x : List UInt8 × Ticket} {r : Response} (hr : Replies given x r) : Replies given' x r := by
  cases hr with
  | invalid he => exact .invalid he
  | told hq hr => exact .told hq hr
  | subscribed hq hr => exact .subscribed hq hr
  | asked hq hr hg => exact .asked hq hr (h _ _ hg)

/-- How far the responses to frames are: each was answered, or the last one has yet to be. -/
inductive Progress (given : Ticket → Response → Prop) :
    List (List UInt8 × Ticket) → Option Ticket → List Response → Prop
  | settled {taken : List (List UInt8 × Ticket)} {rs : List Response} :
      List.Forall₂ (Replies given) taken rs → Progress given taken none rs
  | owing {taken : List (List UInt8 × Ticket)} {rs : List Response} {m : List UInt8} {t : Ticket}
      {c : Command} : List.Forall₂ (Replies given) taken rs → Reception.ofFrame m = .ask c →
      Progress given (taken ++ [(m, t)]) (some t) rs

section Progress

variable {given given' : Ticket → Response → Prop} {taken : List (List UInt8 × Ticket)}
  {rs : List Response}

theorem Progress.imp (h : ∀ t r, given t r → given' t r) {t : Option Ticket}
    (hp : Progress given taken t rs) : Progress given' taken t rs := by
  cases hp with
  | settled hs => exact .settled (hs.imp fun _ _ ↦ Replies.imp h)
  | owing hs hm => exact .owing (hs.imp fun _ _ ↦ Replies.imp h) hm

theorem Progress.forall₂ (h : Progress given taken none rs) :
    List.Forall₂ (Replies given) taken rs := by
  cases h with
  | settled hs => exact hs

/-- Responses are to the frames that were taken first. -/
theorem Progress.take {t : Option Ticket} (h : Progress given taken t rs) :
    List.Forall₂ (Replies given) (taken.take rs.length) rs ∧
      taken.length = rs.length + t.toList.length := by
  cases h with
  | settled hs =>
    rw [← hs.length_eq, List.take_length]
    exact ⟨hs, rfl⟩
  | owing hs =>
    rw [← hs.length_eq, List.take_left, List.length_append]
    exact ⟨hs, rfl⟩

/-- What is owed was asked for by a frame. -/
theorem Progress.asked {t : Ticket} (h : Progress given taken (some t) rs) :
    ∃ m c, (m, t) ∈ taken ∧ Reception.ofFrame m = .ask c := by
  cases h with
  | owing _ hm => exact ⟨_, _, List.mem_append_right _ (List.mem_singleton_self _), hm⟩

/-- A further frame is answered. -/
theorem Progress.reply (h : Progress given taken none rs) {x : List UInt8 × Ticket} {r : Response}
    (hr : Replies given x r) : Progress given (taken ++ [x]) none (rs ++ [r]) := by
  apply Progress.settled
  exact List.rel_append h.forall₂ (.cons hr .nil)

/-- The last frame is answered. -/
theorem Progress.answer {t : Ticket} (h : Progress given taken (some t) rs) {r : Response}
    (hr : given t r) : Progress given taken none (rs ++ [r]) := by
  cases h with
  | @owing taken _ m _ c hs hm =>
    unfold Reception.ofFrame at hm
    split at hm
    · next q hq => exact (Progress.settled hs).reply (.asked hq hm hr)
    · cases hm

end Progress

/-! ## Messages -/

/-- The responses among messages, in order. -/
def responses (sent : List Sent) : List Response :=
  sent.filterMap fun
    | .response r => some r
    | .notification _ => none

@[simp] theorem responses_append (sent later : List Sent) :
    responses (sent ++ later) = responses sent ++ responses later :=
  List.filterMap_append

/-- Whether every notification comes after the response that events will be sent. -/
def IsQuiet (sent : List Sent) : Prop :=
  ∀ before n later, sent = before ++ .notification n :: later → .response .subscribed ∈ before

theorem isQuiet_nil : IsQuiet [] := by
  intro before n later h
  exact absurd h.symm (List.append_ne_nil_of_right_ne_nil before (List.cons_ne_nil _ _))

/-- What is quiet stays so if a response follows, or an event after events were promised. -/
theorem IsQuiet.concat {sent : List Sent} (h : IsQuiet sent) {s : Sent}
    (hs : (∃ r, s = .response r) ∨ .response .subscribed ∈ sent) : IsQuiet (sent ++ [s]) := by
  intro before n later heq
  obtain rfl | ⟨later, last, rfl⟩ := List.eq_nil_or_concat' later
  · obtain ⟨rfl, hlast⟩ := List.append_inj' heq rfl
    obtain rfl : s = .notification n := List.singleton_inj.mp hlast
    obtain ⟨r, hr⟩ | hs := hs
    · cases hr
    · exact hs
  · rw [← List.cons_append, ← List.append_assoc] at heq
    exact h before n later (List.append_inj' heq rfl).1

/-! ## The end of a stream -/

/-- Whether no frame can follow: a length is too large, or the stream has ended before a frame is
complete. -/
def Frame.IsOver (ended : Bool) (bytes : List UInt8) : Prop :=
  (∃ n rest, next bytes = .failed (.tooLarge n) rest) ∨
    ended = true ∧ ∀ m rest, next bytes ≠ .frame m rest

theorem Frame.IsOver.messages {ended : Bool} {bytes : List UInt8} (h : IsOver ended bytes) :
    (readAll bytes).messages = [] ∧
      (ended = true ∨ ∃ n, (readAll bytes).error = some (.tooLarge n)) := by
  obtain ⟨n, rest, hn⟩ | ⟨hended, hn⟩ := h
  · obtain ⟨hmessages, herror⟩ := readAll_of_failed hn
    exact ⟨hmessages, .inr ⟨n, herror⟩⟩
  · refine ⟨?_, .inl hended⟩
    cases hnext : next bytes with
    | finished => exact (readAll_of_finished hnext).1
    | failed e rest => exact (readAll_of_failed hnext).1
    | frame m rest => exact absurd hnext (hn m rest)

/-- Conversely, where no frame is next. -/
theorem Frame.IsOver.of_error {ended : Bool} {bytes : List UInt8}
    (hnext : ∀ m rest, next bytes ≠ .frame m rest)
    (h : ended = true ∨ ∃ n, (readAll bytes).error = some (.tooLarge n)) : IsOver ended bytes := by
  obtain hended | ⟨n, hn⟩ := h
  · exact .inr ⟨hended, hnext⟩
  · cases hbytes : next bytes with
    | frame m rest => exact absurd hbytes (hnext m rest)
    | finished =>
      rw [(readAll_of_finished hbytes).2] at hn
      cases hn
    | failed e rest =>
      rw [(readAll_of_failed hbytes).2] at hn
      cases hn
      exact .inl ⟨n, rest, hbytes⟩

/-- A stream that has not ended, and is over, is over whatever follows. -/
theorem Frame.IsOver.append {bytes : List UInt8} (h : IsOver false bytes) (more : List UInt8) :
    IsOver false (bytes ++ more) := by
  obtain ⟨n, rest, hn⟩ | ⟨hended, -⟩ := h
  · exact .inl ⟨n, rest ++ more, next_append_of_tooLarge hn more⟩
  · cases hended

theorem Frame.IsOver.finish {ended : Bool} {bytes : List UInt8} (h : IsOver ended bytes) :
    IsOver true bytes := by
  obtain hn | ⟨-, hn⟩ := h
  · exact .inl hn
  · exact .inr ⟨rfl, hn⟩

namespace Connection

/-! ## Acts -/

/-- What can happen on a connection. -/
inductive Act
  | arrive (bytes : List UInt8)
  | finish
  | leave
  | close
  | take (t : Ticket)
  | notify
  /-- What the daemon does is passed on. -/
  | pass (uptimeSecs : UInt64) (o : Daemon.Output)

namespace Act

/-- What has arrived, until the client stopped sending. -/
def arrived : List Act → List UInt8
  | [] => []
  | .arrive bytes :: as => bytes ++ arrived as
  | .finish :: _ => []
  | _ :: as => arrived as

/-- Whether the client has stopped sending. -/
def ended : List Act → Bool
  | [] => false
  | .finish :: _ => true
  | _ :: as => ended as

/-- The responses that have come for tickets. -/
def Given (as : List Act) (t : Ticket) (r : Response) : Prop :=
  ∃ uptimeSecs a, .pass uptimeSecs (.answered t a) ∈ as ∧ r = .ofAnswer uptimeSecs a

theorem arrived_append (as later : List Act) :
    arrived (as ++ later) = arrived as ++ if ended as then [] else arrived later := by
  induction as with
  | nil => rfl
  | cons a as ih =>
    cases a with
    | arrive bytes =>
      rw [List.cons_append, arrived, ih, ← List.append_assoc]
      rfl
    | finish => rfl
    | _ => exact ih

theorem ended_append (as later : List Act) : ended (as ++ later) = (ended as || ended later) := by
  induction as with
  | nil => rfl
  | cons a as ih =>
    cases a with
    | finish => rfl
    | _ => exact ih

end Act

section Acts

variable (capacity : Nat)

/-- What an act does. -/
def act (c : Connection) : Act → Connection × List Sent
  | .arrive bytes => (c.arrive bytes, [])
  | .finish => (c.finish, [])
  | .leave => (c.leave, [])
  | .close => (c.close, [])
  | .take t => ((c.takeFrame t).1, (c.takeFrame t).2.1)
  | .notify => c.notify
  | .pass _ (.emitted e) => (c.hear capacity e, [])
  | .pass uptimeSecs (.answered t a) => c.answer t (.ofAnswer uptimeSecs a)

/-- What acts do, one after the other. -/
def acts (c : Connection) : List Act → Connection × List Sent
  | [] => (c, [])
  | a :: as =>
    let (c, sent) := c.act capacity a
    let (c, later) := c.acts as
    (c, sent ++ later)

theorem acts_append (c : Connection) (as later : List Act) :
    c.acts capacity (as ++ later) =
      (((c.acts capacity as).1.acts capacity later).1,
        (c.acts capacity as).2 ++ ((c.acts capacity as).1.acts capacity later).2) := by
  induction as generalizing c with
  | nil => simp [acts]
  | cons a as ih => simp [acts, ih]

/-- The frame that is taken in an act, with the ticket at hand. -/
def takes (c : Connection) : Act → List (List UInt8 × Ticket)
  | .take t =>
    if c.isIdle then
      match Frame.next c.unread with
      | .frame message _ => [(message, t)]
      | _ => []
    else []
  | _ => []

/-- The frames that are taken in acts, in order. -/
def taken (c : Connection) : List Act → List (List UInt8 × Ticket)
  | [] => []
  | a :: as => c.takes a ++ (c.act capacity a).1.taken as

theorem taken_append (c : Connection) (as later : List Act) :
    c.taken capacity (as ++ later) =
      c.taken capacity as ++ (c.acts capacity as).1.taken capacity later := by
  induction as generalizing c with
  | nil => rfl
  | cons a as ih => simp only [List.cons_append, taken, acts, ih, List.append_assoc]

end Acts

/-! ## Taking a frame -/

/-- How a frame can be taken: nothing is there to be taken, or the connection closes because no
frame can follow, or there is a frame. -/
theorem takeFrame_cases (c : Connection) (t : Ticket) :
    (c.takeFrame t = (c, [], none) ∧ c.takes (.take t) = []) ∨
    (c.isIdle = true ∧ Frame.IsOver c.ended c.unread ∧ c.takeFrame t = (c.close, [], none) ∧
      c.takes (.take t) = []) ∨
    ∃ m rest, c.isIdle = true ∧ Frame.next c.unread = .frame m rest ∧
      c.takeFrame t = { c with unread := rest }.receive t m ∧ c.takes (.take t) = [(m, t)] := by
  cases hidle : c.isIdle with
  | false => exact .inl ⟨by simp [takeFrame, hidle], by simp [takes, hidle]⟩
  | true =>
    match hnext : Frame.next c.unread with
    | .frame m rest =>
      exact .inr (.inr ⟨m, rest, rfl, rfl, by simp [takeFrame, hidle, hnext],
        by simp [takes, hidle, hnext]⟩)
    | .failed (.tooLarge n) rest =>
      exact .inr (.inl ⟨rfl, .inl ⟨n, rest, hnext⟩, by simp [takeFrame, hidle, hnext],
        by simp [takes, hidle, hnext]⟩)
    | .failed .truncated _ | .finished =>
      cases hended : c.ended with
      | false =>
        exact .inl ⟨by simp [takeFrame, hidle, hnext, hended], by simp [takes, hidle, hnext]⟩
      | true =>
        exact .inr (.inl ⟨rfl, .inr ⟨rfl, by simp [hnext]⟩,
          by simp [takeFrame, hidle, hnext, hended], by simp [takes, hidle, hnext]⟩)

/-- What can become of a frame where the client takes what it is sent. -/
theorem receive_cases {c : Connection} (hc : c.reachable = true) (t : Ticket) (m : List UInt8)
    (given : Ticket → Response → Prop) :
    (∃ r, Replies given (m, t) r ∧ c.receive t m = (c, [.response r], none)) ∨
    (Replies given (m, t) .subscribed ∧
      c.receive t m =
        ({ c with backlog := c.backlog.or (some []) }, [.response .subscribed], none)) ∨
    ∃ command, Reception.ofFrame m = .ask command ∧
      c.receive t m = ({ c with awaiting := some t }, [], some command) := by
  unfold receive
  cases hq : Request.ofBytes m with
  | error e =>
    have hof : Reception.ofFrame m = .respond (.error "invalid_request" e.message) := by
      rw [Reception.ofFrame, hq]
    exact .inl ⟨_, .invalid hq, by simp [hof, send, hc]⟩
  | ok q =>
    have hof : Reception.ofFrame m = q.reception := by rw [Reception.ofFrame, hq]
    cases hr : q.reception with
    | respond r => exact .inl ⟨r, .told hq hr, by simp [hof, hr, send, hc]⟩
    | subscribe => exact .inr (.inl ⟨.subscribed hq hr, by simp [hof, hr, send, hc]⟩)
    | ask command => exact .inr (.inr ⟨command, by rw [hof, hr], by simp [hof, hr]⟩)

/-! ## The course of a conversation -/

/-- How things stand after some acts: what has arrived was taken, frame by frame, or is unread, or
no frame can follow it; the frames that were taken are answered, except that the daemon may owe an
answer to the last one. -/
structure Course (c : Connection) (as : List Act) (taken : List (List UInt8 × Ticket))
    (sent : List Sent) : Prop where
  reachable : c.reachable = true
  ended : c.ended = Act.ended as
  small : ∀ x ∈ taken, x.1.length ≤ maxFrame
  stream : ∃ tail, Act.arrived as = (taken.map Prod.fst).flatMap Frame.encode ++ tail ∧
    if c.isOpen then tail = c.unread else Frame.IsOver c.ended tail
  idle_of_closed : c.isOpen = false → c.awaiting = none
  progress : Progress (Act.Given as) taken c.awaiting (responses sent)
  promised : c.backlog ≠ none → .response .subscribed ∈ sent
  quiet : IsQuiet sent

theorem course_nil : Course {} [] [] [] where
  reachable := rfl
  ended := rfl
  small := List.forall_mem_nil _
  stream := ⟨[], rfl, rfl⟩
  idle_of_closed := nofun
  progress := .settled .nil
  promised := nofun
  quiet := isQuiet_nil

namespace Course

variable {c : Connection} {as : List Act} {taken : List (List UInt8 × Ticket)} {sent : List Sent}

/-- The responses that have come stay so. -/
theorem progress_concat (h : c.Course as taken sent) (a : Act) :
    Progress (Act.Given (as ++ [a])) taken c.awaiting (responses sent) :=
  h.progress.imp fun _ _ ⟨uptimeSecs, b, hb, hr⟩ ↦ ⟨uptimeSecs, b, List.mem_append_left _ hb, hr⟩

theorem arrive (h : c.Course as taken sent) (bytes : List UInt8) :
    (c.arrive bytes).Course (as ++ [.arrive bytes]) taken sent := by
  have harrived := Act.arrived_append as [.arrive bytes]
  have hended : Act.ended (as ++ [.arrive bytes]) = c.ended := by
    rw [Act.ended_append, h.ended]
    exact Bool.or_false _
  rw [← h.ended, Act.arrived, Act.arrived, List.append_nil] at harrived
  obtain ⟨tail, hstream, htail⟩ := h.stream
  unfold Connection.arrive
  split
  · next hopen =>
    rw [Bool.and_eq_true, Bool.not_eq_true'] at hopen
    rw [if_pos hopen.1] at htail
    rw [hopen.2, if_neg Bool.false_ne_true] at harrived
    refine { h with ended := hended.symm, stream := ?_, progress := h.progress_concat _ }
    refine ⟨tail ++ bytes, by rw [harrived, hstream, List.append_assoc], ?_⟩
    rw [if_pos hopen.1, htail]
  · next hopen =>
    refine { h with ended := hended.symm, stream := ?_, progress := h.progress_concat _ }
    rw [harrived, hstream]
    cases hc : c.ended with
    | true => exact ⟨tail, List.append_nil _, by rwa [hc] at htail⟩
    | false =>
      have hclosed : c.isOpen = false := by simpa [hc] using hopen
      rw [hclosed, hc, if_neg Bool.false_ne_true] at htail
      refine ⟨tail ++ bytes, List.append_assoc .., ?_⟩
      rw [hclosed, if_neg Bool.false_ne_true]
      exact htail.append bytes

theorem finish (h : c.Course as taken sent) : c.finish.Course (as ++ [.finish]) taken sent := by
  have hended : Act.ended (as ++ [.finish]) = true := by
    rw [Act.ended_append]
    exact Bool.or_true _
  refine { h with ended := hended.symm, stream := ?_, progress := h.progress_concat _ }
  obtain ⟨tail, hstream, htail⟩ := h.stream
  refine ⟨tail, ?_, ?_⟩
  · rw [Act.arrived_append, hstream, Act.arrived]
    split <;> exact List.append_nil _
  · show if c.isOpen then tail = c.unread else Frame.IsOver true tail
    split
    · next hopen => rwa [if_pos hopen] at htail
    · next hopen =>
      rw [if_neg hopen] at htail
      exact htail.finish

/-- An act that brings no bytes leaves what has arrived. -/
theorem advance (h : c.Course as taken sent) {a : Act} (harrived : Act.arrived [a] = [])
    (hended : Act.ended [a] = false) : c.Course (as ++ [a]) taken sent := by
  refine { h with ended := ?_, stream := ?_, progress := h.progress_concat a }
  · rw [Act.ended_append, hended, Bool.or_false, h.ended]
  · rw [Act.arrived_append, harrived, ite_self, List.append_nil]
    exact h.stream

/-- A frame is taken, and what becomes of it is right. -/
theorem step_frame (h : c.Course as taken sent) {m rest : List UInt8} (hopen : c.isOpen = true)
    (hnext : Frame.next c.unread = .frame m rest) {c' : Connection}
    (hc' : c' = { c with unread := rest, awaiting := c'.awaiting, backlog := c'.backlog })
    {t : Ticket} {sent' : List Sent}
    (hprogress : Progress (Act.Given as) (taken ++ [(m, t)]) c'.awaiting (responses sent'))
    (hpromised : c'.backlog ≠ none → .response .subscribed ∈ sent') (hquiet : IsQuiet sent') :
    c'.Course as (taken ++ [(m, t)]) sent' := by
  obtain ⟨hbytes, hm⟩ := Frame.next_eq_frame_iff.mp hnext
  obtain ⟨tail, hstream, htail⟩ := h.stream
  rw [if_pos hopen] at htail
  constructor
  case reachable => rw [hc']; exact h.reachable
  case ended => rw [hc']; exact h.ended
  case small =>
    intro x hx
    rcases List.mem_append.mp hx with hx | hx
    · exact h.small x hx
    · rw [List.mem_singleton.mp hx]
      exact hm
  case stream =>
    refine ⟨rest, ?_, ?_⟩
    · rw [hstream, htail, hbytes, List.map_append, List.flatMap_append, List.append_assoc]
      simp
    · rw [hc']
      exact (if_pos hopen).mpr rfl
  case idle_of_closed =>
    rw [hc']
    intro hclosed
    rw [hopen] at hclosed
    cases hclosed
  case progress => exact hprogress
  case promised => exact hpromised
  case quiet => exact hquiet

theorem close (h : c.Course as taken sent) (hidle : c.isIdle = true)
    (hover : Frame.IsOver c.ended c.unread) : c.close.Course as taken sent := by
  rw [isIdle, Bool.and_eq_true, Option.isNone_iff_eq_none] at hidle
  obtain ⟨tail, hstream, htail⟩ := h.stream
  rw [if_pos hidle.1] at htail
  refine { h with stream := ⟨tail, hstream, ?_⟩, idle_of_closed := fun _ ↦ rfl, progress := ?_ }
  · rw [htail]
    exact hover
  · have hprogress := h.progress
    rwa [hidle.2] at hprogress

theorem take (h : c.Course as taken sent) (t : Ticket) :
    (c.takeFrame t).1.Course (as ++ [.take t]) (taken ++ c.takes (.take t))
      (sent ++ (c.takeFrame t).2.1) := by
  have h : c.Course (as ++ [.take t]) taken sent := h.advance rfl rfl
  obtain ⟨htake, htakes⟩ | ⟨hidle, hover, htake, htakes⟩ | ⟨m, rest, hidle, hnext, htake, htakes⟩ :=
    c.takeFrame_cases t
  · rw [htake, htakes, List.append_nil, List.append_nil]
    exact h
  · rw [htake, htakes, List.append_nil, List.append_nil]
    exact h.close hidle hover
  · rw [isIdle, Bool.and_eq_true, Option.isNone_iff_eq_none] at hidle
    have hprogress := h.progress
    rw [hidle.2] at hprogress
    rw [htake, htakes]
    obtain ⟨r, hr, hreceive⟩ | ⟨hr, hreceive⟩ | ⟨command, hcommand, hreceive⟩ :=
      receive_cases (c := { c with unread := rest }) h.reachable t m (Act.Given (as ++ [.take t]))
    · rw [hreceive]
      apply h.step_frame hidle.1 hnext rfl
      · rw [responses_append]
        show Progress _ _ c.awaiting _
        rw [hidle.2]
        exact hprogress.reply hr
      · exact fun hb ↦ List.mem_append_left _ (h.promised hb)
      · exact h.quiet.concat (.inl ⟨r, rfl⟩)
    · rw [hreceive]
      apply h.step_frame hidle.1 hnext rfl
      · rw [responses_append]
        show Progress _ _ c.awaiting _
        rw [hidle.2]
        exact hprogress.reply hr
      · exact fun _ ↦ List.mem_append_right _ (List.mem_singleton_self _)
      · exact h.quiet.concat (.inl ⟨_, rfl⟩)
    · rw [hreceive, List.append_nil]
      apply h.step_frame hidle.1 hnext rfl
      · exact .owing hprogress.forall₂ hcommand
      · exact h.promised
      · exact h.quiet

theorem notify (h : c.Course as taken sent) :
    c.notify.1.Course (as ++ [.notify]) taken (sent ++ c.notify.2) := by
  have h : c.Course (as ++ [.notify]) taken sent := h.advance rfl rfl
  unfold Connection.notify
  split
  · split
    · next e events hbacklog =>
      have hsubscribed : .response .subscribed ∈ sent := h.promised (by simp [hbacklog])
      rw [send, if_pos h.reachable]
      refine { h with progress := ?_, promised := ?_, quiet := ?_ }
      · rw [responses_append]
        exact (List.append_nil (responses sent)).symm ▸ h.progress
      · exact fun _ ↦ List.mem_append_left _ hsubscribed
      · exact h.quiet.concat (.inr hsubscribed)
    · rw [List.append_nil]
      exact h
  · rw [List.append_nil]
    exact h

theorem hear (h : c.Course as taken sent) (capacity : Nat) (uptimeSecs : UInt64) (e : Event) :
    (c.hear capacity e).Course (as ++ [.pass uptimeSecs (.emitted e)]) taken sent := by
  have h : c.Course (as ++ [.pass uptimeSecs (.emitted e)]) taken sent := h.advance rfl rfl
  unfold Connection.hear
  split
  · refine { h with promised := ?_ }
    exact fun hb ↦ h.promised fun hnone ↦ hb (by rw [hnone]; rfl)
  · exact h

theorem answer (h : c.Course as taken sent) (uptimeSecs : UInt64) (t : Ticket) (a : Answer) :
    (c.answer t (.ofAnswer uptimeSecs a)).1.Course (as ++ [.pass uptimeSecs (.answered t a)]) taken
      (sent ++ (c.answer t (.ofAnswer uptimeSecs a)).2) := by
  have h : c.Course (as ++ [.pass uptimeSecs (.answered t a)]) taken sent := h.advance rfl rfl
  unfold Connection.answer
  split
  · next hawaits =>
    rw [Bool.and_eq_true, beq_iff_eq] at hawaits
    have hprogress := h.progress
    rw [hawaits.2] at hprogress
    rw [send, if_pos h.reachable]
    refine { h with
      idle_of_closed := fun _ ↦ rfl
      progress := ?_
      promised := fun hb ↦ List.mem_append_left _ (h.promised hb)
      quiet := h.quiet.concat (.inl ⟨_, rfl⟩) }
    rw [responses_append]
    exact hprogress.answer ⟨uptimeSecs, a, List.mem_append_right _ (List.mem_singleton_self _), rfl⟩
  · rw [List.append_nil]
    exact h

/-- Every act goes on with the conversation, unless the client leaves or the server closes the
connection. -/
theorem act (h : c.Course as taken sent) (capacity : Nat) {a : Act} (hleave : a ≠ .leave)
    (hclose : a ≠ .close) :
    (c.act capacity a).1.Course (as ++ [a]) (taken ++ c.takes a) (sent ++ (c.act capacity a).2) := by
  cases a with
  | leave => exact absurd rfl hleave
  | close => exact absurd rfl hclose
  | take t => exact h.take t
  | arrive bytes =>
    simp only [takes, Connection.act, List.append_nil]
    exact h.arrive bytes
  | finish =>
    simp only [takes, Connection.act, List.append_nil]
    exact h.finish
  | notify =>
    simp only [takes, List.append_nil]
    exact h.notify
  | pass uptimeSecs o =>
    simp only [takes, List.append_nil]
    cases o with
    | emitted e =>
      rw [Connection.act, List.append_nil]
      exact h.hear capacity uptimeSecs e
    | answered t a => exact h.answer uptimeSecs t a

end Course

/-- Every conversation takes this course. -/
theorem course (capacity : Nat) {as : List Act} (hleave : .leave ∉ as) (hclose : .close ∉ as) :
    ((({} : Connection).acts capacity as).1).Course as (({} : Connection).taken capacity as)
      (({} : Connection).acts capacity as).2 := by
  induction as using List.reverseRecOn with
  | nil => exact course_nil
  | append_singleton as a ih =>
    rw [List.mem_append, not_or, List.mem_singleton] at hleave hclose
    have hact := (ih hleave.1 hclose.1).act capacity (Ne.symm hleave.2) (Ne.symm hclose.2)
    rw [acts_append, taken_append]
    simpa only [acts, Connection.taken, List.append_nil] using hact

end Connection

end Typist

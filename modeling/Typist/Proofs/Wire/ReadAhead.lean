import Mathlib.Data.List.Basic
import Mathlib.Logic.Function.Basic
import Typist.Proofs.Wire.Tickets

/-!
# Reading ahead

Frames are read on their own, apart from the connection that handles them: a reader takes one frame
after the other from the stream, and puts it in a queue that has room for a few; while there is no
room it waits with the frame in hand. The end of the stream, or the error that ends it, comes behind
all frames. Nothing new comes of it: what a server does with frames that are read ahead it also does
with frames that are read when they are handled.
-/

namespace Typist

/-- What a reader hands on. -/
inductive Delivery
  | frame (message : List UInt8)
  /-- The stream cannot be read on. -/
  | failed (e : FrameError)
  deriving DecidableEq, Repr

/-- The bytes that were read. -/
def Delivery.bytes : Delivery → List UInt8
  | .frame message => Frame.encode message
  | .failed _ => []

/-- The reader of a connection. -/
structure Reader where
  /-- What it waits to put in the queue. -/
  hand : Option Delivery := none
  queue : List Delivery := []
  /-- Whether it has come to the end of the stream. -/
  stopped : Bool := false
  deriving DecidableEq, Repr

namespace Reader

/-- For how many frames the queue has room. -/
def room : Nat := 8

/-- Everything that was read and not handled yet, in order. -/
def held (r : Reader) : List Delivery := r.queue ++ r.hand.toList

/-- The bytes of what was read and not handled yet. -/
def bytes (r : Reader) : List UInt8 := r.held.flatMap Delivery.bytes

/-- Reads one frame, if there is one and the last one is out of hand. -/
def read (r : Reader) (c : Connection) : Reader × Connection :=
  if c.isOpen && !r.stopped && r.hand.isNone then
    match Frame.next c.unread with
    | .frame message rest => ({ r with hand := some (.frame message) }, { c with unread := rest })
    | .failed (.tooLarge n) _ => ({ r with hand := some (.failed (.tooLarge n)), stopped := true }, c)
    | .failed .truncated _ =>
      (if c.ended then { r with hand := some (.failed .truncated), stopped := true } else r, c)
    | .finished => (if c.ended then { r with stopped := true } else r, c)
  else (r, c)

/-- Puts what is in hand in the queue, if there is room. -/
def post (r : Reader) : Reader :=
  match r.hand with
  | some d => if r.queue.length < room then { r with hand := none, queue := r.queue ++ [d] } else r
  | none => r

/-- Whether nothing more will come. -/
def isDone (r : Reader) : Bool := r.stopped && r.hand.isNone && r.queue.isEmpty

/-- The connection handles what is first in the queue; where nothing more will come it closes. -/
def serve (r : Reader) (c : Connection) (t : Ticket) :
    Reader × Connection × List Sent × Option Command :=
  if c.isIdle then
    match r.queue with
    | .frame message :: queue => ({ r with queue }, c.receive t message)
    | .failed _ :: queue => ({ r with queue }, c.close, [], none)
    | [] => (r, if r.isDone then c.close else c, [], none)
  else (r, c, [], none)

end Reader

/-- A server with a reader for every connection. -/
structure ReadingServer (σ : Type) extends Server σ where
  readers : Nat → Reader := fun _ ↦ {}

namespace ReadingServer

variable {σ : Type}

/-- What moves next. -/
inductive Choice
  /-- What moves in a server; frames are not taken from the stream here. -/
  | server (c : Server.Choice)
  /-- The reader of a connection reads. -/
  | read (client : Nat)
  /-- The reader of a connection puts what it has read in the queue. -/
  | post (client : Nat)
  /-- A connection handles what is first in its queue. -/
  | serve (client : Nat) (uptimeSecs : UInt64)

/-- Puts a connection and its reader as they have become. -/
def put (r : ReadingServer σ) (i : Nat) (reader : Reader) (c : Connection) : ReadingServer σ :=
  { r with
    connections := r.connections.set i c
    readers := Function.update r.readers i reader }

/-- A connection handles what is first in its queue. -/
def serve (r : ReadingServer σ) (uptimeSecs : UInt64) (i : Nat) :
    ReadingServer σ × List Server.Output :=
  match r.connections[i]? with
  | none => (r, [])
  | some c =>
    let (reader, c, sent, command?) := (r.readers i).serve c ⟨r.issued⟩
    let r := r.put i reader c
    match command? with
    | none => (r, Server.toClient i sent)
    | some command =>
      let (s, out) := r.toServer.ask uptimeSecs command
      ({ r with toServer := s }, Server.toClient i sent ++ out)

variable (w : Surroundings σ) (crashReason : String)

/-- One step. -/
def step (r : ReadingServer σ) : Choice → ReadingServer σ × List Server.Output
  | .server (.takeFrame ..) => (r, [])
  | .server c =>
    let (s, out) := r.toServer.step w crashReason c
    ({ r with toServer := s }, out)
  | .read i =>
    match r.connections[i]? with
    | none => (r, [])
    | some c =>
      let (reader, c) := (r.readers i).read c
      (r.put i reader c, [])
  | .post i => ({ r with readers := Function.update r.readers i (r.readers i).post }, [])
  | .serve i uptimeSecs => r.serve uptimeSecs i

/-- A run: what the outside saw, in order. -/
def run (r : ReadingServer σ) : List Choice → ReadingServer σ × List Server.Output
  | [] => (r, [])
  | c :: cs =>
    let (r, out) := r.step w crashReason c
    let (r, later) := r.run cs
    (r, out ++ later)

theorem run_append (r : ReadingServer σ) (cs rest : List Choice) :
    r.run w crashReason (cs ++ rest) =
      (((r.run w crashReason cs).1.run w crashReason rest).1,
        (r.run w crashReason cs).2 ++ ((r.run w crashReason cs).1.run w crashReason rest).2) := by
  induction cs generalizing r with
  | nil => simp [run]
  | cons c cs ih => simp [run, ih]

end ReadingServer

/-! ## Bytes that were read ahead -/

/-- A connection with bytes before those that it has yet to read. -/
def Connection.behind (c : Connection) (bytes : List UInt8) : Connection :=
  { c with unread := bytes ++ c.unread }

theorem Connection.send_behind (c : Connection) (bytes : List UInt8) (s : Sent) :
    (c.behind bytes).send s = ((c.send s).1.behind bytes, (c.send s).2) := by
  obtain ⟨_, _, reachable, _, _, _⟩ := c
  cases reachable <;> rfl

/-- Only where a frame is taken do they matter. -/
theorem Connection.act_behind (capacity : Nat) (c : Connection) (bytes : List UInt8) {a : Act}
    (ha : ∀ t, a ≠ .take t) :
    (c.behind bytes).act capacity a =
      ((c.act capacity a).1.behind bytes, (c.act capacity a).2) := by
  obtain ⟨unread, ended, reachable, awaiting, backlog, isOpen⟩ := c
  cases a with
  | take t => exact absurd rfl (ha t)
  | arrive more => cases isOpen <;> cases ended <;> simp [act, arrive, behind]
  | finish | leave | close => rfl
  | notify =>
    obtain _ | (_ | ⟨e, events⟩) := backlog <;> cases awaiting <;> cases isOpen <;>
      cases reachable <;> rfl
  | pass uptimeSecs o =>
    cases o with
    | emitted e => cases isOpen <;> rfl
    | answered t b =>
      cases hawaits : isOpen && awaiting == some t with
      | false => simp [act, answer, behind, hawaits]
      | true =>
        simp only [act, answer, behind, hawaits, if_true]
        exact send_behind ⟨unread, ended, reachable, none, backlog, isOpen⟩ bytes _

namespace Server

variable {σ : Type}

/-- A server with bytes before those that its connections have yet to read. -/
def behind (s : Server σ) (bytes : Nat → List UInt8) : Server σ :=
  { s with connections := s.connections.mapIdx fun i c ↦ c.behind (bytes i) }

variable (s : Server σ) (bytes : Nat → List UInt8)

@[simp] theorem getElem?_behind (i : Nat) :
    (s.behind bytes).connections[i]? = s.connections[i]?.map fun c ↦ c.behind (bytes i) :=
  List.getElem?_mapIdx

@[simp] theorem length_behind : (s.behind bytes).connections.length = s.connections.length :=
  List.length_mapIdx

/-- Where a connection does the same whatever it has yet to read, so does the server. -/
theorem onConnection_behind {f : Connection → Connection × List Sent}
    (hf : ∀ c b, f (c.behind b) = ((f c).1.behind b, (f c).2)) (i : Nat) :
    (s.behind bytes).onConnection i f =
      ((s.onConnection i f).1.behind bytes, (s.onConnection i f).2) := by
  unfold onConnection
  rw [getElem?_behind]
  cases hi : s.connections[i]? with
  | none => rfl
  | some c =>
    simp only [Option.map_some, hf, behind, Prod.mk.injEq, and_true]
    congr 1
    apply List.ext_getElem?
    intro j
    rw [List.getElem?_mapIdx, List.getElem?_set, List.getElem?_set, List.getElem?_mapIdx,
      List.length_mapIdx]
    by_cases hij : i = j
    · subst hij
      rw [if_pos rfl, if_pos rfl]
      split <;> rfl
    · rw [if_neg hij, if_neg hij]

theorem own_behind (capacity : Nat) (i : Nat) {a : Connection.Act} (ha : ∀ t, a ≠ .take t) :
    (s.behind bytes).onConnection i (·.act capacity a) =
      ((s.onConnection i (·.act capacity a)).1.behind bytes,
        (s.onConnection i (·.act capacity a)).2) :=
  s.onConnection_behind bytes (fun c b ↦ c.act_behind capacity b ha) i

theorem onEach_behind {f : Connection → Connection × List Sent}
    (hf : ∀ c b, f (c.behind b) = ((f c).1.behind b, (f c).2)) (is : List Nat) :
    (s.behind bytes).onEach f is = ((s.onEach f is).1.behind bytes, (s.onEach f is).2) := by
  induction is generalizing s with
  | nil => rfl
  | cons i is ih =>
    simp only [onEach, onConnection_behind s bytes hf i, ih]

theorem onAll_behind (capacity : Nat) {a : Connection.Act} (ha : ∀ t, a ≠ .take t) :
    (s.behind bytes).onAll (·.act capacity a) =
      ((s.onAll (·.act capacity a)).1.behind bytes, (s.onAll (·.act capacity a)).2) := by
  unfold onAll
  rw [length_behind]
  exact s.onEach_behind bytes (fun c b ↦ c.act_behind capacity b ha) _

theorem passOn_behind (uptimeSecs : UInt64) (o : Daemon.Output) :
    (s.behind bytes).passOn uptimeSecs o =
      ((s.passOn uptimeSecs o).1.behind bytes, (s.passOn uptimeSecs o).2) := by
  rw [passOn_eq, passOn_eq, onAll_behind s bytes _ (a := .pass uptimeSecs o) (fun _ ↦ nofun)]
  rfl

theorem passOnAll_behind (uptimeSecs : UInt64) (os : List Daemon.Output) :
    (s.behind bytes).passOnAll uptimeSecs os =
      ((s.passOnAll uptimeSecs os).1.behind bytes, (s.passOnAll uptimeSecs os).2) := by
  induction os generalizing s with
  | nil => rfl
  | cons o os ih => simp only [passOnAll, passOn_behind, ih]

theorem ask_behind (uptimeSecs : UInt64) (c : Command) :
    (s.behind bytes).ask uptimeSecs c =
      ((s.ask uptimeSecs c).1.behind bytes, (s.ask uptimeSecs c).2) :=
  passOnAll_behind { s with
    daemon := (s.daemon.send ⟨s.issued⟩ c).1, issued := s.issued + 1 } bytes uptimeSecs _

variable (w : Surroundings σ) (crashReason : String)

/-- Every step but one that takes a frame is the same; a new client has nothing read ahead. -/
theorem step_behind (hnew : bytes s.connections.length = []) {c : Choice}
    (hc : ∀ i uptimeSecs, c ≠ .takeFrame i uptimeSecs) :
    (s.behind bytes).step w crashReason c =
      ((s.step w crashReason c).1.behind bytes, (s.step w crashReason c).2) := by
  cases c with
  | takeFrame i uptimeSecs => exact absurd rfl (hc i uptimeSecs)
  | connect =>
    simp only [step, connect, behind, List.mapIdx_concat, hnew]
    rfl
  | arrive i more => exact s.own_behind bytes 0 i (a := .arrive more) (by simp)
  | finish i => exact s.own_behind bytes 0 i (a := .finish) (by simp)
  | leave i => exact s.own_behind bytes 0 i (a := .leave) (by simp)
  | notify i => exact s.own_behind bytes 0 i (a := .notify) (by simp)
  | stopDaemon uptimeSecs => exact s.ask_behind bytes uptimeSecs .shutdown
  | daemon d uptimeSecs =>
    cases d with
    | send => rfl
    | _ => exact passOnAll_behind { s with daemon := _ } bytes uptimeSecs _
  | shutDown =>
    simp only [step, shutDown, behind, Prod.mk.injEq, and_true]
    congr 1
    apply List.ext_getElem?
    intro j
    simp only [List.getElem?_map, List.getElem?_mapIdx, Option.map_map]
    rfl

end Server

/-! ## Readers -/

namespace Connection

theorem behind_nil (c : Connection) : c.behind [] = c := rfl

/-- Where no frame can follow the connection closes. -/
theorem takeFrame_of_over {c : Connection} (hidle : c.isIdle = true)
    (hover : Frame.IsOver c.ended c.unread) (t : Ticket) :
    c.takeFrame t = (c.close, [], none) ∧ c.takes (.take t) = [] := by
  unfold takeFrame takes
  rw [if_pos hidle]
  obtain ⟨n, rest, hn⟩ | ⟨hended, hn⟩ := hover
  · simp [hn]
  · cases hnext : Frame.next c.unread with
    | frame m rest => exact absurd hnext (hn m rest)
    | finished => simp [hended]
    | failed e rest => cases e <;> simp [hended]

theorem takeFrame_of_frame {c : Connection} (hidle : c.isIdle = true) {m rest : List UInt8}
    (hnext : Frame.next c.unread = .frame m rest) (t : Ticket) :
    c.takeFrame t = { c with unread := rest }.receive t m ∧ c.takes (.take t) = [(m, t)] := by
  simp [takeFrame, takes, hidle, hnext]

/-- What becomes of a frame has nothing to do with what was read ahead. -/
theorem receive_behind (c : Connection) (bytes : List UInt8) (t : Ticket) (m : List UInt8) :
    (c.behind bytes).receive t m =
      ((c.receive t m).1.behind bytes, (c.receive t m).2.1, (c.receive t m).2.2) := by
  obtain ⟨_, _, reachable, _, _, _⟩ := c
  unfold receive
  cases reachable <;> cases Reception.ofFrame m <;> rfl

/-- The stream is left to whoever reads it. -/
theorem receive_frame (c : Connection) (t : Ticket) (m : List UInt8) :
    (c.receive t m).1.ended = c.ended ∧ (c.receive t m).1.unread = c.unread := by
  obtain ⟨_, _, reachable, _, _, _⟩ := c
  unfold receive
  cases reachable <;> cases Reception.ofFrame m <;> exact ⟨rfl, rfl⟩

/-- A stream that is over stays over, whatever happens but that a frame is taken. -/
theorem over_act (capacity : Nat) {c : Connection} (h : Frame.IsOver c.ended c.unread) {a : Act}
    (ha : ∀ t, a ≠ .take t) :
    Frame.IsOver (c.act capacity a).1.ended (c.act capacity a).1.unread := by
  obtain ⟨unread, ended, reachable, awaiting, backlog, isOpen⟩ := c
  cases a with
  | take t => exact absurd rfl (ha t)
  | arrive more =>
    cases isOpen with
    | false => exact h
    | true =>
      cases ended with
      | false => exact h.append more
      | true => exact h
  | finish | leave => exact h.finish
  | close => exact h
  | notify =>
    obtain _ | (_ | ⟨e, events⟩) := backlog <;> cases awaiting <;> cases isOpen <;>
      cases reachable <;> exact h
  | pass uptimeSecs o =>
    cases o with
    | emitted e => cases isOpen <;> exact h
    | answered t b =>
      simp only [act, answer]
      split
      · cases reachable <;> exact h
      · exact h

theorem over_acts (capacity : Nat) {c : Connection} (h : Frame.IsOver c.ended c.unread)
    {as : List Act} (has : ∀ t, .take t ∉ as) :
    Frame.IsOver (c.acts capacity as).1.ended (c.acts capacity as).1.unread := by
  induction as generalizing c with
  | nil => exact h
  | cons a as ih =>
    refine ih (over_act capacity h ?_) fun t ht ↦ has t (List.mem_cons_of_mem _ ht)
    rintro t rfl
    exact has t List.mem_cons_self

end Connection

namespace Reader

/-- Whether there is something for a connection to handle. -/
def isReady (r : Reader) (c : Connection) : Bool := c.isIdle && (r.isDone || !r.queue.isEmpty)

/-- Whether a reader and its connection fit: what was read are frames, and behind them, once the
reader has stopped, what ended the stream. -/
structure Sound (r : Reader) (c : Connection) : Prop where
  small : ∀ m, .frame m ∈ r.held → m.length ≤ maxFrame
  running : r.stopped = false → ∀ e, .failed e ∉ r.held
  last : ∀ before e rest, r.held = before ++ .failed e :: rest → rest = []
  exhausted : r.stopped = true → Frame.IsOver c.ended c.unread

theorem sound_new (c : Connection) : ({} : Reader).Sound c where
  small := nofun
  running _ := nofun
  last before e rest h := by
    have hmem : Delivery.failed e ∈ ({} : Reader).held := h ▸ List.mem_append_cons_self
    cases hmem
  exhausted := nofun

/-- How a reader can read: there is nothing to be read, or it reads a frame, or it comes to the end
of the stream, with word of it in hand or not. -/
theorem read_cases (r : Reader) (c : Connection) :
    r.read c = (r, c) ∨
    r.hand = none ∧ r.stopped = false ∧
      ((∃ m rest, Frame.next c.unread = .frame m rest ∧
        r.read c = ({ r with hand := some (.frame m) }, { c with unread := rest })) ∨
      ∃ e? : Option FrameError, Frame.IsOver c.ended c.unread ∧
        r.read c = ({ r with hand := e?.map .failed, stopped := true }, c)) := by
  unfold read
  split
  · next hreads =>
    simp only [Bool.and_eq_true, Bool.not_eq_true', Option.isNone_iff_eq_none] at hreads
    obtain ⟨⟨-, hstopped⟩, hhand⟩ := hreads
    match hnext : Frame.next c.unread with
    | .frame m rest => exact .inr ⟨hhand, hstopped, .inl ⟨m, rest, rfl, rfl⟩⟩
    | .failed (.tooLarge n) rest =>
      exact .inr ⟨hhand, hstopped, .inr ⟨some (.tooLarge n), .inl ⟨n, rest, hnext⟩, rfl⟩⟩
    | .failed .truncated rest =>
      cases hended : c.ended with
      | false => exact .inl rfl
      | true =>
        exact .inr ⟨hhand, hstopped, .inr ⟨some .truncated, .inr ⟨rfl, by simp [hnext]⟩, rfl⟩⟩
    | .finished =>
      cases hended : c.ended with
      | false => exact .inl rfl
      | true =>
        refine .inr ⟨hhand, hstopped, .inr ⟨none, .inr ⟨rfl, by simp [hnext]⟩, ?_⟩⟩
        simp [← hhand]
  · exact .inl rfl

/-- A reader that reads stays sound, and what there is to be handled stays the same. -/
theorem Sound.read {r : Reader} {c : Connection} (h : r.Sound c) :
    (r.read c).1.Sound (r.read c).2 ∧
      (r.read c).2.behind (r.read c).1.bytes = c.behind r.bytes := by
  obtain hread | ⟨hhand, hstopped, ⟨m, rest, hnext, hread⟩ | ⟨e?, hover, hread⟩⟩ := r.read_cases c
  · rw [hread]
    exact ⟨h, rfl⟩
  · rw [hread]
    obtain ⟨hbytes, hm⟩ := Frame.next_eq_frame_iff.mp hnext
    have hheld : ({ r with hand := some (.frame m) } : Reader).held = r.held ++ [.frame m] := by
      simp [held, hhand]
    have hnone : ∀ e, .failed e ∉ r.held ++ [.frame m] := by
      intro e he
      rcases List.mem_append.mp he with he | he
      · exact h.running hstopped e he
      · cases List.mem_singleton.mp he
    refine ⟨⟨?_, ?_, ?_, ?_⟩, ?_⟩
    · intro n hn
      rw [hheld] at hn
      rcases List.mem_append.mp hn with hn | hn
      · exact h.small n hn
      · cases List.mem_singleton.mp hn
        exact hm
    · intro _ e
      rw [hheld]
      exact hnone e
    · intro before e rest heq
      rw [hheld] at heq
      exact absurd (heq ▸ List.mem_append_cons_self) (hnone e)
    · intro hs
      rw [hstopped] at hs
      cases hs
    · rw [bytes, hheld, List.flatMap_append, Connection.behind, Connection.behind, hbytes]
      simp [bytes, Delivery.bytes]
  · rw [hread]
    have hheld : ({ r with hand := e?.map .failed, stopped := true } : Reader).held =
        r.held ++ (e?.map Delivery.failed).toList := by
      simp [held, hhand]
    refine ⟨⟨?_, nofun, ?_, fun _ ↦ hover⟩, ?_⟩
    · intro n hn
      rw [hheld] at hn
      rcases List.mem_append.mp hn with hn | hn
      · exact h.small n hn
      · cases e? <;> simp at hn
    · intro before e rest heq
      rw [hheld] at heq
      obtain rfl | ⟨rest, last, rfl⟩ := List.eq_nil_or_concat' rest
      · rfl
      · cases e? with
        | none =>
          rw [Option.map_none, Option.toList_none, List.append_nil] at heq
          exact absurd (heq ▸ List.mem_append_cons_self) (h.running hstopped e)
        | some e' =>
          rw [Option.map_some, Option.toList_some, ← List.cons_append, ← List.append_assoc] at heq
          have hbefore := (List.append_inj' heq rfl).1
          exact absurd (hbefore ▸ List.mem_append_cons_self) (h.running hstopped e)
    · rw [bytes, hheld, List.flatMap_append]
      cases e? <;> simp [bytes, Delivery.bytes]

/-- So does one that puts something in the queue. -/
theorem held_post (r : Reader) : r.post.held = r.held ∧ r.post.stopped = r.stopped := by
  unfold post
  split
  · next d hd =>
    split
    · simp [held, hd]
    · exact ⟨rfl, rfl⟩
  · exact ⟨rfl, rfl⟩

theorem Sound.congr {r r' : Reader} {c : Connection} (h : r.Sound c) (hheld : r'.held = r.held)
    (hstopped : r'.stopped = r.stopped) : r'.Sound c where
  small := hheld ▸ h.small
  running := hheld ▸ hstopped ▸ h.running
  last := hheld ▸ h.last
  exhausted := hstopped ▸ h.exhausted

/-- What a connection handles is what it would read itself. -/
theorem Sound.serve {r : Reader} {c : Connection} (h : r.Sound c) (hready : r.isReady c = true)
    (t : Ticket) :
    (r.serve c t).1.Sound (r.serve c t).2.1 ∧
      (c.behind r.bytes).takeFrame t =
        ((r.serve c t).2.1.behind (r.serve c t).1.bytes, (r.serve c t).2.2) ∧
      (c.behind r.bytes).takes (.take t) =
        match r.queue with
        | .frame m :: _ => [(m, t)]
        | _ => [] := by
  unfold isReady at hready
  rw [Bool.and_eq_true] at hready
  obtain ⟨hidle, hready⟩ := hready
  unfold Reader.serve
  rw [if_pos hidle]
  match hq : r.queue with
  | .frame m :: queue =>
    have hheld : r.held = .frame m :: ({ r with queue } : Reader).held := by simp [held, hq]
    have hbytes : r.bytes = Frame.encode m ++ ({ r with queue } : Reader).bytes := by
      rw [bytes, hheld]
      rfl
    have hm : m.length ≤ maxFrame := h.small m (hheld ▸ List.mem_cons_self)
    have hnext : Frame.next (c.behind r.bytes).unread =
        .frame m (({ r with queue } : Reader).bytes ++ c.unread) := by
      rw [Connection.behind, hbytes, List.append_assoc]
      exact Frame.next_encode_append_iff.mpr hm
    obtain ⟨htake, htakes⟩ := Connection.takeFrame_of_frame (c := c.behind r.bytes) hidle hnext t
    obtain ⟨hended, hunread⟩ := c.receive_frame t m
    refine ⟨⟨?_, ?_, ?_, ?_⟩, ?_, htakes⟩
    · exact fun n hn ↦ h.small n (hheld ▸ List.mem_cons_of_mem _ hn)
    · exact fun hs e he ↦ h.running hs e (hheld ▸ List.mem_cons_of_mem _ he)
    · exact fun before e rest heq ↦ h.last (.frame m :: before) e rest (by rw [hheld, heq]; rfl)
    · rw [hended, hunread]
      exact h.exhausted
    · rw [htake]
      exact c.receive_behind _ t m
  | .failed e :: queue =>
    have hheld : r.held = .failed e :: ({ r with queue } : Reader).held := by simp [held, hq]
    have hnil : ({ r with queue } : Reader).held = [] := h.last [] e _ hheld
    have hstopped : r.stopped = true := by
      by_contra hs
      exact h.running (Bool.eq_false_iff.mpr hs) e (hheld ▸ List.mem_cons_self)
    have hbytes : r.bytes = [] := by
      rw [bytes, hheld, hnil]
      rfl
    have hrest : ({ r with queue } : Reader).bytes = [] := by
      rw [bytes, hnil]
      rfl
    obtain ⟨htake, htakes⟩ := Connection.takeFrame_of_over hidle (h.exhausted hstopped) t
    rw [hbytes, Connection.behind_nil]
    refine ⟨⟨?_, ?_, ?_, h.exhausted⟩, ?_, htakes⟩
    · exact fun n hn ↦ h.small n (hheld ▸ List.mem_cons_of_mem _ hn)
    · exact fun hs e he ↦ h.running hs e (hheld ▸ List.mem_cons_of_mem _ he)
    · exact fun before e' rest heq ↦ h.last (.failed e :: before) e' rest (by rw [hheld, heq]; rfl)
    · rw [hrest]
      exact htake
  | [] =>
    rw [hq, List.isEmpty_nil, Bool.not_true, Bool.or_false] at hready
    have hdone := hready
    simp only [isDone, Bool.and_eq_true, Option.isNone_iff_eq_none] at hdone
    have hbytes : r.bytes = [] := by
      simp [bytes, held, hq, hdone.1.2]
    obtain ⟨htake, htakes⟩ := Connection.takeFrame_of_over hidle (h.exhausted hdone.1.1) t
    rw [hbytes, Connection.behind_nil, if_pos hready]
    exact ⟨⟨h.small, h.running, h.last, h.exhausted⟩, htake, htakes⟩

theorem serve_of_not_ready {r : Reader} {c : Connection} (h : r.isReady c = false) (t : Ticket) :
    r.serve c t = (r, c, [], none) := by
  unfold isReady at h
  unfold Reader.serve
  split
  · next hidle =>
    rw [hidle, Bool.true_and, Bool.or_eq_false_iff, Bool.not_eq_false', List.isEmpty_iff] at h
    rw [h.2, h.1]
    rfl
  · rfl

end Reader

namespace ReadingServer

open Server (Output)

variable {σ : Type}

/-! ## Without reading ahead -/

/-- The server that has not read ahead. -/
def plain (r : ReadingServer σ) : Server σ := r.toServer.behind fun i ↦ (r.readers i).bytes

/-- Whether readers fit their connections. -/
structure Sound (r : ReadingServer σ) : Prop where
  reader : ∀ i c, r.connections[i]? = some c → (r.readers i).Sound c
  new : ∀ i, r.connections[i]? = none → r.readers i = {}

/-- What a step is without reading ahead. -/
def plainly (r : ReadingServer σ) : Choice → List Server.Choice
  | .server (.takeFrame ..) => []
  | .server c => [c]
  | .serve i uptimeSecs =>
    if r.connections[i]?.any (r.readers i).isReady then [.takeFrame i uptimeSecs] else []
  | _ => []

/-- The frame that a connection takes in a step, with the ticket at hand. -/
def takes (r : ReadingServer σ) (i : Nat) : Choice → List (List UInt8 × Ticket)
  | .serve j _ =>
    if j = i && r.connections[i]?.any Connection.isIdle then
      match (r.readers i).queue with
      | .frame m :: _ => [(m, ⟨r.issued⟩)]
      | _ => []
    else []
  | _ => []

theorem plain_put {r : ReadingServer σ} {i : Nat} {c : Connection}
    (hi : r.connections[i]? = some c) (reader : Reader) (c' : Connection) :
    (r.put i reader c').plain =
      { r.plain with connections := r.plain.connections.set i (c'.behind reader.bytes) } := by
  obtain ⟨hlt, -⟩ := List.getElem?_eq_some_iff.mp hi
  simp only [plain, put, Server.behind]
  congr 1
  apply List.ext_getElem?
  intro j
  rw [List.getElem?_mapIdx, List.getElem?_set, List.getElem?_set, List.getElem?_mapIdx,
    List.length_mapIdx]
  by_cases hij : i = j
  · subst hij
    rw [if_pos rfl, if_pos rfl, if_pos hlt, if_pos hlt, Option.map_some, Function.update_self]
  · rw [if_neg hij, if_neg hij, Function.update_of_ne (Ne.symm hij)]

/-- Nothing changes where what there is to be handled does not. -/
theorem plain_put_of_eq {r : ReadingServer σ} {i : Nat} {c : Connection}
    (hi : r.connections[i]? = some c) {reader : Reader} {c' : Connection}
    (h : c'.behind reader.bytes = c.behind (r.readers i).bytes) :
    (r.put i reader c').plain = r.plain := by
  have hplain : r.plain.connections[i]? = some (c.behind (r.readers i).bytes) := by
    rw [plain, Server.getElem?_behind, hi]
    rfl
  obtain ⟨hlt, hget⟩ := List.getElem?_eq_some_iff.mp hplain
  rw [plain_put hi, h, ← hget, List.set_getElem_self]

theorem put_self {r : ReadingServer σ} {i : Nat} {c : Connection}
    (hi : r.connections[i]? = some c) : r.put i (r.readers i) c = r := by
  obtain ⟨hlt, rfl⟩ := List.getElem?_eq_some_iff.mp hi
  rw [put, List.set_getElem_self, Function.update_eq_self]

theorem Sound.put {r : ReadingServer σ} (h : r.Sound) {i : Nat} {c : Connection}
    (hi : r.connections[i]? = some c) {reader : Reader} {c' : Connection}
    (hreader : reader.Sound c') : (r.put i reader c').Sound := by
  obtain ⟨hlt, -⟩ := List.getElem?_eq_some_iff.mp hi
  refine ⟨fun j d hj ↦ ?_, fun j hj ↦ ?_⟩
  · simp only [ReadingServer.put] at hj ⊢
    rw [List.getElem?_set] at hj
    by_cases hij : i = j
    · subst hij
      rw [if_pos rfl, if_pos hlt] at hj
      cases hj
      rw [Function.update_self]
      exact hreader
    · rw [if_neg hij] at hj
      rw [Function.update_of_ne (Ne.symm hij)]
      exact h.reader j d hj
  · simp only [ReadingServer.put] at hj ⊢
    rw [List.getElem?_eq_none_iff, List.length_set] at hj
    rw [Function.update_of_ne (by omega)]
    exact h.new j (List.getElem?_eq_none hj)

/-- Acts other than that a frame is taken leave readers and connections fitting. -/
theorem Sound.turns {r : ReadingServer σ} (h : r.Sound) {s s' : Server σ} {out : List Output}
    {os : List Daemon.Output} {as : Nat → List Connection.Act} (hturns : s.Turns s' out os as)
    (hs : s.connections = r.connections) (has : ∀ i t, .take t ∉ as i) :
    { r with toServer := s' }.Sound := by
  refine ⟨fun i c hc ↦ ?_, fun i hi ↦ ?_⟩
  · rw [hturns.connection, hs] at hc
    obtain ⟨before, hbefore, rfl⟩ := Option.map_eq_some_iff.mp hc
    have hreader := h.reader i before hbefore
    exact { hreader with
      exhausted := fun hstopped ↦ Connection.over_acts _ (hreader.exhausted hstopped) (has i) }
  · rw [hturns.connection, Option.map_eq_none_iff, hs] at hi
    exact h.new i hi

variable (w : Surroundings σ) (crashReason : String)

theorem not_mem_actsIn {s : Server σ} {c : Server.Choice}
    (hc : ∀ i uptimeSecs, c ≠ .takeFrame i uptimeSecs) (i : Nat) (t : Ticket) :
    .take t ∉ s.actsIn w crashReason i c := by
  intro h
  obtain ⟨uptimeSecs, rfl⟩ := Server.causes_of_mem_actsIn w crashReason h
  exact hc i uptimeSecs rfl

theorem Sound.server {r : ReadingServer σ} (h : r.Sound) {c : Server.Choice}
    (hc : ∀ i uptimeSecs, c ≠ .takeFrame i uptimeSecs) :
    { r with toServer := (r.toServer.step w crashReason c).1 }.Sound := by
  by_cases hconnect : c = .connect
  · subst hconnect
    refine ⟨fun i c hi ↦ ?_, fun i hi ↦ ?_⟩
    · replace hi : (r.connections ++ [_])[i]? = some c := hi
      rw [List.getElem?_append] at hi
      split at hi
      · exact h.reader i c hi
      · next hlt =>
        have hnew := h.new i (List.getElem?_eq_none (Nat.not_lt.mp hlt))
        show (r.readers i).Sound c
        rw [hnew]
        exact Reader.sound_new c
    · replace hi : (r.connections ++ [_])[i]? = none := hi
      rw [List.getElem?_eq_none_iff, List.length_append] at hi
      exact h.new i (List.getElem?_eq_none (by omega))
  · exact h.turns (r.toServer.turns_step w crashReason hconnect) rfl
      (not_mem_actsIn w crashReason hc)

theorem held_post (r : ReadingServer σ) (i j : Nat) :
    (Function.update r.readers i (r.readers i).post j).held = (r.readers j).held ∧
      (Function.update r.readers i (r.readers i).post j).stopped = (r.readers j).stopped := by
  by_cases hij : j = i
  · subst hij
    rw [Function.update_self]
    exact (r.readers j).held_post
  · rw [Function.update_of_ne hij]
    exact ⟨rfl, rfl⟩

/-- It is not the place where something waits that counts. -/
theorem plain_post (r : ReadingServer σ) (i : Nat) :
    ({ r with readers := Function.update r.readers i (r.readers i).post }).plain = r.plain := by
  have hbytes (j : Nat) : (Function.update r.readers i (r.readers i).post j).bytes =
      (r.readers j).bytes := by
    rw [Reader.bytes, (r.held_post i j).1, Reader.bytes]
  simp only [plain, hbytes]

theorem Sound.post {r : ReadingServer σ} (h : r.Sound) (i : Nat) :
    ({ r with readers := Function.update r.readers i (r.readers i).post }).Sound := by
  refine ⟨fun j c hj ↦ ?_, fun j hj ↦ ?_⟩
  · obtain ⟨hheld, hstopped⟩ := r.held_post i j
    exact (h.reader j c hj).congr hheld hstopped
  · have hnew : r.readers j = {} := h.new j hj
    by_cases hij : j = i
    · subst hij
      show Function.update r.readers j (r.readers j).post j = {}
      rw [Function.update_self, hnew]
      rfl
    · show Function.update r.readers i (r.readers i).post j = {}
      rw [Function.update_of_ne hij, hnew]

section Serve

variable {r : ReadingServer σ} (h : r.Sound) {i : Nat} {c : Connection}
  (hi : r.connections[i]? = some c)

include hi in
theorem plain_connection : r.plain.connections[i]? = some (c.behind (r.readers i).bytes) := by
  rw [plain, Server.getElem?_behind, hi]
  rfl

include h hi in
/-- What is handled is what the server would take from the stream that has not read ahead. -/
theorem Sound.plain_serve (hready : (r.readers i).isReady c = true) (uptimeSecs : UInt64) :
    r.plain.takeFrame uptimeSecs i =
      ((r.serve uptimeSecs i).1.plain, (r.serve uptimeSecs i).2) := by
  obtain ⟨-, htake, -⟩ := (h.reader i c hi).serve hready ⟨r.issued⟩
  have hissued : r.plain.issued = r.issued := rfl
  simp only [Server.takeFrame, plain_connection hi, hissued, htake, ReadingServer.serve, hi]
  generalize (r.readers i).serve c ⟨r.issued⟩ = x
  obtain ⟨reader, c', sent, command?⟩ := x
  have hput : (⟨r.plain.daemon, r.plain.connections.set i (c'.behind reader.bytes),
      r.plain.capacity, r.issued, r.plain.accepting⟩ : Server σ) = (r.put i reader c').plain :=
    (plain_put hi reader c').symm
  cases command? with
  | none => simp only [hput]
  | some command =>
    simp only [hput]
    rw [plain, Server.ask_behind]
    rfl

include h hi in
theorem Sound.serve (hready : (r.readers i).isReady c = true) (uptimeSecs : UInt64) :
    (r.serve uptimeSecs i).1.Sound := by
  obtain ⟨hreader, -, -⟩ := (h.reader i c hi).serve hready ⟨r.issued⟩
  simp only [ReadingServer.serve, hi]
  generalize (r.readers i).serve c ⟨r.issued⟩ = x at hreader
  obtain ⟨reader, c', sent, command?⟩ := x
  have hput := h.put hi hreader
  cases command? with
  | none => exact hput
  | some command =>
    have hturns := Server.turns_passOnAll { (r.put i reader c').toServer with
      daemon := ((r.put i reader c').daemon.send ⟨(r.put i reader c').issued⟩ command).1
      issued := (r.put i reader c').issued + 1 } uptimeSecs
      ((r.put i reader c').daemon.send ⟨(r.put i reader c').issued⟩ command).2
    exact hput.turns hturns rfl (by simp)

end Serve

/-- A step of a server that reads ahead is one of the server that does not, or none. -/
theorem Sound.step {r : ReadingServer σ} (h : r.Sound) (c : Choice) :
    (r.step w crashReason c).1.Sound ∧
      ((r.step w crashReason c).1.plain, (r.step w crashReason c).2) =
        r.plain.run w crashReason (r.plainly c) ∧
      ∀ i, r.takes i c = r.plain.taken w crashReason i (r.plainly c) := by
  cases c with
  | read i =>
    simp only [ReadingServer.step, plainly]
    cases hi : r.connections[i]? with
    | none => exact ⟨h, rfl, fun _ ↦ rfl⟩
    | some c =>
      obtain ⟨hreader, hsame⟩ := (h.reader i c hi).read
      refine ⟨h.put hi hreader, ?_, fun _ ↦ rfl⟩
      rw [plain_put_of_eq hi hsame]
      rfl
  | post i =>
    exact ⟨h.post i, congrArg (·, []) (plain_post r i), fun _ ↦ rfl⟩
  | server c =>
    by_cases hc : ∃ i uptimeSecs, c = .takeFrame i uptimeSecs
    · obtain ⟨i, uptimeSecs, rfl⟩ := hc
      exact ⟨h, rfl, fun _ ↦ rfl⟩
    · simp only [not_exists] at hc
      have hnew : (r.readers r.connections.length).bytes = [] := by
        rw [h.new _ (List.getElem?_eq_none (Nat.le_refl _))]
        rfl
      have hstep := r.toServer.step_behind (fun i ↦ (r.readers i).bytes) w crashReason hnew hc
      have hserver : r.step w crashReason (.server c) =
          ({ r with toServer := (r.toServer.step w crashReason c).1 },
            (r.toServer.step w crashReason c).2) := by
        cases c with
        | takeFrame i uptimeSecs => exact absurd rfl (hc i uptimeSecs)
        | _ => rfl
      have hplainly : r.plainly (.server c) = [c] := by
        cases c with
        | takeFrame i uptimeSecs => exact absurd rfl (hc i uptimeSecs)
        | _ => rfl
      rw [hserver, hplainly]
      refine ⟨h.server w crashReason hc, ?_, fun i ↦ ?_⟩
      · simp only [Server.run, plain, hstep, List.append_nil]
      · cases c with
        | takeFrame i uptimeSecs => exact absurd rfl (hc i uptimeSecs)
        | _ => rfl
  | serve i uptimeSecs =>
    simp only [ReadingServer.step, plainly]
    cases hi : r.connections[i]? with
    | none =>
      simp only [ReadingServer.serve, hi]
      refine ⟨h, rfl, fun j ↦ ?_⟩
      rw [takes]
      split
      · next hj =>
        rw [Bool.and_eq_true, decide_eq_true_eq] at hj
        rw [← hj.1, hi] at hj
        cases hj.2
      · rfl
    | some c =>
      cases hready : (r.readers i).isReady c with
      | false =>
        simp only [ReadingServer.serve, hi, Reader.serve_of_not_ready hready, put_self hi,
          Option.any_some, hready]
        refine ⟨h, rfl, fun j ↦ ?_⟩
        rw [takes]
        split
        · next hj =>
          rw [Bool.and_eq_true, decide_eq_true_eq] at hj
          obtain ⟨rfl, hidle⟩ := hj
          rw [hi, Option.any_some] at hidle
          rw [Reader.isReady, hidle, Bool.true_and, Bool.or_eq_false_iff, Bool.not_eq_false',
            List.isEmpty_iff] at hready
          rw [hready.2]
          rfl
        · rfl
      | true =>
        have hstep := h.plain_serve hi hready uptimeSecs
        simp only [Option.any_some, hready, if_true, Server.run, Server.step, List.append_nil, hstep]
        refine ⟨h.serve hi hready uptimeSecs, trivial, fun j ↦ ?_⟩
        obtain ⟨-, -, htakes⟩ := (h.reader i c hi).serve hready ⟨r.issued⟩
        rw [Reader.isReady, Bool.and_eq_true] at hready
        simp only [takes, Server.taken, Server.history, Server.takes, List.append_nil]
        by_cases hij : i = j
        · subst hij
          rw [if_pos rfl, plain_connection hi, Option.map_some, Option.getD_some, hi,
            Option.any_some, hready.1, decide_eq_true (rfl : i = i), Bool.true_and, if_pos rfl]
          exact htakes.symm
        · rw [if_neg hij]
          simp [hij]

/-! ## Runs -/

section History

variable {α : Type} (f : ReadingServer σ → Choice → List α)

/-- What is done in the steps of a run, in order. -/
def history (r : ReadingServer σ) : List Choice → List α
  | [] => []
  | c :: cs => f r c ++ (r.step w crashReason c).1.history cs

theorem history_append (r : ReadingServer σ) (cs rest : List Choice) :
    r.history w crashReason f (cs ++ rest) =
      r.history w crashReason f cs ++ (r.run w crashReason cs).1.history w crashReason f rest := by
  induction cs generalizing r with
  | nil => rfl
  | cons c cs ih => simp only [List.cons_append, history, run, ih, List.append_assoc]

end History

/-- The frames that a connection takes in a run, in order, each with the ticket at hand. -/
def taken (r : ReadingServer σ) (i : Nat) (cs : List Choice) : List (List UInt8 × Ticket) :=
  r.history w crashReason (fun r ↦ r.takes i) cs

/-- What a run is without reading ahead. -/
def plainRun (r : ReadingServer σ) (cs : List Choice) : List Server.Choice :=
  r.history w crashReason plainly cs

/-- A run of a server that reads ahead is one of the server that does not. -/
theorem Sound.run {r : ReadingServer σ} (h : r.Sound) (cs : List Choice) :
    (r.run w crashReason cs).1.Sound ∧
      ((r.run w crashReason cs).1.plain, (r.run w crashReason cs).2) =
        r.plain.run w crashReason (r.plainRun w crashReason cs) ∧
      ∀ i, r.taken w crashReason i cs =
        r.plain.taken w crashReason i (r.plainRun w crashReason cs) := by
  induction cs generalizing r with
  | nil => exact ⟨h, rfl, fun _ ↦ rfl⟩
  | cons c cs ih =>
    obtain ⟨hsound, hstep, htakes⟩ := h.step w crashReason c
    obtain ⟨hend, hrest, hlater⟩ := ih hsound
    refine ⟨hend, ?_, fun i ↦ ?_⟩
    · rw [plainRun, history, Server.run_append, ← hstep, ← plainRun, ← hrest]
      rfl
    · rw [plainRun, history, Server.taken, Server.history_append, ← Server.taken, ← htakes,
        ← hstep, ← plainRun, ← Server.taken, ← hlater]
      rfl

end ReadingServer

end Typist

import Typist.Connection
import Typist.Daemon

/-!
# The server

The daemon with the connections of its clients. Commands get a ticket each, which brings the answer
back to the connection that awaits it; events go to every subscriber. As with the daemon, one step
lets one thing happen, and every interleaving is a list of choices.
-/

namespace Typist

/-- The server between two steps. -/
structure Server (σ : Type) where
  daemon : Daemon σ
  connections : List Connection := []
  /-- How many events are kept for a subscriber that does not take them. -/
  capacity : Nat
  /-- How many tickets have been given out. -/
  issued : Nat := 0
  /-- Whether clients can connect. -/
  accepting : Bool := true

namespace Server

variable {σ : Type}

/-- What the outside sees of a server: what its daemon does, and what clients are sent. -/
inductive Output
  | daemon (o : Daemon.Output)
  | sent (client : Nat) (s : Sent)
  deriving DecidableEq, Repr

/-- Sends something to a client. -/
def toClient (client : Nat) (sent : List Sent) : List Output := sent.map (.sent client)

/-- Lets one connection do something. -/
def onConnection (s : Server σ) (i : Nat) (f : Connection → Connection × List Sent) :
    Server σ × List Output :=
  match s.connections[i]? with
  | none => (s, [])
  | some c =>
    let (c, sent) := f c
    ({ s with connections := s.connections.set i c }, toClient i sent)

/-- Lets connections do something, one after the other. -/
def onEach (f : Connection → Connection × List Sent) : Server σ → List Nat → Server σ × List Output
  | s, [] => (s, [])
  | s, i :: rest =>
    let (s, out) := s.onConnection i f
    let (s, later) := onEach f s rest
    (s, out ++ later)

/-- Lets every connection do something. -/
def onAll (s : Server σ) (f : Connection → Connection × List Sent) : Server σ × List Output :=
  onEach f s (List.range s.connections.length)

/-- Passes on what the daemon does: subscribers hear of events, and answers reach whoever awaits
them. -/
def passOn (s : Server σ) (uptimeSecs : UInt64) (o : Daemon.Output) : Server σ × List Output :=
  let (s, out) := match o with
    | .emitted e => s.onAll fun c ↦ (c.hear s.capacity e, [])
    | .answered t a => s.onAll fun c ↦ c.answer t (.ofAnswer uptimeSecs a)
  (s, .daemon o :: out)

/-- Passes on one thing after the other. -/
def passOnAll (uptimeSecs : UInt64) : Server σ → List Daemon.Output → Server σ × List Output
  | s, [] => (s, [])
  | s, o :: rest =>
    let (s, out) := s.passOn uptimeSecs o
    let (s, later) := passOnAll uptimeSecs s rest
    (s, out ++ later)

/-- Puts the daemon as it has become, and passes on what it did. -/
def follow (s : Server σ) (uptimeSecs : UInt64) (r : Daemon σ × List Daemon.Output) :
    Server σ × List Output :=
  passOnAll uptimeSecs { s with daemon := r.1 } r.2

/-- Sends a command to the daemon under a fresh ticket. -/
def ask (s : Server σ) (uptimeSecs : UInt64) (c : Command) : Server σ × List Output :=
  { s with issued := s.issued + 1 }.follow uptimeSecs (s.daemon.send ⟨s.issued⟩ c)

/-- A connection handles its next frame. -/
def takeFrame (s : Server σ) (uptimeSecs : UInt64) (i : Nat) : Server σ × List Output :=
  match s.connections[i]? with
  | none => (s, [])
  | some c =>
    let (c, sent, command?) := c.takeFrame ⟨s.issued⟩
    let s := { s with connections := s.connections.set i c }
    match command? with
    | none => (s, toClient i sent)
    | some command =>
      let (s, out) := s.ask uptimeSecs command
      (s, toClient i sent ++ out)

/-- A client connects, if it still can. -/
def connect (s : Server σ) : Server σ :=
  { s with connections := s.connections ++ [{ isOpen := s.accepting }] }

/-- Closes every connection. Those who wait for an answer get none. -/
def shutDown (s : Server σ) : Server σ :=
  { s with accepting := false, connections := s.connections.map Connection.close }

/-! ## Steps -/

/-- What moves next. -/
inductive Choice
  | connect
  | arrive (client : Nat) (bytes : List UInt8)
  | finish (client : Nat)
  | leave (client : Nat)
  | takeFrame (client : Nat) (uptimeSecs : UInt64)
  | notify (client : Nat)
  /-- The daemon moves on. Commands come from connections, so here nobody else sends any. -/
  | daemon (c : Daemon.Choice) (uptimeSecs : UInt64)
  | shutDown
  /-- The process tells the daemon to shut down. -/
  | stopDaemon (uptimeSecs : UInt64)

/-- One step. -/
def step (w : Surroundings σ) (crashReason : String) (s : Server σ) :
    Choice → Server σ × List Output
  | .connect => (s.connect, [])
  | .arrive i bytes => s.onConnection i fun c ↦ (c.arrive bytes, [])
  | .finish i => s.onConnection i fun c ↦ (c.finish, [])
  | .leave i => s.onConnection i fun c ↦ (c.leave, [])
  | .takeFrame i uptimeSecs => s.takeFrame uptimeSecs i
  | .notify i => s.onConnection i Connection.notify
  | .daemon (.send ..) _ => (s, [])
  | .daemon c uptimeSecs => s.follow uptimeSecs (s.daemon.step w crashReason c)
  | .shutDown => (s.shutDown, [])
  | .stopDaemon uptimeSecs => s.ask uptimeSecs .shutdown

/-- A run: what the outside saw, in order. -/
def run (w : Surroundings σ) (crashReason : String) (s : Server σ) :
    List Choice → Server σ × List Output
  | [] => (s, [])
  | c :: cs =>
    let (s, out) := s.step w crashReason c
    let (s, later) := s.run w crashReason cs
    (s, out ++ later)

/-- A run of choices after others goes on where those ended. -/
theorem run_append (w : Surroundings σ) (crashReason : String) (s : Server σ)
    (cs rest : List Choice) :
    s.run w crashReason (cs ++ rest) =
      (((s.run w crashReason cs).1.run w crashReason rest).1,
        (s.run w crashReason cs).2 ++ ((s.run w crashReason cs).1.run w crashReason rest).2) := by
  induction cs generalizing s with
  | nil => simp [run]
  | cons c cs ih => simp [run, ih]

/-! ## Settling

One way to let everything move that can: the daemon settles, subscribers are sent each event as it
comes, and then the connections handle their frames, the daemon settling behind each. -/

/-- Passes on what the daemon did, sending events on at once. -/
def passOnPromptly (uptimeSecs : UInt64) :
    Server σ → List Daemon.Output → Server σ × List Output
  | s, [] => (s, [])
  | s, o :: rest =>
    let (s, out) := s.passOn uptimeSecs o
    let (s, notified) := s.onAll Connection.notifyAll
    let (s, later) := passOnPromptly uptimeSecs s rest
    (s, out ++ notified ++ later)

/-- Lets the daemon settle. -/
def settleDaemon {m : Type → Type} [Monad m] (answer : NativeCall → m Script.Happening)
    (w : Surroundings σ) (crashReason : String) (elapsedMs uptimeSecs : UInt64) (s : Server σ) :
    m (Server σ × List Output) := do
  let (d, out) ← s.daemon.settle answer w crashReason elapsedMs
  return passOnPromptly uptimeSecs { s with daemon := d } out

/-- How much of what has arrived on a connection was not handled. -/
def unreadOf (s : Server σ) (i : Nat) : Nat := (s.connections[i]?.map (·.unread.length)).getD 0

/-- Lets a connection handle frames for as long as it can, at most `n`. -/
def settleConnection {m : Type → Type} [Monad m] (answer : NativeCall → m Script.Happening)
    (w : Surroundings σ) (crashReason : String) (elapsedMs uptimeSecs : UInt64) (i : Nat) :
    Nat → Server σ → m (Server σ × List Output)
  | 0, s => return (s, [])
  | n + 1, s => do
    let ready := s.connections[i]?.any Connection.isReady
    let (s, out) := s.takeFrame uptimeSecs i
    if ready then
      let (s, settled) ← s.settleDaemon answer w crashReason elapsedMs uptimeSecs
      let (s, later) ← settleConnection answer w crashReason elapsedMs uptimeSecs i n s
      return (s, out ++ settled ++ later)
    else return (s, out)

/-- Lets everything move that can. -/
def settle {m : Type → Type} [Monad m] (answer : NativeCall → m Script.Happening)
    (w : Surroundings σ) (crashReason : String) (elapsedMs uptimeSecs : UInt64) (s : Server σ) :
    m (Server σ × List Output) := do
  let start ← s.settleDaemon answer w crashReason elapsedMs uptimeSecs
  (List.range s.connections.length).foldlM (fun (s, out) i ↦ do
    let (s, more) ←
      settleConnection answer w crashReason elapsedMs uptimeSecs i (s.unreadOf i + 1) s
    return (s, out ++ more)) start

end Server

end Typist

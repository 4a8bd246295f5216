import Typist.Command
import Typist.Frame
import Typist.Message.Request
import Typist.Message.Response

/-!
# Connections

A client's connection. Frames are handled one at a time and in order: some requests are answered at
once, the others wait for the daemon, and while one waits nothing else is sent. A subscriber is sent
events in between, from a backlog that keeps only the newest ones.
-/

namespace Typist

/-- The response that an answer is put into. -/
def Response.ofAnswer (uptimeSecs : UInt64) : Answer → Response
  | .status s => .status (.ofSnapshot s uptimeSecs)
  | .typed actions => .typed actions
  | .armed => .armed
  | .disarmed wasArmed => .disarmed wasArmed
  | .registered hotkey => .hotkeyRegistered hotkey
  | .unregistered => .hotkeyUnregistered
  | .cancelled wasRunning => .cancelled wasRunning
  | .refused e => .error e.code e.message

/-- What becomes of a frame. -/
inductive Reception
  /-- It is answered at once. -/
  | respond (r : Response)
  /-- It is answered at once, and from now on events are sent too. -/
  | subscribe
  /-- The daemon must answer it. -/
  | ask (c : Command)

/-- What becomes of a request. -/
def Request.reception : Request → Reception
  | .ping => .respond .pong
  | .getStatus => .ask .status
  | .autoType entry template => .ask (.autoType (entry.map SentEntry.toEntry) template)
  | .arm entry template => .ask (.arm entry.toEntry template)
  | .disarm => .ask .disarm
  | .registerHotkey hotkey =>
    match Chord.parse hotkey with
    | .ok chord => .ask (.register (some chord))
    | .error e => .respond (.error "invalid_hotkey" e.message)
  | .unregisterHotkey => .ask .unregister
  | .cancel => .ask .cancel
  | .subscribe => .subscribe

/-- What becomes of a frame; one that holds no request is answered with the reason. -/
def Reception.ofFrame (message : List UInt8) : Reception :=
  match Request.ofBytes message with
  | .ok r => r.reception
  | .error e => .respond (.error "invalid_request" e.message)

/-- A message to a client. -/
inductive Sent
  | response (r : Response)
  | notification (n : Notification)
  deriving DecidableEq, Repr

/-- The text of a message. -/
def Sent.render : Sent → String
  | .response r => r.render
  | .notification n => n.render

/-- The frame of a message. -/
def Sent.frame (s : Sent) : List UInt8 := Frame.encode s.render.toUTF8.toList

/-- A connection. -/
structure Connection where
  /-- What has arrived and was not handled yet. -/
  unread : List UInt8 := []
  /-- Whether the client has stopped sending. -/
  ended : Bool := false
  /-- Whether the client still takes what it is sent. -/
  reachable : Bool := true
  /-- The ticket of the request that the daemon has yet to answer. -/
  awaiting : Option Ticket := none
  /-- Once subscribed, the events that were not sent yet, oldest first. -/
  backlog : Option (List Event) := none
  isOpen : Bool := true
  deriving DecidableEq, Repr

namespace Connection

/-- Bytes arrive. -/
def arrive (c : Connection) (bytes : List UInt8) : Connection :=
  if c.isOpen && !c.ended then { c with unread := c.unread ++ bytes } else c

/-- The client sends nothing more. -/
def finish (c : Connection) : Connection := { c with ended := true }

/-- The client is gone. -/
def leave (c : Connection) : Connection := { c with ended := true, reachable := false }

/-- Closes the connection. -/
def close (c : Connection) : Connection := { c with isOpen := false, awaiting := none }

/-- Sends a message, which closes the connection if nobody takes it. -/
def send (c : Connection) (s : Sent) : Connection × List Sent :=
  if c.reachable then (c, [s]) else (c.close, [])

/-- Whether the connection can turn to something new. -/
def isIdle (c : Connection) : Bool := c.isOpen && c.awaiting.isNone

/-- Handles one frame. A command is handed on, and the connection awaits its answer under the given
ticket. -/
def receive (c : Connection) (t : Ticket) (message : List UInt8) :
    Connection × List Sent × Option Command :=
  match Reception.ofFrame message with
  | .respond r =>
    let (c, sent) := c.send (.response r)
    (c, sent, none)
  | .subscribe =>
    let (c, sent) := { c with backlog := c.backlog.or (some []) }.send (.response .subscribed)
    (c, sent, none)
  | .ask command => ({ c with awaiting := some t }, [], some command)

/-- Handles the next frame, if there is one. The connection closes where the client has stopped
sending, and where no frame can follow. -/
def takeFrame (c : Connection) (t : Ticket) : Connection × List Sent × Option Command :=
  if c.isIdle then
    match Frame.next c.unread with
    | .frame message rest => { c with unread := rest }.receive t message
    | .failed (.tooLarge _) _ => (c.close, [], none)
    | .failed .truncated _ | .finished => (if c.ended then c.close else c, [], none)
  else (c, [], none)

/-- Whether there is a frame to handle. -/
def isReady (c : Connection) : Bool :=
  c.isIdle && match Frame.next c.unread with | .frame .. => true | _ => false

/-- The daemon answers a request; only the connection that awaits it takes notice. -/
def answer (c : Connection) (t : Ticket) (r : Response) : Connection × List Sent :=
  if c.isOpen && c.awaiting == some t then { c with awaiting := none }.send (.response r)
  else (c, [])

/-- A subscriber hears of an event. Beyond the capacity the oldest events are lost. -/
def hear (capacity : Nat) (c : Connection) (e : Event) : Connection :=
  if c.isOpen then
    { c with backlog := c.backlog.map fun events ↦
        (events ++ [e]).drop (events.length + 1 - capacity) }
  else c

/-- The backlog never outgrows the capacity. -/
theorem length_backlog_hear {capacity : Nat} {c : Connection} {before after : List Event}
    (hbefore : c.backlog = some before) (hlength : before.length ≤ capacity) (e : Event)
    (hafter : (c.hear capacity e).backlog = some after) : after.length ≤ capacity := by
  unfold hear at hafter
  split at hafter
  · simp only [hbefore, Option.map_some, Option.some.injEq] at hafter
    rw [← hafter, List.length_drop, List.length_append, List.length_singleton]
    omega
  · rw [hbefore, Option.some.injEq] at hafter
    rw [← hafter]
    exact hlength

/-- Sends the oldest event of the backlog. -/
def notify (c : Connection) : Connection × List Sent :=
  if c.isIdle then
    match c.backlog with
    | some (e :: events) => { c with backlog := some events }.send (.notification ⟨e⟩)
    | _ => (c, [])
  else (c, [])

/-- Sends as much of the backlog as there is. -/
def notifyAll (c : Connection) : Connection × List Sent :=
  (c.backlog.getD []).foldl (fun (c, sent) _ ↦
    let (c, more) := c.notify
    (c, sent ++ more)) (c, [])

end Connection

end Typist

import Typist.Command
import Typist.Event
import Typist.Listener.Notice

/-!
# The dispatcher

The dispatcher decides what happens: it takes notices of the listener, commands of clients and
reports of finished sequences one at a time, keeps the armed entry and the registered chord, and
starts at most one sequence at a time. What it does to the outside is a list of effects, in order.
-/

namespace Typist

/-- An entry that the hotkey types, under a template of its own or the default one. -/
structure Armed where
  entry : Entry
  template : Option String
  deriving DecidableEq, Repr

/-- A sequence that is to be typed, the token that stops it, and the command it answers; the
hotkey's sequences answer none. -/
structure Assignment where
  sequence : Sequence
  token : Token
  ticket : Option Ticket

/-- What became of an assignment. -/
structure Report where
  actions : UInt64
  result : Except EngineError Unit
  ticket : Option Ticket

/-- What the dispatcher does besides changing its own state. -/
inductive Effect
  | emit (e : Event)
  | answer (t : Ticket) (a : Answer)
  | start (a : Assignment)
  /-- Look whether typing is possible, and answer with the status. -/
  | probe (t : Ticket)

/-- The surroundings of the dispatcher: the platform that listeners are installed on, and whether
the system permits typing. -/
structure Surroundings (σ : Type) where
  platform : Platform σ
  trusted : Bool

/-- The state of the dispatcher, with the engine that it shares with whoever types. -/
structure Dispatcher (σ : Type) where
  monitor : Monitor σ
  engine : Engine
  state : DaemonState := .idle
  armed : Option Armed := none
  /-- Stops the sequence that was started last. -/
  running : Option Token := none

/-- An answer to whoever waits for one. -/
def Effect.toOwner (t : Option Ticket) (a : Answer) : List Effect :=
  match t with
  | some t => [.answer t a]
  | none => []

namespace Dispatcher

variable {σ : Type}

/-- The registered chord as it is shown. -/
def hotkey? (d : Dispatcher σ) : Option String := d.monitor.chord?.map Chord.text

/-- The dispatcher as clients see it. -/
def snapshot (d : Dispatcher σ) (injectionAvailable : Bool) : Snapshot where
  state := d.state
  hotkey := d.hotkey?
  armed := d.armed.isSome
  injectionAvailable

/-- Starts a sequence, unless one is being typed or the template is rejected. -/
def startSequence (d : Dispatcher σ) (entry : Entry) (template : Option String)
    (ticket : Option Ticket) : Dispatcher σ × List Effect :=
  match d.state with
  | .typing =>
    (d, .emit (.triggerRejected EngineError.busy.message) ::
      Effect.toOwner ticket (.refused (.engine .busy)))
  | .idle =>
    match (d.engine.compile template entry).result with
    | .error e =>
      (d, .emit (.sequenceFailed e.message) ::
        Effect.toOwner ticket (.refused (.engine (.compile e))))
    | .ok s =>
      let (engine, token) := d.engine.freshToken
      ({ d with engine, state := .typing, running := some token },
        [.emit (.sequenceStarted (UInt64.ofNat s.size)), .start ⟨s, token, ticket⟩])

/-- Takes a notice: a trigger types the armed entry. -/
def onNotice (d : Dispatcher σ) : Notice → Dispatcher σ × List Effect
  | .triggered =>
    let (d, effects) := match d.armed with
      | some a => d.startSequence a.entry a.template none
      | none => (d, [.emit (.triggerRejected CommandError.notArmed.message)])
    (d, .emit .hotkeyTriggered :: effects)
  | .restarted => (d, [.emit .listenerRestarted])

/-- What is to be typed for a command: the entry that it brings, or the armed one, which also lends
its template. -/
def entryFor (d : Dispatcher σ) (entry : Option Entry) (template : Option String) :
    Option Armed :=
  match entry with
  | some e => some ⟨e, template⟩
  | none => d.armed.map fun a ↦ ⟨a.entry, template.or a.template⟩

/-- Replaces the registered chord. -/
def register (w : Surroundings σ) (d : Dispatcher σ) (chord : Option Chord) (ticket : Ticket) :
    Dispatcher σ × List Effect :=
  let (monitor, result) := d.monitor.register w.platform chord
  let registered : Dispatcher σ := { d with monitor }
  match result with
  | .ok () =>
    let hotkey := registered.hotkey?.getD ""
    (registered, [.emit (.hotkeyRegistered hotkey), .answer ticket (.registered hotkey)])
  | .error e =>
    (registered, (if d.monitor.isRegistered then [.emit .hotkeyUnregistered] else []) ++
      [.answer ticket (.refused (.registration e))])

/-- Takes a command; shutting down is not the dispatcher's own affair. -/
def onCommand (w : Surroundings σ) (d : Dispatcher σ) (ticket : Ticket) :
    Command → Dispatcher σ × List Effect
  | .status => (d, [.probe ticket])
  | .autoType entry template =>
    match d.entryFor entry template with
    | some a => d.startSequence a.entry a.template (some ticket)
    | none => (d, [.answer ticket (.refused .notArmed)])
  | .arm entry template =>
    ({ d with armed := some ⟨entry, template⟩ }, [.answer ticket .armed])
  | .disarm => ({ d with armed := none }, [.answer ticket (.disarmed d.armed.isSome)])
  | .register chord => d.register w chord ticket
  | .unregister =>
    if d.monitor.isRegistered then
      ({ d with monitor := d.monitor.unregister w.platform },
        [.emit .hotkeyUnregistered, .answer ticket .unregistered])
    else (d, [.answer ticket .unregistered])
  | .cancel =>
    match d.running with
    | some t =>
      ({ d with engine := d.engine.cancelToken t }, [.answer ticket (.cancelled true)])
    | none => (d, [.answer ticket (.cancelled false)])
  | .shutdown => (d, [])

/-- Takes a report: the dispatcher is idle before it tells how the sequence ended. -/
def onReport (d : Dispatcher σ) (r : Report) (elapsedMs : UInt64) : Dispatcher σ × List Effect :=
  let event := match r.result with
    | .ok () => Event.sequenceFinished r.actions elapsedMs
    | .error e => .sequenceFailed e.message
  let answer := match r.result with
    | .ok () => Answer.typed r.actions
    | .error e => .refused (.engine e)
  ({ d with running := none, state := .idle }, .emit event :: Effect.toOwner r.ticket answer)

/-- Stops: the sequence that is being typed is cancelled and the chord released. -/
def stop (w : Surroundings σ) (d : Dispatcher σ) : Dispatcher σ where
  monitor := d.monitor.unregister w.platform
  engine := match d.running with
    | some t => d.engine.cancelToken t
    | none => d.engine
  state := d.state
  armed := d.armed
  running := none

end Dispatcher

end Typist

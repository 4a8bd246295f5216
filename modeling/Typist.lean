import Typist.Template
import Typist.Layout.MacAnsi
import Typist.Layout.WindowsUs
import Typist.Chord
import Typist.Cancellation
import Typist.Listener.EventTap
import Typist.Listener.KeyboardHook
import Typist.Injector
import Typist.Injector.EventPoster
import Typist.Injector.InputSender
import Typist.Engine.Callers
import Typist.Text.Quoted
import Typist.Decimal.Shortest
import Typist.Settings
import Typist.Main
import Typist.Proofs.Typing.Granted
import Typist.Proofs.Typing.Course
import Typist.Proofs.Typing.Held
import Typist.Proofs.Typing.Released
import Typist.Proofs.Typing.Keyboard
import Typist.Proofs.Template.Expansion
import Typist.Proofs.Typing.Faithful
import Typist.Proofs.Daemon.Step
import Typist.Proofs.Daemon.Flight
import Typist.Proofs.Daemon.History
import Typist.Proofs.Daemon.Release
import Typist.Proofs.Daemon.Stream
import Typist.Proofs.Daemon.Events
import Typist.Proofs.Daemon.Account
import Typist.Proofs.Daemon.Passage
import Typist.Proofs.Engine.Holding
import Typist.Proofs.Engine.Performing
import Typist.Proofs.Daemon.Refusal
import Typist.Proofs.Daemon.Replies
import Typist.Proofs.Typing.Transcript
import Typist.Proofs.Listener.Presses
import Typist.Proofs.Listener.Registration
import Typist.Proofs.Engine.Turns
import Typist.Proofs.Engine.Apart
import Typist.Proofs.Engine.TokenLock
import Typist.Proofs.Daemon.Provenance
import Typist.Proofs.Template.Concatenation
import Typist.Proofs.Wire.Conversation
import Typist.Proofs.Wire.Clients
import Typist.Proofs.Wire.Tickets
import Typist.Proofs.Daemon.Answers
import Typist.Proofs.Wire.ReadAhead
import Typist.Proofs.Daemon.Completion
import Typist.Proofs.Wire.Answering
import Typist.Proofs.Wire.Completion
import Typist.Proofs.Json.Sizes
import Typist.Proofs.Wire.Origins
import Typist.Proofs.Wire.Fitting
import Typist.Proofs.Json.Quoted
import Typist.Proofs.Template.Outline
import Typist.Proofs.Listener.Agreement
import Typist.Proofs.Json.Judging
import Typist.Proofs.Wire.Echo
import Typist.Proofs.Typing.Verdict
import Typist.Proofs.Daemon.Telltale
import Typist.Proofs.Json.Varying
import Typist.Proofs.Listener.Hooks
import Typist.Proofs.Wire.RoundTrip
import Typist.Proofs.Engine.Cancelled
import Typist.Proofs.Wire.Subscribers
import Typist.Proofs.Daemon.Shutdown
import Typist.Proofs.Wire.Pieces
import Typist.Proofs.Listener.Dropped
import Typist.Proofs.Engine.Aftermath
import Typist.Proofs.Template.Language
import Typist.Proofs.Template.Secrets
import Typist.Proofs.Wire.Hotkeys
import Typist.Proofs.Chord.Spacing
import Typist.Proofs.Listener.Injected
import Typist.Proofs.Typing.Flags
import Typist.Proofs.Typing.Lookups
import Typist.Proofs.Engine.LastError
import Typist.Proofs.Typing.Records
import Typist.Proofs.Settings.Layers

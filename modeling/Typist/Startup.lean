import Typist.Server
import Typist.Socket

/-!
# Starting up

What has to go well before the daemon serves anyone: its settings are read, its data directory is
made, the chord of the settings is understood, and its socket is opened, in this order. The chord is
then registered by the daemon itself, which goes on without it if that fails.
-/

namespace Typist

/-- Why the daemon does not start. -/
inductive StartupError
  | settings (e : SettingsError)
  | socket (e : SocketError)
  deriving DecidableEq, Repr

/-- The wording of an error and of its causes. -/
def StartupError.failure : StartupError → Failure
  | .settings e => e.failure
  | .socket e => e.failure

/-- A daemon that is about to serve. -/
structure Startup where
  settings : Settings
  chord : Option Chord
  /-- The files, with the socket open. -/
  files : FileTree

namespace Startup

/-- How many notices of the listener can wait. -/
def noticeCapacity : Nat := 32

/-- How many events are kept for a subscriber. -/
def eventCapacity : Nat := 64

/-- Does what has to go well. -/
def prepare (files : FileTree) (env : Environment) : Except StartupError Startup := do
  let settings ← (Settings.loadForUser files env).mapError .settings
  let files ← (settings.ensureDirectories files).mapError .settings
  let chord ← settings.chord?.mapError .settings
  let files ← (files.openSocket settings.socketPath).mapError .socket
  return ⟨settings, chord, files⟩

/-- The command that registers the chord of the settings. -/
def commands (s : Startup) : List (Ticket × Command) :=
  match s.chord with
  | some c => [(⟨0⟩, .register (some c))]
  | none => []

/-- The server as it begins, over the given system. -/
def server {σ : Type} (s : Startup) (system : σ) (injector : Injector) : Server σ where
  daemon :=
    { dispatcher :=
        { monitor := ⟨system, .none⟩, engine := { options := s.settings.typingOptions, injector } }
      notices := ⟨noticeCapacity, []⟩
      commands := s.commands }
  capacity := eventCapacity
  issued := s.commands.length

/-- The files once the daemon has stopped. -/
def filesAfter (s : Startup) : FileTree := s.files.closeSocket s.settings.socketPath

end Startup

end Typist

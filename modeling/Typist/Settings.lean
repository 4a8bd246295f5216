import Typist.Chord
import Typist.Engine
import Typist.Failure
import Typist.FileTree
import Typist.Json.Tagged

/-!
# Settings

Each setting comes from the environment, else from the settings file, else from its default. A file
that cannot be read is a failure even where the environment overrides all of it.
-/

namespace Typist

/-- The settings of the daemon. -/
structure Settings where
  /-- Where clients connect. -/
  socketPath : String
  /-- Where the daemon keeps its files. -/
  dataDirectory : String
  /-- The chord that is registered at the start. -/
  hotkey : Option String
  /-- What is typed for a request without a template. -/
  defaultTemplate : String
  /-- The pause behind every action. -/
  delayMs : UInt64
  deriving DecidableEq, Repr

/-- What a settings file can say; everything may be left out. -/
structure SettingsFile where
  socketPath : Option String := none
  hotkey : Option String := none
  defaultTemplate : Option String := none
  delayMs : Option UInt64 := none
  deriving DecidableEq, Repr

namespace SettingsFile

/-- The path of the socket. -/
def socketField : Json.Field (Option String) :=
  ⟨"socket_path", Json.orNull (Json.asTextOf "path string"), .nullable none⟩

/-- The chord. -/
def hotkeyField : Json.Field (Option String) :=
  ⟨"hotkey", Json.orNull Json.asText, .nullable none⟩

/-- The template. -/
def templateField : Json.Field (Option String) :=
  ⟨"default_template", Json.orNull Json.asText, .nullable none⟩

/-- The pause. -/
def delayField : Json.Field (Option UInt64) :=
  ⟨"inter_action_delay_ms", Json.orNull (Json.asWord "u64"), .nullable none⟩

/-- The form of a settings file; names that mean nothing are refused. -/
def form : Json.Record SettingsFile where
  wanted := "struct FileConfig"
  slots := [socketField.slot, hotkeyField.slot, templateField.slot, delayField.slot]
  closed := true
  build m := do
    return ⟨← m.get socketField, ← m.get hotkeyField, ← m.get templateField, ← m.get delayField⟩

/-- Reads the text of a settings file. -/
def ofBytes (bytes : List UInt8) : Except Json.Mismatch SettingsFile := form.decode bytes

end SettingsFile

/-- Why the daemon cannot be set up. -/
inductive SettingsError
  | noHome
  | unreadable (path : String) (e : FileFault)
  | badFile (path : String) (e : Json.Mismatch)
  | badDelay (raw : String) (e : Text.Numeral.Fault)
  | badHotkey (raw : String) (e : ChordError)
  | notCreated (path : String) (e : FileFault)
  | notRestricted (path : String) (e : FileFault)
  deriving DecidableEq, Repr

/-- The wording of an error and of its cause. -/
def SettingsError.failure : SettingsError → Failure
  | .noHome => ⟨"neither HOME nor USERPROFILE is set", ["environment variable not found"]⟩
  | .unreadable path e => ⟨"failed to read " ++ path, [e.message]⟩
  | .badFile path e => ⟨"invalid config file " ++ path, [e.message]⟩
  | .badDelay raw e =>
    ⟨"AUTOTYPED_DELAY_MS is not a number: " ++ Text.quoted raw, [e.message]⟩
  | .badHotkey raw e => ⟨"invalid hotkey " ++ Text.quoted raw, [e.message]⟩
  | .notCreated path e => ⟨"failed to create " ++ path, [e.message]⟩
  | .notRestricted path e => ⟨"failed to restrict " ++ path, [e.message]⟩

/-- The variables of the environment. -/
abbrev Environment := String → Option String

/-- Makes a directory that only its owner can enter, whatever it was before. -/
def FileTree.createPrivate (t : FileTree) (path : String) : Except SettingsError FileTree :=
  match t.createAll ownerDirectory path with
  | .error e => .error (.notCreated path e)
  | .ok t =>
    match t.setMode ownerDirectory path with
    | .error e => .error (.notRestricted path e)
    | .ok t => .ok t

namespace Settings

/-- The settings where nothing is set. -/
def defaults (dataDirectory : String) : Settings where
  socketPath := Path.join dataDirectory "daemon.sock"
  dataDirectory
  hotkey := none
  defaultTemplate := Template.standard
  delayMs := 10

/-- The path of the settings file. -/
def filePath (dataDirectory : String) : String := Path.join dataDirectory "config.json"

/-- Takes over what a file says. The path of the socket starts from the data directory. -/
def withFile (s : Settings) (f : SettingsFile) : Settings where
  socketPath := (f.socketPath.map (Path.join s.dataDirectory)).getD s.socketPath
  dataDirectory := s.dataDirectory
  hotkey := f.hotkey.or s.hotkey
  defaultTemplate := f.defaultTemplate.getD s.defaultTemplate
  delayMs := f.delayMs.getD s.delayMs

/-- What the settings file says, if there is one. -/
def readFile (t : FileTree) (path : String) : Except SettingsError SettingsFile := do
  if !t.isThere path then return {}
  match t.read path with
  | .error e => throw (.unreadable path e)
  | .ok bytes =>
    if (String.fromUTF8? ⟨bytes.toArray⟩).isNone then throw (.unreadable path .notText)
    match SettingsFile.ofBytes bytes with
    | .error e => throw (.badFile path e)
    | .ok f => return f

/-- The delay that a variable sets. -/
def readDelay (raw : String) : Except SettingsError UInt64 :=
  match Text.Numeral.word (Text.trim raw.toList) with
  | .ok n => .ok n
  | .error e => .error (.badDelay raw e)

/-- Takes over what the environment says. A blank chord is none. -/
def withEnvironment (s : Settings) (env : Environment) : Except SettingsError Settings := do
  let delayMs ← match env "AUTOTYPED_DELAY_MS" with
    | some raw => readDelay raw
    | none => pure s.delayMs
  return { s with
    socketPath := (env "AUTOTYPED_SOCKET").getD s.socketPath
    hotkey := match env "AUTOTYPED_HOTKEY" with
      | some raw => if (Text.trim raw.toList).isEmpty then none else some raw
      | none => s.hotkey
    delayMs }

/-- The settings with a given data directory. -/
def load (t : FileTree) (dataDirectory : String) (env : Environment) :
    Except SettingsError Settings := do
  let file ← readFile t (filePath dataDirectory)
  ((defaults dataDirectory).withFile file).withEnvironment env

/-- The data directory of a user. -/
def dataDirectoryOf (home : String) : String :=
  Path.join (Path.join (Path.join home ".local") "share") "autotyped"

/-- The settings of the user whom the environment names. -/
def loadForUser (t : FileTree) (env : Environment) : Except SettingsError Settings :=
  match (env "HOME").or (env "USERPROFILE") with
  | some home => load t (dataDirectoryOf home) env
  | none => .error .noHome

/-- Makes the data directory private. -/
def ensureDirectories (s : Settings) (t : FileTree) : Except SettingsError FileTree :=
  t.createPrivate s.dataDirectory

/-- The chord that is registered at the start. -/
def chord? (s : Settings) : Except SettingsError (Option Chord) :=
  match s.hotkey with
  | none => .ok none
  | some raw =>
    match Chord.parse raw with
    | .ok c => .ok (some c)
    | .error e => .error (.badHotkey raw e)

/-- What typing needs of the settings. -/
def typingOptions (s : Settings) : TypingOptions := ⟨s.delayMs.toNat, s.defaultTemplate⟩

end Settings

end Typist

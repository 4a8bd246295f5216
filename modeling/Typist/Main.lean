import Typist.Layout.WindowsUs
import Typist.Startup

/-!
# The program

Reads the environment and the settings file, and serves one client on the standard streams until it
sends nothing more. The file system is only read: what starting up makes, it makes in a picture of
the part that matters. Nothing here knows how to type on a real system, so requests to type are
answered as on a system without a keyboard to offer.
-/

namespace Typist.Main

/-- The variables that matter to the daemon. -/
def variableNames : List String :=
  ["HOME", "USERPROFILE", "AUTOTYPED_SOCKET", "AUTOTYPED_HOTKEY", "AUTOTYPED_DELAY_MS"]

/-- The environment of the process. -/
def readEnvironment : IO Environment := do
  let values ← variableNames.mapM fun name ↦ do return (name, ← IO.getEnv name)
  return fun name ↦ (values.find? (·.1 == name)).bind (·.2)

/-- What a path leads to, for a path to a file that can be read or to anything else. -/
def readKind (path : String) : IO (Option FileKind) := do
  try
    let content ← IO.FS.readBinFile path
    return some (.file content.toList)
  catch
    | .noFileOrDirectory .. => return none
    | _ => return some .directory

/-- The part of the file system that holds the settings of a user. -/
def readFiles (env : Environment) : IO FileTree := do
  match (env "HOME").or (env "USERPROFILE") with
  | none => return {}
  | some home =>
    let directory := Settings.dataDirectoryOf home
    let files := (FileTree.createAll {} FileTree.ordinary directory).toOption.getD {}
    let path := Settings.filePath directory
    match ← readKind path with
    | none => return files
    | some kind => return files.put (Path.steps path) ⟨kind, FileTree.ordinary⟩

/-- The system that the daemon runs on: nothing to listen with, and nothing to type on. -/
def surroundings : Surroundings Unit := ⟨.unsupported Unit .windowsUs, false⟩

/-- Lets everything move that can. -/
def settle (s : Server Unit) (uptimeSecs : UInt64) : Server Unit × List Server.Output :=
  Id.run (s.settle (fun _ ↦ .answered (.ok ()) false) surroundings "" 0 uptimeSecs)

/-- Serves the client until its connection closes. -/
partial def serve (input output : IO.FS.Stream) (startMs : Nat) (s : Server Unit) : IO Unit := do
  let bytes ← input.read 4096
  let choice := if bytes.isEmpty then .finish 0 else .arrive 0 bytes.toList
  let uptimeSecs := UInt64.ofNat (((← IO.monoMsNow) - startMs) / 1000)
  let (s, out) := settle (s.step surroundings "" choice).1 uptimeSecs
  for o in out do
    if let .sent _ message := o then output.write ⟨message.frame.toArray⟩
  output.flush
  match s.connections[0]? with
  | some c => if c.isOpen then serve input output startMs s
  | none => return

end Typist.Main

open Typist in
/-- Starts up and serves, or tells why it cannot. -/
def main : IO UInt32 := do
  let env ← Main.readEnvironment
  match Startup.prepare (← Main.readFiles env) env with
  | .error e =>
    IO.eprintln e.failure.report
    return 1
  | .ok startup =>
    let (server, _) := Main.settle (startup.server () .unsupported).connect 0
    Main.serve (← IO.getStdin) (← IO.getStdout) (← IO.monoMsNow) server
    return 0

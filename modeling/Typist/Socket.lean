import Typist.Settings

/-!
# The socket

Clients connect through a socket that only its owner can use. A directory that is missing is made
private, one that is there stays as it is; whatever stands at the path is taken for the leftover of
an earlier daemon and removed, unless it is a directory.
-/

namespace Typist

/-- Why the socket cannot be opened. -/
inductive SocketError
  | noDirectory (e : SettingsError)
  | inTheWay (e : FileFault)
  | notBound (e : FileFault)
  | notRestricted (e : FileFault)
  deriving DecidableEq, Repr

/-- The wording of an error and of its causes. -/
def SocketError.failure : SocketError → Failure
  | .noDirectory e =>
    ⟨"failed to create socket directory", e.failure.message :: e.failure.causes⟩
  | .inTheWay e => ⟨"failed to remove stale socket", [e.message]⟩
  | .notBound e => ⟨"failed to bind Unix socket", [e.message]⟩
  | .notRestricted e => ⟨"failed to restrict socket permissions", [e.message]⟩

namespace FileTree

/-- Makes the directory of a socket, if it is missing. -/
def prepareSocket (t : FileTree) (path : String) : Except SocketError FileTree :=
  match Path.parent? path with
  | none => .ok t
  | some parent =>
    if t.isThere parent then .ok t else (t.createPrivate parent).mapError .noDirectory

/-- Removes what stands at the path of a socket. -/
def clearSocket (t : FileTree) (path : String) : Except SocketError FileTree :=
  if t.isThere path then (t.remove path).mapError .inTheWay else .ok t

/-- Opens a socket. -/
def openSocket (t : FileTree) (path : String) : Except SocketError FileTree := do
  let t ← t.prepareSocket path
  let t ← t.clearSocket path
  let t ← (t.bind path).mapError .notBound
  (t.setMode ownerFile path).mapError .notRestricted

/-- Closes a socket. What cannot be removed stays. -/
def closeSocket (t : FileTree) (path : String) : FileTree :=
  match t.remove path with
  | .ok t => t
  | .error _ => t

end FileTree

end Typist

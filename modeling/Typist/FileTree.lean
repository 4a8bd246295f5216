/-!
# File trees

As much of a file system as a daemon touches that keeps one settings file and one socket: plain
files, directories and sockets under slash-separated paths, with permission bits, and the faults
that the operations on them report. There are no links, so two dots always lead back the way that
was come.
-/

namespace Typist

/-! ## Paths -/

namespace Path

/-- A path below another. An absolute path stays what it is, and an empty base adds nothing. -/
def join (base path : String) : String :=
  if path.startsWith "/" then path
  else if base.isEmpty || base.endsWith "/" then base ++ path
  else base ++ "/" ++ path

/-- The text of a path, backwards, without what adds no step at its end: slashes, and single dots
behind slashes. -/
def trimSteps : List Char → List Char
  | '/' :: cs => trimSteps cs
  | '.' :: '/' :: cs => trimSteps cs
  | cs => cs

/-- The path without its last step, unless it has none. -/
def parent? (path : String) : Option String :=
  match trimSteps path.toList.reverse with
  | [] => none
  | cs =>
    match trimSteps (cs.dropWhile (· != '/')) with
    | [] => some (if path.startsWith "/" then "/" else "")
    | cs => some (String.ofList cs.reverse)

/-- The steps of a path, behind those found already. -/
def splitSteps (step : List Char) : List Char → List String
  | [] => [String.ofList step.reverse]
  | '/' :: cs => String.ofList step.reverse :: splitSteps [] cs
  | c :: cs => splitSteps (c :: step) cs

/-- The steps of a path; single dots count. -/
def pieces (path : String) : List String := (splitSteps [] path.toList).filter (· != "")

/-- The steps that lead anywhere. -/
def moves (pieces : List String) : List String := pieces.filter (· != ".")

/-- The steps of a path that lead anywhere. -/
def steps (path : String) : List String := moves (pieces path)

end Path

/-! ## Nodes -/

/-- What a path can lead to. -/
inductive FileKind
  | file (content : List UInt8)
  | directory
  | socket
  deriving DecidableEq, Repr

/-- Something in a file tree, with its permission bits. -/
structure FileNode where
  kind : FileKind
  mode : Nat
  deriving DecidableEq, Repr

/-- Why an operation on files fails. -/
inductive FileFault
  | notFound
  | exists
  | notDirectory
  | isDirectory
  | nameTooLong
  /-- The path holds the character that ends names. -/
  | badName
  | addressInUse
  | addressTooLong
  | badAddress
  | notText
  deriving DecidableEq, Repr

/-- The wording of a fault. -/
def FileFault.message : FileFault → String
  | .notFound => "No such file or directory (os error 2)"
  | .exists => "File exists (os error 17)"
  | .notDirectory => "Not a directory (os error 20)"
  | .isDirectory => "Is a directory (os error 21)"
  | .nameTooLong => "File name too long (os error 36)"
  | .badName => "file name contained an unexpected NUL byte"
  | .addressInUse => "Address already in use (os error 98)"
  | .addressTooLong => "path must be shorter than SUN_LEN"
  | .badAddress => "paths must not contain interior null bytes"
  | .notText => "stream did not contain valid UTF-8"

/-- A file tree: its nodes by their steps from the root. The root itself is always there. -/
structure FileTree where
  nodes : List (List String × FileNode) := []
  /-- Where paths that do not begin with a slash start from. -/
  workingDirectory : List String := []
  deriving DecidableEq, Repr

namespace FileTree

/-- The bits of a directory that only its owner can enter. -/
def ownerDirectory : Nat := 0o700

/-- The bits of a file that only its owner can use. -/
def ownerFile : Nat := 0o600

/-- The bits that a new directory or socket has. -/
def ordinary : Nat := 0o755

/-- The node at steps from the root. -/
def node? (t : FileTree) (steps : List String) : Option FileNode :=
  if steps.isEmpty then some ⟨.directory, ordinary⟩
  else (t.nodes.find? fun n ↦ n.1 == steps).map (·.2)

/-- What is at steps from the root. -/
def kind? (t : FileTree) (steps : List String) : Option FileKind := (t.node? steps).map (·.kind)

/-- Puts a node at steps from the root. -/
def put (t : FileTree) (steps : List String) (n : FileNode) : FileTree :=
  { t with nodes := (steps, n) :: t.nodes.filter fun m ↦ m.1 != steps }

/-- The longest step of a path in bytes. -/
def maxStep : Nat := 255

/-- The longest path in bytes. -/
def maxPath : Nat := 4095

/-- What must hold of a path before it is followed. -/
def checkPath (path : String) : Except FileFault Unit :=
  if path.toList.contains '\x00' then .error .badName
  else if path.isEmpty then .error .notFound
  else if maxPath < path.utf8ByteSize then .error .nameTooLong
  else .ok ()

/-- Follows steps from a place in the tree; every place that is left must be a directory. -/
def walk (t : FileTree) (place : List String) : List String → Except FileFault (List String)
  | [] => .ok place
  | step :: steps =>
    match t.kind? place with
    | some .directory =>
      if step = ".." then t.walk place.dropLast steps
      else if maxStep < step.utf8ByteSize then .error .nameTooLong
      else if (t.node? (place ++ [step])).isSome then t.walk (place ++ [step]) steps
      else .error .notFound
    | some _ => .error .notDirectory
    | none => .error .notFound

/-- Where a path starts. -/
def start (t : FileTree) (path : String) : List String :=
  if path.startsWith "/" then [] else t.workingDirectory

/-- The place that a path leads to. Behind a slash at its end only a directory will do. -/
def resolve (t : FileTree) (path : String) : Except FileFault (List String) := do
  checkPath path
  let place ← t.walk (t.start path) (Path.steps path)
  match t.kind? place with
  | some .directory => return place
  | _ => if path.endsWith "/" || path.endsWith "/." then throw .notDirectory else return place

/-- The node that a path leads to. -/
def lookup (t : FileTree) (path : String) : Except FileFault FileNode := do
  match t.node? (← t.resolve path) with
  | some n => return n
  | none => throw .notFound

/-- Whether a path leads to anything. -/
def isThere (t : FileTree) (path : String) : Bool := (t.lookup path).isOk

/-- Whether a path leads to a directory. -/
def isDirectory (t : FileTree) (path : String) : Bool :=
  match t.lookup path with
  | .ok n => n.kind = .directory
  | .error _ => false

/-- The permission bits of what a path leads to. -/
def mode? (t : FileTree) (path : String) : Option Nat := ((t.lookup path).toOption).map (·.mode)

/-- The content of a file. -/
def read (t : FileTree) (path : String) : Except FileFault (List UInt8) := do
  match (← t.lookup path).kind with
  | .file content => return content
  | .directory => throw .isDirectory
  | .socket => throw .notFound

/-- Where a path would put something new: the place of its parent, which must be a directory, and
its last step. -/
def vacancy (t : FileTree) (path : String) : Except FileFault (List String) := do
  checkPath path
  match (Path.pieces path).reverse with
  | [] => throw .exists
  | last :: before =>
    let place ← t.walk (t.start path) (Path.moves before.reverse)
    match t.kind? place with
    | some .directory =>
      if last = "." || last = ".." then throw .exists
      if maxStep < last.utf8ByteSize then throw .nameTooLong
      return place ++ [last]
    | _ => throw .notDirectory

/-- Makes one directory. -/
def makeDirectory (t : FileTree) (mode : Nat) (path : String) : Except FileFault FileTree := do
  let place ← t.vacancy path
  if (t.node? place).isSome then throw .exists else return t.put place ⟨.directory, mode⟩

/-- Makes a directory and those above it that are missing; `depth` bounds how many those are. A
directory that is there already will do. -/
def makeDirectories (mode : Nat) : Nat → FileTree → String → Except FileFault FileTree
  | 0, t, path => if t.isDirectory path then .ok t else .error .notFound
  | depth + 1, t, path =>
    if path.isEmpty then .ok t
    else
      match t.makeDirectory mode path with
      | .ok t => .ok t
      | .error .notFound =>
        match Path.parent? path with
        | none => .error .notFound
        | some parent => do
          let t ← makeDirectories mode depth t parent
          match t.makeDirectory mode path with
          | .ok t => return t
          | .error e => if t.isDirectory path then return t else throw e
      | .error e => if t.isDirectory path then .ok t else .error e

/-- Makes a directory and whatever is missing above it. -/
def createAll (t : FileTree) (mode : Nat) (path : String) : Except FileFault FileTree :=
  makeDirectories mode (path.length + 1) t path

/-- Sets permission bits. -/
def setMode (t : FileTree) (mode : Nat) (path : String) : Except FileFault FileTree := do
  let place ← t.resolve path
  match t.node? place with
  | some n => return t.put place { n with mode := mode }
  | none => throw .notFound

/-- Removes what is no directory. -/
def remove (t : FileTree) (path : String) : Except FileFault FileTree := do
  let place ← t.resolve path
  match t.kind? place with
  | some .directory => throw .isDirectory
  | some _ => return { t with nodes := t.nodes.filter fun n ↦ n.1 != place }
  | none => throw .notFound

/-- The longest path of a socket in bytes. -/
def maxSocketPath : Nat := 107

/-- Makes a socket. A socket without a path has no place in the tree, and a slash at the end asks
for a directory, which a socket is not. -/
def bind (t : FileTree) (path : String) : Except FileFault FileTree := do
  if path.toList.contains '\x00' then throw .badAddress
  if maxSocketPath < path.utf8ByteSize then throw .addressTooLong
  if path.isEmpty then return t
  match t.vacancy path with
  | .ok place =>
    if (t.node? place).isSome then throw .addressInUse
    if path.endsWith "/" then throw .notFound
    return t.put place ⟨.socket, ordinary⟩
  | .error .exists => throw .addressInUse
  | .error e => throw e

end FileTree

end Typist

import ScriptFront.Path

/-!
# Files

What can come of reading a path, and a **snapshot** of a directory tree to try commands out on:
what is stored under which path. Paths are followed part by part from the working directory, so
that a missing directory is noticed even where a later `..` would leave it again.
-/

namespace ScriptFront

open Text

/-- Why a path cannot be read. -/
inductive ReadFault where
  | missing
  /-- A part of the way is a file. -/
  | notDirectory
  | isDirectory
  | invalidName
  | nameTooLong
  /-- Whatever else the system reports, and what it was doing. -/
  | other (action message : Bytes)
  deriving DecidableEq, Repr

namespace ReadFault

/-- The wording of a fault. -/
def message : ReadFault → Bytes
  | .missing => utf8 "no such file or directory"
  | .notDirectory => utf8 "not a directory"
  | .isDirectory => utf8 "is a directory"
  | .invalidName => utf8 "invalid argument"
  | .nameTooLong => utf8 "file name too long"
  | .other _ message => message

/-- What was being done to a path when the fault was noticed. A directory can be opened. -/
def action : ReadFault → Bytes
  | .isDirectory => utf8 "read"
  | .missing | .notDirectory | .invalidName | .nameTooLong => utf8 "open"
  | .other action _ => action

/-- A fault with the path it is about. -/
def text (path : Bytes) (fault : ReadFault) : Bytes :=
  fault.action ++ byte ' ' :: path ++ utf8 ": " ++ fault.message

end ReadFault

/-- A **snapshot** of the files below the working directory. It is a world of its own, in which
there are no other files and nothing else goes wrong while one is read. What is said about commands
is said for every way of reading files (`Surroundings.host`). -/
structure Snapshot where
  /-- Contents by the parts of the path. -/
  files : List (List Bytes × Bytes) := []
  directories : List (List Bytes) := []

namespace Snapshot

/-- Where the way along a path has led. -/
inductive Place where
  /-- A directory below the working directory, or that directory itself. -/
  | directory (path : List Bytes)
  | file (content : Bytes)
  /-- Above the working directory, where nothing is known but directories. -/
  | outside

/-- The longest name of a file. -/
def nameLimit : Nat := 255

/-- The longest path. -/
def pathLimit : Nat := 4095

/-- Is there a directory with these parts? A directory is also there if it holds something. -/
def isDirectory (s : Snapshot) (path : List Bytes) : Bool :=
  path.isEmpty || s.directories.any path.isPrefixOf || s.files.any fun (file, _) =>
    path.isPrefixOf file && path ≠ file

/-- What stands under a name in a directory. -/
def enter (s : Snapshot) (path : List Bytes) (name : Bytes) : Except ReadFault Place :=
  let path := path ++ [name]
  if name.length > nameLimit then .error .nameTooLong
  else match s.files.lookup path with
    | some content => .ok (.file content)
    | none => if s.isDirectory path then .ok (.directory path) else .error .missing

/-- One part further. -/
def step (s : Snapshot) (place : Place) (part : Bytes) : Except ReadFault Place :=
  match place with
  | .file _ => .error .notDirectory
  | .outside =>
    if part = [] ∨ part = Path.here ∨ part = Path.above then .ok .outside else .error .missing
  | .directory path =>
    if part = [] ∨ part = Path.here then .ok place
    else if part = Path.above then
      .ok (if path.isEmpty then .outside else .directory path.dropLast)
    else s.enter path part

/-- The **place a path leads to**. -/
def find (s : Snapshot) (path : Bytes) : Except ReadFault Place :=
  if path = [] then .error .missing
  else if path.contains 0 then .error .invalidName
  else if path.length > pathLimit then .error .nameTooLong
  else (Path.parts path).foldlM s.step (if Path.isRooted path then .outside else .directory [])

/-- The **content of the file** at a path. -/
def read (s : Snapshot) (path : Bytes) : Except ReadFault Bytes :=
  match s.find path with
  | .ok (.file content) => .ok content
  | .ok (.directory _) | .ok .outside => .error .isDirectory
  | .error fault => .error fault

/-- The snapshot after a file has been stored at a path, in place of the one that was there. -/
def write (s : Snapshot) (path content : Bytes) : Snapshot :=
  let path := Path.cleanParts path
  { s with files := (path, content) :: s.files.filter (·.1 ≠ path) }

/-- The snapshot after a directory has been made. -/
def makeDirectory (s : Snapshot) (path : Bytes) : Snapshot :=
  { s with directories := Path.cleanParts path :: s.directories }

end Snapshot

end ScriptFront

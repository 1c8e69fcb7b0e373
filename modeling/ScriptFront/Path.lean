import ScriptFront.Text.Bytes

/-!
# Paths

A path is a byte string whose parts are divided by slashes. Two paths are compared in their
**clean** form, in which no part is empty or `.`, and `..` stands only in front.
-/

namespace ScriptFront.Path

open Text

/-- The parts of a path between its slashes. -/
def parts (path : Bytes) : List Bytes :=
  splitAt (byte '/') path

/-- Does a path begin at the root? -/
def isRooted (path : Bytes) : Bool :=
  path.head? = some (byte '/')

/-- The part that stands for the directory itself. -/
def here : Bytes := utf8 "."

/-- The part that stands for the directory above. -/
def above : Bytes := utf8 ".."

/-- Advances by one part from the parts passed so far, the last of them first. Nothing lies above
the root. -/
def advance (rooted : Bool) (passed : List Bytes) (part : Bytes) : List Bytes :=
  if part = [] ∨ part = here then passed
  else if part = above then
    match passed with
    | last :: rest => if last = above then above :: passed else rest
    | [] => if rooted then [] else [above]
  else part :: passed

/-- The parts of the clean form. -/
def cleanParts (path : Bytes) : List Bytes :=
  ((parts path).foldl (advance (isRooted path)) []).reverse

/-- The **shortest path to the same place**, if no part of the way is a link. -/
def clean (path : Bytes) : Bytes :=
  let body := join [byte '/'] (cleanParts path)
  if isRooted path then byte '/' :: body
  else if body = [] then here
  else body

/-- The directory that holds a path's last part, in clean form. -/
def directory (path : Bytes) : Bytes :=
  clean (path.reverse.dropWhile (· ≠ byte '/')).reverse

end ScriptFront.Path

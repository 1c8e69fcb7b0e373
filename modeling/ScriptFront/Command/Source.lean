import ScriptFront.Diagnostic
import ScriptFront.Host

/-!
# Source texts

An operand names the file with a source text; a single hyphen stands for the standard input.
-/

namespace ScriptFront.Source

open Text

/-- The operand for the standard input. -/
def standardInput : Bytes := utf8 "-"

/-- The name of a source in messages. -/
def title (path : Bytes) : Bytes :=
  if path = standardInput then utf8 "<stdin>" else path

variable {m : Type → Type} [Monad m]

/-- The **text of a source**. -/
def read (host : Host m) (path : Bytes) : m (Except Failure Bytes) := do
  if path = standardInput then
    return match ← host.readInput with
      | .ok text => .ok text
      | .error message => .error (.within (utf8 "read stdin") (.plain message))
  else
    return match ← host.readFile path with
      | .ok text => .ok text
      | .error fault => .error (.within (utf8 "read source") (.plain (fault.text path)))

end ScriptFront.Source

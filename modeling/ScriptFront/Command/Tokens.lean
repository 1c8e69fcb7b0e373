import ScriptFront.Command.Output
import ScriptFront.Command.Source
import ScriptFront.Token.Scanner

/-!
# Listing tokens

Lists the tokens of a source, one a line, through the end of the input or the first text that
cannot be scanned.
-/

namespace ScriptFront.TokenList

open Text

/-- Do lists show the value of tokens of this kind? The others are known by their kind. -/
def showsValue : Kind → Bool
  | .identifier | .number | .string | .error => true
  | _ => false

/-- The line of a token. -/
def tokenLine (t : Token) : Bytes :=
  let value := if showsValue t.kind then byte ' ' :: Quoted.text t.value else []
  Output.line (t.span.text ++ byte ' ' :: t.kind.name ++ value)

/-- A text that cannot be scanned, as a diagnostic about a named source. -/
def faultLine (name : Bytes) (t : Token) : Bytes :=
  let d : Diagnostic := ⟨.syntaxError, t.value, t.span⟩
  Output.line (name ++ byte ':' :: t.span.text ++ utf8 ": " ++ d.text)

/-- The **list of tokens**. -/
def list (name : Bytes) : List Token → Output × Option Failure
  | [] => ({}, none)
  | t :: rest =>
    let line : Output := { out := tokenLine t }
    if t.kind = .eof then (line, none)
    else if t.kind = .error then (line ++ { err := faultLine name t }, some .reported)
    else
      let (output, failure) := list name rest
      (line ++ output, failure)

variable {m : Type → Type} [Monad m]

/-- Lists the tokens of a source. -/
def run (host : Host m) (path : Bytes) : m (Output × Option Failure) := do
  return match ← Source.read host path with
    | .error failure => ({}, some failure)
    | .ok source => list (Source.title path) (Scanner.ofText source).tokens

end ScriptFront.TokenList

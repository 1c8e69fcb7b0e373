import ScriptFront.Span
import ScriptFront.Text.Quoted
import ScriptFront.Token.Kind

/-!
# Tokens

A **token** has a kind, a value and a span. The value of an identifier, a number, a keyword or a
punctuator is its text in the source; a string's value is what the literal denotes, and the value
of an error token is its message.
-/

namespace ScriptFront

open Text

/-- A lexical token. -/
structure Token where
  kind : Kind
  value : Bytes := []
  span : Span := {}
  deriving DecidableEq, Repr, Inhabited

namespace Token

/-- The token as a diagnostic names it: its text where that tells it apart, else its kind. -/
def description (t : Token) : Bytes :=
  match t.kind with
  | .identifier | .number => t.value
  | .string => Quoted.text t.value
  | kind => kind.name

/-- Values of more bytes than this are clipped, to as many runes, in `Token.listing`. -/
def clipLimit : Nat := 16

/-- The token as a listing shows it: kind, place and value. -/
def listing (t : Token) : Bytes :=
  let place := integer t.span.line ++ byte ':' :: integer t.span.start ++ utf8 "]: "
  match t.kind with
  | .eof => utf8 "EOF"
  | .error => utf8 "ERROR [" ++ place ++ t.value
  | kind =>
    let value := if t.value.length > clipLimit then Quoted.clipped clipLimit t.value
      else Quoted.text t.value
    kind.name ++ byte '[' :: place ++ value

end Token

end ScriptFront

import ScriptFront.Diagnostic
import ScriptFront.Text.Quoted
import ScriptFront.Token.Kind

/-!
# Faults of a parse

A parse ends at its first **fault**. Its cause says what was wrong without saying where; the span
is that of a token. A token in the wrong place is a syntax error, a violation of the structure a
parse error.
-/

namespace ScriptFront

open Text

/-- What is wrong with a token stream. -/
inductive FaultCause where
  /-- A token of another kind stands in place of this one. -/
  | expected (kind : Kind) (found : Bytes)
  | expectedIdentifier (found : Bytes)
  /-- The text could not be scanned; the scanner says why. -/
  | unscannable (message : Bytes)
  | expectedExpression
  | selfInheritance
  | invalidTarget
  | invalidNumber (text : Bytes)
  | tooDeep
  deriving DecidableEq, Repr

namespace FaultCause

/-- The class of diagnostic a cause belongs to. -/
def kind : FaultCause → Diagnostic.Kind
  | .expected .. | .expectedIdentifier _ | .unscannable _ => .syntaxError
  | .expectedExpression | .selfInheritance | .invalidTarget | .invalidNumber _ | .tooDeep =>
    .parseError

/-- The wording of a cause. -/
def message : FaultCause → Bytes
  | .expected kind found =>
    utf8 "expected " ++ Quoted.text kind.name ++ utf8 ", found " ++ Quoted.text found
  | .expectedIdentifier found => utf8 "expected identifier, found " ++ Quoted.text found
  | .unscannable message => message
  | .expectedExpression => utf8 "expect expression"
  | .selfInheritance => utf8 "cannot inherit from itself"
  | .invalidTarget => utf8 "invalid assignment target"
  | .invalidNumber text => utf8 "invalid number literal " ++ Quoted.text text
  | .tooDeep => utf8 "maximum nesting depth exceeded"

end FaultCause

/-- A cause and the span of the token it was found at. -/
structure ParseFault where
  cause : FaultCause
  span : Span
  deriving DecidableEq, Repr

namespace ParseFault

/-- A fault as a diagnostic. -/
def diagnostic (f : ParseFault) : Diagnostic :=
  ⟨f.cause.kind, f.cause.message, f.span⟩

end ParseFault

end ScriptFront

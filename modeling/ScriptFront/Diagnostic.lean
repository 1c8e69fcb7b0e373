import ScriptFront.Span

/-!
# Diagnostics and failures

A **diagnostic** is a classified message about a place in a source text. A **failure** is anything
a command can end with: a diagnostic, a plain message, the mark that everything has been reported
already, or one of these with the context it arose in.
-/

namespace ScriptFront

open Text

namespace Diagnostic

/-- The classes of diagnostics. The front end itself reports only `syntaxError` and
`parseError`. -/
inductive Kind where
  | syntaxError
  | valueError
  | parseError
  | runtimeError
  | zeroDivision
  /-- A number that names no class. -/
  | other (code : Int)
  deriving DecidableEq, Repr, Inhabited

namespace Kind

/-- The number of a class. -/
def code : Kind → Int
  | .syntaxError => 1
  | .valueError => 2
  | .parseError => 3
  | .runtimeError => 4
  | .zeroDivision => 5
  | .other n => n

/-- The class with this number. -/
def ofCode (n : Int) : Kind :=
  if n = 1 then .syntaxError
  else if n = 2 then .valueError
  else if n = 3 then .parseError
  else if n = 4 then .runtimeError
  else if n = 5 then .zeroDivision
  else .other n

/-- The display name of a class. -/
def name : Kind → Bytes
  | .syntaxError => utf8 "SyntaxError"
  | .valueError => utf8 "ValueError"
  | .parseError => utf8 "ParseError"
  | .runtimeError => utf8 "RuntimeError"
  | .zeroDivision => utf8 "ZeroDivisionError"
  | .other n => utf8 "Kind(" ++ integer n ++ utf8 ")"

/-- Every number is the number of the class it names. -/
theorem code_ofCode (n : Int) : (ofCode n).code = n := by
  unfold ofCode
  repeat' split
  all_goals simp_all [code]

end Kind

end Diagnostic

/-- A **diagnostic**: a class, a message and the place it is about. -/
structure Diagnostic where
  kind : Diagnostic.Kind
  message : Bytes
  span : Span
  deriving DecidableEq, Repr, Inhabited

namespace Diagnostic

/-- Class and message. A division by zero needs no message of its own. -/
def text (d : Diagnostic) : Bytes :=
  let message := if d.kind = .zeroDivision ∧ d.message = [] then utf8 "division by zero"
    else d.message
  d.kind.name ++ utf8 ": " ++ message

end Diagnostic

/-- What a command can end with. -/
inductive Failure where
  | diagnostic (d : Diagnostic)
  | plain (message : Bytes)
  /-- Everything there is to say has been written already. -/
  | reported
  /-- A failure with the context it arose in. -/
  | within (context : Bytes) (cause : Failure)
  deriving DecidableEq, Repr, Inhabited

namespace Failure

/-- The wording of a failure, its contexts first. -/
def text : Failure → Bytes
  | .diagnostic d => d.text
  | .plain message => message
  | .reported => utf8 "errors reported"
  | .within context cause => context ++ utf8 ": " ++ cause.text

/-- The diagnostic at the root of a failure. -/
def diagnostic? : Failure → Option Diagnostic
  | .diagnostic d => some d
  | .plain _ | .reported => none
  | .within _ cause => cause.diagnostic?

/-- Has everything been written already? -/
def isReported : Failure → Bool
  | .reported => true
  | .diagnostic _ | .plain _ => false
  | .within _ cause => cause.isReported

end Failure

end ScriptFront

import ScriptFront.Text.Bytes

/-!
# Templates

A path may name variables of the environment: `$NAME`, or `${NAME}` with any text between the
braces. A **template** is such a path divided into plain text and names. Division never fails: a
dollar sign that no name follows is plain text, and braces that hold nothing or are never closed
are dropped.
-/

namespace ScriptFront

open Text

/-- A piece of a template. -/
inductive TemplatePart where
  | plain (b : UInt8)
  | variable (name : Bytes)
  deriving DecidableEq, Repr

/-- A text with names of variables in it. -/
abbrev Template := List TemplatePart

namespace Template

/-- A byte of a name that stands without braces. -/
def isNameByte (b : UInt8) : Bool :=
  isDigit b || b = byte '_' || (byte 'a' ≤ lower b && lower b ≤ byte 'z')

/-- A byte that is a name all by itself. -/
def isSpecial (b : UInt8) : Bool :=
  isDigit b || (utf8 "*#$@!?-").contains b

/-- A name between braces, after the opening one, and how many bytes it takes with the closing
one. -/
def braced? (text : Bytes) : Option (Bytes × Nat) :=
  let name := text.takeWhile (· ≠ byte '\x7d')
  if name.length < text.length then some (name, name.length + 1) else none

/-- What the text after a dollar sign stands for, and how many bytes of it that takes. -/
def reference : Bytes → Template × Nat
  | [] => ([.plain (byte '$')], 0)
  | b :: rest =>
    if b = byte '\x7b' then
      match braced? rest with
      | some ([], n) => ([], n + 1)
      | some (name, n) => ([.variable name], n + 1)
      | none => ([], 1)
    else if isSpecial b then ([.variable [b]], 1)
    else match (b :: rest).takeWhile isNameByte with
      | [] => ([.plain (byte '$')], 0)
      | name => ([.variable name], name.length)

/-- The template of a text whose first `skip` bytes belong to a name already read. -/
def ofTextFrom : (skip : Nat) → Bytes → Template
  | _, [] => []
  | skip + 1, _ :: rest => ofTextFrom skip rest
  | 0, b :: rest =>
    if b = byte '$' then (reference rest).1 ++ ofTextFrom (reference rest).2 rest
    else .plain b :: ofTextFrom 0 rest

/-- The **template that a text spells**. -/
def ofText (text : Bytes) : Template :=
  ofTextFrom 0 text

variable {m : Type → Type} [Monad m]

/-- The **text of a template** under the values of its variables. A variable that is not set is
empty. -/
def expand (value? : Bytes → m (Option Bytes)) : Template → m Bytes
  | [] => return []
  | .plain b :: rest => return b :: (← expand value? rest)
  | .variable name :: rest => do
    let value := (← value? name).getD []
    return value ++ (← expand value? rest)

end Template

end ScriptFront

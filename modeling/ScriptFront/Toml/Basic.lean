import ScriptFront.Number.Binary64
import ScriptFront.Text.Bytes

/-!
# TOML: keys, values and statements

A TOML text is a list of **statements**: headers that open a table, headers that add an element to
a list of tables, and bindings of a key to a value. This module has the statements as they are
written; what they build together is the business of `ScriptFront.Toml.Table`.
-/

namespace ScriptFront.Toml

open Text

/-- A dotted key, as the list of its parts. -/
abbrev Key := List Bytes

namespace Key

/-- A byte of a part that needs no quotes. -/
def isBare (b : UInt8) : Bool :=
  isDigit b || b = byte '_' || b = byte '-' || (byte 'a' ≤ lower b && lower b ≤ byte 'z')

/-- The letter that stands for a control character after a backslash. -/
def controlLetter? (b : UInt8) : Option Char :=
  match b.toNat with
  | 0x08 => some 'b'
  | 0x09 => some 't'
  | 0x0a => some 'n'
  | 0x0c => some 'f'
  | 0x0d => some 'r'
  | _ => none

/-- A byte between the quotes of a part. -/
def quotedByte (b : UInt8) : Bytes :=
  if b = byte '"' ∨ b = byte '\\' then [byte '\\', b]
  else match controlLetter? b with
    | some letter => [byte '\\', byte letter]
    | none => if b < 0x20 ∨ b = 0x7f then utf8 "\\u" ++ hex 4 b.toNat else [b]

/-- A part, quoted if it has to be. -/
def partText (part : Bytes) : Bytes :=
  if part ≠ [] ∧ part.all isBare then part
  else byte '"' :: part.flatMap quotedByte ++ [byte '"']

/-- A **key as it is written**, with dots between its parts. -/
def text (key : Key) : Bytes :=
  join [byte '.'] (key.map partText)

end Key

/-- A value without parts. -/
inductive Scalar where
  | string (text : Bytes)
  | integer (n : Int)
  | float (x : Binary64)
  | boolean (b : Bool)
  | dateTime (text : Bytes)
  deriving DecidableEq, Repr

/-- A value as it is written. -/
inductive Value where
  | scalar (s : Scalar)
  | array (items : List Value)
  | inlineTable (bindings : List (Key × Value))

namespace Value

/-- Is the value an array? -/
def isArray : Value → Bool
  | .array _ => true
  | .scalar _ | .inlineTable _ => false

end Value

/-- A line of a TOML text. -/
inductive Statement where
  /-- `[key]` opens a table. -/
  | table (key : Key)
  /-- `[[key]]` adds an element to a list of tables and opens it. -/
  | element (key : Key)
  /-- `key = value` in the open table. -/
  | binding (key : Key) (value : Value)

end ScriptFront.Toml

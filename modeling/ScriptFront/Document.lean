import ScriptFront.Number.Binary64
import ScriptFront.Text.Bytes

/-!
# Documents

A **document** is a value of the kind that data formats share: truth values, numbers, texts, lists,
and records with named entries. The entries of a record stand in the order in which they are
written.
-/

namespace ScriptFront

open Text

/-- A structured value for output. -/
inductive Document where
  | boolean (value : Bool)
  | number (value : Binary64)
  | text (value : Bytes)
  | list (items : List Document)
  | record (entries : List (Bytes × Document))
  deriving Inhabited

end ScriptFront

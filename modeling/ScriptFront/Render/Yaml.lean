import ScriptFront.Document
import ScriptFront.Number.Written
import ScriptFront.Render.Yaml.Scalar

/-!
# Documents in YAML

YAML in block style: the entries of a record one below the other, and the items of a list each
behind a dash. What belongs to an entry stands on the next multiple of four; what belongs to an item
stands right of the dash. Lines are never folded.
-/

namespace ScriptFront.Yaml

open Text

/-- Numbers in YAML: plain digits from a ten-thousandth up to a million. -/
def numberStyle : NumberStyle where
  plain e := -4 ≤ e && e ≤ 5
  exponentWidth := 2
  nan := utf8 ".nan"
  positiveInfinity := utf8 ".inf"
  negativeInfinity := utf8 "-.inf"

/-- The indentation of what belongs to an entry at `indent`. -/
def inner (indent : Nat) : Nat :=
  4 * ((indent + 4) / 4)

/-- Blanks. -/
def blanks (count : Nat) : Bytes :=
  List.replicate count (byte ' ')

mutual

/-- What follows the key of an entry at `indent`, through the line break. -/
def entryValue (indent : Nat) : Document → Bytes
  | .boolean b => if b then utf8 " true\n" else utf8 " false\n"
  | .number x => byte ' ' :: numberStyle.write x ++ [byte '\n']
  | .text t => byte ' ' :: scalar (inner indent) t
  | .list [] => utf8 " []\n"
  | .list (d :: ds) => byte '\n' :: (item (inner indent) d ++ items (inner indent) ds)
  | .record [] => utf8 " \x7b\x7d\n"
  | .record ((key, d) :: rest) =>
    byte '\n' :: (blanks (inner indent) ++ key ++ byte ':' :: entryValue (inner indent) d
      ++ entries (inner indent) rest)

/-- An item of a list at `indent`. -/
def item (indent : Nat) : Document → Bytes
  | .boolean b => blanks indent ++ (if b then utf8 "- true\n" else utf8 "- false\n")
  | .number x => blanks indent ++ utf8 "- " ++ numberStyle.write x ++ [byte '\n']
  | .text t => blanks indent ++ utf8 "- " ++ scalar (indent + 2) t
  | .list [] => blanks indent ++ utf8 "- []\n"
  | .list (d :: ds) =>
    blanks indent ++ utf8 "- " ++ (item (indent + 2) d).drop (indent + 2) ++ items (indent + 2) ds
  | .record [] => blanks indent ++ utf8 "- \x7b\x7d\n"
  | .record ((key, d) :: rest) =>
    blanks indent ++ utf8 "- " ++ key ++ byte ':' :: entryValue (indent + 2) d
      ++ entries (indent + 2) rest

/-- The items of a list at `indent`. -/
def items (indent : Nat) : List Document → Bytes
  | [] => []
  | d :: ds => item indent d ++ items indent ds

/-- The entries of a record at `indent`. -/
def entries (indent : Nat) : List (Bytes × Document) → Bytes
  | [] => []
  | (key, d) :: rest =>
    blanks indent ++ key ++ byte ':' :: entryValue indent d ++ entries indent rest

end

/-- A **document in YAML**. -/
def render : Document → Bytes
  | .record rest => if rest.isEmpty then utf8 "\x7b\x7d\n" else entries 0 rest
  | .list ds => if ds.isEmpty then utf8 "[]\n" else items 0 ds
  | d => (entryValue 0 d).drop 1

end ScriptFront.Yaml

import ScriptFront.Diagnostic
import ScriptFront.Program.Dump
import ScriptFront.Program.Tree
import ScriptFront.Render.Json
import ScriptFront.Render.Outline
import ScriptFront.Render.Yaml

/-!
# Output formats

The four ways to write a program. All but JSON can write any program; JSON has no numbers that are
not finite.
-/

namespace ScriptFront

open Text

/-- A way to write a program. -/
inductive Format where
  /-- Source text in its canonical form. -/
  | dump
  /-- An outline of the structure. -/
  | pretty
  | json
  | yaml
  deriving DecidableEq, Repr, Inhabited

namespace Format

/-- The name of a format. -/
def name : Format → Bytes
  | .dump => utf8 "dump"
  | .pretty => utf8 "pretty"
  | .json => utf8 "json"
  | .yaml => utf8 "yaml"

/-- Every format. -/
def all : List Format :=
  [.dump, .pretty, .json, .yaml]

/-- The format of this name. -/
def ofName? (name : Bytes) : Option Format :=
  all.find? (·.name = name)

/-- The format of this name, or the failure that there is none. -/
def ofName (name : Bytes) : Except Failure Format :=
  match ofName? name with
  | some format => .ok format
  | none => .error (.plain (utf8 "unknown format " ++ Quoted.text name))

end Format

/-- A **program in a format**. -/
def Program.render (p : Program) : Format → Except Failure Bytes
  | .dump => .ok p.dump
  | .pretty => .ok (Outline.render p)
  | .yaml => .ok (Yaml.render p.tree)
  | .json =>
    match Json.render p.tree with
    | .ok text => .ok text
    | .error x =>
      .error (.within (utf8 "json marshal")
        (.plain (utf8 "json: unsupported value: " ++ Json.numberStyle.write x)))

end ScriptFront

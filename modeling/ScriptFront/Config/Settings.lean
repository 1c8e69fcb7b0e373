import ScriptFront.Config.Template
import ScriptFront.Host
import ScriptFront.Parser.Session
import ScriptFront.Render.Format
import ScriptFront.Toml.Reader
import ScriptFront.Toml.Table

/-!
# Settings

The **settings** of the tool: the nesting limit of the parser and the format of the output. They
come from a TOML file with the sections `parser` and `output`. A file may leave out anything, and
may hold nothing that the tool does not know.
-/

namespace ScriptFront

open Text

/-- The settings of the tool. The limit and the name of the format are as given, and only
`validate` says whether they can be used. -/
structure Settings where
  maxDepth : Int := 0
  format : Bytes := []
  deriving DecidableEq, Repr

/-- What is wrong with the settings in a file. -/
inductive SettingsFault where
  | unreadable (path : Bytes) (fault : ReadFault)
  /-- The file is not a TOML text. -/
  | malformed
  /-- Two lines of the file cannot stand together. -/
  | conflicting
  | mistyped (key : Toml.Key)
  | unknownKey (key : Toml.Key)
  | depthTooSmall (depth : Int)
  | unknownFormat (name : Bytes)
  deriving DecidableEq, Repr

namespace SettingsFault

/-- Could the file not be read and decoded at all? -/
def isDecoding : SettingsFault → Bool
  | .unreadable .. | .malformed | .conflicting | .mistyped _ => true
  | .unknownKey _ | .depthTooSmall _ | .unknownFormat _ => false

/-- The wording of a fault. -/
def message : SettingsFault → Bytes
  | .unreadable path fault => fault.text path
  | .malformed => utf8 "not a TOML text"
  | .conflicting => utf8 "a key is defined twice"
  | .mistyped key => key.text ++ utf8 " has a value of the wrong type"
  | .unknownKey key => utf8 "unknown key " ++ Quoted.text key.text
  | .depthTooSmall depth => utf8 "parser.max_depth must be >= 1, got " ++ integer depth
  | .unknownFormat name => utf8 "output.format: unknown format " ++ Quoted.text name

/-- A fault with the file it was found in. -/
def failure (path : Bytes) (fault : SettingsFault) : Failure :=
  let context := if fault.isDecoding then utf8 "failed to parse config " else utf8 "config "
  .within (context ++ path) (.plain fault.message)

end SettingsFault

namespace Settings

/-! ### Names -/

/-- The sections of the file. -/
inductive Section where
  | parser
  | output
  deriving DecidableEq, Repr

/-- A character without the difference between capitals and small letters. The long s and the sign
for kelvin are letters of ASCII in another shape. -/
def foldCase (c : Char) : Char :=
  if c = 'ſ' then 's' else if c = '\u212a' then 'k' else c.toLower

/-- Are two names equal up to case? -/
def sameName (a b : Bytes) : Bool :=
  let fold := fun name => (Rune.decode name).map fun
    | .char c => Rune.char (foldCase c)
    | r => r
  fold a = fold b

/-- The section of this name. -/
def Section.ofName? (name : Bytes) : Option Section :=
  if sameName name (utf8 "parser") then some .parser
  else if sameName name (utf8 "output") then some .output
  else none

/-! ### Decoding -/

/-- The settings and the keys they were taken from. -/
structure Decoded where
  settings : Settings := {}
  used : List Toml.Key := []

/-- Takes a setting from an entry of a section; an entry that is none is left for later. -/
def Decoded.entry (sectionName : Bytes) (s : Section) (d : Decoded) :
    Bytes × Toml.Node → Except SettingsFault Decoded
  | (name, node) =>
    let key : Toml.Key := [sectionName, name]
    match s with
    | .parser =>
      if sameName name (utf8 "max_depth") then
        match node with
        | .scalar (.integer n) => .ok ⟨{ d.settings with maxDepth := n }, key :: d.used⟩
        | _ => .error (.mistyped key)
      else .ok d
    | .output =>
      if sameName name (utf8 "format") then
        match node with
        | .scalar (.string text) => .ok ⟨{ d.settings with format := text }, key :: d.used⟩
        | _ => .error (.mistyped key)
      else .ok d

/-- Takes the settings from an entry of the file; an entry that is no section is left for later. -/
def Decoded.sectionEntry (d : Decoded) : Bytes × Toml.Node → Except SettingsFault Decoded
  | (name, node) =>
    match Section.ofName? name, node with
    | none, _ => .ok d
    | some s, .table entries =>
      entries.foldlM (Decoded.entry name s) { d with used := [name] :: d.used }
    | some _, _ => .error (.mistyped [name])

/-- The settings in a table, which may hold nothing else. -/
def ofTable (table : Toml.Table) : Except SettingsFault Settings := do
  let d ← table.entries.foldlM Decoded.sectionEntry {}
  match table.keys.find? fun key => !d.used.contains key with
  | some key => .error (.unknownKey key)
  | none => .ok d.settings

/-- The settings with every gap filled. -/
def withDefaults (s : Settings) : Settings where
  maxDepth := if s.maxDepth = 0 then Parser.defaultLimit else s.maxDepth
  format := if s.format = [] then Format.dump.name else s.format

/-- The settings where no file is given. -/
def default : Settings :=
  withDefaults {}

/-- Settings that can be used. -/
def validate (s : Settings) : Except SettingsFault Settings :=
  if s.maxDepth < 1 then .error (.depthTooSmall s.maxDepth)
  else match Format.ofName? s.format with
    | none => .error (.unknownFormat s.format)
    | some _ => .ok s

/-- The **settings in the text of a file**. -/
def ofText (source : Bytes) : Except SettingsFault Settings :=
  match Toml.read? source with
  | none => .error .malformed
  | some statements =>
    match Toml.Table.ofStatements? statements with
    | none => .error .conflicting
    | some table => do validate (← ofTable table).withDefaults

/-! ### Files -/

variable {m : Type → Type} [Monad m]

/-- The settings in the file that a template names. -/
def load (host : Host m) (template : Bytes) : m (Except Failure Settings) := do
  let path ← (Template.ofText template).expand host.environment
  return match ← host.readFile path with
    | .error fault => .error (SettingsFault.failure path (.unreadable path fault))
    | .ok source =>
      match ofText source with
      | .error fault => .error (fault.failure path)
      | .ok settings => .ok settings

/-- The variable that names the file where no other is given. -/
def fileVariable : Bytes := utf8 "YAI_CONFIG"

/-- The settings in the file that the environment names, with that name; the defaults, with no
name, where it names none. -/
def fromEnvironment (host : Host m) : m (Except Failure Settings × Bytes) := do
  match (← host.environment fileVariable).getD [] with
  | [] => return (.ok default, [])
  | template => return (← load host template, template)

end Settings

end ScriptFront

import ScriptFront.Text.Quoted

/-!
# Flags

A command line mixes **flags** and operands. A flag is written by its name, `--name`, or by its
letter, `-x`; letters may be joined. A flag is either a switch or takes a value, which stands in
the same argument or is the next one. Flags may stand before and after operands, and `--` ends
them.
-/

namespace ScriptFront

open Text

/-- The flags of the tool. -/
inductive Flag where
  | config
  | verbose
  | help
  | format
  | watch
  deriving DecidableEq, Repr

namespace Flag

/-- The name of a flag. -/
def name : Flag → Bytes
  | .config => utf8 "config"
  | .verbose => utf8 "verbose"
  | .help => utf8 "help"
  | .format => utf8 "format"
  | .watch => utf8 "watch"

/-- The letter of a flag. -/
def letter? : Flag → Option UInt8
  | .config => none
  | .verbose => some (byte 'v')
  | .help => some (byte 'h')
  | .format => some (byte 'f')
  | .watch => some (byte 'w')

/-- Is the flag a switch? -/
def isSwitch : Flag → Bool
  | .verbose | .help | .watch => true
  | .config | .format => false

/-- A flag as messages show it. -/
def title (flag : Flag) : Bytes :=
  let long := utf8 "--" ++ flag.name
  match flag.letter? with
  | some letter => byte '-' :: letter :: utf8 ", " ++ long
  | none => long

end Flag

/-- What is wrong with a command line. -/
inductive UsageFault where
  | unknownCommand (word parent : Bytes)
  | tooManyOperands (limit given : Nat)
  | unknownFlag (name : Bytes)
  | badFlag (argument : Bytes)
  | missingValue (argument : Bytes)
  | unknownLetter (letter : UInt8) (letters : Bytes)
  | missingLetterValue (letter : UInt8) (letters : Bytes)
  | notSwitchValue (flag : Flag) (value : Bytes)
  deriving DecidableEq, Repr

namespace UsageFault

/-- A letter between single quotes; a byte beyond ASCII shows as the character of that number. -/
def letterText (letter : UInt8) : Bytes :=
  Quoted.character (Char.ofNat letter.toNat)

/-- The wording of a fault. -/
def message : UsageFault → Bytes
  | .unknownCommand word parent =>
    utf8 "unknown command " ++ Quoted.text word ++ utf8 " for " ++ Quoted.text parent
  | .tooManyOperands limit given =>
    utf8 "accepts at most " ++ decimal limit ++ utf8 " arg(s), received " ++ decimal given
  | .unknownFlag name => utf8 "unknown flag: --" ++ name
  | .badFlag argument => utf8 "bad flag syntax: " ++ argument
  | .missingValue argument => utf8 "flag needs an argument: " ++ argument
  | .unknownLetter letter letters =>
    utf8 "unknown shorthand flag: " ++ letterText letter ++ utf8 " in -" ++ letters
  | .missingLetterValue letter letters =>
    utf8 "flag needs an argument: " ++ letterText letter ++ utf8 " in -" ++ letters
  | .notSwitchValue flag value =>
    utf8 "invalid argument " ++ Quoted.text value ++ utf8 " for " ++ Quoted.text flag.title
      ++ utf8 " flag: strconv.ParseBool: parsing " ++ Quoted.text value
      ++ utf8 ": invalid syntax"

end UsageFault

/-- The **options** that flags set. A later flag overrides an earlier one. -/
structure Options where
  config : Bytes := []
  verbose : Bool := false
  help : Bool := false
  format : Bytes := []
  watch : Bool := false
  deriving DecidableEq, Repr

namespace Options

/-- The truth values that a switch may be set to. -/
def switchValue? (value : Bytes) : Option Bool :=
  if ["1", "t", "T", "TRUE", "true", "True"].any (utf8 · = value) then some true
  else if ["0", "f", "F", "FALSE", "false", "False"].any (utf8 · = value) then some false
  else none

/-- The setting of a switch. -/
def switch (flag : Flag) (value : Bytes) : Except UsageFault Bool :=
  match switchValue? value with
  | some b => .ok b
  | none => .error (.notSwitchValue flag value)

/-- The options after a flag has been set to a value. -/
def set (o : Options) (flag : Flag) (value : Bytes) : Except UsageFault Options :=
  match flag with
  | .config => .ok { o with config := value }
  | .format => .ok { o with format := value }
  | .verbose => do return { o with verbose := ← switch flag value }
  | .help => do return { o with help := ← switch flag value }
  | .watch => do return { o with watch := ← switch flag value }

end Options

/-- How far a command line has been read. -/
structure Arguments where
  options : Options := {}
  /-- The operands so far, the latest first. -/
  operands : List Bytes := []
  /-- A flag whose value is the next argument, and what is wrong if there is none. -/
  awaiting : Option (Flag × UsageFault) := none

namespace Arguments

/-- Sets a flag to a value. -/
def set (a : Arguments) (flag : Flag) (value : Bytes) : Except UsageFault Arguments := do
  return { a with options := ← a.options.set flag value }

/-- What a switch is set to where no value is given. -/
def on : Bytes := utf8 "true"

/-- An argument that begins with two hyphens, without them. -/
def long (flags : List Flag) (a : Arguments) (text : Bytes) : Except UsageFault Arguments :=
  let argument := utf8 "--" ++ text
  let name := text.takeWhile (· ≠ byte '=')
  if name = [] ∨ name.head? = some (byte '-') then .error (.badFlag argument)
  else match flags.find? (·.name = name) with
    | none => .error (.unknownFlag name)
    | some flag =>
      match text.dropWhile (· ≠ byte '=') with
      | _ :: value => a.set flag value
      | [] =>
        if flag.isSwitch then a.set flag on
        else .ok { a with awaiting := some (flag, .missingValue argument) }

/-- The letters of an argument that begins with one hyphen. -/
def letters (flags : List Flag) (a : Arguments) : Bytes → Except UsageFault Arguments
  | [] => .ok a
  | c :: rest =>
    if (utf8 "test.").isPrefixOf (c :: rest) then .ok a
    else match flags.find? (·.letter? = some c) with
      | none => .error (.unknownLetter c (c :: rest))
      | some flag =>
        if rest.length ≥ 2 ∧ rest.head? = some (byte '=') then a.set flag rest.tail
        else if flag.isSwitch then do letters flags (← a.set flag on) rest
        else if rest = [] then
          .ok { a with awaiting := some (flag, .missingLetterValue c [c]) }
        else a.set flag rest

/-- Reads the arguments that are left. -/
def readAll (flags : List Flag) (a : Arguments) : List Bytes → Except UsageFault Arguments
  | [] =>
    match a.awaiting with
    | some (_, fault) => .error fault
    | none => .ok a
  | argument :: rest =>
    match a.awaiting with
    | some (flag, _) => do
      readAll flags { ← a.set flag argument with awaiting := none } rest
    | none =>
      match argument with
      | first :: second :: text =>
        if first ≠ byte '-' then
          readAll flags { a with operands := argument :: a.operands } rest
        else if second ≠ byte '-' then do
          readAll flags (← a.letters flags (second :: text)) rest
        else if text = [] then .ok { a with operands := rest.reverse ++ a.operands }
        else do readAll flags (← a.long flags text) rest
      | _ => readAll flags { a with operands := argument :: a.operands } rest

/-- The **options and operands** of a command line. -/
def read (flags : List Flag) (arguments : List Bytes) :
    Except UsageFault (Options × List Bytes) := do
  let a ← readAll flags {} arguments
  return (a.options, a.operands.reverse)

end Arguments

end ScriptFront

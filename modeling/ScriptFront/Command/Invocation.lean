import ScriptFront.Command.Flag
import ScriptFront.Diagnostic

/-!
# Invocations

An **invocation** is a command with its options and operands. The first word of the command line
that is neither a flag nor a flag's value names the command; flags may stand before it.
-/

namespace ScriptFront

open Text

/-- The commands of the tool. -/
inductive Command where
  /-- The tool itself, which only explains its use. -/
  | root
  | parse
  | tokens
  | version
  | help
  deriving DecidableEq, Repr

namespace Command

/-- The name of the tool. -/
def tool : Bytes := utf8 "yai"

/-- The words that name commands. -/
def words : List (Bytes × Command) :=
  [(utf8 "parse", .parse), (utf8 "tokens", .tokens), (utf8 "version", .version),
    (utf8 "help", .help)]

/-- The flags that every command has. -/
def commonFlags : List Flag :=
  [.config, .verbose, .help]

/-- The flags of a command. -/
def flags : Command → List Flag
  | .parse => .format :: .watch :: commonFlags
  | .root | .tokens | .version | .help => commonFlags

/-- Does an argument look like a flag whose value is the next argument? Before the command is
known, every flag does that is not one of the common switches. -/
def takesNext (argument : Bytes) : Bool :=
  let isSwitch := fun test => (commonFlags.find? test).any fun flag =>
    flag.isSwitch && flag ≠ .help
  match argument with
  | first :: second :: text =>
    if first ≠ byte '-' ∨ argument.contains (byte '=') then false
    else if second = byte '-' then !isSwitch fun flag => flag.name = text
    else text = [] && !isSwitch fun flag => flag.letter? = some second
  | _ => false

/-- The **first word** of a command line and the arguments around it. The last argument is no
word if it may be the value of a flag, and nothing after `--` is one. -/
def firstWord : List Bytes → Option (List Bytes × Bytes × List Bytes)
  | [] => none
  | argument :: rest =>
    if argument = utf8 "--" then none
    else if takesNext argument then
      match rest with
      | value :: next :: rest =>
        (firstWord (next :: rest)).map fun (before, word, after) =>
          (argument :: value :: before, word, after)
      | _ => none
    else if argument ≠ [] ∧ argument.head? ≠ some (byte '-') then some ([], argument, rest)
    else (firstWord rest).map fun (before, word, after) => (argument :: before, word, after)

/-- The command that a command line names, and its arguments. -/
def find (arguments : List Bytes) : Except UsageFault (Command × List Bytes) :=
  match firstWord arguments with
  | none => .ok (.root, arguments)
  | some (before, word, after) =>
    match words.lookup word with
    | some command => .ok (command, before ++ after)
    | none => .error (.unknownCommand word tool)

/-- Can a command take these operands? -/
def checkOperands : Command → List Bytes → Except UsageFault Unit
  | .tokens, operands =>
    if operands.length > 1 then .error (.tooManyOperands 1 operands.length) else .ok ()
  | .version, word :: _ => .error (.unknownCommand word (tool ++ utf8 " version"))
  | _, _ => .ok ()

end Command

/-- A command with its options and operands. -/
structure Invocation where
  command : Command
  options : Options
  operands : List Bytes
  deriving DecidableEq, Repr

namespace Invocation

/-- Is only an explanation asked for? -/
def asksHelp (i : Invocation) : Bool :=
  i.options.help || i.command = .root || i.command = .help

/-- The **invocation that a command line spells**. -/
def ofArguments (arguments : List Bytes) : Except UsageFault Invocation := do
  let (command, arguments) ← Command.find arguments
  let (options, operands) ← Arguments.read command.flags arguments
  let i : Invocation := ⟨command, options, operands⟩
  if i.asksHelp then return i
  command.checkOperands operands
  return i

end Invocation

end ScriptFront

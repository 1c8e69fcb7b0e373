import ScriptFront.Command.Invocation
import ScriptFront.Command.Parse
import ScriptFront.Command.Tokens

/-!
# Running commands

Carries out a command line: reads it, loads the settings, and runs the command it names. A command
ends with or without a failure, or it goes on to watch a file.
-/

namespace ScriptFront

open Text

/-- A file that is parsed again after every change. -/
structure WatchedFile where
  path : Bytes
  job : ParseJob

/-- How a command ends. -/
inductive Ending where
  | success
  | failure (cause : Failure)
  /-- The command goes on until the user stops it, and then has not failed. -/
  | watching (file : WatchedFile)

namespace Ending

/-- The ending with a failure, if there is one. -/
def ofFailure? : Option Failure → Ending
  | none => .success
  | some cause => .failure cause

/-- The failure that a command ends with. -/
def failure? : Ending → Option Failure
  | .failure cause => some cause
  | .success | .watching _ => none

/-- The **exit code** of the tool, and its last words. A failure that has been reported already
needs none. -/
def exit (e : Ending) : Nat × Output :=
  match e.failure? with
  | none => (0, {})
  | some cause =>
    if cause.isReported then (1, {})
    else (1, Output.log (utf8 "Fail: " ++ cause.text ++ utf8 "."))

end Ending

namespace WatchedFile

/-- The least time between two changes, in nanoseconds. -/
def debounce : Int64 := 100000000

variable {m : Type → Type} [Monad m]

/-- Parses the file once and shows what became of it. -/
def parseOnce (file : WatchedFile) (host : Host m) : m Output := do
  return (← file.job.run host file.path).output file.job.verbose

end WatchedFile

namespace Invocation

/-- The explanation of the tool, line by line. -/
def helpLines : List String :=
  ["Parser front end for the yai language",
    "",
    "Usage:",
    "  yai [command]",
    "",
    "Commands:",
    "  parse [files...]  Parse source files and print their syntax tree",
    "  tokens [file]     Print the token stream of a file, or stdin",
    "  version           Print the version",
    "",
    "Flags:",
    "      --config      config file (default: $YAI_CONFIG)",
    "  -v, --verbose     log timings and config source",
    "  -f, --format      parse: dump, pretty, json or yaml (default from config)",
    "  -w, --watch       parse: parse the file again each time it is written",
    "  -h, --help        this text"]

/-- The explanation of the tool. -/
def helpText : Bytes :=
  helpLines.flatMap fun text => Output.line (utf8 text)

/-- The version of the tool. -/
def version : Bytes := utf8 "0.1.0"

/-- The text that tells the version. -/
def versionText (toolchain platform : Bytes) : Bytes :=
  Output.line (utf8 "yai v" ++ version)
    ++ Output.line (utf8 "  Go Version: " ++ toolchain)
    ++ Output.line (utf8 "  OS/Arch:    " ++ platform)

variable {m : Type → Type} [Monad m]

/-- The settings of an invocation and where they come from. -/
def settings (i : Invocation) (host : Host m) : m (Except Failure Settings × Bytes) := do
  if i.options.config = [] then Settings.fromEnvironment host
  else return (← Settings.load host i.options.config, i.options.config)

/-- Begins to watch a file: it is parsed once, and then after every change. -/
def watch (host : Host m) (path : Bytes) (job : ParseJob) : m (Output × Ending) := do
  match ← host.canWatch (Path.directory path) with
  | .error fault =>
    return ({}, .failure (.within (utf8 "failed to watch " ++ path) (.plain fault.message)))
  | .ok () =>
    let file : WatchedFile := ⟨path, job⟩
    let first ← file.parseOnce host
    return (Output.logIf job.verbose (utf8 "watching " ++ path) ++ first, .watching file)

/-- Runs the command that parses. -/
def runParse (i : Invocation) (host : Host m) (s : Settings) : m (Output × Ending) := do
  let name := if i.options.format = [] then s.format else i.options.format
  match Format.ofName name with
  | .error cause => return ({}, .failure cause)
  | .ok format =>
    let job : ParseJob := ⟨s.maxDepth, format, i.options.verbose⟩
    if i.options.watch then
      match i.operands with
      | [path] =>
        if path = Source.standardInput then return ({}, .failure needsOneFile)
        else watch host path job
      | _ => return ({}, .failure needsOneFile)
    else
      let paths := if i.operands = [] then [Source.standardInput] else i.operands
      let (output, failure) ← job.runAll host paths
      return (output, .ofFailure? failure)
where
  needsOneFile : Failure := .plain (utf8 "--watch needs exactly one file")

/-- Runs the command of an invocation under its settings. -/
def runWith (i : Invocation) (host : Host m) (s : Settings) : m (Output × Ending) := do
  match i.command with
  | .parse => i.runParse host s
  | .tokens =>
    let (output, failure) ← TokenList.run host (i.operands.head?.getD Source.standardInput)
    return (output, .ofFailure? failure)
  | .version => return ({ out := versionText host.toolchain host.platform }, .success)
  | .root | .help => return ({ out := helpText }, .success)

/-- Loads the settings of an invocation and runs it. -/
def run (i : Invocation) (host : Host m) : m (Output × Ending) := do
  if i.asksHelp then return ({ out := helpText }, .success)
  match ← i.settings host with
  | (.error cause, _) => return ({}, .failure cause)
  | (.ok s, source) =>
    let origin := if source = [] then utf8 "defaults" else source
    let (output, ending) ← i.runWith host s
    return (Output.logIf i.options.verbose (utf8 "config: " ++ origin) ++ output, ending)

end Invocation

/-- **Runs a command line.** -/
def runCommandLine {m : Type → Type} [Monad m] (host : Host m) (arguments : List Bytes) :
    m (Output × Ending) := do
  match Invocation.ofArguments arguments with
  | .error fault => return ({}, .failure (.plain fault.message))
  | .ok i => i.run host

end ScriptFront

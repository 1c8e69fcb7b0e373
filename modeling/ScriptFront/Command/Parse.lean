import ScriptFront.Command.Output
import ScriptFront.Command.Source
import ScriptFront.Config.Settings

/-!
# Parsing files

Parses any number of sources and shows each program in a format. The sources are jobs of their
own, which may end in any order; their results are kept in one slot each and are shown in the
order of the operands. A source that cannot be parsed does not keep the others from being shown.
-/

namespace ScriptFront

open Text

/-- How sources are parsed and shown. -/
structure ParseJob where
  maxDepth : Int
  format : Format
  verbose : Bool

/-- What became of one source. -/
structure ParseReport where
  name : Bytes
  result : Except Failure Bytes
  elapsed : Bytes

namespace ParseReport

/-- A **report as it is shown**: the program, or on the other channel why there is none. -/
def output (verbose : Bool) (r : ParseReport) : Output :=
  match r.result with
  | .ok text =>
    { out := text }
      ++ Output.logIf verbose (utf8 "parsed " ++ r.name ++ utf8 " in " ++ r.elapsed)
  | .error failure => { err := Output.line failure.text }

/-- Is there no program to show? -/
def isFailed (r : ParseReport) : Bool :=
  match r.result with
  | .ok _ => false
  | .error _ => true

/-- The line above a report that is one of several. -/
def header (r : ParseReport) : Output where
  out := Output.line (utf8 "==> " ++ r.name ++ utf8 " <==")

/-- Several reports, each under its header, with an empty line between neighbours. -/
def sections (verbose : Bool) : List ParseReport → Output
  | [] => {}
  | [r] => r.header ++ r.output verbose
  | r :: rest => r.header ++ r.output verbose ++ { out := [byte '\n'] } ++ sections verbose rest

/-- **Reports as they are shown.** One alone has no header. -/
def shown (verbose : Bool) : List ParseReport → Output
  | [r] => r.output verbose
  | rs => sections verbose rs

end ParseReport

namespace ParseJob

/-- The program in a source text, as it is shown. A diagnostic is told with the name of the source
and the span it is about. -/
def outcome (job : ParseJob) (name source : Bytes) : Except Failure Bytes :=
  match Program.ofText job.maxDepth source with
  | .error fault =>
    .error (.within (name ++ byte ':' :: fault.span.text) (.diagnostic fault.diagnostic))
  | .ok program => program.render job.format

variable {m : Type → Type} [Monad m]

/-- Parses **one source**. -/
def run (job : ParseJob) (host : Host m) (path : Bytes) : m ParseReport := do
  let name := Source.title path
  let (result, elapsed) ← host.timed do
    return match ← Source.read host path with
      | .error failure => .error failure
      | .ok source => job.outcome name source
  return ⟨name, result, elapsed⟩

/-- Runs a job for each input, in the order of a schedule, and gives the results in the order of
the inputs. -/
def inSlots {α β : Type} (schedule : List Nat) (run : α → m β) (inputs : List α) :
    m (List β) := do
  let finished ← schedule.mapM fun i => do return (i, ← inputs[i]?.mapM run)
  return (List.range inputs.length).filterMap fun i => (finished.lookup i).join

/-- The failure of a command of which some inputs failed. -/
def summary? (reports : List ParseReport) : Option Failure :=
  match reports.countP ParseReport.isFailed with
  | 0 => none
  | failed =>
    some (.within
      (decimal failed ++ utf8 " of " ++ decimal reports.length ++ utf8 " inputs failed") .reported)

/-- Parses **every source** and shows the results in the order of the operands. -/
def runAll (job : ParseJob) (host : Host m) (paths : List Bytes) :
    m (Output × Option Failure) := do
  if ← host.isCancelled then return ({}, some (.plain (utf8 "context canceled")))
  let reports ← inSlots (host.schedule paths.length) (job.run host) paths
  return (ParseReport.shown job.verbose reports, summary? reports)

end ParseJob

end ScriptFront

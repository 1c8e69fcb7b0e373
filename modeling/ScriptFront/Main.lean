import ScriptFront.Command.Run
import ScriptFront.Text.Duration
import ScriptFront.Watch.Loop

/-!
# The command line tool

Connects `runCommandLine` with the world: files, the standard streams, variables and the clock.
-/

namespace ScriptFront.Main

open Text

/-- A byte string as text for the system. -/
def systemText (bytes : Bytes) : String :=
  (String.fromUTF8? ⟨bytes.toArray⟩).getD ""

/-- An error of the system as a fault of reading. -/
def readFault : IO.Error → ReadFault
  | .noFileOrDirectory .. => .missing
  | .inappropriateType .. => .isDirectory
  | .invalidArgument .. => .invalidName
  | e => .other (utf8 "open") (utf8 (toString e))

/-- The outcome of an action of the system. -/
def attempt {α : Type} (action : IO α) : IO (Except ReadFault α) := do
  try return .ok (← action)
  catch e => return .error (readFault e)

/-- All that is left of a stream. -/
partial def readAll (stream : IO.FS.Stream) (read : ByteArray) : IO ByteArray := do
  let chunk ← stream.read 65536
  if chunk.isEmpty then return read else readAll stream (read ++ chunk)

/-- The system as a host. -/
def host : Host IO where
  environment name := return (← IO.getEnv (systemText name)).map utf8
  readFile path := attempt do return (← IO.FS.readBinFile (systemText path)).toList
  readInput := do
    try return .ok (← readAll (← IO.getStdin) .empty).toList
    catch e => return .error (utf8 (toString e))
  canWatch path := attempt do discard (IO.FS.realPath (systemText path))
  isCancelled := return false
  schedule := List.range
  timed action := do
    let start ← IO.monoNanosNow
    let result ← action
    let stop ← IO.monoNanosNow
    return (result, Duration.text (stop - start))
  toolchain := utf8 "none"
  platform := utf8 "any"

/-- Writes on both channels. -/
def write (output : Output) : IO Unit := do
  let out ← IO.getStdout
  out.write ⟨output.out.toArray⟩
  out.flush
  let err ← IO.getStderr
  err.write ⟨output.err.toArray⟩
  err.flush

/-- Carries out what the watching loop decides. -/
def perform (file : WatchedFile) : Option Watch.Action → IO Unit
  | none => return
  | some .change => do write (← file.parseOnce host)
  | some (.complain message) => write (Output.log (utf8 "watcher error: " ++ message))

/-- Looks at a file again and again, and shows it after every change. -/
partial def watch (file : WatchedFile) (seen : Except ReadFault Bytes) (loop : Watch.Loop) :
    IO Unit := do
  IO.sleep 20
  let watcher : Watch.Watcher := ⟨file.path, WatchedFile.debounce⟩
  let content ← host.readFile file.path
  let isSame : Bool := match seen, content with
    | .ok a, .ok b => a == b
    | .error a, .error b => a == b
    | _, _ => false
  let signal : Watch.Signal := if isSame then .expiry else .event ⟨file.path, [.write]⟩
  let (loop, action) := loop.step watcher (← IO.monoNanosNow) signal
  perform file action
  watch file content loop

end ScriptFront.Main

/-- Runs the tool. -/
def main (arguments : List String) : IO UInt32 := do
  let (output, ending) ←
    ScriptFront.runCommandLine ScriptFront.Main.host (arguments.map ScriptFront.Text.utf8)
  ScriptFront.Main.write output
  match ending with
  | .watching file =>
    ScriptFront.Main.watch file (← ScriptFront.Main.host.readFile file.path) {}
    return 0
  | _ =>
    let (code, last) := ending.exit
    ScriptFront.Main.write last
    return code.toUInt32

import ScriptFront.Text.Bytes

/-!
# Output

What a command writes, on its two channels: results go to the **output**, everything about them to
the **errors**. Outputs of steps are joined channel by channel.
-/

namespace ScriptFront

open Text

/-- What has been written on each channel. -/
@[ext]
structure Output where
  out : Bytes := []
  err : Bytes := []
  deriving DecidableEq, Repr, Inhabited

namespace Output

/-- Outputs of one part of a command and then of the next. -/
instance : Append Output where
  append a b := ⟨a.out ++ b.out, a.err ++ b.err⟩

/-- What is shown goes together on its stream. -/
@[simp] theorem out_append (a b : Output) : (a ++ b).out = a.out ++ b.out := rfl

/-- What is complained about goes together on its stream. -/
@[simp] theorem err_append (a b : Output) : (a ++ b).err = a.err ++ b.err := rfl

/-- A text with a line break at its end. -/
def line (text : Bytes) : Bytes :=
  text ++ [byte '\n']

/-- A text with a line break at its end, unless it has one. -/
def logLine (text : Bytes) : Bytes :=
  if text.getLast? = some (byte '\n') then text else line text

/-- A line of the log. -/
def log (text : Bytes) : Output where
  err := logLine (utf8 "yai: " ++ text)

/-- A line of the log that is written only on demand. -/
def logIf (verbose : Bool) (text : Bytes) : Output :=
  if verbose then log text else {}

end Output

end ScriptFront

import ScriptFront.Text.Bytes

/-!
# String literals

The canonical literal of a byte string: double quotes around it, and a backslash before the five
characters that could not stand in a literal on one line. This is the printer beside
`Scanner.stringTail`, which reads literals with either quote.
-/

namespace ScriptFront.Literal

open Text

/-- How a byte is written inside a literal. -/
def escape (b : UInt8) : Bytes :=
  if b = byte '\\' then utf8 "\\\\"
  else if b = byte '"' then utf8 "\\\""
  else if b = byte '\n' then utf8 "\\n"
  else if b = byte '\t' then utf8 "\\t"
  else if b = byte '\r' then utf8 "\\r"
  else [b]

/-- The **canonical literal** of a byte string. -/
def quote (value : Bytes) : Bytes :=
  byte '"' :: value.flatMap escape ++ [byte '"']

end ScriptFront.Literal

import ScriptFront.Calendar
import ScriptFront.Text.Bytes

/-!
# TOML: dates and times

A **moment** is a date, a time of day, or both, and both may have an offset from universal time.
Letters may be small, and a space may stand for the `T` between date and time. Only real days of
the calendar are dates.
-/

namespace ScriptFront.Toml.Moment

open Text

/-- The number that a fixed count of digits at the front of a text spells. -/
def digits? (count : Nat) (text : Bytes) : Option (Nat × Bytes) :=
  let digits := text.take count
  if digits.length = count ∧ digits.all isDigit then
    some (digits.foldl (fun n b => 10 * n + digitValue b) 0, text.drop count)
  else none

/-- A text after the character it has to begin with. -/
def after? (c : Char) : Bytes → Option Bytes
  | b :: rest => if b = byte c then some rest else none
  | [] => none

/-- What follows a date at the front of a text. -/
def date? (text : Bytes) : Option Bytes := do
  let (year, rest) ← digits? 4 text
  let (month, rest) ← digits? 2 (← after? '-' rest)
  let (day, rest) ← digits? 2 (← after? '-' rest)
  if Calendar.isDay year month day then some rest else none

/-- What follows the digits after the point of a second, if there are any. -/
def fraction (text : Bytes) : Bytes :=
  match text with
  | point :: d :: rest =>
    if point = byte '.' ∧ isDigit d then rest.dropWhile isDigit else text
  | _ => text

/-- What follows a time of day at the front of a text. -/
def time? (text : Bytes) : Option Bytes := do
  let (hour, rest) ← digits? 2 text
  let (minute, rest) ← digits? 2 (← after? ':' rest)
  let (second, rest) ← digits? 2 (← after? ':' rest)
  if hour < 24 ∧ minute < 60 ∧ second < 60 then some (fraction rest) else none

/-- What follows an offset at the front of a text. An offset of a full day, or with a full hour of
minutes, is still an offset. -/
def offset? (text : Bytes) : Option Bytes :=
  match after? 'Z' text with
  | some rest => some rest
  | none => do
    let rest ← (after? '+' text).or (after? '-' text)
    let (hours, rest) ← digits? 2 rest
    let (minutes, rest) ← digits? 2 (← after? ':' rest)
    if hours ≤ 24 ∧ minutes ≤ 60 then some rest else none

/-- What follows a date, the letter between, and a time of day. -/
def dateTime? (text : Bytes) : Option Bytes := do
  time? (← after? 'T' (← date? text))

/-- A text in the form with capital letters. -/
def capitals (text : Bytes) : Bytes :=
  text.map fun b =>
    if b = byte 't' ∨ b = byte ' ' then byte 'T' else if b = byte 'z' then byte 'Z' else b

/-- Is the text, in the form with capital letters, a **moment**? -/
def isMoment (text : Bytes) : Bool :=
  ((dateTime? text).bind offset? == some [] || dateTime? text == some [])
    || (date? text == some [] || time? text == some [])

end ScriptFront.Toml.Moment

import ScriptFront.Calendar
import ScriptFront.Text.Bytes

/-!
# Timestamps

The texts that a YAML reader takes for a point in time: a date `year-month-day`, alone or with a
time of day. A time after the letter T has to name its zone, a time after blanks must not. Month,
day, hour, minute and second may have one digit or two; the day has to exist.
-/

namespace ScriptFront.Yaml.Timestamp

open Text

/-- A field of one or two digits. -/
def shortField? : Bytes → Option (Nat × Bytes)
  | a :: b :: rest =>
    if !isDigit a then none
    else if isDigit b then some (10 * digitValue a + digitValue b, rest)
    else some (digitValue a, b :: rest)
  | [a] => if isDigit a then some (digitValue a, []) else none
  | [] => none

/-- A field of exactly two digits. -/
def fullField? : Bytes → Option (Nat × Bytes)
  | a :: b :: rest =>
    if isDigit a && isDigit b then some (10 * digitValue a + digitValue b, rest) else none
  | _ => none

/-- The rest of a text that begins with this character. -/
def after? (c : Char) : Bytes → Option Bytes
  | b :: rest => if b = byte c then some rest else none
  | [] => none

/-- The year: four digits before a hyphen. -/
def year? (text : Bytes) : Option (Nat × Bytes) :=
  let digits := text.takeWhile isDigit
  if digits.length = 4 then
    (after? '-' (text.dropWhile isDigit)).map
      (digits.foldl (fun n b => 10 * n + digitValue b) 0, ·)
  else none

/-- What follows a **date that exists**. -/
def date? (text : Bytes) : Option Bytes := do
  let (year, text) ← year? text
  let (month, text) ← shortField? text
  let text ← after? '-' text
  let (day, text) ← shortField? text
  if Calendar.isDay year month day then some text else none

/-- What follows a fraction of a second, if there is one. -/
def afterFraction : Bytes → Bytes
  | a :: b :: rest =>
    if (a = byte '.' || a = byte ',') && isDigit b then (b :: rest).dropWhile isDigit
    else a :: b :: rest
  | text => text

/-- What follows a **time of day**. -/
def time? (text : Bytes) : Option Bytes := do
  let (hour, text) ← shortField? text
  let text ← after? ':' text
  let (minute, text) ← shortField? text
  let text ← after? ':' text
  let (second, text) ← shortField? text
  if hour < 24 ∧ minute < 60 ∧ second < 60 then some (afterFraction text) else none

/-- The text is a time zone: the letter Z, or an offset in hours and minutes. -/
def isZone (text : Bytes) : Bool :=
  match text with
  | [b] => b = byte 'Z'
  | sign :: rest =>
    let fields := do
      let (hours, text) ← fullField? rest
      let text ← after? ':' text
      let (minutes, text) ← fullField? text
      if hours ≤ 24 ∧ minutes ≤ 60 then some text else none
    (sign = byte '+' || sign = byte '-') && fields = some []
  | [] => false

/-- **Is the text a timestamp?** -/
def holds (text : Bytes) : Bool :=
  match date? text with
  | none => false
  | some [] => true
  | some (b :: rest) =>
    if b = byte 'T' || b = byte 't' then (time? rest).any isZone
    else b = byte ' ' && time? (rest.dropWhile (· = byte ' ')) = some []

end ScriptFront.Yaml.Timestamp

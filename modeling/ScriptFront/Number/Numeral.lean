import ScriptFront.Number.Decimal
import ScriptFront.Text.Bytes

/-!
# Numerals

The texts that denote a number. A number token of the scanner is digits with an optional fraction;
token streams from elsewhere may also use a sign, an exponent, hexadecimal digits with a binary
exponent, underscores between digits, and the words for infinity and NaN.

A numeral is divided into its parts first (`Numeral.ofText?`); the value is then one exact quotient,
rounded once (`Numeral.read?`).
-/

namespace ScriptFront

open Text

/-- The **parts of a numeral**: digits before and after the point, and the exponent. -/
structure Numeral where
  whole : Bytes
  fraction : Bytes
  exponent : Int
  deriving DecidableEq, Repr

namespace Numeral

/-- The number that decimal digits spell. -/
def value (digits : Bytes) : Nat :=
  digits.foldl (fun n b => 10 * n + digitValue b) 0

/-- The number that hexadecimal digits spell. -/
def hexadecimalValue (digits : Bytes) : Nat :=
  digits.foldl (fun n b => 16 * n + (hexValue? b).getD 0) 0

/-! ### Dividing the text -/

/-- An underscore, which may stand between digits. -/
def isSeparator (b : UInt8) : Bool :=
  b = byte '_'

/-- Where the scan of separators stands. -/
inductive Mark where
  | start
  | digit
  | separator
  | elsewhere
  deriving DecidableEq, Repr

/-- Does every underscore follow a digit and stand before one? -/
def separatorsFit (isDigit : UInt8 → Bool) : Mark → Bytes → Bool
  | last, [] => last ≠ .separator
  | last, b :: rest =>
    if isDigit b then separatorsFit isDigit .digit rest
    else if isSeparator b then last = .digit && separatorsFit isDigit .separator rest
    else last ≠ .separator && separatorsFit isDigit .elsewhere rest

/-- Digits of an exponent count until it has reached this bound; later ones are passed over, for
the value is out of range whatever they are. -/
def exponentBound : Nat := 10000

/-- The size of an exponent. -/
def exponentValue (digits : Bytes) : Nat :=
  digits.foldl (fun n b => if n < exponentBound then 10 * n + digitValue b else n) 0

/-- An exponent after its `marker`, to the end of the text. No exponent is exponent zero. -/
def exponent? (marker : Char) : Bytes → Option (Option Int)
  | [] => some none
  | b :: rest =>
    if lower b ≠ byte marker then none
    else
      let (negative, digits) := match rest with
        | s :: rest => if s = byte '-' then (true, rest) else if s = byte '+' then (false, rest)
          else (false, s :: rest)
        | [] => (false, [])
      if (digits.head?.any isDigit) && digits.all fun b => isDigit b || isSeparator b then
        let size : Int := exponentValue (digits.filter isDigit)
        some (some (if negative then -size else size))
      else none

/-- Divides an unsigned text into digits, fraction and exponent. -/
def divide? (isDigit : UInt8 → Bool) (marker : Char) (text : Bytes) :
    Option (Bytes × Bytes × Option Int) :=
  let inRun := fun b => isDigit b || isSeparator b
  let whole := text.takeWhile inRun
  let rest := text.dropWhile inRun
  let (fraction, rest) := match rest with
    | b :: rest =>
      if b = byte '.' then (rest.takeWhile inRun, rest.dropWhile inRun) else ([], b :: rest)
    | [] => ([], [])
  let whole := whole.filter isDigit
  let fraction := fraction.filter isDigit
  if whole = [] && fraction = [] then none
  else (exponent? marker rest).map (whole, fraction, ·)

/-- The parts of an unsigned **decimal** numeral. -/
def decimal? (text : Bytes) : Option Numeral :=
  if separatorsFit isDigit .start text then
    (divide? isDigit 'e' text).map fun (whole, fraction, exponent) =>
      ⟨whole, fraction, exponent.getD 0⟩
  else none

/-- The parts of a **hexadecimal** numeral after its two leading characters, which count as a digit
before an underscore. It has to have an exponent. -/
def hexadecimal? (text : Bytes) : Option Numeral :=
  let isDigit := fun b => (hexValue? b).isSome
  if separatorsFit isDigit .digit text then
    (divide? isDigit 'p' text).bind fun (whole, fraction, exponent) =>
      exponent.map (⟨whole, fraction, ·⟩)
  else none

/-! ### Values -/

/-- The number nearest to a decimal numeral. -/
def decimalValue? (x : Numeral) : Option Binary64 :=
  Decimal.toBinary? ⟨value (x.whole ++ x.fraction), x.exponent - x.fraction.length⟩

/-- The number nearest to a hexadecimal numeral; the exponent is a power of two. -/
def hexadecimalBinary? (x : Numeral) : Option Binary64 :=
  let digits := hexadecimalValue (x.whole ++ x.fraction)
  match x.exponent - 4 * x.fraction.length with
  | .ofNat e => Binary64.ofRatio? (digits * Nat.pow 2 e) 1
  | .negSucc e => Binary64.ofRatio? digits (Nat.pow 2 (e + 1))

/-- An unsigned numeral. -/
def unsigned? : Bytes → Option Binary64
  | a :: b :: c :: rest =>
    if a = byte '0' ∧ lower b = byte 'x' then (hexadecimal? (c :: rest)).bind hexadecimalBinary?
    else (decimal? (a :: b :: c :: rest)).bind decimalValue?
  | text => (decimal? text).bind decimalValue?

/-- A word for infinity, in any case of letters. -/
def isInfinity (text : Bytes) : Bool :=
  text.map lower = utf8 "inf" || text.map lower = utf8 "infinity"

/-- A text after its sign, where infinity may also stand. -/
def signed? (negative : Bool) (text : Bytes) : Option Binary64 :=
  let magnitude := if isInfinity text then some .infinity else unsigned? text
  magnitude.map (Binary64.withSign negative)

/-- The **number that a text denotes**: none if it is no numeral or is beyond the largest finite
number. What is too small becomes zero. -/
def read? (text : Bytes) : Option Binary64 :=
  match text with
  | [] => none
  | s :: rest =>
    if s = byte '-' then signed? true rest
    else if s = byte '+' then signed? false rest
    else if text.map lower = utf8 "nan" then some .nan
    else signed? false text

end Numeral

end ScriptFront

import ScriptFront.Number.Numeral
import ScriptFront.Toml.Basic

/-!
# TOML: numbers

Integers have 64 bits and may be written in four bases; a fraction or an exponent makes a float.
Underscores may stand between digits. No decimal number has a zero in front of other digits.
-/

namespace ScriptFront.Toml.Number

open Text

/-- Does every underscore have a digit before it, and is the last byte a digit? Letters that are
digits in base sixteen count in every base; a run of digits has no others. -/
def underscoresFit : (afterDigit : Bool) → Bytes → Bool
  | afterDigit, [] => afterDigit
  | afterDigit, b :: rest =>
    if b = byte '_' ∧ !afterDigit then false else underscoresFit (hexValue? b).isSome rest

/-- Does a zero stand in front of other digits? -/
def hasLeadingZero : Bytes → Bool
  | a :: b :: rest =>
    if a = byte '-' ∨ a = byte '+' then b = byte '0' && !rest.isEmpty else a = byte '0'
  | _ => false

/-- The integers of 64 bits. -/
def inRange (n : Int) : Bool :=
  -9223372036854775808 ≤ n && n < 9223372036854775808

/-- The number that digits spell in a base, underscores aside. -/
def magnitude (base : Nat) (digits : Bytes) : Nat :=
  (digits.filter (· ≠ byte '_')).foldl (fun n b => base * n + (hexValue? b).getD 0) 0

/-- An integer within range. -/
def integer? (n : Int) : Option Scalar :=
  if inRange n then some (.integer n) else none

/-- An integer in another base than ten, after the letters that name the base. -/
def based? (base : Nat) (digits : Bytes) : Option Scalar :=
  if underscoresFit false digits then integer? (magnitude base digits) else none

/-- A decimal integer with or without a sign. -/
def decimal? (text : Bytes) : Option Scalar :=
  if !underscoresFit false text || hasLeadingZero text then none
  else match text with
    | [] => none
    | s :: digits =>
      if s = byte '-' then integer? (-(magnitude 10 digits : Int))
      else if s = byte '+' then integer? (magnitude 10 digits)
      else integer? (magnitude 10 text)

/-- A byte that divides the parts of a float. -/
def isDivider (b : UInt8) : Bool :=
  b = byte '.' || lower b = byte 'e'

/-- The parts of a float between its dividers; none is empty. -/
def floatParts (text : Bytes) : List Bytes :=
  (splitAt (byte '.') (text.map fun b => if isDivider b then byte '.' else b)).filter (· ≠ [])

/-- Does a digit follow every point? -/
def pointsFit : Bytes → Bool
  | [] => true
  | b :: rest => (b ≠ byte '.' || rest.head?.any isDigit) && pointsFit rest

/-- A float with a fraction or an exponent. -/
def float? (text : Bytes) : Option Scalar :=
  let parts := floatParts text
  if parts.all (underscoresFit false) && !parts.head?.any hasLeadingZero && pointsFit text then
    (Numeral.read? (text.filter (· ≠ byte '_'))).map .float
  else none

end ScriptFront.Toml.Number

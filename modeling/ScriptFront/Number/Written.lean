import ScriptFront.Number.Decimal
import ScriptFront.Text.Bytes

/-!
# Written numbers

How a number is written is a matter of the format: which powers of ten are written out with plain
digits, how many digits an exponent has at least, and the words for what is not finite. The digits
are always those of `Decimal.shortest`.
-/

namespace ScriptFront

open Text

/-- The decisions of one output format on numbers. For a number `d.ddd · 10 ^ e`, `plain e` tells
whether it is written without an exponent. -/
structure NumberStyle where
  plain : Int → Bool
  exponentWidth : Nat
  nan : Bytes
  positiveInfinity : Bytes
  negativeInfinity : Bytes

namespace NumberStyle

/-- The words that most formats use for numbers that are not finite. -/
def basic (plain : Int → Bool) (exponentWidth : Nat) : NumberStyle where
  plain := plain
  exponentWidth := exponentWidth
  nan := utf8 "NaN"
  positiveInfinity := utf8 "+Inf"
  negativeInfinity := utf8 "-Inf"

/-- `count` zeros. -/
def zeros (count : Nat) : Bytes :=
  List.replicate count (byte '0')

/-- Plain digits: `digits · 10 ^ exponent` with zeros filled in around the point. -/
def positional (digits : Bytes) : (exponent : Int) → Bytes
  | .ofNat k => digits ++ zeros k
  | .negSucc k =>
    let places := k + 1
    if places < digits.length then
      digits.take (digits.length - places) ++ byte '.' :: digits.drop (digits.length - places)
    else utf8 "0." ++ zeros (places - digits.length) ++ digits

/-- One digit before the point, and the power of ten `e` after the mark. -/
def scientific (style : NumberStyle) (digits : Bytes) (e : Int) : Bytes :=
  let fraction := if digits.length ≤ 1 then [] else byte '.' :: digits.drop 1
  let power := decimal e.natAbs
  digits.take 1 ++ fraction ++ byte 'e' :: (if e < 0 then byte '-' else byte '+')
    :: zeros (style.exponentWidth - power.length) ++ power

/-- A finite, non-negative number. -/
def magnitude (style : NumberStyle) (x : Binary64) : Bytes :=
  if x.isZero then [byte '0']
  else
    let d := Decimal.shortest x
    let digits := decimal d.digits
    let e := d.exponent + digits.length - 1
    if style.plain e then positional digits d.exponent else style.scientific digits e

/-- A **number in this style**. -/
def write (style : NumberStyle) (x : Binary64) : Bytes :=
  if x.isNaN then style.nan
  else if !x.isFinite then
    if x.isNegative then style.negativeInfinity else style.positiveInfinity
  else if x.isNegative then byte '-' :: style.magnitude x.abs
  else style.magnitude x

end NumberStyle

end ScriptFront

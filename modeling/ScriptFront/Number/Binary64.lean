/-!
# Binary floating-point numbers

Numbers of the language are the 64-bit binary numbers of IEEE 754, held as their **bit pattern**.
Nothing is computed with them: they are read, compared by their bits and written. All of that is
exact arithmetic on natural numbers, so no machine operation on floating-point numbers is used.

A finite number is `significand · 2 ^ exponent` up to its sign. `ofRatio?` goes the other way and
rounds a quotient to the nearest number, a tie going to the even significand.
-/

namespace ScriptFront

/-- A **binary64** number by its bits: sign, eleven bits of exponent, fifty-two of fraction. -/
structure Binary64 where
  bits : UInt64
  deriving DecidableEq, Repr, Inhabited

namespace Binary64

/-! ### Parts of a number -/

/-- Is the sign bit set? -/
def isNegative (x : Binary64) : Bool :=
  x.bits.toNat / Nat.pow 2 63 = 1

/-- The eleven bits of the exponent. -/
def exponentField (x : Binary64) : Nat :=
  x.bits.toNat / Nat.pow 2 52 % Nat.pow 2 11

/-- The fifty-two bits of the fraction. -/
def fraction (x : Binary64) : Nat :=
  x.bits.toNat % Nat.pow 2 52

/-- Neither infinite nor NaN. -/
def isFinite (x : Binary64) : Bool :=
  x.exponentField < 2047

/-- Not a number. -/
def isNaN (x : Binary64) : Bool :=
  !x.isFinite && x.fraction ≠ 0

/-- Zero of either sign. -/
def isZero (x : Binary64) : Bool :=
  x.exponentField = 0 && x.fraction = 0

/-- The integer significand of a finite number. -/
def significand (x : Binary64) : Nat :=
  if x.exponentField = 0 then x.fraction else Nat.pow 2 52 + x.fraction

/-- The power of two that goes with `significand`. -/
def exponent (x : Binary64) : Int :=
  if x.exponentField = 0 then -1074 else x.exponentField - 1075

/-- The magnitude of a finite number as a **quotient of naturals**. -/
def ratio (x : Binary64) : Nat × Nat :=
  match x.exponent with
  | .ofNat e => (x.significand * Nat.pow 2 e, 1)
  | .negSucc e => (x.significand, Nat.pow 2 (e + 1))

/-! ### Making numbers -/

/-- Bits of a magnitude with a sign. -/
def withSign (negative : Bool) (magnitude : Binary64) : Binary64 :=
  if negative then ⟨magnitude.bits ||| 0x8000000000000000⟩ else magnitude

/-- The magnitude of a number: the sign bit cleared. -/
def abs (x : Binary64) : Binary64 :=
  ⟨x.bits &&& 0x7fffffffffffffff⟩

/-- Positive infinity. -/
def infinity : Binary64 := ⟨0x7ff0000000000000⟩

/-- The NaN that reading the word yields. -/
def nan : Binary64 := ⟨0x7ff8000000000001⟩

/-! ### Rounding -/

/-- The natural number nearest to `n / d`, **a tie going to the even one**. -/
def roundHalfEven (n d : Nat) : Nat :=
  let q := n / d
  let r := n % d
  if 2 * r < d then q
  else if 2 * r > d then q + 1
  else q + q % 2

/-- Numerator and denominator of `(n / d) / 2 ^ k`. -/
def unscale (n d : Nat) : Int → Nat × Nat
  | .ofNat k => (n, d * Nat.pow 2 k)
  | .negSucc k => (n * Nat.pow 2 (k + 1), d)

/-- The power of two in whose units `n / d` has at most fifty-three bits before the point, and no
fewer unless that power is the least there is. -/
def unitExponent (n d : Nat) : Int :=
  let k := max (-1074) ((n.log2 : Int) - d.log2 - 53)
  let (a, b) := unscale n d k
  if a / b < Nat.pow 2 53 then k else k + 1

/-- The number **nearest to `n / d`**, a tie going to the even significand; none where that is
beyond the largest finite number. The exponent field counts units from `2 ^ -1074`, so a carry out
of the significand moves into it by plain addition. -/
def ofRatio? (n d : Nat) : Option Binary64 :=
  if n = 0 then some ⟨0⟩
  else
    let k := unitExponent n d
    let (a, b) := unscale n d k
    let bits := (k + 1074).toNat * Nat.pow 2 52 + roundHalfEven a b
    if bits < 2047 * Nat.pow 2 52 then some ⟨bits.toUInt64⟩ else none

end Binary64

end ScriptFront

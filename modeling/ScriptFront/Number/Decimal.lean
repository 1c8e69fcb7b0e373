import ScriptFront.Number.Binary64

/-!
# Shortest decimals

A **decimal** is `digits · 10 ^ exponent`. Every finite binary number has a shortest decimal that
reads back as it: with as few digits as possible, and of these the nearest. `shortest` looks for
it one number of digits at a time among the two neighbours of the value on that decimal grid, and
accepts a neighbour **only if it reads back**.
-/

namespace ScriptFront

/-- The decimal `digits · 10 ^ exponent`. -/
@[ext]
structure Decimal where
  digits : Nat
  exponent : Int
  deriving DecidableEq, Repr, Inhabited

namespace Decimal

/-- A decimal as a quotient of naturals. -/
def ratio (d : Decimal) : Nat × Nat :=
  match d.exponent with
  | .ofNat e => (d.digits * Nat.pow 10 e, 1)
  | .negSucc e => (d.digits, Nat.pow 10 (e + 1))

/-- The binary number nearest to a decimal. -/
def toBinary? (d : Decimal) : Option Binary64 :=
  Binary64.ofRatio? d.ratio.1 d.ratio.2

/-- Moves trailing zeros of the digits into the exponent, `limit` of them at most. -/
def trimWithin : (limit : Nat) → Decimal → Decimal
  | 0, d => d
  | limit + 1, d =>
    if d.digits ≠ 0 ∧ d.digits % 10 = 0 then trimWithin limit ⟨d.digits / 10, d.exponent + 1⟩
    else d

/-- The number of decimal digits of a positive number. -/
def length (n : Nat) : Nat :=
  (Nat.toDigits 10 n).length

/-- The `e` with `10 ^ e ≤ n / d < 10 ^ (e + 1)`, for a positive quotient. -/
def magnitude (n d : Nat) : Int :=
  if d ≤ n then length (n / d) - 1 else -(length ((d + n - 1) / n - 1) : Int)

/-- The decimals with exponent `e` on either side of `n / d`, the nearer one first; a tie is for
the even one. -/
def neighbours (n d : Nat) (e : Int) : List Decimal :=
  let (a, b) := match e with
    | .ofNat e => (n, d * Nat.pow 10 e)
    | .negSucc e => (n * Nat.pow 10 (e + 1), d)
  let low : Decimal := ⟨a / b, e⟩
  let high : Decimal := ⟨a / b + 1, e⟩
  let r := a % b
  if 2 * r < b ∨ (2 * r = b ∧ a / b % 2 = 0) then [low, high] else [high, low]

/-- All digits of a finite number. -/
def exact (x : Binary64) : Decimal :=
  match x.exponent with
  | .ofNat e => ⟨x.significand * Nat.pow 2 e, 0⟩
  | .negSucc e => ⟨x.significand * Nat.pow 5 (e + 1), .negSucc e⟩

/-- The **shortest decimal** that reads back as the finite, positive number `x`. Seventeen digits
are always enough. -/
def shortest (x : Binary64) : Decimal :=
  let (n, d) := x.ratio
  let e := magnitude n d
  let found := (List.range 17).findSome? fun k =>
    (neighbours n d (e - (k : Nat))).find? fun c => c.toBinary? = some x
  (found.getD (exact x)).trimWithin 20

end Decimal

end ScriptFront

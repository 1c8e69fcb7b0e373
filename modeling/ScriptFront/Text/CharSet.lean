/-!
# Sets of characters as tables

A set of code points is given by the increasing list of the points at which membership changes,
starting outside the set. The sets of the Unicode Standard that the scanner and the printers need
are tables of this form.
-/

namespace ScriptFront.Text.CharSet

/-- Walks the change points up to `n`, starting `inside` or outside. -/
def insideAt (inside : Bool) : List Nat → Nat → Bool
  | [], _ => inside
  | p :: flips, n => if n < p then inside else insideAt (!inside) flips n

/-- Membership of a character in the set that changes at `flips`. -/
def holds (flips : List Nat) (c : Char) : Bool :=
  insideAt false flips c.toNat

end ScriptFront.Text.CharSet

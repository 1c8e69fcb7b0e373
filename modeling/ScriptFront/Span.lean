import ScriptFront.Text.Rune

/-!
# Positions and spans

A **position** counts lines from 1 and bytes from 0; a **span** is the half-open range of bytes
that a token occupies, with the line on which it starts. Spans of scanned tokens are made of
positions; a span handed in from outside may hold any integers.
-/

namespace ScriptFront

open Text

/-- The range of bytes `start ≤ i < stop`, which begins on `line`. -/
structure Span where
  line : Int := 0
  start : Int := 0
  stop : Int := 0
  deriving DecidableEq, Repr, Inhabited

namespace Span

/-- A span as `line:start-stop`. -/
def text (s : Span) : Bytes :=
  integer s.line ++ byte ':' :: integer s.start ++ byte '-' :: integer s.stop

end Span

/-- A **position** in a source text. -/
structure Position where
  line : Nat := 1
  offset : Nat := 0
  deriving DecidableEq, Repr, Inhabited

namespace Position

/-- The position right after a rune: its bytes are counted, and a line feed ends the line. -/
def after (p : Position) (r : Rune) : Position where
  line := if r = .char '\n' then p.line + 1 else p.line
  offset := p.offset + r.width

/-- The position right after a sequence of runes. -/
def past (p : Position) (runes : List Rune) : Position :=
  runes.foldl after p

/-- The span from one position to another. -/
def upTo (p q : Position) : Span where
  line := p.line
  start := p.offset
  stop := q.offset

/-- No runes lead no further. -/
@[simp] theorem past_nil (p : Position) : p.past [] = p := rfl

/-- Runes in two parts lead as far as one after the other. -/
@[simp] theorem past_append (p : Position) (rs ss : List Rune) :
    p.past (rs ++ ss) = (p.past rs).past ss :=
  List.foldl_append

/-- Passing runes moves the offset by **the number of their bytes**. -/
theorem offset_past (p : Position) (runes : List Rune) :
    (p.past runes).offset = p.offset + (Rune.encode runes).length := by
  induction runes generalizing p with
  | nil => rfl
  | cons r rs ih =>
    have h := ih (p.after r)
    simp only [past, List.foldl_cons, Rune.encode_cons, List.length_append] at h ⊢
    rw [h]
    simp only [after, Rune.width]
    omega

end Position

end ScriptFront

import ScriptFront.Number.Numeral
import ScriptFront.Parser.Basic
import ScriptFront.Program.Basic

/-!
# Parsing expressions

The levels of the expression grammar, loosest first: assignment, six levels of left-associative
binary operators, unary operators, calls and property accesses, and primary expressions.

The **nesting limit** is what the recursion is structural on. It is charged once for every whole
expression and once for every unary operator, before anything of it is consumed; `unary d` and
`expression d` have `d` charges left.
-/

namespace ScriptFront

open Text

/-- One level of **left-associative binary operators**. -/
structure BinaryLevel where
  operators : List Punctuator
  node : Expr → Kind → Expr → Expr

namespace BinaryLevel

/-- Is this the kind of an operator of the level? -/
def holds (level : BinaryLevel) : Kind → Bool
  | .punctuator p => level.operators.contains p
  | _ => false

/-- The levels, **loosest first**. Connectives and comparisons are logical, the rest binary. -/
def all : List BinaryLevel :=
  [⟨[.logicalOr], .logical⟩,
   ⟨[.logicalAnd], .logical⟩,
   ⟨[.equalEqual, .bangEqual], .logical⟩,
   ⟨[.greater, .greaterEqual, .less, .lessEqual], .logical⟩,
   ⟨[.plus, .minus, .ampersand, .pipe, .caret], .binary⟩,
   ⟨[.star, .slash], .binary⟩]

end BinaryLevel

namespace Punctuator

/-- The operators that may stand before an operand. -/
def isUnary (p : Punctuator) : Bool :=
  [minus, plus, bang].contains p

/-- The operators that assign. -/
def isAssignment (p : Punctuator) : Bool :=
  [equals, plusEquals, minusEquals, percentEquals, slashEquals, ampersandEquals, pipeEquals,
    starEquals, caretEquals].contains p

end Punctuator

namespace Kind

/-- Is this the kind of a unary operator? -/
def isUnary : Kind → Bool
  | .punctuator p => p.isUnary
  | _ => false

/-- Is this the kind of an assignment operator? -/
def isAssignment : Kind → Bool
  | .punctuator p => p.isAssignment
  | _ => false

/-- Does this kind go on with a call or a property access? -/
def isAccess (k : Kind) : Bool :=
  k = .punctuator .parenLeft || k = .punctuator .dot

end Kind

namespace Parse

variable {σ : Type} [TokenSource σ]

/-! ### Levels of operators -/

/-- One level of binary operators over its operands, grouped from the left. -/
def binary (level : BinaryLevel) (operand : Parse σ Expr) : Parse σ Expr := do
  let first ← operand
  foldWhile level.holds (fun left => do
    let operator ← advance
    let right ← operand
    return level.node left operator.kind right) first

/-- Levels of binary operators over the operands of the tightest. -/
def binaries (levels : List BinaryLevel) (operand : Parse σ Expr) : Parse σ Expr :=
  levels.foldr binary operand

/-- The assignment that `target operator value` denotes, if `target` can be assigned to. -/
def assignment? (target : Expr) (operator : Kind) (value : Expr) : Option Expr :=
  match target with
  | .reference name => some (.assign name operator value)
  | .get object name => some (.set object name operator value)
  | _ => none

/-- A whole expression over its unary operands. Assignments do not chain, and whether the target is
one is looked at when the value has been read. -/
def assignment (operand : Parse σ Expr) : Parse σ Expr := do
  let target ← binaries BinaryLevel.all operand
  if (← Parse.kind).isAssignment then
    let operator ← advance
    let value ← binaries BinaryLevel.all operand
    match assignment? target operator.kind value with
    | some e => return e
    | none => fail operator.span .invalidTarget
  else return target

/-! ### Operands -/

/-- A primary expression; `inner` reads whole expressions inside it. -/
def primary (inner : Parse σ Expr) : Parse σ Expr := do
  let t ← current
  match t.kind with
  | .keyword .trueKw => let _ ← advance; return .boolean true
  | .keyword .falseKw => let _ ← advance; return .boolean false
  | .number =>
    match Numeral.read? t.value with
    | some x => let _ ← advance; return .number x
    | none => fail t.span (.invalidNumber t.value)
  | .string => let _ ← advance; return .string t.value
  | .identifier => let _ ← advance; return .reference t.value
  | .keyword .thisKw => let _ ← advance; return .reference (utf8 "this")
  | .punctuator .parenLeft =>
    let _ ← advance
    let e ← inner
    let _ ← expect .parenRight
    return .grouping e
  | .keyword .superKw =>
    let _ ← advance
    let _ ← expect .dot
    let method ← identifier
    return .super method.value
  | .error => unexpected fun t => .unscannable t.value
  | _ =>
    let _ ← advance
    fail t.span .expectedExpression

/-- A primary expression with the calls and property accesses that follow it. -/
def accesses (inner : Parse σ Expr) : Parse σ Expr := do
  let first ← primary inner
  foldWhile Kind.isAccess (fun e => do
    let t ← advance
    if t.kind = .punctuator .parenLeft then return .call e (← parenthesized inner)
    else return .get e (← identifier).value) first

/-- A whole expression, given the reader of operands with one charge less; without one the limit is
used up. -/
def expressionOver : Option (Parse σ Expr) → Parse σ Expr
  | none => tooDeep
  | some operand => assignment operand

/-- A unary operand, given the reader of operands with one charge less. -/
def unaryOver (deeper : Option (Parse σ Expr)) : Parse σ Expr := do
  if (← Parse.kind).isUnary then
    match deeper with
    | none => tooDeep
    | some operand =>
      let operator ← advance
      return .unary operator.kind (← operand)
  else accesses (expressionOver deeper)

/-- A **unary operand** with `d` charges left. -/
def unary : (d : Nat) → Parse σ Expr
  | 0 => unaryOver none
  | d + 1 => unaryOver (some (unary d))

/-- A **whole expression** with `d` charges left. -/
def expression : (d : Nat) → Parse σ Expr
  | 0 => expressionOver none
  | d + 1 => expressionOver (some (unary d))

end Parse

end ScriptFront

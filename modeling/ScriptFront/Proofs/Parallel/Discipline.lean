import ScriptFront.Proofs.Completeness.Expression

/-!
# Disciplines of a Grammar

The grammar is fixed, but two things about running it can vary: **how nesting is charged** and
**which assignments are made**. A `Discipline` holds both, and the recursive levels of the grammar
are defined over it (`Discipline.expression`, `Discipline.declaration`, …); the productions between
them are those of the parser, which take the readers of their parts as arguments anyway.

The parser itself is the grammar under the discipline `Discipline.strict`
(`Discipline.declaration_strict`). Other disciplines count charges by a counter, or let any target
be assigned to; comparing two of them is comparing two parsers that differ in nothing else.
-/

namespace ScriptFront

open Text

/-! ### Choices by kind

A production that begins with a choice is written here as a chain of tests on the current token,
in the order in which the alternatives are told apart. -/

/-- The primary expression that a single token is. -/
def Token.atom? (t : Token) : Option Expr :=
  match t.kind with
  | .keyword .trueKw => some (.boolean true)
  | .keyword .falseKw => some (.boolean false)
  | .number => (Numeral.read? t.value).map .number
  | .string => some (.string t.value)
  | .identifier => some (.reference t.value)
  | .keyword .thisKw => some (.reference (utf8 "this"))
  | _ => none

/-- A token that is an expression is not the end of the input. -/
theorem Token.kind_ne_eof_of_atom? {t : Token} {e : Expr} (h : t.atom? = some e) :
    t.kind ≠ .eof := by
  intro hk
  simp [Token.atom?, hk] at h

/-- Whether a token is an expression, and which, does not depend on its place. -/
theorem Token.atom?_congr {t u : Token} (hk : t.kind = u.kind)
    (hv : t.kind ≠ .eof → t.value = u.value) : t.atom? = u.atom? := by
  by_cases heof : t.kind = .eof
  · simp only [Token.atom?, ← hk, heof]
  · simp only [Token.atom?, ← hk, hv heof]

namespace Parse

variable {σ : Type} [TokenSource σ]

/-- The tokens that are refused as primary expressions without being consumed. -/
def refusal (t : Token) : FaultCause :=
  if t.kind = .number then .invalidNumber t.value else .unscannable t.value

/-- A primary expression is one token, or is told by its first; a token that begins none is
consumed, unless it is a number out of range or could not be scanned. -/
theorem primary_eq (inner : Parse σ Expr) : primary inner = (do
    let t ← current
    match t.atom? with
    | some e => let _ ← advance; return e
    | none =>
      if t.kind = .punctuator .parenLeft then
        let _ ← advance
        let e ← inner
        let _ ← expect .parenRight
        return .grouping e
      else if t.kind = .keyword .superKw then
        let _ ← advance
        let _ ← expect .dot
        let method ← identifier
        return .super method.value
      else if t.kind = .number ∨ t.kind = .error then fail t.span (refusal t)
      else
        let _ ← advance
        fail t.span .expectedExpression) := by
  funext c
  obtain ⟨⟨kind, value, span⟩, source⟩ := c
  simp only [primary, current_bind, Token.atom?, refusal]
  cases kind with
  | keyword k => cases k <;> rfl
  | punctuator p => cases p <;> rfl
  | number => cases Numeral.read? value <;> rfl
  | _ => rfl

/-- An item of a block, given the readers of its parts. -/
def itemOver (expression : Parse σ Expr) (declaration statement : Parse σ Stmt) :
    Parse σ Stmt := do
  let k ← Parse.kind
  if k = .keyword .letKw ∨ k = .keyword .constKw then binding expression
  else if k = .keyword .classKw then classDecl declaration
  else if k = .keyword .functionKw then
    let _ ← advance
    return .function (← functionDecl declaration)
  else statement

/-- A statement, given the readers of its parts. -/
def clauseOver (expression : Parse σ Expr) (declaration statement : Parse σ Stmt) :
    Parse σ Stmt := do
  let k ← Parse.kind
  if k = .keyword .printKw then printing expression
  else if k = .keyword .ifKw then branch expression statement
  else if k = .keyword .whileKw then whileLoop expression statement
  else if k = .keyword .forKw then forLoop expression statement
  else if k = .keyword .returnKw then returning expression
  else if k = .punctuator .braceLeft then return .block (← braced declaration)
  else expressionStatement expression

/-- An item of a block with a charge left, over the levels below. -/
theorem declaration_succ (d : Nat) : (declaration (d + 1) : Parse σ Stmt) =
    itemOver (expression d) (declaration d) (statement d) := by
  funext c
  obtain ⟨⟨kind, value, span⟩, source⟩ := c
  simp only [declaration, itemOver, kind_bind]
  cases kind with
  | keyword k => cases k <;> rfl
  | _ => rfl

/-- A statement with a charge left, over the levels below. -/
theorem statement_succ (d : Nat) : (statement (d + 1) : Parse σ Stmt) =
    clauseOver (expression d) (declaration d) (statement d) := by
  funext c
  obtain ⟨⟨kind, value, span⟩, source⟩ := c
  simp only [statement, clauseOver, kind_bind]
  cases kind with
  | keyword k => cases k <;> rfl
  | punctuator p => cases p <;> rfl
  | _ => rfl

end Parse

open Parse

/-- A **discipline** says which assignments are made and how nesting is charged: what becomes of a
computation that takes one charge, and of one that finds no charge left. -/
structure Discipline (σ : Type) where
  assign : Expr → Kind → Expr → Option Expr
  charged : {α : Type} → Parse σ α → Parse σ α
  exhausted : {α : Type} → Parse σ α

namespace Discipline

variable {σ : Type} [TokenSource σ]

/-! ### The grammar under a discipline -/

/-- A whole expression over its unary operands. -/
def assignment (D : Discipline σ) (operand : Parse σ Expr) : Parse σ Expr := do
  let target ← binaries BinaryLevel.all operand
  if (← Parse.kind).isAssignment then
    let operator ← advance
    let value ← binaries BinaryLevel.all operand
    match D.assign target operator.kind value with
    | some e => return e
    | none => fail operator.span .invalidTarget
  else return target

/-- A whole expression, given the reader of operands with one charge less. -/
def expressionOver (D : Discipline σ) : Option (Parse σ Expr) → Parse σ Expr
  | none => D.exhausted
  | some operand => D.charged (D.assignment operand)

/-- A unary operator and its operand. -/
def prefixed (operand : Parse σ Expr) : Parse σ Expr := do
  let operator ← advance
  return .unary operator.kind (← operand)

/-- A unary operand, given the reader of operands with one charge less. -/
def operandOver (D : Discipline σ) (deeper : Option (Parse σ Expr)) : Parse σ Expr := do
  if (← Parse.kind).isUnary then
    match deeper with
    | none => D.exhausted
    | some operand => D.charged (prefixed operand)
  else accesses (D.expressionOver deeper)

/-- A unary operand with `d` charges left. -/
def operand (D : Discipline σ) : (d : Nat) → Parse σ Expr
  | 0 => D.operandOver none
  | d + 1 => D.operandOver (some (D.operand d))

/-- A whole expression with `d` charges left. -/
def expression (D : Discipline σ) : (d : Nat) → Parse σ Expr
  | 0 => D.expressionOver none
  | d + 1 => D.expressionOver (some (D.operand d))

mutual

/-- A declaration or statement with `d` charges left. -/
def declaration (D : Discipline σ) : (d : Nat) → Parse σ Stmt
  | 0 => D.exhausted
  | d + 1 => D.charged (itemOver (D.expression d) (D.declaration d) (D.statement d))

/-- A statement with `d` charges left. -/
def statement (D : Discipline σ) : (d : Nat) → Parse σ Stmt
  | 0 => D.exhausted
  | d + 1 => D.charged (clauseOver (D.expression d) (D.declaration d) (D.statement d))

end

/-- The next statement, or none at the end of the input. -/
def nextStatement (D : Discipline σ) (d : Nat) : Parse σ (Option Stmt) := do
  if (← Parse.kind) = .eof then return none
  else return some (← D.declaration d)

/-- All statements that are left. -/
def program (D : Discipline σ) (d : Nat) : Parse σ Program :=
  collectWhile (· ≠ .eof) (D.declaration d)

/-! ### The discipline of the parser -/

/-- Charges that are counted down by the recursion alone, for assignments made by `assign`. -/
def plain (assign : Expr → Kind → Expr → Option Expr) : Discipline σ where
  assign := assign
  charged x := x
  exhausted := tooDeep

/-- **The parser's own discipline.** -/
def strict : Discipline σ :=
  plain assignment?

/-- The strict discipline has the operands of the grammar. -/
theorem operand_strict (d : Nat) : (strict.operand d : Parse σ Expr) = unary d := by
  induction d with
  | zero => rfl
  | succ d ih =>
      rw [operand, unary, ih]
      rfl

/-- The strict discipline has the expressions of the grammar. -/
theorem expression_strict (d : Nat) :
    (strict.expression d : Parse σ Expr) = Parse.expression d := by
  cases d with
  | zero => rfl
  | succ d =>
      rw [expression, Parse.expression, operand_strict]
      rfl

/-- **The parser is the grammar under its discipline.** -/
theorem declaration_statement_strict (d : Nat) :
    (strict.declaration d : Parse σ Stmt) = Parse.declaration d ∧
      (strict.statement d : Parse σ Stmt) = Parse.statement d := by
  induction d with
  | zero => exact ⟨rfl, rfl⟩
  | succ d ih =>
      rw [declaration, statement, declaration_succ, statement_succ, ih.1, ih.2, expression_strict]
      exact ⟨rfl, rfl⟩

/-- The strict discipline has the statements of the grammar. -/
theorem declaration_strict (d : Nat) :
    (strict.declaration d : Parse σ Stmt) = Parse.declaration d :=
  (declaration_statement_strict d).1

end Discipline

end ScriptFront

import ScriptFront.Parser.Expression

/-!
# Parsing statements

Declarations and statements are charged to the nesting limit one each, so that a statement in a
block is charged twice: as an item of the block and as a statement. The productions that need no
charge of their own take the readers of their parts as arguments.
-/

namespace ScriptFront

open Text

namespace Parse

variable {σ : Type} [TokenSource σ]

/-! ### Parts of statements -/

/-- An expression in parentheses, as after `if` and `while`. -/
def condition (expression : Parse σ Expr) : Parse σ Expr := do
  let _ ← expect .parenLeft
  let e ← expression
  let _ ← expect .parenRight
  return e

/-- An expression, unless the delimiter that would end it is current. -/
def optionalBefore (stop : Punctuator) (expression : Parse σ Expr) : Parse σ (Option Expr) := do
  if (← Parse.kind) = .punctuator stop then return none
  else return some (← expression)

/-- Neither a closing brace nor the end of the input. -/
def insideBraces (k : Kind) : Bool :=
  k ≠ .punctuator .braceRight && k ≠ .eof

/-- Items between braces. -/
def braced {α : Type} (item : Parse σ α) : Parse σ (List α) := do
  let _ ← expect .braceLeft
  let items ← collectWhile insideBraces item
  let _ ← expect .braceRight
  return items

/-! ### Declarations -/

/-- A binding, from its keyword to the semicolon. -/
def binding (expression : Parse σ Expr) : Parse σ Stmt := do
  let keyword ← advance
  let name ← identifier
  let value ← if ← accept .equals then some <$> expression else pure none
  let _ ← expect .semicolon
  return .binding name.value value (keyword.kind = .keyword .constKw)

/-- A function or method from its name on. -/
def functionDecl (declaration : Parse σ Stmt) : Parse σ FunctionDecl := do
  let name ← identifier
  let _ ← expect .parenLeft
  let params ← parenthesized identifier
  let body ← braced declaration
  return .mk name.value (if params = [] then none else some (params.map Token.value)) body

/-- The superclass of the class `name`, if one is given. A class may not name itself. -/
def superclass (name : Bytes) : Parse σ (Option Bytes) := do
  if ← accept .less then
    let parent ← identifier
    if parent.value = name then fail parent.span .selfInheritance
    else if parent.value = [] then return none
    else return some parent.value
  else return none

/-- A class, from its keyword to the closing brace. -/
def classDecl (declaration : Parse σ Stmt) : Parse σ Stmt := do
  let _ ← advance
  let name ← identifier
  let parent ← superclass name.value
  let methods ← braced (functionDecl declaration)
  return .classDecl name.value parent methods

/-! ### Statements -/

/-- An expression and its semicolon. -/
def expressionStatement (expression : Parse σ Expr) : Parse σ Stmt := do
  let e ← expression
  let _ ← expect .semicolon
  return .expression e

/-- The first clause of a `for`, through its semicolon. -/
def initializer (expression : Parse σ Expr) : Parse σ (Option Stmt) := do
  if ← accept .semicolon then return none
  else if (← Parse.kind) = .keyword .letKw then return some (← binding expression)
  else return some (← expressionStatement expression)

/-- A `for` loop, from its keyword on. -/
def forLoop (expression : Parse σ Expr) (statement : Parse σ Stmt) : Parse σ Stmt := do
  let _ ← advance
  let _ ← expect .parenLeft
  let init ← initializer expression
  let condition ← optionalBefore .semicolon expression
  let _ ← expect .semicolon
  let increment ← optionalBefore .parenRight expression
  let _ ← expect .parenRight
  let body ← statement
  return .for init condition increment body

/-- A conditional, from its keyword on. An `else` belongs to the nearest `if`. -/
def branch (expression : Parse σ Expr) (statement : Parse σ Stmt) : Parse σ Stmt := do
  let _ ← advance
  let test ← condition expression
  let yes ← statement
  if (← Parse.kind) = .keyword .elseKw then
    let _ ← advance
    return .branch test yes (some (← statement))
  else return .branch test yes none

/-- A `while` loop, from its keyword on. -/
def whileLoop (expression : Parse σ Expr) (statement : Parse σ Stmt) : Parse σ Stmt := do
  let _ ← advance
  let test ← condition expression
  let body ← statement
  return .while test body

/-- A `print`, from its keyword to the semicolon. -/
def printing (expression : Parse σ Expr) : Parse σ Stmt := do
  let _ ← advance
  let e ← expression
  let _ ← expect .semicolon
  return .print e

/-- A `return`, from its keyword to the semicolon. -/
def returning (expression : Parse σ Expr) : Parse σ Stmt := do
  let _ ← advance
  let value ← optionalBefore .semicolon expression
  let _ ← expect .semicolon
  return .return value

mutual

/-- A **declaration** or statement with `d` charges left. -/
def declaration : (d : Nat) → Parse σ Stmt
  | 0 => tooDeep
  | d + 1 => do
    match ← Parse.kind with
    | .keyword .letKw | .keyword .constKw => binding (expression d)
    | .keyword .classKw => classDecl (declaration d)
    | .keyword .functionKw =>
      let _ ← advance
      return .function (← functionDecl (declaration d))
    | _ => statement d

/-- A **statement** with `d` charges left. -/
def statement : (d : Nat) → Parse σ Stmt
  | 0 => tooDeep
  | d + 1 => do
    match ← Parse.kind with
    | .keyword .printKw => printing (expression d)
    | .keyword .ifKw => branch (expression d) (statement d)
    | .keyword .whileKw => whileLoop (expression d) (statement d)
    | .keyword .forKw => forLoop (expression d) (statement d)
    | .keyword .returnKw => returning (expression d)
    | .punctuator .braceLeft => return .block (← braced (declaration d))
    | _ => expressionStatement (expression d)

end

end Parse

end ScriptFront

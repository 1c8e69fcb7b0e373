import ScriptFront.Number.Binary64
import ScriptFront.Token.Kind

/-!
# Programs

The trees that source texts denote. Operators are token kinds. A parser only builds trees of a
certain form; a tree made by hand may put any kind at an operator and any statement at a branch,
and the printers write it all the same.
-/

namespace ScriptFront

open Text

/-- An **expression**. -/
inductive Expr where
  | boolean (value : Bool)
  | number (value : Binary64)
  | string (value : Bytes)
  /-- A variable, or the receiver of a method under the name `this`. -/
  | reference (name : Bytes)
  | unary (operator : Kind) (right : Expr)
  | binary (left : Expr) (operator : Kind) (right : Expr)
  /-- A comparison or a connective. -/
  | logical (left : Expr) (operator : Kind) (right : Expr)
  /-- An expression in parentheses. -/
  | grouping (inner : Expr)
  | assign (name : Bytes) (operator : Kind) (value : Expr)
  /-- A property of an object. -/
  | get (object : Expr) (name : Bytes)
  /-- An assignment to a property of an object. -/
  | set (object : Expr) (name : Bytes) (operator : Kind) (value : Expr)
  /-- A method of the superclass. -/
  | super (method : Bytes)
  | call (callee : Expr) (args : List Expr)
  deriving Inhabited

mutual

/-- A **statement** or declaration. -/
inductive Stmt where
  | binding (name : Bytes) (value : Option Expr) (constant : Bool)
  | function (decl : FunctionDecl)
  | classDecl (name : Bytes) (superclass : Option Bytes) (methods : List FunctionDecl)
  | expression (e : Expr)
  | print (e : Expr)
  | return (value : Option Expr)
  | branch (condition : Expr) (yes : Stmt) (no : Option Stmt)
  | while (condition : Expr) (body : Stmt)
  | for (init : Option Stmt) (condition : Option Expr) (increment : Option Expr) (body : Stmt)
  | block (body : List Stmt)
  deriving Inhabited

/-- A named **function or method**. -/
inductive FunctionDecl where
  /-- Parameters are `none` where the parentheses are empty. -/
  | mk (name : Bytes) (params : Option (List Bytes)) (body : List Stmt)
  deriving Inhabited

end

/-- A **program**: statements in order. -/
abbrev Program := List Stmt

end ScriptFront

import ScriptFront.Number.Written
import ScriptFront.Program.Basic
import ScriptFront.Token.Literal

/-!
# Dumps

The **dump** of a program is source text again: each statement on a line of its own, one space
wherever tokens are apart, and no parentheses that the tree does not hold. The dump of a parsed
program parses to the same program.
-/

namespace ScriptFront

open Text

/-- Numbers in source text: plain digits whatever the size, since the language has no exponents. -/
def Expr.numberStyle : NumberStyle :=
  .basic (fun _ => true) 0

mutual

/-- An expression as source text. -/
def Expr.dump : Expr → Bytes
  | .boolean value => if value then utf8 "true" else utf8 "false"
  | .number value => Expr.numberStyle.write value
  | .string value => Literal.quote value
  | .reference name => name
  | .unary operator right => operator.name ++ right.dump
  | .binary left operator right | .logical left operator right =>
    left.dump ++ byte ' ' :: operator.name ++ byte ' ' :: right.dump
  | .grouping inner => byte '(' :: inner.dump ++ [byte ')']
  | .assign name operator value => name ++ byte ' ' :: operator.name ++ byte ' ' :: value.dump
  | .get object name => object.dump ++ byte '.' :: name
  | .set object name operator value =>
    object.dump ++ byte '.' :: name ++ byte ' ' :: operator.name ++ byte ' ' :: value.dump
  | .super method => utf8 "super." ++ method
  | .call callee args => callee.dump ++ byte '(' :: join (utf8 ", ") (Expr.dumps args) ++ [byte ')']

/-- The dumps of a list of expressions. -/
def Expr.dumps : List Expr → List Bytes
  | [] => []
  | e :: es => e.dump :: Expr.dumps es

end

namespace Stmt

/-- Texts between braces, with a space on the inside of each brace unless there are none. -/
def braced : List Bytes → Bytes
  | [] => utf8 "\x7b\x7d"
  | parts => utf8 "\x7b " ++ join [byte ' '] parts ++ utf8 " \x7d"

/-- A clause that may be missing, after its lead-in. -/
def clause (leadIn : Bytes) : Option Expr → Bytes
  | none => []
  | some e => leadIn ++ e.dump

end Stmt

mutual

/-- A statement as source text, on one line. -/
def Stmt.dump : Stmt → Bytes
  | .binding name value constant =>
    (if constant then utf8 "const " else utf8 "let ") ++ name
      ++ Stmt.clause (utf8 " = ") value ++ [byte ';']
  | .function decl => utf8 "function " ++ decl.dump
  | .classDecl name superclass methods =>
    utf8 "class " ++ name
      ++ (match superclass with
        | none => []
        | some parent => utf8 " < " ++ parent)
      ++ byte ' ' :: Stmt.braced (FunctionDecl.dumps methods)
  | .expression e => e.dump ++ [byte ';']
  | .print e => utf8 "print " ++ e.dump ++ [byte ';']
  | .return value => utf8 "return" ++ Stmt.clause [byte ' '] value ++ [byte ';']
  | .branch condition yes no =>
    utf8 "if (" ++ condition.dump ++ utf8 ") " ++ yes.dump
      ++ (match no with
        | none => []
        | some s => utf8 " else " ++ s.dump)
  | .while condition body => utf8 "while (" ++ condition.dump ++ utf8 ") " ++ body.dump
  | .for init condition increment body =>
    utf8 "for ("
      ++ (match init with
        | none => [byte ';']
        | some s => s.dump)
      ++ Stmt.clause [byte ' '] condition ++ byte ';' :: Stmt.clause [byte ' '] increment
      ++ utf8 ") " ++ body.dump
  | .block body => Stmt.braced (Stmt.dumps body)
termination_by structural s => s

/-- The dumps of a list of statements. -/
def Stmt.dumps : List Stmt → List Bytes
  | [] => []
  | s :: ss => s.dump :: Stmt.dumps ss
termination_by structural ss => ss

/-- A function or method without its keyword. -/
def FunctionDecl.dump : FunctionDecl → Bytes
  | .mk name params body =>
    name ++ byte '(' :: join (utf8 ", ") (params.getD []) ++ utf8 ") "
      ++ Stmt.braced (Stmt.dumps body)
termination_by structural f => f

/-- The dumps of a list of functions. -/
def FunctionDecl.dumps : List FunctionDecl → List Bytes
  | [] => []
  | f :: fs => f.dump :: FunctionDecl.dumps fs
termination_by structural fs => fs

end

/-- A **program as source text**: one statement a line. -/
def Program.dump (p : Program) : Bytes :=
  (Stmt.dumps p).flatMap (· ++ [byte '\n'])

end ScriptFront

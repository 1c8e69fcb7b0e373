import ScriptFront.Number.Written
import ScriptFront.Program.Basic
import ScriptFront.Text.Quoted

/-!
# Outlines

An **outline** shows a program as nested structures with named fields, the values lined up in a
column. A structure whose fields are all plain values stands on one line; any other has a line for
each field, and a structure in which nothing is set is just a pair of braces.

A program is turned into a `Shape` first, which forgets everything but structure, and the shape is
then laid out in lines.
-/

namespace ScriptFront

open Text

/-- What an outline shows. -/
inductive Shape where
  /-- A plain value by its text, and whether it counts as **unset**. -/
  | plain (text : Bytes) (unset : Bool)
  /-- A part that is missing. -/
  | missing
  /-- A list of names on one line; `none` is no list at all. -/
  | names (list : Option (List Bytes))
  /-- A list of structures, each one level deeper if the list may hold any kind of them. -/
  | list (deeper : Bool) (items : List Shape)
  /-- A structure with a label and named fields. -/
  | structure (label : Bytes) (fields : List (Bytes × Shape))
  deriving Inhabited

namespace Outline

/-- Numbers in outlines. -/
def numberStyle : NumberStyle :=
  .basic (fun e => -4 ≤ e && e ≤ 5) 2

/-! ### Shapes of programs -/

/-- A truth value. -/
def flag (b : Bool) : Shape :=
  .plain (if b then utf8 "true" else utf8 "false") (!b)

/-- A number; zero of either sign counts as unset. -/
def number (x : Binary64) : Shape :=
  .plain (numberStyle.write x) x.isZero

/-- A text. -/
def string (t : Bytes) : Shape :=
  .plain (Quoted.text t) t.isEmpty

/-- An operator by the number of its kind. -/
def operator (k : Kind) : Shape :=
  .plain (integer k.code) (k.code = 0)

/-- A structure of the tree. -/
def node (label : String) (fields : List (String × Shape)) : Shape :=
  .structure (utf8 "ast." ++ utf8 label) (fields.map fun (name, shape) => (utf8 name, shape))

mutual

/-- The shape of an expression. -/
def expr : Expr → Shape
  | .boolean value => node "BooleanExpr" [("Value", flag value)]
  | .number value => node "NumberExpr" [("Value", number value)]
  | .string value => node "StringExpr" [("Value", string value)]
  | .reference name => node "VariableExpr" [("Name", string name)]
  | .unary op right => node "UnaryExpr" [("Operator", operator op), ("Right", expr right)]
  | .binary left op right =>
    node "BinaryExpr" [("Left", expr left), ("Operator", operator op), ("Right", expr right)]
  | .logical left op right =>
    node "LogicalExpr" [("Left", expr left), ("Operator", operator op), ("Right", expr right)]
  | .grouping inner => node "GroupingExpr" [("Expression", expr inner)]
  | .assign name op value =>
    node "AssignExpr" [("Name", string name), ("Operator", operator op), ("Value", expr value)]
  | .get object name => node "GetExpr" [("Object", expr object), ("Name", string name)]
  | .set object name op value =>
    node "SetExpr" [("Object", expr object), ("Name", string name), ("Operator", operator op),
      ("Value", expr value)]
  | .super method => node "SuperExpr" [("Method", string method)]
  | .call callee args =>
    node "CallExpr" [("Callee", expr callee), ("Args", .list true (exprs args))]

/-- The shapes of a list of expressions. -/
def exprs : List Expr → List Shape
  | [] => []
  | e :: es => expr e :: exprs es

end

/-- The shape of an expression that may be missing. -/
def optional : Option Expr → Shape
  | none => .missing
  | some e => expr e

mutual

/-- The shape of a statement. -/
def stmt : Stmt → Shape
  | .binding name value constant =>
    node "LetStmt" [("Name", string name), ("Value", optional value), ("IsConst", flag constant)]
  | .function decl => function "ast.FunctionStmt" decl
  | .classDecl name superclass methods =>
    node "ClassStmt" [("Name", string name), ("Superclass", string (superclass.getD [])),
      ("Methods", .list false (functions methods))]
  | .expression e => node "ExpressionStmt" [("Expression", expr e)]
  | .print e => node "PrintStmt" [("Expression", expr e)]
  | .return value => node "ReturnStmt" [("Value", optional value)]
  | .branch condition yes no =>
    node "IfStmt" [("Condition", expr condition), ("Then", stmt yes), ("Else", stmtOption no)]
  | .while condition body =>
    node "WhileStmt" [("Condition", expr condition), ("Body", stmt body)]
  | .for init condition increment body =>
    node "ForStmt" [("Init", stmtOption init), ("Condition", optional condition),
      ("Increment", optional increment), ("Body", stmt body)]
  | .block body => node "BlockStmt" [("Stmts", .list true (stmts body))]
termination_by structural s => s

/-- The shape of a statement that may be missing. -/
def stmtOption : Option Stmt → Shape
  | none => .missing
  | some s => stmt s
termination_by structural s => s

/-- The shapes of a list of statements. -/
def stmts : List Stmt → List Shape
  | [] => []
  | s :: ss => stmt s :: stmts ss
termination_by structural ss => ss

/-- The shape of a function under a label; in a list of functions they have none. -/
def function (label : String) : FunctionDecl → Shape
  | .mk name params body =>
    .structure (utf8 label)
      [(utf8 "Name", string name), (utf8 "Params", .names params),
       (utf8 "Body", node "BlockStmt" [("Stmts", .list true (stmts body))])]
termination_by structural f => f

/-- The shapes of a list of functions. -/
def functions : List FunctionDecl → List Shape
  | [] => []
  | f :: fs => function "" f :: functions fs
termination_by structural fs => fs

end

/-- The shape of a program. -/
def program (p : Program) : Shape :=
  node "Program" [("Statements", .list true (stmts p))]

/-! ### Unset shapes -/

mutual

/-- **Is nothing set** in the shape? An empty list counts as unset. -/
def isUnset : Shape → Bool
  | .plain _ unset => unset
  | .missing => true
  | .names list => list.isNone
  | .list _ items => items.isEmpty
  | .structure _ fields => areUnset fields

/-- Is nothing set in any of the fields? -/
def areUnset : List (Bytes × Shape) → Bool
  | [] => true
  | (_, shape) :: rest => isUnset shape && areUnset rest

end

/-! ### Layout in lines -/

/-- Puts text in front of the first line. -/
def leadIn (text : Bytes) : List Bytes → List Bytes
  | [] => [text]
  | line :: lines => (text ++ line) :: lines

/-- Puts a comma behind the last line. -/
def withComma : List Bytes → List Bytes
  | [] => []
  | [line] => [line ++ [byte ',']]
  | line :: lines => line :: withComma lines

/-- Four blanks in front of every line. -/
def indented (lines : List Bytes) : List Bytes :=
  lines.map (utf8 "    " ++ ·)

/-- The width of the longest label in the **run** that begins here: the fields up to and including
the first whose value takes several lines. -/
def runWidth : List (Bytes × List Bytes) → Nat
  | [] => 0
  | (label, lines) :: rest =>
    if lines.length > 1 then label.length else max label.length (runWidth rest)

/-- A label padded to the width of its run and one blank more. -/
def padded (width : Nat) (label : Bytes) : Bytes :=
  label ++ List.replicate (width + 1 - label.length) (byte ' ')

/-- Fields with their values lined up. `width` is the width of the run in progress. -/
def aligned : (width : Option Nat) → List (Bytes × List Bytes) → List Bytes
  | _, [] => []
  | width, (label, lines) :: rest =>
    let w := width.getD (runWidth ((label, lines) :: rest))
    withComma (leadIn (padded w label) lines)
      ++ aligned (if lines.length > 1 then none else some w) rest

/-- Lists nested deeper than this are not shown. -/
def depthLimit : Nat := 10

/-- Is the value plain, so that it can stand on the line of its structure? -/
def isPlain : Shape → Bool
  | .plain .. => true
  | _ => false

mutual

/-- The lines of a shape inside `depth` lists. -/
def lines (depth : Nat) : Shape → List Bytes
  | .plain text _ => [text]
  | .missing => [utf8 "nil"]
  | .names none => [utf8 "nil"]
  | .names (some list) =>
    [byte '\x7b' :: join (utf8 ", ") (list.map Quoted.text) ++ [byte '\x7d']]
  | .list _ [] => [utf8 "nil"]
  | .list deeper (item :: rest) =>
    [byte '\x7b'] :: indented (itemLines (if deeper then depth + 1 else depth) (item :: rest))
      ++ [[byte '\x7d']]
  | .structure label fields =>
    if areUnset fields then [label ++ utf8 "\x7b\x7d"]
    else if fields.all fun (_, shape) => isPlain shape then
      [label ++ byte '\x7b' :: join (utf8 ", ") (inlineFields fields) ++ [byte '\x7d']]
    else
      (label ++ [byte '\x7b']) :: indented (aligned none (fieldLines depth fields))
        ++ [[byte '\x7d']]

/-- The lines of the items of a list at `depth`. -/
def itemLines (depth : Nat) : List Shape → List Bytes
  | [] => []
  | item :: rest =>
    (if depth > depthLimit then [utf8 "!%v(DEPTH EXCEEDED),"] else withComma (lines depth item))
      ++ itemLines depth rest

/-- The labels of fields and the lines of their values. -/
def fieldLines (depth : Nat) : List (Bytes × Shape) → List (Bytes × List Bytes)
  | [] => []
  | (label, shape) :: rest => (label ++ [byte ':'], lines depth shape) :: fieldLines depth rest

/-- Fields with plain values, each in one piece. -/
def inlineFields : List (Bytes × Shape) → List Bytes
  | [] => []
  | (label, shape) :: rest =>
    (label ++ byte ':' :: (lines 0 shape).flatten) :: inlineFields rest

end

/-- The **outline of a program**. -/
def render (p : Program) : Bytes :=
  (lines 0 (program p)).flatMap (· ++ [byte '\n'])

end Outline

end ScriptFront

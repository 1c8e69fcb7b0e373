import ScriptFront.Document
import ScriptFront.Program.Basic

/-!
# Programs as documents

The **tree** of a program is a document in which every node is a record: its variant stands under
the key `type`, its parts under their names. A part that a node lacks has no entry.
-/

namespace ScriptFront

open Text

namespace TreeNode

/-- An entry. -/
def entry (key : String) (value : Document) : Bytes × Document :=
  (utf8 key, value)

/-- An entry that is there only if its value is. -/
def optional (key : String) (value : Option Document) : List (Bytes × Document) :=
  (value.map (entry key)).toList

/-- A record of the variant `type`. Entries are in the order of their keys, and of all keys only
`value` comes after `type`. -/
def node (type : String) (entries : List (Bytes × Document)) (value : Option Document := none) :
    Document :=
  .record (entries ++ entry "type" (.text (utf8 type)) :: optional "value" value)

end TreeNode

open TreeNode

mutual

/-- The tree of an expression. -/
def Expr.tree : Expr → Document
  | .boolean value => node "Boolean" [] (some (.boolean value))
  | .number value => node "Number" [] (some (.number value))
  | .string value => node "String" [] (some (.text value))
  | .reference name => node "Variable" [entry "name" (.text name)]
  | .unary operator right =>
    node "Unary" [entry "operator" (.text operator.name), entry "right" right.tree]
  | .binary left operator right =>
    node "Binary" [entry "left" left.tree, entry "operator" (.text operator.name),
      entry "right" right.tree]
  | .logical left operator right =>
    node "Logical" [entry "left" left.tree, entry "operator" (.text operator.name),
      entry "right" right.tree]
  | .grouping inner => node "Grouping" [entry "expression" inner.tree]
  | .assign name operator value =>
    node "Assign" [entry "name" (.text name), entry "operator" (.text operator.name)]
      (some value.tree)
  | .get object name => node "Get" [entry "name" (.text name), entry "object" object.tree]
  | .set object name operator value =>
    node "Set" [entry "name" (.text name), entry "object" object.tree,
      entry "operator" (.text operator.name)] (some value.tree)
  | .super method => node "Super" [entry "method" (.text method)]
  | .call callee args =>
    node "Call" [entry "args" (.list (Expr.trees args)), entry "callee" callee.tree]

/-- The trees of a list of expressions. -/
def Expr.trees : List Expr → List Document
  | [] => []
  | e :: es => e.tree :: Expr.trees es

end

mutual

/-- The tree of a statement. -/
def Stmt.tree : Stmt → Document
  | .binding name value constant =>
    node "Let" [entry "const" (.boolean constant), entry "name" (.text name)]
      (value.map Expr.tree)
  | .function decl => decl.tree
  | .classDecl name superclass methods =>
    node "Class" (entry "methods" (.list (FunctionDecl.trees methods)) :: entry "name" (.text name)
      :: optional "superclass" (superclass.map .text))
  | .expression e => node "Expression" [entry "expression" e.tree]
  | .print e => node "Print" [entry "expression" e.tree]
  | .return value => node "Return" [] (value.map Expr.tree)
  | .branch condition yes no =>
    node "If" (entry "condition" condition.tree :: optional "else" (Stmt.treeOption no)
      ++ [entry "then" yes.tree])
  | .while condition body =>
    node "While" [entry "body" body.tree, entry "condition" condition.tree]
  | .for init condition increment body =>
    node "For" (entry "body" body.tree :: optional "condition" (condition.map Expr.tree)
      ++ optional "increment" (increment.map Expr.tree) ++ optional "init" (Stmt.treeOption init))
  | .block body => node "Block" [entry "stmts" (.list (Stmt.trees body))]
termination_by structural s => s

/-- The tree of a statement that may be missing. -/
def Stmt.treeOption : Option Stmt → Option Document
  | none => none
  | some s => some s.tree
termination_by structural s => s

/-- The trees of a list of statements. -/
def Stmt.trees : List Stmt → List Document
  | [] => []
  | s :: ss => s.tree :: Stmt.trees ss
termination_by structural ss => ss

/-- The tree of a function or method. -/
def FunctionDecl.tree : FunctionDecl → Document
  | .mk name params body =>
    node "Function" [entry "body" (node "Block" [entry "stmts" (.list (Stmt.trees body))]),
      entry "name" (.text name), entry "params" (.list ((params.getD []).map .text))]
termination_by structural f => f

/-- The trees of a list of functions. -/
def FunctionDecl.trees : List FunctionDecl → List Document
  | [] => []
  | f :: fs => f.tree :: FunctionDecl.trees fs
termination_by structural fs => fs

end

/-- The **tree of a program**. -/
def Program.tree (p : Program) : Document :=
  node "Program" [entry "statements" (.list (Stmt.trees p))]

end ScriptFront

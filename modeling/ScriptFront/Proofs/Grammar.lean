import ScriptFront.Parser.Expression
import ScriptFront.Program.Equality

/-!
# The Grammar of Programs

The grammar is stated on trees, apart from any parser. A program determines three things:

* its **symbols** (`Program.symbols`): the tokens that spell it, in source order. A symbol is what
  the tree keeps of a token — the kind of a keyword or punctuator, the name of an identifier, the
  value of a string or number (`Token.symbol?`);
* whether it is **canonical** (`Program.canonical`): operands bind tightly enough for the operator
  that holds them, assignments stand only where a whole expression may, branches and loop bodies
  are statements and no `else` could belong to an inner `if`;
* the nesting it **needs** (`Program.need`): the largest number of charges on a path from the root.

How tightly things bind is a number, the **rank**: 1 for assignment, 2 to 7 for the levels of
`BinaryLevel.all` from the loosest on, 8 for unary operators, 9 for calls and property accesses and
10 for what cannot be taken apart. A token that continues no expression has rank 0.
-/

namespace ScriptFront

open Text

/-! ### Symbols -/

/-- A **symbol**: a token without its place, as a tree remembers it. -/
inductive Symbol where
  /-- A keyword, operator or delimiter. -/
  | fixed (kind : Kind)
  | name (name : Bytes)
  | text (value : Bytes)
  | number (value : Binary64)
  deriving DecidableEq, Repr

namespace Symbol

/-- The symbol of an operator or delimiter. -/
abbrev punct (p : Punctuator) : Symbol :=
  .fixed (.punctuator p)

/-- The symbol of a keyword. -/
abbrev word (k : Keyword) : Symbol :=
  .fixed (.keyword k)

/-- The symbol of a variable: the keyword where it is the receiver. -/
def reference (name : Bytes) : Symbol :=
  if name = utf8 "this" then word .thisKw else .name name

/-- The kind of the tokens that stand for a symbol. -/
def kind : Symbol → Kind
  | .fixed k => k
  | .name _ => .identifier
  | .text _ => .string
  | .number _ => .number

/-- Spellings with commas between neighbours. -/
def separated : List (List Symbol) → List Symbol
  | [] => []
  | part :: parts => part ++ parts.flatMap (punct .comma :: ·)

end Symbol

/-- The symbol that a token stands for: none for the end of the input, for an error and for a
number that cannot be read. -/
def Token.symbol? (t : Token) : Option Symbol :=
  match t.kind with
  | .identifier => some (.name t.value)
  | .string => some (.text t.value)
  | .number => (Numeral.read? t.value).map .number
  | .keyword k => some (.word k)
  | .punctuator p => some (.punct p)
  | .error | .eof | .other _ => none

/-- A token is of the kind of its symbol. -/
theorem Token.kind_of_symbol? {t : Token} {s : Symbol} (h : t.symbol? = some s) :
    t.kind = s.kind := by
  rw [Token.symbol?] at h
  split at h <;> rename_i hk
  case h_3 =>
      obtain ⟨x, -, rfl⟩ := Option.map_eq_some_iff.mp h
      exact hk
  case h_6 | h_7 | h_8 => cases h
  all_goals
    cases h
    exact hk

mutual

/-- The **symbols of an expression**, in source order. -/
def Expr.symbols : Expr → List Symbol
  | .boolean value => [.word (if value then .trueKw else .falseKw)]
  | .number value => [.number value]
  | .string value => [.text value]
  | .reference name => [.reference name]
  | .unary operator right => .fixed operator :: right.symbols
  | .binary left operator right | .logical left operator right =>
    left.symbols ++ .fixed operator :: right.symbols
  | .grouping inner => .punct .parenLeft :: inner.symbols ++ [.punct .parenRight]
  | .assign name operator value => .reference name :: .fixed operator :: value.symbols
  | .get object name => object.symbols ++ [.punct .dot, .name name]
  | .set object name operator value =>
    object.symbols ++ .punct .dot :: .name name :: .fixed operator :: value.symbols
  | .super method => [.word .superKw, .punct .dot, .name method]
  | .call callee args =>
    callee.symbols ++ .punct .parenLeft :: Symbol.separated (Expr.symbolsEach args)
      ++ [.punct .parenRight]

/-- The symbols of each expression of a list. -/
def Expr.symbolsEach : List Expr → List (List Symbol)
  | [] => []
  | e :: es => e.symbols :: Expr.symbolsEach es

end

namespace Stmt

/-- The symbols of a clause that may be missing, after its lead-in. -/
def clauseSymbols (leadIn : List Symbol) : Option Expr → List Symbol
  | none => []
  | some e => leadIn ++ e.symbols

/-- The symbols of the superclass of a class. -/
def superclassSymbols : Option Bytes → List Symbol
  | none => []
  | some parent => [.punct .less, .name parent]

end Stmt

mutual

/-- The **symbols of a statement**, in source order. -/
def Stmt.symbols : Stmt → List Symbol
  | .binding name value constant =>
    .word (if constant then .constKw else .letKw) :: .name name
      :: Stmt.clauseSymbols [.punct .equals] value ++ [.punct .semicolon]
  | .function decl => .word .functionKw :: decl.symbols
  | .classDecl name superclass methods =>
    .word .classKw :: .name name :: Stmt.superclassSymbols superclass
      ++ .punct .braceLeft :: FunctionDecl.symbolsAll methods ++ [.punct .braceRight]
  | .expression e => e.symbols ++ [.punct .semicolon]
  | .print e => .word .printKw :: e.symbols ++ [.punct .semicolon]
  | .return value => .word .returnKw :: Stmt.clauseSymbols [] value ++ [.punct .semicolon]
  | .branch condition yes no =>
    .word .ifKw :: .punct .parenLeft :: condition.symbols ++ .punct .parenRight :: yes.symbols
      ++ (match no with
        | none => []
        | some s => .word .elseKw :: s.symbols)
  | .while condition body =>
    .word .whileKw :: .punct .parenLeft :: condition.symbols ++ .punct .parenRight :: body.symbols
  | .for init condition increment body =>
    .word .forKw :: .punct .parenLeft
      :: (match init with
        | none => [.punct .semicolon]
        | some s => s.symbols)
      ++ Stmt.clauseSymbols [] condition ++ .punct .semicolon
      :: Stmt.clauseSymbols [] increment ++ .punct .parenRight :: body.symbols
  | .block body => .punct .braceLeft :: Stmt.symbolsAll body ++ [.punct .braceRight]
termination_by structural s => s

/-- The symbols of statements in a row. -/
def Stmt.symbolsAll : List Stmt → List Symbol
  | [] => []
  | s :: ss => s.symbols ++ Stmt.symbolsAll ss
termination_by structural ss => ss

/-- The symbols of a function or method from its name on. -/
def FunctionDecl.symbols : FunctionDecl → List Symbol
  | .mk name params body =>
    .name name :: .punct .parenLeft :: Symbol.separated ((params.getD []).map ([.name ·]))
      ++ .punct .parenRight :: .punct .braceLeft :: Stmt.symbolsAll body ++ [.punct .braceRight]
termination_by structural f => f

/-- The symbols of methods in a row. -/
def FunctionDecl.symbolsAll : List FunctionDecl → List Symbol
  | [] => []
  | f :: fs => f.symbols ++ FunctionDecl.symbolsAll fs
termination_by structural fs => fs

end

/-- The symbols of the first clause of a `for`, its semicolon included. -/
def Stmt.initSymbols : Option Stmt → List Symbol
  | none => [.punct .semicolon]
  | some s => s.symbols

/-- The **symbols of a program**, in source order. -/
def Program.symbols (p : Program) : List Symbol :=
  Stmt.symbolsAll p

/-! ### Canonical form -/

namespace Kind

/-- The operators of **logical** nodes: connectives, equality and comparison. -/
def isLogical : Kind → Bool
  | .punctuator p =>
    [.logicalOr, .logicalAnd, .equalEqual, .bangEqual, .less, .lessEqual, .greater,
      .greaterEqual].contains p
  | _ => false

/-- The operators of **binary** nodes: arithmetic and bitwise. -/
def isArithmetic : Kind → Bool
  | .punctuator p => [.plus, .minus, .ampersand, .pipe, .caret, .star, .slash].contains p
  | _ => false

/-- How tightly a token **holds on to an expression before it**. -/
def rank (k : Kind) : Nat :=
  if k.isAssignment then 1
  else if k.isAccess then 9
  else match BinaryLevel.all.findIdx? (·.holds k) with
    | some i => i + 2
    | none => 0

end Kind

/-- How tightly the outermost node of an expression binds. -/
def Expr.rank : Expr → Nat
  | .assign .. | .set .. => 1
  | .binary _ operator _ | .logical _ operator _ => operator.rank
  | .unary .. => 8
  | .call .. | .get .. => 9
  | .boolean _ | .number _ | .string _ | .reference _ | .super _ | .grouping _ => 10

mutual

/-- Is the expression **canonical**? Operators come from their tables, the left operand of a binary
operator binds at least as tightly and the right one more tightly, the operand of a unary operator
is unary or tighter, what is called or accessed is itself a call, an access or a primary, and an
assignment is nobody's operand. -/
def Expr.canonical : Expr → Bool
  | .boolean _ | .number _ | .string _ | .reference _ | .super _ => true
  | .unary operator right => operator.isUnary && 8 ≤ right.rank && right.canonical
  | .binary left operator right =>
    operator.isArithmetic && operator.rank ≤ left.rank && operator.rank < right.rank
      && left.canonical && right.canonical
  | .logical left operator right =>
    operator.isLogical && operator.rank ≤ left.rank && operator.rank < right.rank
      && left.canonical && right.canonical
  | .grouping inner => inner.canonical
  | .assign _ operator value => operator.isAssignment && 1 < value.rank && value.canonical
  | .get object _ => 9 ≤ object.rank && object.canonical
  | .set object _ operator value =>
    operator.isAssignment && 9 ≤ object.rank && 1 < value.rank
      && object.canonical && value.canonical
  | .call callee args => 9 ≤ callee.rank && callee.canonical && Expr.canonicals args

/-- Are all expressions of a list canonical? -/
def Expr.canonicals : List Expr → Bool
  | [] => true
  | e :: es => e.canonical && Expr.canonicals es

end

namespace Stmt

/-- Is this a declaration, which may only stand as an item of a program or block? -/
def isDeclaration : Stmt → Bool
  | .binding .. | .function _ | .classDecl .. => true
  | _ => false

/-- Is the clause that may be missing canonical if it is there? -/
def clauseCanonical : Option Expr → Bool
  | none => true
  | some e => e.canonical

/-- Is this a canonical **first clause of a `for`**: missing, a `let` or an expression? -/
def initCanonical : Option Stmt → Bool
  | none => true
  | some (.binding _ value constant) => !constant && clauseCanonical value
  | some (.expression e) => e.canonical
  | some _ => false

end Stmt

/-- Does the statement end in an `if` without `else`, to which a following `else` would belong? -/
def Stmt.isOpen : Stmt → Bool
  | .branch _ _ no =>
    match no with
    | none => true
    | some s => s.isOpen
  | .while _ body | .for _ _ _ body => body.isOpen
  | _ => false
termination_by structural s => s

mutual

/-- Is the statement **canonical**? -/
def Stmt.canonical : Stmt → Bool
  | .binding _ value _ => Stmt.clauseCanonical value
  | .function decl => decl.canonical
  | .classDecl name superclass methods =>
    superclass ≠ some name && superclass ≠ some [] && FunctionDecl.canonicals methods
  | .expression e | .print e => e.canonical
  | .return value => Stmt.clauseCanonical value
  | .branch condition yes no =>
    condition.canonical && !yes.isDeclaration && yes.canonical
      && (match no with
        | none => true
        | some s => !yes.isOpen && !s.isDeclaration && s.canonical)
  | .while condition body => condition.canonical && !body.isDeclaration && body.canonical
  | .for init condition increment body =>
    Stmt.initCanonical init && Stmt.clauseCanonical condition && Stmt.clauseCanonical increment
      && !body.isDeclaration && body.canonical
  | .block body => Stmt.canonicals body
termination_by structural s => s

/-- Are all statements of a list canonical? -/
def Stmt.canonicals : List Stmt → Bool
  | [] => true
  | s :: ss => s.canonical && Stmt.canonicals ss
termination_by structural ss => ss

/-- Is the function canonical? Empty parentheses leave no list of parameters. -/
def FunctionDecl.canonical : FunctionDecl → Bool
  | .mk _ params body => params ≠ some [] && Stmt.canonicals body
termination_by structural f => f

/-- Are all functions of a list canonical? -/
def FunctionDecl.canonicals : List FunctionDecl → Bool
  | [] => true
  | f :: fs => f.canonical && FunctionDecl.canonicals fs
termination_by structural fs => fs

end

/-- Is the program **canonical**? -/
def Program.canonical (p : Program) : Bool :=
  Stmt.canonicals p

/-! ### Ranks and levels -/

namespace BinaryLevel

variable {i : Nat} {level : BinaryLevel} {k : Kind}

/-- The operators of a binary level are punctuation marks. -/
theorem punctuator_of_holds (h : level.holds k = true) : ∃ p, k = .punctuator p := by
  cases k with
  | punctuator p => exact ⟨p, rfl⟩
  | _ => cases h

/-- The operators of the level at place `i` have rank `i + 2`. -/
theorem rank_of_holds (hi : all[i]? = some level) (hk : level.holds k = true) :
    k.rank = i + 2 := by
  obtain ⟨p, rfl⟩ := punctuator_of_holds hk
  match i, hi with
  | 0, hi | 1, hi | 2, hi | 3, hi | 4, hi | 5, hi =>
      cases hi
      cases p <;> first | rfl | cases hk
  | i + 6, hi => simp [all] at hi

/-- A level makes logical nodes of logical operators or binary nodes of arithmetic ones. -/
theorem node_cases (hi : all[i]? = some level) (hk : level.holds k = true) :
    (level.node = .logical ∧ k.isLogical = true) ∨
      (level.node = .binary ∧ k.isArithmetic = true) := by
  obtain ⟨p, rfl⟩ := punctuator_of_holds hk
  match i, hi with
  | 0, hi | 1, hi | 2, hi | 3, hi =>
      cases hi
      refine .inl ⟨rfl, ?_⟩
      cases p <;> first | rfl | cases hk
  | 4, hi | 5, hi =>
      cases hi
      refine .inr ⟨rfl, ?_⟩
      cases p <;> first | rfl | cases hk
  | i + 6, hi => simp [all] at hi

/-- An arithmetic operator belongs to a level that makes binary nodes. -/
theorem exists_of_isArithmetic (h : k.isArithmetic = true) :
    ∃ (i : Nat) (level : BinaryLevel),
      all[i]? = some level ∧ level.holds k = true ∧ level.node = .binary := by
  obtain ⟨p, rfl⟩ : ∃ p, k = .punctuator p := by
    cases k with
    | punctuator p => exact ⟨p, rfl⟩
    | _ => cases h
  cases p <;> first
    | exact ⟨4, _, rfl, rfl, rfl⟩
    | exact ⟨5, _, rfl, rfl, rfl⟩
    | cases h

/-- A logical operator belongs to a level that makes logical nodes. -/
theorem exists_of_isLogical (h : k.isLogical = true) :
    ∃ (i : Nat) (level : BinaryLevel),
      all[i]? = some level ∧ level.holds k = true ∧ level.node = .logical := by
  obtain ⟨p, rfl⟩ : ∃ p, k = .punctuator p := by
    cases k with
    | punctuator p => exact ⟨p, rfl⟩
    | _ => cases h
  cases p <;> first
    | exact ⟨0, _, rfl, rfl, rfl⟩
    | exact ⟨1, _, rfl, rfl, rfl⟩
    | exact ⟨2, _, rfl, rfl, rfl⟩
    | exact ⟨3, _, rfl, rfl, rfl⟩
    | cases h

/-- There are six binary levels. -/
theorem lt_of_getElem? (hi : all[i]? = some level) : i < 6 :=
  (List.getElem?_eq_some_iff.mp hi).1

end BinaryLevel

namespace Kind

/-- Unary operators are punctuation marks. -/
theorem punctuator_of_isUnary {k : Kind} (h : k.isUnary = true) : ∃ p, k = .punctuator p := by
  cases k with
  | punctuator p => exact ⟨p, rfl⟩
  | _ => cases h

/-- Assignment operators are punctuation marks. -/
theorem punctuator_of_isAssignment {k : Kind} (h : k.isAssignment = true) :
    ∃ p, k = .punctuator p := by
  cases k with
  | punctuator p => exact ⟨p, rfl⟩
  | _ => cases h

end Kind

/-! ### Nesting -/

mutual

/-- The charges inside an expression that has been entered: one for a unary operator and one for
every whole expression within. -/
def Expr.depth : Expr → Nat
  | .boolean _ | .number _ | .string _ | .reference _ | .super _ => 0
  | .unary _ right => right.depth + 1
  | .binary left _ right | .logical left _ right => max left.depth right.depth
  | .grouping inner => inner.depth + 1
  | .assign _ _ value => value.depth
  | .get object _ => object.depth
  | .set object _ _ value => max object.depth value.depth
  | .call callee args => max callee.depth (Expr.needs args)

/-- The charges for whole expressions side by side. -/
def Expr.needs : List Expr → Nat
  | [] => 0
  | e :: es => max (e.depth + 1) (Expr.needs es)

end

/-- The nesting that a **whole expression** needs. -/
def Expr.need (e : Expr) : Nat :=
  e.depth + 1

namespace Stmt

/-- The nesting that a clause needs which may be missing. -/
def clauseNeed : Option Expr → Nat
  | none => 0
  | some e => e.need

/-- The nesting that the first clause of a `for` needs: that of its expression alone. -/
def initNeed : Option Stmt → Nat
  | some (.binding _ value _) => clauseNeed value
  | some (.expression e) => e.need
  | _ => 0

end Stmt

mutual

/-- The nesting that a statement needs. A declaration is charged as an item only, so what is given
for it is the nesting inside. -/
def Stmt.need : Stmt → Nat
  | .binding _ value _ => Stmt.clauseNeed value
  | .function decl => decl.need
  | .classDecl _ _ methods => FunctionDecl.needs methods
  | .expression e | .print e => e.need + 1
  | .return value => Stmt.clauseNeed value + 1
  | .branch condition yes no =>
    max (max condition.need yes.need)
      (match no with
        | none => 0
        | some s => s.need) + 1
  | .while condition body => max condition.need body.need + 1
  | .for init condition increment body =>
    max (max (Stmt.initNeed init) (Stmt.clauseNeed condition))
      (max (Stmt.clauseNeed increment) body.need) + 1
  | .block body => Stmt.needs body + 1
termination_by structural s => s

/-- The nesting that items side by side need, each of them charged once as an item. -/
def Stmt.needs : List Stmt → Nat
  | [] => 0
  | s :: ss => max (s.need + 1) (Stmt.needs ss)
termination_by structural ss => ss

/-- The nesting that a function needs: that of the items of its body. -/
def FunctionDecl.need : FunctionDecl → Nat
  | .mk _ _ body => Stmt.needs body
termination_by structural f => f

/-- The nesting that functions side by side need. -/
def FunctionDecl.needs : List FunctionDecl → Nat
  | [] => 0
  | f :: fs => max f.need (FunctionDecl.needs fs)
termination_by structural fs => fs

end

/-- The nesting that a **program needs**. -/
def Program.need (p : Program) : Nat :=
  Stmt.needs p

/-! ### Lists of trees -/

namespace Expr

/-- The symbols of expressions are those of each. -/
theorem symbolsEach_eq_map (es : List Expr) : symbolsEach es = es.map symbols := by
  induction es with
  | nil => rfl
  | cons e es ih => rw [symbolsEach, ih, List.map_cons]

/-- Expressions are canonical if each of them is. -/
theorem canonicals_iff {es : List Expr} :
    canonicals es = true ↔ ∀ e ∈ es, e.canonical = true := by
  induction es with
  | nil => simp [canonicals]
  | cons e es ih => rw [canonicals, Bool.and_eq_true, ih, List.forall_mem_cons]

/-- Expressions need no more than a depth if none of them does. -/
theorem needs_le_iff {es : List Expr} {d : Nat} : needs es ≤ d ↔ ∀ e ∈ es, e.need ≤ d := by
  induction es with
  | nil => simp [needs]
  | cons e es ih => rw [needs, Nat.max_le, ih, List.forall_mem_cons, need]

end Expr

namespace Stmt

/-- A statement has a symbol. -/
theorem symbols_ne_nil (s : Stmt) : s.symbols ≠ [] := by
  cases s with
  | branch condition yes no => cases no <;> simp [symbols]
  | «for» init condition increment body => cases init <;> simp [symbols]
  | _ => simp [symbols]

/-- The symbols of statements are those of each, one after the other. -/
theorem symbolsAll_eq_flatMap (ss : List Stmt) : symbolsAll ss = ss.flatMap symbols := by
  induction ss with
  | nil => rfl
  | cons s ss ih => rw [symbolsAll, ih, List.flatMap_cons]

/-- Statements are canonical if each of them is. -/
theorem canonicals_iff {ss : List Stmt} :
    canonicals ss = true ↔ ∀ s ∈ ss, s.canonical = true := by
  induction ss with
  | nil => simp [canonicals]
  | cons s ss ih => rw [canonicals, Bool.and_eq_true, ih, List.forall_mem_cons]

/-- Statements need no more than a depth if each of them needs less. -/
theorem needs_le_iff {ss : List Stmt} {d : Nat} : needs ss ≤ d ↔ ∀ s ∈ ss, s.need < d := by
  induction ss with
  | nil => simp [needs]
  | cons s ss ih => rw [needs, Nat.max_le, ih, List.forall_mem_cons, Nat.succ_le_iff]

end Stmt

namespace FunctionDecl

/-- A function has a symbol. -/
theorem symbols_ne_nil (f : FunctionDecl) : f.symbols ≠ [] := by
  cases f
  simp [symbols]

/-- The symbols of functions are those of each, one after the other. -/
theorem symbolsAll_eq_flatMap (fs : List FunctionDecl) : symbolsAll fs = fs.flatMap symbols := by
  induction fs with
  | nil => rfl
  | cons f fs ih => rw [symbolsAll, ih, List.flatMap_cons]

/-- Functions are canonical if each of them is. -/
theorem canonicals_iff {fs : List FunctionDecl} :
    canonicals fs = true ↔ ∀ f ∈ fs, f.canonical = true := by
  induction fs with
  | nil => simp [canonicals]
  | cons f fs ih => rw [canonicals, Bool.and_eq_true, ih, List.forall_mem_cons]

/-- Functions need no more than a depth if none of them does. -/
theorem needs_le_iff {fs : List FunctionDecl} {d : Nat} :
    needs fs ≤ d ↔ ∀ f ∈ fs, f.need ≤ d := by
  induction fs with
  | nil => simp [needs]
  | cons f fs ih => rw [needs, Nat.max_le, ih, List.forall_mem_cons]

end FunctionDecl

end ScriptFront

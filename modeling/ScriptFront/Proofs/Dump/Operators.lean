import ScriptFront.Proofs.Grammar

/-!
# Trees with Operators in their Places

A tree made by hand may hold any kind of token as an operator. For its symbols to be told apart in
a text, less is needed than a canonical tree: **unary operators must be unary, and every other
operator must be some operator** (`Program.operatorsFit`). How tightly operands bind, which
statements stand where and what an operator is for play no part. Every canonical program is of this
form (`Program.operatorsFit_of_canonical`).

What this buys is a bound on how a tree can begin: with no operators or delimiters but `openers`
(`Expr.begins`, `Stmt.begins`).
-/

namespace ScriptFront

namespace Kind

/-- Is this the kind of an operator or delimiter? -/
def isPunctuator : Kind → Bool
  | .punctuator _ => true
  | _ => false

/-- A kind is an operator or a delimiter if it is that of a punctuation mark. -/
theorem isPunctuator_iff {k : Kind} : k.isPunctuator = true ↔ ∃ p, k = .punctuator p := by
  constructor
  · intro h
    cases k with
    | punctuator p => exact ⟨p, rfl⟩
    | _ => cases h
  · rintro ⟨p, rfl⟩
    rfl

end Kind

mutual

/-- Do the **operators** of the expression fit their nodes? -/
def Expr.operatorsFit : Expr → Bool
  | .boolean _ | .number _ | .string _ | .reference _ | .super _ => true
  | .unary operator right => operator.isUnary && right.operatorsFit
  | .binary left operator right | .logical left operator right =>
    operator.isPunctuator && left.operatorsFit && right.operatorsFit
  | .grouping inner => inner.operatorsFit
  | .assign _ operator value => operator.isPunctuator && value.operatorsFit
  | .get object _ => object.operatorsFit
  | .set object _ operator value =>
    operator.isPunctuator && object.operatorsFit && value.operatorsFit
  | .call callee args => callee.operatorsFit && Expr.operatorsFits args

/-- Do the operators of all expressions of a list fit? -/
def Expr.operatorsFits : List Expr → Bool
  | [] => true
  | e :: es => e.operatorsFit && Expr.operatorsFits es

end

/-- Do the operators of the clause fit if it is there? -/
def Stmt.clauseFits : Option Expr → Bool
  | none => true
  | some e => e.operatorsFit

mutual

/-- Do the **operators** of the statement fit their nodes? -/
def Stmt.operatorsFit : Stmt → Bool
  | .binding _ value _ => Stmt.clauseFits value
  | .function decl => decl.operatorsFit
  | .classDecl _ _ methods => FunctionDecl.operatorsFits methods
  | .expression e | .print e => e.operatorsFit
  | .return value => Stmt.clauseFits value
  | .branch condition yes no =>
    condition.operatorsFit && yes.operatorsFit
      && (match no with
        | none => true
        | some s => s.operatorsFit)
  | .while condition body => condition.operatorsFit && body.operatorsFit
  | .for init condition increment body =>
    (match init with
      | none => true
      | some s => s.operatorsFit)
      && Stmt.clauseFits condition && Stmt.clauseFits increment && body.operatorsFit
  | .block body => Stmt.operatorsFits body
termination_by structural s => s

/-- Do the operators of all statements of a list fit? -/
def Stmt.operatorsFits : List Stmt → Bool
  | [] => true
  | s :: ss => s.operatorsFit && Stmt.operatorsFits ss
termination_by structural ss => ss

/-- Do the operators of the function fit? -/
def FunctionDecl.operatorsFit : FunctionDecl → Bool
  | .mk _ _ body => Stmt.operatorsFits body
termination_by structural f => f

/-- Do the operators of all functions of a list fit? -/
def FunctionDecl.operatorsFits : List FunctionDecl → Bool
  | [] => true
  | f :: fs => f.operatorsFit && FunctionDecl.operatorsFits fs
termination_by structural fs => fs

end

/-- Do the **operators of the program** fit their nodes? -/
def Program.operatorsFit (p : Program) : Bool :=
  Stmt.operatorsFits p

/-! ### Canonical trees -/

mutual

/-- The operators of a canonical expression fit. -/
theorem Expr.operatorsFit_of_canonical : (e : Expr) → e.canonical = true → e.operatorsFit = true
  | .boolean _, _ | .number _, _ | .string _, _ | .reference _, _ | .super _, _ => rfl
  | .unary operator right, h => by
    simp only [Expr.canonical, Bool.and_eq_true] at h
    simp only [Expr.operatorsFit, Bool.and_eq_true]
    exact ⟨h.1.1, right.operatorsFit_of_canonical h.2⟩
  | .binary left operator right, h => by
    simp only [Expr.canonical, Bool.and_eq_true] at h
    simp only [Expr.operatorsFit, Bool.and_eq_true]
    obtain ⟨_, _, _, hk, -⟩ := BinaryLevel.exists_of_isArithmetic h.1.1.1.1
    have hoperator := Kind.isPunctuator_iff.mpr (BinaryLevel.punctuator_of_holds hk)
    exact ⟨⟨hoperator, left.operatorsFit_of_canonical h.1.2⟩, right.operatorsFit_of_canonical h.2⟩
  | .logical left operator right, h => by
    simp only [Expr.canonical, Bool.and_eq_true] at h
    simp only [Expr.operatorsFit, Bool.and_eq_true]
    obtain ⟨_, _, _, hk, -⟩ := BinaryLevel.exists_of_isLogical h.1.1.1.1
    have hoperator := Kind.isPunctuator_iff.mpr (BinaryLevel.punctuator_of_holds hk)
    exact ⟨⟨hoperator, left.operatorsFit_of_canonical h.1.2⟩, right.operatorsFit_of_canonical h.2⟩
  | .grouping inner, h => inner.operatorsFit_of_canonical h
  | .assign name operator value, h => by
    simp only [Expr.canonical, Bool.and_eq_true] at h
    simp only [Expr.operatorsFit, Bool.and_eq_true]
    have hoperator := Kind.isPunctuator_iff.mpr (Kind.punctuator_of_isAssignment h.1.1)
    exact ⟨hoperator, value.operatorsFit_of_canonical h.2⟩
  | .get object name, h => by
    simp only [Expr.canonical, Bool.and_eq_true] at h
    exact object.operatorsFit_of_canonical h.2
  | .set object name operator value, h => by
    simp only [Expr.canonical, Bool.and_eq_true] at h
    simp only [Expr.operatorsFit, Bool.and_eq_true]
    have hoperator := Kind.isPunctuator_iff.mpr (Kind.punctuator_of_isAssignment h.1.1.1.1)
    exact ⟨⟨hoperator, object.operatorsFit_of_canonical h.1.2⟩, value.operatorsFit_of_canonical h.2⟩
  | .call callee args, h => by
    simp only [Expr.canonical, Bool.and_eq_true] at h
    simp only [Expr.operatorsFit, Bool.and_eq_true]
    exact ⟨callee.operatorsFit_of_canonical h.1.2, Expr.operatorsFits_of_canonicals args h.2⟩

/-- The operators of canonical expressions fit. -/
theorem Expr.operatorsFits_of_canonicals : (es : List Expr) → Expr.canonicals es = true →
    Expr.operatorsFits es = true
  | [], _ => rfl
  | e :: es, h => by
    simp only [Expr.canonicals, Bool.and_eq_true] at h
    simp only [Expr.operatorsFits, Bool.and_eq_true]
    exact ⟨e.operatorsFit_of_canonical h.1, Expr.operatorsFits_of_canonicals es h.2⟩

end

namespace Stmt

/-- The operators of a canonical clause fit. -/
theorem clauseFits_of_clauseCanonical {value : Option Expr} (h : clauseCanonical value = true) :
    clauseFits value = true := by
  cases value with
  | none => rfl
  | some e => exact e.operatorsFit_of_canonical h

/-- A canonical initializer is a canonical statement. -/
theorem canonical_of_initCanonical {s : Stmt} (h : initCanonical (some s) = true) :
    s.canonical = true := by
  cases s with
  | binding name value constant =>
      simp only [initCanonical, Bool.and_eq_true] at h
      exact h.2
  | expression e => exact h
  | _ => cases h

end Stmt

mutual

/-- **The operators of a canonical statement fit.** -/
theorem Stmt.operatorsFit_of_canonical : (s : Stmt) → s.canonical = true → s.operatorsFit = true
  | .binding name value constant, h => Stmt.clauseFits_of_clauseCanonical h
  | .function decl, h => decl.operatorsFit_of_canonical h
  | .classDecl name superclass methods, h => by
    simp only [Stmt.canonical, Bool.and_eq_true] at h
    exact FunctionDecl.operatorsFits_of_canonicals methods h.2
  | .expression e, h => e.operatorsFit_of_canonical h
  | .print e, h => e.operatorsFit_of_canonical h
  | .return value, h => Stmt.clauseFits_of_clauseCanonical h
  | .branch condition yes none, h => by
    simp only [Stmt.canonical, Bool.and_eq_true] at h
    simp only [Stmt.operatorsFit, Bool.and_eq_true]
    exact ⟨⟨condition.operatorsFit_of_canonical h.1.1.1, yes.operatorsFit_of_canonical h.1.2⟩,
      trivial⟩
  | .branch condition yes (some no), h => by
    simp only [Stmt.canonical, Bool.and_eq_true] at h
    simp only [Stmt.operatorsFit, Bool.and_eq_true]
    exact ⟨⟨condition.operatorsFit_of_canonical h.1.1.1, yes.operatorsFit_of_canonical h.1.2⟩,
      no.operatorsFit_of_canonical h.2.2⟩
  | .while condition body, h => by
    simp only [Stmt.canonical, Bool.and_eq_true] at h
    simp only [Stmt.operatorsFit, Bool.and_eq_true]
    exact ⟨condition.operatorsFit_of_canonical h.1.1, body.operatorsFit_of_canonical h.2⟩
  | .for none condition increment body, h => by
    simp only [Stmt.canonical, Bool.and_eq_true] at h
    simp only [Stmt.operatorsFit, Bool.and_eq_true]
    exact ⟨⟨⟨trivial, Stmt.clauseFits_of_clauseCanonical h.1.1.1.2⟩,
      Stmt.clauseFits_of_clauseCanonical h.1.1.2⟩, body.operatorsFit_of_canonical h.2⟩
  | .for (some init) condition increment body, h => by
    simp only [Stmt.canonical, Bool.and_eq_true] at h
    simp only [Stmt.operatorsFit, Bool.and_eq_true]
    have hinit := Stmt.canonical_of_initCanonical h.1.1.1.1
    exact ⟨⟨⟨init.operatorsFit_of_canonical hinit,
      Stmt.clauseFits_of_clauseCanonical h.1.1.1.2⟩,
      Stmt.clauseFits_of_clauseCanonical h.1.1.2⟩, body.operatorsFit_of_canonical h.2⟩
  | .block body, h => Stmt.operatorsFits_of_canonicals body h

/-- The operators of canonical statements fit. -/
theorem Stmt.operatorsFits_of_canonicals : (ss : List Stmt) → Stmt.canonicals ss = true →
    Stmt.operatorsFits ss = true
  | [], _ => rfl
  | s :: ss, h => by
    simp only [Stmt.canonicals, Bool.and_eq_true] at h
    simp only [Stmt.operatorsFits, Bool.and_eq_true]
    exact ⟨s.operatorsFit_of_canonical h.1, Stmt.operatorsFits_of_canonicals ss h.2⟩

/-- The operators of a canonical function fit. -/
theorem FunctionDecl.operatorsFit_of_canonical : (f : FunctionDecl) → f.canonical = true →
    f.operatorsFit = true
  | .mk name params body, h => by
    simp only [FunctionDecl.canonical, Bool.and_eq_true] at h
    exact Stmt.operatorsFits_of_canonicals body h.2

/-- The operators of canonical functions fit. -/
theorem FunctionDecl.operatorsFits_of_canonicals : (fs : List FunctionDecl) →
    FunctionDecl.canonicals fs = true → FunctionDecl.operatorsFits fs = true
  | [], _ => rfl
  | f :: fs, h => by
    simp only [FunctionDecl.canonicals, Bool.and_eq_true] at h
    simp only [FunctionDecl.operatorsFits, Bool.and_eq_true]
    exact ⟨f.operatorsFit_of_canonical h.1, FunctionDecl.operatorsFits_of_canonicals fs h.2⟩

end

/-- **Canonical programs have their operators in place.** -/
theorem Program.operatorsFit_of_canonical {p : Program} (h : p.canonical = true) :
    p.operatorsFit = true :=
  Stmt.operatorsFits_of_canonicals p h

/-! ### How trees begin -/

/-- The operators and delimiters that an expression or a statement can begin with. -/
def openers : List Punctuator :=
  [.plus, .minus, .bang, .parenLeft, .braceLeft]

/-- The symbols begin with none of the operators and delimiters but `openers`. -/
def Begins (symbols : List Symbol) : Prop :=
  ∃ s ss, symbols = s :: ss ∧ ∀ p, s = .punct p → p ∈ openers

/-- Symbols that go on begin as they did. -/
theorem Begins.append {symbols : List Symbol} (h : Begins symbols) (more : List Symbol) :
    Begins (symbols ++ more) := by
  obtain ⟨s, ss, rfl, hs⟩ := h
  exact ⟨s, ss ++ more, rfl, hs⟩

/-- A keyword may begin an expression. -/
theorem begins_word (k : Keyword) (ss : List Symbol) : Begins (.word k :: ss) :=
  ⟨_, _, rfl, nofun⟩

/-- A name may begin an expression. -/
theorem begins_name (name : Text.Bytes) (ss : List Symbol) : Begins (.name name :: ss) :=
  ⟨_, _, rfl, nofun⟩

/-- A reference may begin an expression. -/
theorem begins_reference (name : Text.Bytes) (ss : List Symbol) :
    Begins (.reference name :: ss) := by
  refine ⟨_, _, rfl, ?_⟩
  rintro p hp
  rw [Symbol.reference] at hp
  split at hp <;> cases hp

/-- **An expression begins** with a unary operator, a parenthesis, a word or a literal. What has two
operands begins as the one on the left does. -/
theorem Expr.begins : (e : Expr) → e.operatorsFit = true → Begins e.symbols
  | .boolean value, _ => begins_word _ _
  | .number _, _ | .string _, _ => ⟨_, _, rfl, nofun⟩
  | .reference name, _ => begins_reference name _
  | .unary operator right, h => by
    simp only [operatorsFit, Bool.and_eq_true] at h
    refine ⟨_, _, rfl, ?_⟩
    rintro p hp
    cases hp
    cases p with
    | plus | minus | bang => decide
    | _ => cases h.1
  | .binary left operator right, h | .logical left operator right, h => by
    simp only [operatorsFit, Bool.and_eq_true] at h
    exact (left.begins h.1.2).append _
  | .grouping inner, _ => by
    refine ⟨_, _, rfl, ?_⟩
    rintro p hp
    cases hp
    decide
  | .assign name operator value, _ => begins_reference name _
  | .get object name, h => (object.begins h).append _
  | .set object name operator value, h => by
    simp only [operatorsFit, Bool.and_eq_true] at h
    exact (object.begins h.1.2).append _
  | .super method, _ => begins_word _ _
  | .call callee args, h => by
    simp only [operatorsFit, Bool.and_eq_true] at h
    exact ((callee.begins h.1).append _).append _

/-- **A statement begins** with a keyword, a brace or an expression. -/
theorem Stmt.begins {s : Stmt} (h : s.operatorsFit = true) : Begins s.symbols := by
  cases s with
  | expression e => exact (e.begins h).append _
  | block body =>
      refine ⟨_, _, rfl, ?_⟩
      rintro p hp
      cases hp
      decide
  | branch condition yes no => cases no <;> exact begins_word _ _
  | «for» init condition increment body => cases init <;> exact begins_word _ _
  | _ => exact begins_word _ _

end ScriptFront

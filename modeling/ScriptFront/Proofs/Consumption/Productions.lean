import ScriptFront.Proofs.Consumption.Run

/-!
# Consumption by the Grammar

**Every production consumes in order** (`Parse.Orderly`), and a tree that it returns stands for as
many tokens as the tree has symbols (`Parse.Measured`). The rules for runs are applied production by
production here; the recursive levels are an induction on the charges left
(`Parse.measured_declaration`).
-/

namespace ScriptFront

open Text

/-! ### Trees and their parts -/

/-- An expression that is one token has one symbol. -/
theorem Token.length_symbols_of_atom? {t : Token} {e : Expr} (h : t.atom? = some e) :
    e.symbols.length = 1 := by
  rw [Token.atom?] at h
  split at h
  case h_3 =>
    obtain ⟨x, -, rfl⟩ := Option.map_eq_some_iff.mp h
    rfl
  case h_7 => cases h
  all_goals
    cases h
    rfl

/-- A token that is an expression could be scanned. -/
theorem Token.solid_of_atom? {t : Token} {e : Expr} (h : t.atom? = some e) : t.Solid := by
  constructor <;>
  · intro hk
    simp [Token.atom?, hk] at h

/-- An assignment has the symbols of its sides and its operator. -/
theorem Parse.length_symbols_of_assignment? {target value e : Expr} {operator : Kind}
    (h : assignment? target operator value = some e) :
    e.symbols.length = target.symbols.length + 1 + value.symbols.length := by
  cases target with
  | reference name =>
      cases h
      simp [Expr.symbols]
      omega
  | get object name =>
      cases h
      simp [Expr.symbols]
      omega
  | _ => cases h

/-- A node of a binary level has the symbols of its operands and its operator. -/
theorem BinaryLevel.length_symbols_node {level : BinaryLevel} (h : level ∈ all) (left : Expr)
    (operator : Kind) (right : Expr) :
    (level.node left operator right).symbols.length =
      left.symbols.length + 1 + right.symbols.length := by
  have hnode : level.node = .logical ∨ level.node = .binary := by
    simp only [all, List.mem_cons, List.not_mem_nil, or_false] at h
    rcases h with rfl | rfl | rfl | rfl | rfl | rfl <;> simp
  rcases hnode with hnode | hnode <;>
  · rw [hnode]
    simp [Expr.symbols]
    omega

/-- Parts with commas between them have the symbols of the parts and one comma less than there are
parts. -/
theorem Symbol.length_separated (parts : List (List Symbol)) :
    (separated parts).length = (parts.map (·.length + 1)).sum - 1 := by
  cases parts with
  | nil => rfl
  | cons part parts =>
      have hparts :
          (parts.flatMap (punct .comma :: ·)).length = (parts.map (·.length + 1)).sum := by
        rw [List.length_flatMap]
        rfl
      rw [separated, List.length_append, hparts, List.map_cons, List.sum_cons]
      omega

namespace Parse

variable {σ : Type} [TokenSource σ] {α : Type} {past : List Token} {S : Token → Prop}

namespace Orderly

/-- Items in parentheses: one more token for each item, and one for an empty list. -/
theorem parenthesized {size : α → Nat} {item : Parse σ α} (h : Measured size item) :
    Orderly past S (fun as ts => Tally ts ((as.map (size · + 1)).sum - 1 + 1))
      (Parse.parenthesized item) := by
  refine .accept (fun t => .pure (.one t)) ?_
  refine .bind (h past).at_tokens fun first ts₁ h₁ => ?_
  have hrest (past : List Token) :
      Orderly past (fun t => decide (t.kind = .punctuator .comma) = true)
        (fun a ts => Tally ts (size a + 1)) (do
          let _ ← Parse.advance
          item) := by
    refine .bind (.advance ?_) ?_
    · intro t ht
      simp [Token.Solid, of_decide_eq_true ht]
    · rintro t ts ⟨rfl, -⟩
      refine (h _).weaken (fun _ ht => ht) fun a us ha => ?_
      exact ((Tally.one t).append ha).of_eq (Nat.add_comm _ _)
  refine .bind (.collectWhile hrest) fun rest ts₂ h₂ => ?_
  refine .bind (.expect _) fun _ ts₃ h₃ => .pure ?_
  refine (h₁.append (h₂.append (h₃.append .nil))).of_eq ?_
  simp only [List.map_cons, List.sum_cons]
  omega

end Orderly

/-! ### Expressions -/

section Expressions

variable {x : Parse σ Expr}

/-- Expressions stand for their symbols. -/
abbrev MeasuredExpr (x : Parse σ Expr) : Prop :=
  Measured (fun e => e.symbols.length) x

/-- **A binary level** is measured as its operands are. -/
theorem MeasuredExpr.binaries (h : MeasuredExpr x) {levels : List BinaryLevel}
    (hlevels : ∀ level ∈ levels, level ∈ BinaryLevel.all) : MeasuredExpr (binaries levels x) := by
  induction levels with
  | nil => exact h
  | cons level levels ih =>
      rw [List.forall_mem_cons] at hlevels
      have hoperand := ih hlevels.2
      refine fun past => .bind (hoperand past) fun first ts hfirst => ?_
      refine .foldWhile (fun left us hleft => ?_) (by rwa [List.append_nil])
      refine .bind (.advance ?_) ?_
      · intro t ht
        obtain ⟨p, hp⟩ := BinaryLevel.punctuator_of_holds ht
        simp [Token.Solid, hp]
      · rintro t vs ⟨rfl, -⟩
        refine .bind (hoperand _) fun right ws hright => .pure ?_
        have hall := hleft.append ((Tally.one t).append (hright.append .nil))
        rw [List.append_assoc] at hall
        refine hall.of_eq ?_
        simp only [BinaryLevel.length_symbols_node hlevels.1]
        omega

/-- **An assignment** is measured as what it assigns is. A target that is refused is reported at its
operator, which is among the tokens consumed, though not the last of them. -/
theorem MeasuredExpr.assignment (h : MeasuredExpr x) : MeasuredExpr (assignment x) := by
  have hoperand := h.binaries fun _ hlevel => hlevel
  refine fun past => .bind (hoperand past) fun target ts htarget => ?_
  refine .kind fun k => .ite (fun hk => ?_) fun _ => .pure (by rwa [List.append_nil])
  obtain ⟨p, rfl⟩ := Kind.punctuator_of_isAssignment hk
  refine .bind (.advance (Token.solid_of_kind (by simp))) ?_
  rintro operator us ⟨rfl, -, hoperator⟩
  refine .bind (hoperand _) fun value vs hvalue => ?_
  cases hassign : assignment? target operator.kind value with
  | some e =>
      refine .pure ((htarget.append ((Tally.one operator).append (hvalue.append .nil))).of_eq ?_)
      simp only [length_symbols_of_assignment? hassign]
      omega
  | none =>
      exact .fail fun c _ => .target (by simp) (hoperator ▸ hk)

/-- **A primary expression** is measured as what is in parentheses is. A token that begins no
expression is consumed before it is refused. -/
theorem MeasuredExpr.primary (h : MeasuredExpr x) : MeasuredExpr (primary x) := by
  intro past
  rw [primary_eq]
  refine .current fun t _ => ?_
  have hadvance (ht : t.Solid) : Orderly past (· = t) (fun u ts => ts = [u] ∧ u = t)
      (Parse.advance : Parse σ Token) :=
    .advance fun u hu => hu ▸ ht
  cases hatom : t.atom? with
  | some e =>
      refine .bind (hadvance (Token.solid_of_atom? hatom)) ?_
      rintro u ts ⟨rfl, rfl⟩
      exact .pure ((Tally.one u).of_eq (Token.length_symbols_of_atom? hatom).symm)
  | none =>
      refine .ite (fun hk => ?_) fun _ => .ite (fun hk => ?_) fun _ =>
        .ite (fun hk => ?_) fun hk => ?_
      · refine .bind (hadvance (by simp [Token.Solid, hk])) ?_
        rintro u ts ⟨rfl, rfl⟩
        refine .bind (h _) fun e us he => .bind (.expect _) fun _ vs hv => .pure ?_
        refine ((Tally.one u).append (he.append (hv.append .nil))).of_eq ?_
        simp [Expr.symbols]
        omega
      · refine .bind (hadvance (by simp [Token.Solid, hk])) ?_
        rintro u ts ⟨rfl, rfl⟩
        refine .bind (.expect _) fun _ us hu => .bind .identifier ?_
        rintro method vs ⟨rfl, -⟩
        exact .pure ((Tally.one u).append (hu.append ((Tally.one method).append .nil)))
      · refine .fail fun c hc => ?_
        obtain rfl : c.current = t := hc
        rcases hk with hk | hk
        · rw [refusal, if_pos hk]
          exact .number hk
        · rw [refusal, if_neg (by simp [hk])]
          exact .misplaced rfl fun _ => rfl
      · constructor
        · intro c a c' _ hx
          cases hx
        · intro c f c' hc hx
          obtain rfl : c.current = t := hc
          cases hx
          exact ⟨[], c, c.consumes_nil, .expression fun herror => hk (.inr herror)⟩

/-- **Calls and accesses** are measured as what they are made on and their arguments are. -/
theorem MeasuredExpr.accesses (h : MeasuredExpr x) : MeasuredExpr (accesses x) := by
  refine fun past => .bind (h.primary past) fun first ts hfirst => ?_
  refine .foldWhile (fun e us he => ?_) (by rwa [List.append_nil])
  refine .bind (.advance ?_) ?_
  · intro t ht
    simp only [Kind.isAccess, Bool.or_eq_true, decide_eq_true_eq] at ht
    rcases ht with ht | ht <;> simp [Token.Solid, ht]
  · rintro t vs ⟨rfl, -⟩
    refine .ite (fun _ => ?_) fun _ => ?_
    · refine .bind (.parenthesized h) fun args ws hargs => .pure ?_
      have hall := he.append ((Tally.one t).append (hargs.append .nil))
      rw [List.append_assoc] at hall
      refine hall.of_eq ?_
      simp only [Expr.symbols, List.length_append, List.length_cons, List.length_nil,
        Symbol.length_separated, Expr.symbolsEach_eq_map, List.map_map, Function.comp_def]
      omega
    · refine .bind .identifier ?_
      rintro name ws ⟨rfl, -⟩
      have hall := he.append ((Tally.one t).append ((Tally.one name).append .nil))
      rw [List.append_assoc] at hall
      refine .pure (hall.of_eq ?_)
      simp [Expr.symbols]

/-- Unary operations are measured. -/
theorem measured_unary (d : Nat) : MeasuredExpr (unary d : Parse σ Expr) := by
  induction d with
  | zero =>
      refine fun past => .kind fun k => .ite (fun _ => .tooDeep) fun _ => .at_tokens ?_
      exact MeasuredExpr.accesses (fun _ => .tooDeep) past
  | succ d ih =>
      refine fun past => .kind fun k => .ite (fun hk => ?_) fun _ => .at_tokens ?_
      · obtain ⟨p, rfl⟩ := Kind.punctuator_of_isUnary hk
        refine .bind (.advance (Token.solid_of_kind (by simp))) ?_
        rintro t ts ⟨rfl, -⟩
        refine .bind (ih _) fun e us he => .pure ?_
        refine ((Tally.one t).append (he.append .nil)).of_eq ?_
        simp [Expr.symbols]
        omega
      · exact ih.assignment.accesses past

/-- **Expressions are measured**, whatever is left of the nesting limit. -/
theorem measured_expression (d : Nat) : MeasuredExpr (expression d : Parse σ Expr) := by
  cases d with
  | zero => exact fun _ => .tooDeep
  | succ d => exact (measured_unary d).assignment

end Expressions

/-! ### Statements -/

section Statements

variable {x : Parse σ Expr} {s t : Parse σ Stmt}

/-- Statements stand for their symbols. -/
abbrev MeasuredStmt (s : Parse σ Stmt) : Prop :=
  Measured (fun s => s.symbols.length) s

/-- A condition has two symbols more, its parentheses. -/
theorem MeasuredExpr.condition (h : MeasuredExpr x) :
    Measured (fun e => e.symbols.length + 2) (condition x) := by
  refine fun past => .bind (.expect _) fun _ ts₁ h₁ => .bind (h _) fun e ts₂ h₂ => ?_
  refine .bind (.expect _) fun _ ts₃ h₃ => .pure ?_
  refine (h₁.append (h₂.append (h₃.append .nil))).of_eq ?_
  dsimp only
  omega

/-- An expression that may be missing has its symbols, or none. -/
theorem MeasuredExpr.optionalBefore (h : MeasuredExpr x) (stop : Punctuator) :
    Measured (fun e => (Stmt.clauseSymbols [] e).length) (optionalBefore stop x) := by
  refine fun past => .kind fun k => .ite (fun _ => .pure .nil) fun _ => ?_
  refine .bind (h past).at_tokens fun e ts he => .pure ?_
  exact (he.append .nil).of_eq (by simp [Stmt.clauseSymbols])

/-- Items between braces have the symbols of each of them, and two more. -/
theorem Measured.braced {size : α → Nat} {item : Parse σ α} (h : Measured size item) :
    Measured (fun as => (as.map size).sum + 2) (braced item) := by
  refine fun past => .bind (.expect _) fun _ ts₁ h₁ => ?_
  refine .bind (.collectWhile fun past => (h past).at_tokens) fun as ts₂ h₂ => ?_
  refine .bind (.expect _) fun _ ts₃ h₃ => .pure ?_
  refine (h₁.append (h₂.append (h₃.append .nil))).of_eq ?_
  dsimp only
  omega

/-- A binding is measured if its value is. -/
theorem MeasuredExpr.binding (h : MeasuredExpr x) (hS : ∀ t, S t → t.Solid) :
    Orderly past S (fun s ts => Tally ts s.symbols.length) (binding x) := by
  refine .bind (.advance hS) ?_
  rintro keyword ts₁ ⟨rfl, -⟩
  refine .bind .identifier ?_
  rintro name ts₂ ⟨rfl, -⟩
  have hend (past : List Token) (value : Option Expr) {ts₃ : List Token}
      (h₃ : Tally ts₃ (Stmt.clauseSymbols [.punct .equals] value).length) :
      Orderly past anyToken (fun s ts₄ => Tally ([keyword] ++ ([name] ++ (ts₃ ++ ts₄)))
        s.symbols.length) (do
          let _ ← Parse.expect .semicolon
          return Stmt.binding name.value value (keyword.kind = .keyword .constKw) :
            Parse σ Stmt) := by
    refine .bind (.expect _) fun _ ts₄ h₄ => .pure ?_
    refine ((Tally.one keyword).append ((Tally.one name).append
      (h₃.append (h₄.append .nil)))).of_eq ?_
    simp [Stmt.symbols]
    omega
  refine .accept (fun t => ?_) ?_
  · refine .bind (Q := fun value us =>
        Tally ([t] ++ us) (Stmt.clauseSymbols [.punct .equals] value).length)
      (.map (h _) fun e us he => ?_) fun value us hvalue => hend _ value hvalue
    exact ((Tally.one t).append he).of_eq (by simp [Stmt.clauseSymbols]; omega)
  · exact .bind (Q := fun value us => Tally us (Stmt.clauseSymbols [.punct .equals] value).length)
      (.pure .nil) fun value us hvalue => hend _ value hvalue

/-- A function is measured if the statements of its body are. -/
theorem MeasuredStmt.functionDecl (h : MeasuredStmt s) :
    Measured (fun f => f.symbols.length) (functionDecl s) := by
  refine fun past => .bind .identifier ?_
  rintro name ts₁ ⟨rfl, -⟩
  refine .bind (.expect _) fun _ ts₂ h₂ => ?_
  refine .bind (.parenthesized Orderly.identifier_measured) fun params ts₃ h₃ => ?_
  refine .bind (Measured.braced h _) fun body ts₄ h₄ => .pure ?_
  refine ((Tally.one name).append (h₂.append (h₃.append (h₄.append .nil)))).of_eq ?_
  have hparams : (if params = [] then none else some (params.map Token.value)).getD [] =
      params.map Token.value := by
    cases params <;> rfl
  simp only [FunctionDecl.symbols, hparams, List.length_append, List.length_cons, List.length_nil,
    Symbol.length_separated, Stmt.symbolsAll_eq_flatMap, List.length_flatMap, List.map_map,
    Function.comp_def, Nat.zero_add]
  omega

/-- A superclass consumes what it is spelled with, the sign and a name. A name without characters
would be lost, and with it two tokens. -/
theorem Orderly.superclass (name : Bytes) :
    Orderly past S (fun parent ts => Tally ts (Stmt.superclassSymbols parent).length)
      (superclass name : Parse σ (Option Bytes)) := by
  refine .accept (fun t => ?_) (.pure .nil)
  refine .bind .identifier ?_
  rintro parent ts ⟨rfl, hkind⟩
  refine .ite (fun _ => ?_) fun _ => .ite (fun hempty => ?_) fun _ => ?_
  · exact .fail fun c _ => .inheritance (by simp)
  · refine .pure fun hnames => absurd hempty (hnames parent (by simp) hkind)
  · exact .pure ((Tally.one t).append ((Tally.one parent).append .nil))

/-- A class is measured if the statements of its methods are. -/
theorem MeasuredStmt.classDecl (h : MeasuredStmt s) (hS : ∀ t, S t → t.Solid) :
    Orderly past S (fun s ts => Tally ts s.symbols.length) (classDecl s) := by
  refine .bind (.advance hS) ?_
  rintro keyword ts₁ ⟨rfl, -⟩
  refine .bind .identifier ?_
  rintro name ts₂ ⟨rfl, -⟩
  refine .bind (.superclass _) fun parent ts₃ h₃ => ?_
  refine .bind (Measured.braced h.functionDecl _) fun methods ts₄ h₄ => .pure ?_
  refine ((Tally.one keyword).append ((Tally.one name).append
      (h₃.append (h₄.append .nil)))).of_eq ?_
  simp [Stmt.symbols, FunctionDecl.symbolsAll_eq_flatMap, List.length_flatMap]
  omega

/-- A statement that is an expression is measured if the expression is. -/
theorem MeasuredExpr.expressionStatement (h : MeasuredExpr x) :
    MeasuredStmt (expressionStatement x) := by
  refine fun past => .bind (h past) fun e ts he => .bind (.expect _) fun _ us hu => .pure ?_
  exact (he.append (hu.append .nil)).of_eq (by simp [Stmt.symbols])

/-- The initializer of a loop is measured if its expression is. -/
theorem MeasuredExpr.initializer (h : MeasuredExpr x) :
    Measured (fun init => (Stmt.initSymbols init).length) (initializer x) := by
  refine fun past => .accept (fun t => .pure (.one t)) ?_
  refine .kind fun k => .ite (fun hk => ?_) fun _ => ?_
  · exact .bind (h.binding (Token.solid_of_kind (by simp [hk]))) fun s ts hs =>
      .pure (hs.append .nil)
  · exact .bind (h.expressionStatement past).at_tokens fun s ts hs => .pure (hs.append .nil)

/-- A loop with clauses is measured if the clauses and the body are. -/
theorem MeasuredStmt.forLoop (h : MeasuredStmt s) (hx : MeasuredExpr x)
    (hS : ∀ t, S t → t.Solid) :
    Orderly past S (fun s ts => Tally ts s.symbols.length) (forLoop x s) := by
  refine .bind (.advance hS) ?_
  rintro keyword ts₁ ⟨rfl, -⟩
  refine .bind (.expect _) fun _ ts₂ h₂ => .bind (hx.initializer _) fun init ts₃ h₃ => ?_
  refine .bind (hx.optionalBefore _ _) fun test ts₄ h₄ => .bind (.expect _) fun _ ts₅ h₅ => ?_
  refine .bind (hx.optionalBefore _ _) fun step ts₆ h₆ => .bind (.expect _) fun _ ts₇ h₇ => ?_
  refine .bind (h _) fun body ts₈ h₈ => .pure ?_
  refine ((Tally.one keyword).append (h₂.append (h₃.append (h₄.append (h₅.append (h₆.append
    (h₇.append (h₈.append .nil)))))))).of_eq ?_
  cases init <;> simp [Stmt.symbols, Stmt.initSymbols] <;> omega

/-- A conditional is measured if its condition and its branches are. -/
theorem MeasuredStmt.branch (h : MeasuredStmt s) (hx : MeasuredExpr x)
    (hS : ∀ t, S t → t.Solid) :
    Orderly past S (fun s ts => Tally ts s.symbols.length) (branch x s) := by
  refine .bind (.advance hS) ?_
  rintro keyword ts₁ ⟨rfl, -⟩
  refine .bind (hx.condition _) fun test ts₂ h₂ => .bind (h _) fun yes ts₃ h₃ => ?_
  refine .kind fun k => .ite (fun hk => ?_) fun _ => .pure ?_
  · refine .bind (.advance (Token.solid_of_kind (by simp [hk]))) ?_
    rintro other ts₄ ⟨rfl, -⟩
    refine .bind (h _) fun no ts₅ h₅ => .pure ?_
    refine ((Tally.one keyword).append (h₂.append (h₃.append ((Tally.one other).append
      (h₅.append .nil))))).of_eq ?_
    simp [Stmt.symbols]
    omega
  · refine ((Tally.one keyword).append (h₂.append (h₃.append .nil))).of_eq ?_
    simp [Stmt.symbols]
    omega

/-- A loop is measured if its condition and its body are. -/
theorem MeasuredStmt.whileLoop (h : MeasuredStmt s) (hx : MeasuredExpr x)
    (hS : ∀ t, S t → t.Solid) :
    Orderly past S (fun s ts => Tally ts s.symbols.length) (whileLoop x s) := by
  refine .bind (.advance hS) ?_
  rintro keyword ts₁ ⟨rfl, -⟩
  refine .bind (hx.condition _) fun test ts₂ h₂ => .bind (h _) fun body ts₃ h₃ => .pure ?_
  refine ((Tally.one keyword).append (h₂.append (h₃.append .nil))).of_eq ?_
  simp [Stmt.symbols]
  omega

/-- A statement that prints is measured if the expression is. -/
theorem MeasuredExpr.printing (h : MeasuredExpr x) (hS : ∀ t, S t → t.Solid) :
    Orderly past S (fun s ts => Tally ts s.symbols.length) (printing x) := by
  refine .bind (.advance hS) ?_
  rintro keyword ts₁ ⟨rfl, -⟩
  refine .bind (h _) fun e ts₂ h₂ => .bind (.expect _) fun _ ts₃ h₃ => .pure ?_
  refine ((Tally.one keyword).append (h₂.append (h₃.append .nil))).of_eq ?_
  simp [Stmt.symbols]
  omega

/-- A statement that returns is measured if its value is. -/
theorem MeasuredExpr.returning (h : MeasuredExpr x) (hS : ∀ t, S t → t.Solid) :
    Orderly past S (fun s ts => Tally ts s.symbols.length) (returning x) := by
  refine .bind (.advance hS) ?_
  rintro keyword ts₁ ⟨rfl, -⟩
  refine .bind (h.optionalBefore _ _) fun e ts₂ h₂ => .bind (.expect _) fun _ ts₃ h₃ => .pure ?_
  refine ((Tally.one keyword).append (h₂.append (h₃.append .nil))).of_eq ?_
  simp [Stmt.symbols]
  omega

/-- **An item of a block** is measured if its parts are. -/
theorem MeasuredStmt.itemOver (hs : MeasuredStmt t) (hx : MeasuredExpr x) (hd : MeasuredStmt s) :
    MeasuredStmt (itemOver x s t) := by
  refine fun past => .kind fun k => .ite (fun hk => ?_) fun _ => .ite (fun hk => ?_) fun _ =>
    .ite (fun hk => ?_) fun _ => (hs past).at_tokens
  · exact hx.binding (Token.solid_of_kind (by rcases hk with hk | hk <;> simp [hk]))
  · exact hd.classDecl (Token.solid_of_kind (by simp [hk]))
  · refine .bind (.advance (Token.solid_of_kind (by simp [hk]))) ?_
    rintro keyword ts ⟨rfl, -⟩
    refine .bind (hd.functionDecl _) fun f us hf => .pure ?_
    refine ((Tally.one keyword).append (hf.append .nil)).of_eq ?_
    simp [Stmt.symbols]
    omega

/-- **A statement** is measured if its parts are. -/
theorem MeasuredStmt.clauseOver (hs : MeasuredStmt t) (hx : MeasuredExpr x)
    (hd : MeasuredStmt s) : MeasuredStmt (clauseOver x s t) := by
  refine fun past => .kind fun k => .ite (fun hk => ?_) fun _ => .ite (fun hk => ?_) fun _ =>
    .ite (fun hk => ?_) fun _ => .ite (fun hk => ?_) fun _ => .ite (fun hk => ?_) fun _ =>
    .ite (fun hk => ?_) fun _ => (hx.expressionStatement past).at_tokens
  · exact hx.printing (Token.solid_of_kind (by simp [hk]))
  · exact hs.branch hx (Token.solid_of_kind (by simp [hk]))
  · exact hs.whileLoop hx (Token.solid_of_kind (by simp [hk]))
  · exact hs.forLoop hx (Token.solid_of_kind (by simp [hk]))
  · exact hx.returning (Token.solid_of_kind (by simp [hk]))
  · refine .bind (Measured.braced hd _).at_tokens fun body ts hbody => .pure ?_
    refine (hbody.append .nil).of_eq ?_
    simp [Stmt.symbols, Stmt.symbolsAll_eq_flatMap, List.length_flatMap]

/-- **Statements consume in order**, with any number of charges. -/
theorem measured_declaration_statement (d : Nat) :
    MeasuredStmt (declaration d : Parse σ Stmt) ∧ MeasuredStmt (statement d : Parse σ Stmt) := by
  induction d with
  | zero => exact ⟨fun _ => .tooDeep, fun _ => .tooDeep⟩
  | succ d ih =>
      rw [declaration_succ, statement_succ]
      have hx := measured_expression (σ := σ) d
      exact ⟨ih.2.itemOver hx ih.1, ih.2.clauseOver hx ih.1⟩

/-- **Statements are measured**, whatever is left of the nesting limit. -/
theorem measured_declaration (d : Nat) : MeasuredStmt (declaration d : Parse σ Stmt) :=
  (measured_declaration_statement d).1

end Statements

end Parse

end ScriptFront

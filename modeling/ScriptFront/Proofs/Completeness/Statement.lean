import ScriptFront.Proofs.Completeness.Expression

/-!
# Canonical Programs are Parsed

The statement grammar over `Completeness.Expression`: one lemma for each kind of statement, and one
induction on the tree (`Stmt.complete`).

A statement is delivered in **two places** with different charges. As a branch or the body of a
loop it costs what it needs; as an item of a program or block it costs one charge more. Declarations
have the second place only. `Parse.CompleteStmt` holds both, and `Parse.complete_of_statement` gives
the second from the first.

`Program.ofTokens_of_reads` is the result for every source of tokens.
-/

namespace ScriptFront

open Text

/-! ### How statements begin -/

namespace Kind

/-- The kinds of token that only a declaration begins with. -/
def declares : Kind → Bool
  | .keyword k => [.letKw, .constKw, .classKw, .functionKw].contains k
  | _ => false

/-- The kinds of token that may follow an item: they neither close the braces around it nor go on
with an `if`. -/
def opensItem (k : Kind) : Bool :=
  k ≠ .keyword .elseKw && Parse.insideBraces k

/-- An item of a block may begin as an expression does. -/
theorem opensItem_of_opensExpr {k : Kind} (h : k.opensExpr = true) : k.opensItem = true := by
  have hne (k' : Kind) (h' : k'.opensExpr = false) : k ≠ k' := ne_of_opensExpr h h'
  simp [opensItem, Parse.insideBraces, hne (.keyword .elseKw) rfl,
    hne (.punctuator .braceRight) rfl, hne .eof rfl]

end Kind

namespace Cursor

variable {σ : Type} [TokenSource σ] {c c' : Cursor σ} {s : Stmt}

/-- Where a canonical statement is read, the current kind opens an item. -/
theorem opensItem_of_reads (hs : s.canonical = true) (h : c.Reads s.symbols c') :
    c.current.kind.opensItem = true := by
  cases s with
  | expression e =>
      rw [Stmt.canonical] at hs
      exact Kind.opensItem_of_opensExpr (opensExpr_of_reads hs h)
  | binding name value constant =>
      rw [Token.kind_of_symbol? h.1]
      cases constant <;> rfl
  | branch condition yes no =>
      cases no <;> rw [Token.kind_of_symbol? h.1] <;> rfl
  | «for» init condition increment body =>
      cases init <;> rw [Token.kind_of_symbol? h.1] <;> rfl
  | _ =>
      rw [Token.kind_of_symbol? h.1]
      rfl

/-- Where a statement is read that is no declaration, the current kind does not declare. -/
theorem not_declares_of_reads (hs : s.canonical = true) (hd : s.isDeclaration = false)
    (h : c.Reads s.symbols c') : c.current.kind.declares = false := by
  cases s with
  | expression e =>
      rw [Stmt.canonical] at hs
      have hopen := opensExpr_of_reads hs h
      cases hk : c.current.kind with
      | keyword k =>
          rw [hk] at hopen
          cases k <;> first | rfl | cases hopen
      | _ => rfl
  | binding name value constant => cases hd
  | function decl => cases hd
  | classDecl name superclass methods => cases hd
  | branch condition yes no =>
      cases no <;> rw [Token.kind_of_symbol? h.1] <;> rfl
  | «for» init condition increment body =>
      cases init <;> rw [Token.kind_of_symbol? h.1] <;> rfl
  | _ =>
      rw [Token.kind_of_symbol? h.1]
      rfl

end Cursor

namespace Parse

variable {σ : Type} [TokenSource σ] {α β : Type}

/-- **What completeness says of a statement** in each of its two places. -/
structure CompleteStmt (σ : Type) [TokenSource σ] (s : Stmt) : Prop where
  /-- It is delivered as a branch or body, where no `else` follows that it would take. -/
  statement : s.isDeclaration = false → ∀ (d : Nat) (c c' : Cursor σ), c.Reads s.symbols c' →
    (s.isOpen = true → c'.current.kind ≠ .keyword .elseKw) →
    (statement d).Delivers c (s.need ≤ d) s c'
  /-- It is delivered as an item. -/
  item : ∀ (d : Nat) (c c' : Cursor σ), c.Reads s.symbols c' →
    c'.current.kind ≠ .keyword .elseKw → (declaration d).Delivers c (s.need < d) s c'

/-- What completeness says of a function or method. -/
def CompleteFunction (σ : Type) [TokenSource σ] (f : FunctionDecl) : Prop :=
  ∀ (d : Nat) (c c' : Cursor σ), c.Reads f.symbols c' →
    (functionDecl (declaration d)).Delivers c (f.need ≤ d) f c'

/-- A token that does not declare is left to the statements. -/
theorem declaration_run_of_not_declares {c : Cursor σ} (h : c.current.kind.declares = false)
    (d : Nat) : declaration (d + 1) c = statement d c := by
  simp only [declaration, kind_bind]
  cases hk : c.current.kind with
  | keyword k =>
      rw [hk] at h
      cases k <;> first | rfl | cases h
  | _ => rfl

/-- A token that opens an expression makes an expression statement. -/
theorem statement_run_of_opensExpr {c : Cursor σ} (h : c.current.kind.opensExpr = true)
    (d : Nat) : statement (d + 1) c = expressionStatement (expression d) c := by
  simp only [statement, kind_bind]
  cases hk : c.current.kind with
  | keyword k =>
      rw [hk] at h
      cases k <;> first | rfl | cases h
  | punctuator p =>
      rw [hk] at h
      cases p <;> first | rfl | cases h
  | _ => rfl

/-- **A statement that is no declaration** is complete once it is delivered as a branch or body
with a charge left; as an item it is charged once more. -/
theorem complete_of_statement {s : Stmt} (hcanon : s.canonical = true)
    (hdecl : s.isDeclaration = false) (hpos : 0 < s.need)
    (h : ∀ (d : Nat) (c c' : Cursor σ), c.Reads s.symbols c' →
      (s.isOpen = true → c'.current.kind ≠ .keyword .elseKw) →
      (statement (d + 1)).Delivers c (s.need ≤ d + 1) s c') : CompleteStmt σ s := by
  have hstatement : ∀ (d : Nat) (c c' : Cursor σ), c.Reads s.symbols c' →
      (s.isOpen = true → c'.current.kind ≠ .keyword .elseKw) →
      (statement d).Delivers c (s.need ≤ d) s c' := by
    intro d c c' hr helse
    cases d with
    | zero => exact delivers_tooDeep (by omega)
    | succ d => exact h d c c' hr helse
  refine ⟨fun _ => hstatement, ?_⟩
  intro d c c' hr helse
  cases d with
  | zero => exact delivers_tooDeep (by omega)
  | succ d =>
      have hnot := Cursor.not_declares_of_reads hcanon hdecl hr
      have hdel := (hstatement d c c' hr fun _ => helse).of_run_eq
        (declaration_run_of_not_declares hnot d)
      exact hdel.congr Nat.lt_succ_iff.symm

/-- **A declaration** is complete once it is delivered as an item with a charge left. -/
theorem complete_of_declaration {s : Stmt} (hdecl : s.isDeclaration = true)
    (h : ∀ (d : Nat) (c c' : Cursor σ), c.Reads s.symbols c' →
      (declaration (d + 1)).Delivers c (s.need ≤ d) s c') : CompleteStmt σ s := by
  refine ⟨fun hnot => ?_, ?_⟩
  · rw [hdecl] at hnot
    cases hnot
  · intro d c c' hr _
    cases d with
    | zero => exact delivers_tooDeep (by omega)
    | succ d => exact (h d c c' hr).congr Nat.lt_succ_iff.symm

/-! ### Parts of statements -/

/-- A condition in parentheses is delivered. -/
theorem condition_delivers {e : Expr} (he : Complete σ e) {d : Nat} {c c' : Cursor σ}
    (hr : c.Reads (.punct .parenLeft :: e.symbols ++ [.punct .parenRight]) c') :
    (condition (expression d)).Delivers c (e.need ≤ d) e c' := by
  obtain ⟨hopen, hr⟩ := hr
  obtain ⟨c₁, hr₁, hclose, rfl⟩ := Cursor.reads_append.mp hr
  have hwhole := he.whole d c.step c₁ hr₁ (by rw [Token.kind_of_symbol? hclose]; rfl)
  refine Delivers.of_bind_ok (expect_run hopen) (hwhole.then_ok ?_)
  rw [bind_ok (expect_run hclose)]
  rfl

/-- A clause that may be missing is delivered before the delimiter that ends it. -/
theorem optionalBefore_delivers {stop : Punctuator} (hrank : (Kind.punctuator stop).rank = 0)
    (hopens : (Kind.punctuator stop).opensExpr = false) {v : Option Expr}
    (hv : Stmt.clauseCanonical v = true) {d : Nat} {c c' : Cursor σ}
    (hr : c.Reads (Stmt.clauseSymbols [] v) c') (hstop : c'.current.kind = .punctuator stop) :
    (optionalBefore stop (expression d)).Delivers c (Stmt.clauseNeed v ≤ d) v c' := by
  cases v with
  | none =>
      rw [Stmt.clauseSymbols, Cursor.reads_nil] at hr
      subst hr
      refine delivers_of_ok (Nat.zero_le _) ?_
      rw [optionalBefore, kind_bind, if_pos hstop]
      rfl
  | some e =>
      have hread : c.Reads (e.symbols ++ []) c' := by
        rw [List.append_nil]
        exact hr
      have hne := Kind.ne_of_opensExpr (Cursor.opensExpr_of_reads hv hread) hopens
      have hwhole := (e.complete σ hv).whole d c c' hr (by rw [hstop, hrank])
      have hall : (expression d >>= fun e => pure (some e)).Delivers c (e.need ≤ d) (some e) c' :=
        hwhole.then_ok rfl
      refine hall.of_run_eq ?_
      rw [optionalBefore, kind_bind, if_neg hne]

/-- **Items between braces** are delivered if each is delivered where no `else` follows. -/
theorem braced_delivers {item : Parse σ α} {S : α → List Symbol} {N : α → Prop} {as : List α}
    {c c' : Cursor σ}
    (hhead : ∀ a ∈ as, ∀ c c₁ : Cursor σ, c.Reads (S a) c₁ →
      c.current.kind.opensItem = true ∧ c₁.remaining < c.remaining)
    (hitem : ∀ a ∈ as, ∀ c c₁, c.Reads (S a) c₁ → c₁.current.kind ≠ .keyword .elseKw →
      item.Delivers c (N a) a c₁)
    (hr : c.Reads (.punct .braceLeft :: as.flatMap S ++ [.punct .braceRight]) c') :
    (braced item).Delivers c (∀ a ∈ as, N a) as c' := by
  obtain ⟨hopen, hr⟩ := hr
  obtain ⟨c₁, hr₁, hclose, rfl⟩ := Cursor.reads_append.mp hr
  have hclosing := Token.kind_of_symbol? hclose
  have hitems : (collectWhile insideBraces item).Delivers c.step (∀ a ∈ as, N a) as c₁ := by
    refine collectWhile_delivers (F := (· ≠ .keyword .elseKw)) ?_ hitem hr₁ ?_ ?_
    · intro a ha c c₁ hr
      obtain ⟨hopens, hlt⟩ := hhead a ha c c₁ hr
      simp only [Kind.opensItem, Bool.and_eq_true, decide_eq_true_eq] at hopens
      exact ⟨hopens.2, hopens.1, hlt⟩
    · rw [hclosing]
      exact Kind.noConfusion
    · rw [hclosing]
      rfl
  refine Delivers.of_bind_ok (expect_run hopen) (hitems.then_ok ?_)
  rw [bind_ok (expect_run hclose)]
  rfl

/-! ### Parameters -/

omit [TokenSource σ] in
/-- Items to which a function is applied are read like the items themselves. -/
theorem collectWithin_map (f : α → β) (continues : Kind → Bool) (item : Parse σ α)
    (bound : Nat) :
    collectWithin continues (f <$> item) bound =
      List.map f <$> collectWithin continues item bound := by
  induction bound with
  | zero => simp [collectWithin]
  | succ bound ih =>
      rw [collectWithin, collectWithin, map_bind]
      congr 1
      funext k
      cases continues k with
      | false => simp
      | true => simp [ih]

/-- A function of the items may be applied after they have been collected. -/
theorem collectWhile_map (f : α → β) (continues : Kind → Bool) (item : Parse σ α) :
    collectWhile continues (f <$> item) = List.map f <$> collectWhile continues item := by
  funext c
  show _ = EStateM.map _ _ c
  cases hk : continues c.current.kind with
  | false => simp [collectWhile, EStateM.map, hk]
  | true =>
      simp only [collectWhile, EStateM.map, hk, if_true]
      exact congrFun (collectWithin_map f continues item c.remaining) c

/-- A function of the items between parentheses may be applied after they have been collected. -/
theorem parenthesized_map (f : α → β) (item : Parse σ α) :
    parenthesized (f <$> item) = List.map f <$> parenthesized item := by
  have hrest : (do let _ ← advance; f <$> item : Parse σ β) = f <$> (do let _ ← advance; item) := by
    rw [map_bind]
  rw [parenthesized, parenthesized, map_bind]
  congr 1
  funext closed
  cases closed with
  | true => simp
  | false =>
      simp only [Bool.false_eq_true, if_false]
      rw [hrest, collectWhile_map]
      simp only [map_bind, map_pure, bind_map_left, List.map_cons]

/-- Parameters are read as identifiers of their names. -/
theorem parameters_run {ps : List Bytes} {c c' : Cursor σ}
    (hr : c.Reads (Symbol.separated (ps.map ([.name ·])) ++ [.punct .parenRight]) c') :
    ∃ ts, ts.map Token.value = ps ∧ parenthesized identifier c = .ok ts c' := by
  have hnames : (parenthesized (Token.value <$> identifier)).Delivers c (∀ p ∈ ps, True) ps
      c' := by
    refine parenthesized_delivers ?_ ?_ hr
    · intro p _ c c₁ hr
      rw [Token.kind_of_symbol? hr.1]
      exact Kind.noConfusion
    · intro p _ c c₁ hr _
      obtain ⟨hname, rfl⟩ := hr
      exact delivers_of_ok trivial
        (map_eq_ok_iff.mpr ⟨_, identifier_run hname, Token.value_of_symbol?_name hname⟩)
  have hrun := hnames.1 fun _ _ => trivial
  rw [parenthesized_map] at hrun
  obtain ⟨ts, hts, hvalues⟩ := map_eq_ok_iff.mp hrun
  exact ⟨ts, hvalues, hts⟩

/-! ### Declarations -/

/-- What comes behind the keyword of a binding is delivered. -/
theorem binding_delivers {name : Bytes} {value : Option Expr} {constant : Bool}
    (hv : Stmt.clauseCanonical value = true) {d : Nat} {c c' : Cursor σ}
    (hr : c.Reads (Stmt.binding name value constant).symbols c') :
    (binding (expression d)).Delivers c (Stmt.clauseNeed value ≤ d)
      (.binding name value constant) c' := by
  obtain ⟨hkey, hname, hr⟩ := hr
  obtain ⟨c₁, hr₁, hsemi, rfl⟩ := Cursor.reads_append.mp hr
  have hconst : decide (c.current.kind = .keyword .constKw) = constant := by
    rw [Token.kind_of_symbol? hkey]
    cases constant <;> rfl
  have hend : (expect .semicolon >>= fun _ => pure (Stmt.binding c.step.current.value value
      (c.current.kind = .keyword .constKw))) c₁ =
        .ok (.binding name value constant) c₁.step := by
    rw [bind_ok (expect_run hsemi), Token.value_of_symbol?_name hname, hconst]
    rfl
  refine Delivers.of_run_eq (y := identifier >>= _) ?_ (advance_bind _ c)
  refine Delivers.of_bind_ok (identifier_run hname) ?_
  cases value with
  | none =>
      rw [Stmt.clauseSymbols, Cursor.reads_nil] at hr₁
      subst hr₁
      have hne : c.step.step.current.kind ≠ .punctuator .equals := by
        rw [Token.kind_of_symbol? hsemi]
        exact fun h => by cases h
      refine delivers_of_ok (Nat.zero_le _) ?_
      rw [bind_ok (accept_of_ne hne)]
      exact hend
  | some e =>
      obtain ⟨heq, hr₁⟩ := hr₁
      have hwhole := (e.complete σ hv).whole d c.step.step.step c₁ hr₁
        (by rw [Token.kind_of_symbol? hsemi]; rfl)
      have hsome : (some <$> expression d).Delivers c.step.step.step (e.need ≤ d) (some e) c₁ := by
        rw [← bind_pure_comp]
        exact hwhole.then_ok rfl
      exact Delivers.of_bind_ok (accept_of_eq (Token.kind_of_symbol? heq)) (hsome.then_ok hend)

/-- A binding is complete. -/
theorem complete_binding {name : Bytes} {value : Option Expr} {constant : Bool}
    (hcanon : (Stmt.binding name value constant).canonical = true) :
    CompleteStmt σ (.binding name value constant) := by
  rw [Stmt.canonical] at hcanon
  refine complete_of_declaration rfl fun d c c' hr => ?_
  refine (binding_delivers hcanon hr).of_run_eq ?_
  have hk := Token.kind_of_symbol? hr.1
  cases constant <;> simp only [declaration, kind_bind, show c.current.kind = _ from hk] <;> rfl

/-- A function is delivered with its parameters and its body. That it has no parameters is kept as
no list of them. -/
theorem functionDecl_delivers {name : Bytes} {params : Option (List Bytes)} {body : List Stmt}
    (hcanon : (FunctionDecl.mk name params body).canonical = true)
    (hbody : ∀ s ∈ body, s.canonical = true ∧ CompleteStmt σ s) :
    CompleteFunction σ (.mk name params body) := by
  intro d c c' hr
  rw [FunctionDecl.canonical, Bool.and_eq_true, decide_eq_true_eq] at hcanon
  simp only [FunctionDecl.symbols, List.cons_append, List.append_assoc, Cursor.reads_cons] at hr
  obtain ⟨hname, hopen, hr⟩ := hr
  obtain ⟨c₁, hr₁, hclose, hr₂⟩ := Cursor.reads_append.mp hr
  have hparams : c.step.step.Reads
      (Symbol.separated ((params.getD []).map ([.name ·])) ++ [.punct .parenRight]) c₁.step :=
    hr₁.append ⟨hclose, rfl⟩
  obtain ⟨ts, hts, hrun⟩ := parameters_run hparams
  have hitems : (braced (declaration d)).Delivers c₁.step (∀ s ∈ body, s.need < d) body c' := by
    refine braced_delivers (S := Stmt.symbols) ?_ ?_ ?_
    · intro s hs c c₁ hr
      exact ⟨Cursor.opensItem_of_reads (hbody s hs).1 hr, hr.remaining_lt s.symbols_ne_nil⟩
    · intro s hs c c₁ hr helse
      exact (hbody s hs).2.item d c c₁ hr helse
    · rw [← Stmt.symbolsAll_eq_flatMap]
      exact hr₂
  have hlist : (if ts = [] then none else some (ts.map Token.value)) = params := by
    cases params with
    | none =>
        rw [if_pos (List.map_eq_nil_iff.mp hts)]
    | some ps =>
        rw [if_neg, hts, Option.getD_some]
        rintro rfl
        exact hcanon.1 (congrArg some hts.symm)
  have hall : (functionDecl (declaration d)).Delivers c (∀ s ∈ body, s.need < d)
      (.mk name params body) c' := by
    refine Delivers.of_bind_ok (identifier_run hname) ?_
    refine Delivers.of_bind_ok (expect_run hopen) ?_
    refine Delivers.of_bind_ok hrun (hitems.then_ok ?_)
    rw [hlist, Token.value_of_symbol?_name hname]
    rfl
  refine hall.congr ?_
  rw [FunctionDecl.need, Stmt.needs_le_iff]

/-- The declaration of a function is complete if the function is. -/
theorem complete_function {decl : FunctionDecl} (h : CompleteFunction σ decl) :
    CompleteStmt σ (.function decl) := by
  refine complete_of_declaration rfl fun d c c' hr => ?_
  obtain ⟨hkey, hr⟩ := hr
  have hk := Token.kind_of_symbol? hkey
  have hall : (functionDecl (declaration d) >>= fun f => pure (Stmt.function f)).Delivers c.step
      (decl.need ≤ d) (.function decl) c' := (h d c.step c' hr).then_ok rfl
  refine hall.of_run_eq ?_
  simp only [declaration, kind_bind, show c.current.kind = .keyword .functionKw from hk]
  rfl

/-- A superclass is read unless it is the class itself, or has a name without characters, which
would be taken for none. -/
theorem superclass_run {name : Bytes} {parent : Option Bytes} (hself : parent ≠ some name)
    (hempty : parent ≠ some []) {c c' : Cursor σ} (hr : c.Reads (Stmt.superclassSymbols parent) c')
    (hnext : c'.current.kind = .punctuator .braceLeft) :
    superclass name c = .ok parent c' := by
  rw [superclass]
  cases parent with
  | none =>
      rw [Stmt.superclassSymbols, Cursor.reads_nil] at hr
      subst hr
      rw [bind_ok (accept_of_ne (by rw [hnext]; exact fun h => by cases h))]
      rfl
  | some parent =>
      obtain ⟨hless, hparent, rfl⟩ := hr
      rw [bind_ok (accept_of_eq (Token.kind_of_symbol? hless)), if_pos rfl,
        bind_ok (identifier_run hparent), Token.value_of_symbol?_name hparent,
        if_neg fun h => hself (congrArg some h), if_neg fun h => hempty (congrArg some h)]
      rfl

/-- A class is complete if its methods are. -/
theorem complete_classDecl {name : Bytes} {parent : Option Bytes} {methods : List FunctionDecl}
    (hcanon : (Stmt.classDecl name parent methods).canonical = true)
    (hmethods : ∀ f ∈ methods, CompleteFunction σ f) :
    CompleteStmt σ (.classDecl name parent methods) := by
  refine complete_of_declaration rfl fun d c c' hr => ?_
  simp only [Stmt.canonical, Bool.and_eq_true, decide_eq_true_eq] at hcanon
  obtain ⟨⟨hself, hempty⟩, -⟩ := hcanon
  simp only [Stmt.symbols, List.cons_append, List.append_assoc, Cursor.reads_cons] at hr
  obtain ⟨hkey, hname, hr⟩ := hr
  obtain ⟨c₁, hr₁, hr₂⟩ := Cursor.reads_append.mp hr
  have hbrace : c₁.current.kind = .punctuator .braceLeft := Token.kind_of_symbol? hr₂.1
  have hitems : (braced (functionDecl (declaration d))).Delivers c₁ (∀ f ∈ methods, f.need ≤ d)
      methods c' := by
    refine braced_delivers (S := FunctionDecl.symbols) ?_ ?_ ?_
    · intro f _ c c₁ hr
      refine ⟨?_, hr.remaining_lt f.symbols_ne_nil⟩
      cases f
      rw [Token.kind_of_symbol? hr.1]
      rfl
    · intro f hf c c₁ hr _
      exact hmethods f hf d c c₁ hr
    · rw [← FunctionDecl.symbolsAll_eq_flatMap]
      exact hr₂
  have hall : (do
      let name ← identifier
      let parent ← superclass name.value
      let methods ← braced (functionDecl (declaration d))
      return Stmt.classDecl name.value parent methods).Delivers c.step
        (∀ f ∈ methods, f.need ≤ d) (.classDecl name parent methods) c' := by
    refine Delivers.of_bind_ok (identifier_run hname) ?_
    rw [Token.value_of_symbol?_name hname]
    exact Delivers.of_bind_ok (superclass_run hself hempty hr₁ hbrace) (hitems.then_ok rfl)
  refine (hall.of_run_eq ?_).congr ?_
  · have hk := Token.kind_of_symbol? hkey
    simp only [declaration, kind_bind, show c.current.kind = .keyword .classKw from hk]
    rfl
  · rw [Stmt.need, FunctionDecl.needs_le_iff]

/-! ### Statements -/

/-- An expression with its semicolon is delivered. -/
theorem expressionStatement_delivers {e : Expr} (he : e.canonical = true) {d : Nat}
    {c c' : Cursor σ} (hr : c.Reads (e.symbols ++ [.punct .semicolon]) c') :
    (expressionStatement (expression d)).Delivers c (e.need ≤ d) (.expression e) c' := by
  obtain ⟨c₁, hr₁, hsemi, rfl⟩ := Cursor.reads_append.mp hr
  have hwhole := (e.complete σ he).whole d c c₁ hr₁ (by rw [Token.kind_of_symbol? hsemi]; rfl)
  refine hwhole.then_ok ?_
  rw [bind_ok (expect_run hsemi)]
  rfl

/-- A statement that is an expression is complete. -/
theorem complete_expression {e : Expr} (hcanon : (Stmt.expression e).canonical = true) :
    CompleteStmt σ (.expression e) := by
  have he : e.canonical = true := by
    rw [Stmt.canonical] at hcanon
    exact hcanon
  refine complete_of_statement hcanon rfl (Nat.succ_pos _) fun d c c' hr _ => ?_
  have hopens := Cursor.opensExpr_of_reads he hr
  exact ((expressionStatement_delivers he hr).of_run_eq
    (statement_run_of_opensExpr hopens d)).congr Nat.succ_le_succ_iff.symm

/-- A statement that prints is complete. -/
theorem complete_print {e : Expr} (hcanon : (Stmt.print e).canonical = true) :
    CompleteStmt σ (.print e) := by
  have he : e.canonical = true := by
    rw [Stmt.canonical] at hcanon
    exact hcanon
  refine complete_of_statement hcanon rfl (Nat.succ_pos _) fun d c c' hr _ => ?_
  obtain ⟨hkey, hr⟩ := hr
  obtain ⟨c₁, hr₁, hsemi, rfl⟩ := Cursor.reads_append.mp hr
  have hk := Token.kind_of_symbol? hkey
  have hwhole := (e.complete σ he).whole d c.step c₁ hr₁
    (by rw [Token.kind_of_symbol? hsemi]; rfl)
  have hall : (do
      let e ← expression d
      let _ ← expect .semicolon
      return Stmt.print e).Delivers c.step (e.need ≤ d) (.print e) c₁.step := by
    refine hwhole.then_ok ?_
    rw [bind_ok (expect_run hsemi)]
    rfl
  refine (hall.of_run_eq ?_).congr Nat.succ_le_succ_iff.symm
  simp only [statement, kind_bind, show c.current.kind = .keyword .printKw from hk]
  rfl

/-- A statement that returns is complete, with a value or without. -/
theorem complete_return {value : Option Expr} (hcanon : (Stmt.return value).canonical = true) :
    CompleteStmt σ (.return value) := by
  have hv : Stmt.clauseCanonical value = true := by
    rw [Stmt.canonical] at hcanon
    exact hcanon
  refine complete_of_statement hcanon rfl (Nat.succ_pos _) fun d c c' hr _ => ?_
  obtain ⟨hkey, hr⟩ := hr
  obtain ⟨c₁, hr₁, hsemi, rfl⟩ := Cursor.reads_append.mp hr
  have hk := Token.kind_of_symbol? hkey
  have hvalue := optionalBefore_delivers rfl rfl hv hr₁ (Token.kind_of_symbol? hsemi) (d := d)
  have hall : (do
      let value ← optionalBefore .semicolon (expression d)
      let _ ← expect .semicolon
      return Stmt.return value).Delivers c.step (Stmt.clauseNeed value ≤ d) (.return value)
        c₁.step := by
    refine hvalue.then_ok ?_
    rw [bind_ok (expect_run hsemi)]
    rfl
  refine (hall.of_run_eq ?_).congr Nat.succ_le_succ_iff.symm
  simp only [statement, kind_bind, show c.current.kind = .keyword .returnKw from hk]
  rfl

/-- A loop is as open as its body. -/
theorem complete_while {test : Expr} {body : Stmt}
    (hcanon : (Stmt.while test body).canonical = true) (hbody : CompleteStmt σ body) :
    CompleteStmt σ (.while test body) := by
  refine complete_of_statement hcanon rfl (Nat.succ_pos _) fun d c c' hr helse => ?_
  simp only [Stmt.canonical, Bool.and_eq_true, Bool.not_eq_true'] at hcanon
  obtain ⟨⟨htest, hdecl⟩, -⟩ := hcanon
  obtain ⟨hkey, hr⟩ := hr
  have hk := Token.kind_of_symbol? hkey
  have hsplit : c.step.Reads ((.punct .parenLeft :: test.symbols ++ [.punct .parenRight])
      ++ body.symbols) c' := by simpa using hr
  obtain ⟨c₁, hr₁, hr₂⟩ := Cursor.reads_append.mp hsplit
  have hcondition := condition_delivers (test.complete σ htest) hr₁ (d := d)
  have hstmt := hbody.statement hdecl d c₁ c' hr₂ helse
  have hall : (do
      let test ← condition (expression d)
      let body ← statement d
      return Stmt.while test body).Delivers c.step (test.need ≤ d ∧ body.need ≤ d)
        (.while test body) c' := hcondition.bind (hstmt.then_ok rfl)
  refine (hall.of_run_eq ?_).congr ?_
  · simp only [statement, kind_bind, show c.current.kind = .keyword .whileKw from hk]
    rfl
  · rw [Stmt.need, Nat.succ_le_succ_iff, Nat.max_le]

/-- The branch before an `else` is not open, and the last branch is as open as the whole. -/
theorem complete_branch {test : Expr} {yes : Stmt} {no : Option Stmt}
    (hcanon : (Stmt.branch test yes no).canonical = true) (hyes : CompleteStmt σ yes)
    (hno : ∀ s, no = some s → CompleteStmt σ s) : CompleteStmt σ (.branch test yes no) := by
  refine complete_of_statement hcanon rfl (by cases no <;> exact Nat.succ_pos _)
    fun d c c' hr helse => ?_
  have hstatement : statement (d + 1) c = branch (expression d) (statement d) c := by
    have hk : c.current.kind = .keyword .ifKw := by
      cases no <;> exact Token.kind_of_symbol? hr.1
    simp only [statement, kind_bind, hk]
  cases no with
  | none =>
      simp only [Stmt.canonical, Bool.and_eq_true, Bool.not_eq_true', Bool.and_true] at hcanon
      obtain ⟨⟨htest, hdecl⟩, -⟩ := hcanon
      have hsplit : c.step.Reads ((.punct .parenLeft :: test.symbols ++ [.punct .parenRight])
          ++ yes.symbols) c' := by
        simpa [Stmt.symbols] using hr.2
      obtain ⟨c₁, hr₁, hr₂⟩ := Cursor.reads_append.mp hsplit
      have hnext := helse rfl
      have hcondition := condition_delivers (test.complete σ htest) hr₁ (d := d)
      have hfirst := hyes.statement hdecl d c₁ c' hr₂ fun _ => hnext
      have hall : (branch (expression d) (statement d)).Delivers c
          (test.need ≤ d ∧ yes.need ≤ d) (.branch test yes none) c' := by
        refine Delivers.of_run_eq (y := condition (expression d) >>= _) ?_ (advance_bind _ c)
        refine hcondition.bind (hfirst.then_ok ?_)
        rw [kind_bind, if_neg hnext]
        rfl
      refine (hall.of_run_eq hstatement).congr ?_
      simp only [Stmt.need]
      omega
  | some s =>
      simp only [Stmt.canonical, Bool.and_eq_true, Bool.not_eq_true'] at hcanon
      obtain ⟨⟨⟨htest, hdecl⟩, -⟩, ⟨hclosed, hsdecl⟩, -⟩ := hcanon
      have hsplit : c.step.Reads ((.punct .parenLeft :: test.symbols ++ [.punct .parenRight])
          ++ (yes.symbols ++ .word .elseKw :: s.symbols)) c' := by
        simpa [Stmt.symbols] using hr.2
      obtain ⟨c₁, hr₁, hrest⟩ := Cursor.reads_append.mp hsplit
      obtain ⟨c₂, hr₂, hword, hr₃⟩ := Cursor.reads_append.mp hrest
      have hkind : c₂.current.kind = .keyword .elseKw := Token.kind_of_symbol? hword
      have hcondition := condition_delivers (test.complete σ htest) hr₁ (d := d)
      have hfirst := hyes.statement hdecl d c₁ c₂ hr₂ (by simp [hclosed])
      have hsecond := (hno s rfl).statement hsdecl d c₂.step c' hr₃ helse
      have hall : (branch (expression d) (statement d)).Delivers c
          (test.need ≤ d ∧ yes.need ≤ d ∧ s.need ≤ d) (.branch test yes (some s)) c' := by
        refine Delivers.of_run_eq (y := condition (expression d) >>= _) ?_ (advance_bind _ c)
        refine hcondition.bind (hfirst.bind ?_)
        have hlast : (statement d >>= fun no => pure (Stmt.branch test yes (some no))).Delivers
            c₂.step (s.need ≤ d) (.branch test yes (some s)) c' := hsecond.then_ok rfl
        refine hlast.of_run_eq ?_
        rw [kind_bind, if_pos hkind]
        rfl
      refine (hall.of_run_eq hstatement).congr ?_
      simp only [Stmt.need]
      omega

/-- The first clause of a `for` is delivered with the charges of its expression alone. -/
theorem initializer_delivers {init : Option Stmt} (hinit : Stmt.initCanonical init = true)
    {d : Nat} {c c' : Cursor σ} (hr : c.Reads (Stmt.initSymbols init) c') :
    (initializer (expression d)).Delivers c (Stmt.initNeed init ≤ d) init c' := by
  match init, hinit with
  | none, _ =>
      obtain ⟨hsemi, rfl⟩ := hr
      refine delivers_of_ok (Nat.zero_le _) ?_
      rw [initializer, bind_ok (accept_of_eq (Token.kind_of_symbol? hsemi))]
      rfl
  | some (.binding name value constant), hinit =>
      simp only [Stmt.initCanonical, Bool.and_eq_true, Bool.not_eq_true'] at hinit
      obtain ⟨rfl, hvalue⟩ := hinit
      have hk : c.current.kind = .keyword .letKw := Token.kind_of_symbol? hr.1
      have hall : (binding (expression d) >>= fun s => pure (some s)).Delivers c
          (Stmt.clauseNeed value ≤ d) (some (.binding name value false)) c' :=
        (binding_delivers hvalue hr).then_ok rfl
      refine hall.of_run_eq ?_
      rw [initializer, bind_ok (accept_of_ne (by rw [hk]; exact fun h => by cases h)),
        if_neg Bool.false_ne_true, kind_bind, if_pos hk]
  | some (.expression e), hinit =>
      have hopens := Cursor.opensExpr_of_reads hinit hr
      have hsemi : c.current.kind ≠ .punctuator .semicolon := Kind.ne_of_opensExpr hopens rfl
      have hlet : c.current.kind ≠ .keyword .letKw := Kind.ne_of_opensExpr hopens rfl
      have hall : (expressionStatement (expression d) >>= fun s => pure (some s)).Delivers c
          (e.need ≤ d) (some (.expression e)) c' :=
        (expressionStatement_delivers hinit hr).then_ok rfl
      refine hall.of_run_eq ?_
      rw [initializer, bind_ok (accept_of_ne hsemi), if_neg Bool.false_ne_true, kind_bind,
        if_neg hlet]

/-- A loop with clauses is complete if its body is. -/
theorem complete_for {init : Option Stmt} {test increment : Option Expr} {body : Stmt}
    (hcanon : (Stmt.for init test increment body).canonical = true)
    (hbody : CompleteStmt σ body) : CompleteStmt σ (.for init test increment body) := by
  refine complete_of_statement hcanon rfl (by cases init <;> exact Nat.succ_pos _)
    fun d c c' hr helse => ?_
  simp only [Stmt.canonical, Bool.and_eq_true, Bool.not_eq_true'] at hcanon
  obtain ⟨⟨⟨⟨hinit, htest⟩, hincrement⟩, hdecl⟩, -⟩ := hcanon
  have hsplit : c.Reads (.word .forKw :: .punct .parenLeft :: (Stmt.initSymbols init
      ++ (Stmt.clauseSymbols [] test ++ .punct .semicolon
      :: (Stmt.clauseSymbols [] increment ++ .punct .parenRight :: body.symbols)))) c' := by
    cases init <;> simpa [Stmt.symbols, Stmt.initSymbols] using hr
  obtain ⟨hkey, hopen, hrest⟩ := hsplit
  obtain ⟨c₁, hr₁, hrest⟩ := Cursor.reads_append.mp hrest
  obtain ⟨c₂, hr₂, hsemi, hrest⟩ := Cursor.reads_append.mp hrest
  obtain ⟨c₃, hr₃, hclose, hr₄⟩ := Cursor.reads_append.mp hrest
  have hk := Token.kind_of_symbol? hkey
  have hfirst := initializer_delivers hinit hr₁ (d := d)
  have hsecond :=
    optionalBefore_delivers rfl rfl htest hr₂ (Token.kind_of_symbol? hsemi) (d := d)
  have hthird :=
    optionalBefore_delivers rfl rfl hincrement hr₃ (Token.kind_of_symbol? hclose) (d := d)
  have hlast := hbody.statement hdecl d c₃.step c' hr₄ (by
    intro hopenBody
    exact helse (by cases init <;> exact hopenBody))
  have hall : (forLoop (expression d) (statement d)).Delivers c
      (Stmt.initNeed init ≤ d ∧ Stmt.clauseNeed test ≤ d ∧ Stmt.clauseNeed increment ≤ d ∧
        body.need ≤ d) (.for init test increment body) c' := by
    refine Delivers.of_run_eq (y := expect .parenLeft >>= _) ?_ (advance_bind _ c)
    refine Delivers.of_bind_ok (expect_run hopen) (hfirst.bind (hsecond.bind ?_))
    refine Delivers.of_bind_ok (expect_run hsemi) (hthird.bind ?_)
    exact Delivers.of_bind_ok (expect_run hclose) (hlast.then_ok rfl)
  refine (hall.of_run_eq ?_).congr ?_
  · simp only [statement, kind_bind, show c.current.kind = .keyword .forKw from hk]
  · simp only [Stmt.need]
    omega

/-- A block is complete if its statements are. -/
theorem complete_block {body : List Stmt} (hcanon : (Stmt.block body).canonical = true)
    (hbody : ∀ s ∈ body, s.canonical = true ∧ CompleteStmt σ s) :
    CompleteStmt σ (.block body) := by
  refine complete_of_statement hcanon rfl (Nat.succ_pos _) fun d c c' hr _ => ?_
  have hk := Token.kind_of_symbol? hr.1
  have hitems : (braced (declaration d)).Delivers c (∀ s ∈ body, s.need < d) body c' := by
    refine braced_delivers (S := Stmt.symbols) ?_ ?_ ?_
    · intro s hs c c₁ hr
      exact ⟨Cursor.opensItem_of_reads (hbody s hs).1 hr, hr.remaining_lt s.symbols_ne_nil⟩
    · intro s hs c c₁ hr helse
      exact (hbody s hs).2.item d c c₁ hr helse
    · rw [← Stmt.symbolsAll_eq_flatMap]
      exact hr
  have hall : (braced (declaration d) >>= fun body => pure (Stmt.block body)).Delivers c
      (∀ s ∈ body, s.need < d) (.block body) c' := hitems.then_ok rfl
  refine (hall.of_run_eq ?_).congr ?_
  · simp only [statement, kind_bind, show c.current.kind = .punctuator .braceLeft from hk]
  · rw [Stmt.need, Nat.succ_le_succ_iff, Stmt.needs_le_iff]

/-! ### Every statement -/

end Parse

mutual

/-- **Every canonical statement is complete.** Induction on the tree. -/
theorem Stmt.complete (σ : Type) [TokenSource σ] :
    (s : Stmt) → s.canonical = true → Parse.CompleteStmt σ s
  | .binding name value constant, h => Parse.complete_binding h
  | .function decl, h => by
    rw [Stmt.canonical] at h
    exact Parse.complete_function (decl.complete σ h)
  | .classDecl name superclass methods, h => by
    have hparts := h
    simp only [Stmt.canonical, Bool.and_eq_true] at hparts
    exact Parse.complete_classDecl h (FunctionDecl.completes σ methods hparts.2)
  | .expression e, h => Parse.complete_expression h
  | .print e, h => Parse.complete_print h
  | .return value, h => Parse.complete_return h
  | .branch condition yes none, h => by
    have hparts := h
    simp only [Stmt.canonical, Bool.and_eq_true] at hparts
    exact Parse.complete_branch h (yes.complete σ hparts.1.2) fun s hs => by cases hs
  | .branch condition yes (some no), h => by
    have hparts := h
    simp only [Stmt.canonical, Bool.and_eq_true] at hparts
    refine Parse.complete_branch h (yes.complete σ hparts.1.2) fun s hs => ?_
    rw [← Option.some.inj hs]
    exact no.complete σ hparts.2.2
  | .while condition body, h => by
    have hparts := h
    simp only [Stmt.canonical, Bool.and_eq_true] at hparts
    exact Parse.complete_while h (body.complete σ hparts.2)
  | .for init condition increment body, h => by
    have hparts := h
    simp only [Stmt.canonical, Bool.and_eq_true] at hparts
    exact Parse.complete_for h (body.complete σ hparts.2)
  | .block body, h => by
    have hparts := h
    rw [Stmt.canonical] at hparts
    exact Parse.complete_block h (Stmt.completes σ body hparts)

/-- Every statement of a canonical list is complete. -/
theorem Stmt.completes (σ : Type) [TokenSource σ] :
    (ss : List Stmt) → Stmt.canonicals ss = true →
      ∀ s ∈ ss, s.canonical = true ∧ Parse.CompleteStmt σ s
  | [], _, _, hmem => absurd hmem List.not_mem_nil
  | s :: ss, h, s', hmem => by
    simp only [Stmt.canonicals, Bool.and_eq_true] at h
    rcases List.mem_cons.mp hmem with heq | hmem
    · rw [heq]
      exact ⟨h.1, s.complete σ h.1⟩
    · exact Stmt.completes σ ss h.2 s' hmem

/-- Every canonical function is complete. -/
theorem FunctionDecl.complete (σ : Type) [TokenSource σ] :
    (f : FunctionDecl) → f.canonical = true → Parse.CompleteFunction σ f
  | .mk name params body, h => by
    have hparts := h
    simp only [FunctionDecl.canonical, Bool.and_eq_true] at hparts
    exact Parse.functionDecl_delivers h (Stmt.completes σ body hparts.2)

/-- Every function of a canonical list is complete. -/
theorem FunctionDecl.completes (σ : Type) [TokenSource σ] :
    (fs : List FunctionDecl) → FunctionDecl.canonicals fs = true →
      ∀ f ∈ fs, Parse.CompleteFunction σ f
  | [], _, _, hmem => absurd hmem List.not_mem_nil
  | f :: fs, h, f', hmem => by
    simp only [FunctionDecl.canonicals, Bool.and_eq_true] at h
    rcases List.mem_cons.mp hmem with heq | hmem
    · rw [heq]
      exact f.complete σ h.1
    · exact FunctionDecl.completes σ fs h.2 f' hmem

end

/-! ### Programs -/

namespace Program

variable {σ : Type} [TokenSource σ]

/-- **A canonical program is parsed from every source that spells it** if its nesting is within the
limit; otherwise the parse ends in the fault of the nesting limit. -/
theorem ofTokens_of_reads {setting : Int} {source : σ} {p : Program} {c' : Cursor σ}
    (hcanon : p.canonical = true) (hr : (Cursor.start source).Reads p.symbols c')
    (heof : c'.current.kind = .eof) :
    (p.need ≤ Parser.limitOf setting → ofTokens setting source = .ok p) ∧
      (¬p.need ≤ Parser.limitOf setting →
        ∃ span, ofTokens setting source = .error ⟨.tooDeep, span⟩) := by
  have hcomplete := Stmt.completes σ p hcanon
  rw [symbols, Stmt.symbolsAll_eq_flatMap] at hr
  have hitems : (Parse.collectWhile (· ≠ .eof)
      (Parse.declaration (Parser.limitOf setting))).Delivers (Cursor.start source)
        (∀ s ∈ p, s.need < Parser.limitOf setting) p c' := by
    refine Parse.collectWhile_delivers (F := (· ≠ .keyword .elseKw)) ?_ ?_ hr ?_ ?_
    · intro s hs c c₁ hr
      have hopens := Cursor.opensItem_of_reads (hcomplete s hs).1 hr
      simp only [Kind.opensItem, Parse.insideBraces, Bool.and_eq_true, decide_eq_true_eq] at hopens
      exact ⟨by simpa using hopens.2.2, hopens.1, hr.remaining_lt s.symbols_ne_nil⟩
    · intro s hs c c₁ hr helse
      exact (hcomplete s hs).2.item _ c c₁ hr helse
    · rw [heof]
      exact fun h => by cases h
    · rw [heof]
      rfl
  rw [need, Stmt.needs_le_iff, ofTokens, Parser.program, Parser.run, Parser.start]
  constructor
  · intro hfits
    simp only [hitems.1 hfits]
  · intro hdeep
    obtain ⟨span, c₁, hrun⟩ := hitems.2 hdeep
    exact ⟨span, by simp only [hrun]⟩

end Program

end ScriptFront

import ScriptFront.Proofs.Completeness.Delivery

/-!
# Canonical Expressions are Parsed

On tokens that spell a canonical expression, followed by a token that holds on to it no more than
its place allows, every level of the expression grammar delivers exactly that expression
(`Expr.complete`). The induction is on the tree, one lemma for each kind of node.

Two levels of the grammar are loops, and what their induction hypothesis has to say is not that the
operand is delivered but that **the loop has arrived at it**: the left operand of an operator is
itself a round of the loop that the operator continues. `Parse.Complete` holds both forms, for the
accesses (`Parse.Complete.accesses`) and for each level of binary operators
(`Parse.Complete.tier`).
-/

namespace ScriptFront

open Text

/-! ### How expressions begin -/

namespace Kind

/-- The kinds of token that a primary expression begins with. -/
def opensPrimary : Kind → Bool
  | .identifier | .number | .string => true
  | .keyword k => [.trueKw, .falseKw, .superKw, .thisKw].contains k
  | .punctuator p => p = .parenLeft
  | _ => false

/-- The kinds of token that an expression begins with. -/
def opensExpr (k : Kind) : Bool :=
  k.opensPrimary || k.isUnary

/-- No kind that opens a primary expression is a unary operator. -/
theorem not_isUnary_of_opensPrimary {k : Kind} (h : k.opensPrimary = true) :
    k.isUnary = false := by
  cases k with
  | punctuator p => cases p <;> first | rfl | cases h
  | _ => rfl

/-- A unary operator and an assignment differ from every delimiter, so an expression never begins
with the token that would end it. -/
theorem ne_of_opensExpr {k k' : Kind} (h : k.opensExpr = true) (h' : k'.opensExpr = false) :
    k ≠ k' := by
  rintro rfl
  rw [h] at h'
  cases h'

end Kind

/-- A reference opens a primary expression, also the one to the current object. -/
theorem Symbol.opensPrimary_reference (name : Bytes) :
    (Symbol.reference name).kind.opensPrimary = true := by
  rw [Symbol.reference]
  split <;> rfl

/-- A canonical expression begins with a token that opens one, and with a primary if it binds like
an access. -/
theorem Expr.opens : (e : Expr) → e.canonical = true →
    ∃ s ss, e.symbols = s :: ss ∧ s.kind.opensExpr = true ∧
      (9 ≤ e.rank → s.kind.opensPrimary = true)
  | .boolean value, _ => by
    refine ⟨_, _, rfl, ?_, fun _ => ?_⟩ <;> cases value <;> rfl
  | .number _, _ | .string _, _ | .super _, _ | .grouping _, _ =>
    ⟨_, _, rfl, rfl, fun _ => rfl⟩
  | .reference name, _ => by
    have h := Symbol.opensPrimary_reference name
    exact ⟨_, _, rfl, by simp [Kind.opensExpr, h], fun _ => h⟩
  | .unary operator right, h => by
    simp only [canonical, Bool.and_eq_true] at h
    exact ⟨_, _, rfl, by simp [Symbol.kind, Kind.opensExpr, h.1.1], fun h9 => by simp [rank] at h9⟩
  | .binary left operator right, h => by
    simp only [canonical, Bool.and_eq_true] at h
    obtain ⟨s, ss, hs, hopen, -⟩ := left.opens h.1.2
    obtain ⟨i, level, hi, hk, -⟩ := BinaryLevel.exists_of_isArithmetic h.1.1.1.1
    refine ⟨s, ss ++ .fixed operator :: right.symbols, by simp [symbols, hs], hopen, ?_⟩
    have hrank := BinaryLevel.rank_of_holds hi hk
    have hlt := BinaryLevel.lt_of_getElem? hi
    simp only [rank]
    omega
  | .logical left operator right, h => by
    simp only [canonical, Bool.and_eq_true] at h
    obtain ⟨s, ss, hs, hopen, -⟩ := left.opens h.1.2
    obtain ⟨i, level, hi, hk, -⟩ := BinaryLevel.exists_of_isLogical h.1.1.1.1
    refine ⟨s, ss ++ .fixed operator :: right.symbols, by simp [symbols, hs], hopen, ?_⟩
    have hrank := BinaryLevel.rank_of_holds hi hk
    have hlt := BinaryLevel.lt_of_getElem? hi
    simp only [rank]
    omega
  | .assign name operator value, _ => by
    have h := Symbol.opensPrimary_reference name
    exact ⟨_, _, rfl, by simp [Kind.opensExpr, h], fun _ => h⟩
  | .get object name, h => by
    simp only [canonical, Bool.and_eq_true, decide_eq_true_eq] at h
    obtain ⟨s, ss, hs, hopen, hprim⟩ := object.opens h.2
    exact ⟨s, _, by rw [symbols, hs, List.cons_append], hopen, fun _ => hprim h.1⟩
  | .set object name operator value, h => by
    simp only [canonical, Bool.and_eq_true, decide_eq_true_eq] at h
    obtain ⟨s, ss, hs, hopen, hprim⟩ := object.opens h.1.2
    exact ⟨s, _, by rw [symbols, hs, List.cons_append], hopen, fun h9 => by simp [rank] at h9⟩
  | .call callee args, h => by
    simp only [canonical, Bool.and_eq_true, decide_eq_true_eq] at h
    obtain ⟨s, ss, hs, hopen, hprim⟩ := callee.opens h.1.2
    exact ⟨s, _, by rw [symbols, hs, List.cons_append, List.cons_append], hopen,
      fun _ => hprim h.1.1⟩

/-- Where a canonical expression is read, the current kind opens one. -/
theorem Cursor.opensExpr_of_reads {σ : Type} [TokenSource σ] {c c' : Cursor σ} {e : Expr}
    {ss : List Symbol} (he : e.canonical = true) (h : c.Reads (e.symbols ++ ss) c') :
    c.current.kind.opensExpr = true := by
  obtain ⟨s, ts, hs, hopen, -⟩ := e.opens he
  rw [hs, List.cons_append, reads_cons] at h
  rw [Token.kind_of_symbol? h.1, hopen]

/-! ### What a token says from its symbol -/

namespace Token

/-- The value of a token that stands for a name is that name. -/
theorem value_of_symbol?_name {t : Token} {name : Bytes} (h : t.symbol? = some (.name name)) :
    t.value = name := by
  have hk := kind_of_symbol? h
  simpa [symbol?, show t.kind = .identifier from hk] using h

/-- The value of a token that stands for a text is that text. -/
theorem value_of_symbol?_text {t : Token} {value : Bytes} (h : t.symbol? = some (.text value)) :
    t.value = value := by
  have hk := kind_of_symbol? h
  simpa [symbol?, show t.kind = .string from hk] using h

/-- The value of a token that stands for a number is read as that number. -/
theorem read?_of_symbol?_number {t : Token} {x : Binary64} (h : t.symbol? = some (.number x)) :
    Numeral.read? t.value = some x := by
  have hk := kind_of_symbol? h
  simpa [symbol?, show t.kind = .number from hk] using h

end Token

namespace Parse

variable {σ : Type} [TokenSource σ]

/-! ### The levels of the grammar -/

/-- Expressions that bind at least as tightly as the level of binary operators at place `i`, with
`d` charges left. -/
def tier (d i : Nat) : Parse σ Expr :=
  binaries (BinaryLevel.all.drop i) (unary d)

/-- One round of a level of binary operators. -/
def binaryRound (level : BinaryLevel) (operand : Parse σ Expr) (left : Expr) : Parse σ Expr := do
  let operator ← advance
  let right ← operand
  return level.node left operator.kind right

/-- One round of calls and property accesses. -/
def accessRound (inner : Parse σ Expr) (e : Expr) : Parse σ Expr := do
  let t ← advance
  if t.kind = .punctuator .parenLeft then return .call e (← parenthesized inner)
  else return .get e (← identifier).value

/-- **A tier of binary operators** is an operand of the next tier and rounds of its level. -/
theorem tier_eq {i : Nat} {level : BinaryLevel} (hi : BinaryLevel.all[i]? = some level) (d : Nat) :
    (tier d i : Parse σ Expr) =
      (tier d (i + 1) >>= foldWhile level.holds (binaryRound level (tier d (i + 1)))) := by
  obtain ⟨hlt, hget⟩ := List.getElem?_eq_some_iff.mp hi
  rw [tier, List.drop_eq_getElem_cons hlt, hget]
  rfl

/-- **What completeness says of an expression**, level by level. An operator loop has arrived at
the expression if the token after it does not bind more tightly than the operators of the loop. -/
structure Complete (σ : Type) [TokenSource σ] (e : Expr) : Prop where
  /-- The loop of calls and accesses arrives at it. -/
  accesses : 9 ≤ e.rank → ∀ (d : Nat) (c c' : Cursor σ), c.Reads e.symbols c' →
    (accesses (expression d)).Arrives c (e.depth ≤ d) Kind.isAccess
      (accessRound (expression d)) e c'
  /-- It is delivered as a unary operand. -/
  unary : 8 ≤ e.rank → ∀ (d : Nat) (c c' : Cursor σ), c.Reads e.symbols c' →
    c'.current.kind.rank < 8 → (unary d).Delivers c (e.depth ≤ d) e c'
  /-- The loop of each level of binary operators arrives at it. -/
  tier : ∀ (i : Nat) (level : BinaryLevel), BinaryLevel.all[i]? = some level → i + 2 ≤ e.rank →
    ∀ (d : Nat) (c c' : Cursor σ), c.Reads e.symbols c' → c'.current.kind.rank ≤ i + 2 →
    (tier d i).Arrives c (e.depth ≤ d) level.holds (binaryRound level (tier d (i + 1))) e c'
  /-- It is delivered as a whole. -/
  whole : ∀ (d : Nat) (c c' : Cursor σ), c.Reads e.symbols c' → c'.current.kind.rank = 0 →
    (expression d).Delivers c (e.need ≤ d) e c'

/-- A token that binds less tightly than a level does not continue it. -/
theorem not_holds_of_rank_lt {i : Nat} {level : BinaryLevel} {k : Kind}
    (hi : BinaryLevel.all[i]? = some level) (hk : k.rank < i + 2) : level.holds k = false := by
  cases h : level.holds k with
  | false => rfl
  | true =>
      have := BinaryLevel.rank_of_holds hi h
      omega

/-- What opens an access has the highest rank. -/
theorem not_isAccess_of_rank_lt {k : Kind} (hk : k.rank < 8) : k.isAccess = false := by
  cases h : k.isAccess with
  | false => rfl
  | true =>
      rcases (by simpa [Kind.isAccess] using h : _ ∨ _) with rfl | rfl <;>
        exact absurd hk (by decide)

/-- What has the rank of no operator is no assignment. -/
theorem not_isAssignment_of_rank {k : Kind} (hk : k.rank = 0) : k.isAssignment = false := by
  cases h : k.isAssignment with
  | false => rfl
  | true => simp [Kind.rank, h] at hk

/-- The operand of a level is delivered where the loop of the next level stops. -/
theorem Complete.deliver {e : Expr} (h : Complete σ e) {i : Nat} (hi : i ≤ 6)
    (hrank : i + 2 ≤ e.rank) {d : Nat} {c c' : Cursor σ} (hr : c.Reads e.symbols c')
    (hk : c'.current.kind.rank < i + 2) : (Parse.tier d i).Delivers c (e.depth ≤ d) e c' := by
  by_cases hsix : i = 6
  · subst hsix
    exact h.unary hrank d c c' hr hk
  · have hlt : i < BinaryLevel.all.length := by
      show i < 6
      omega
    have hlevel := List.getElem?_eq_getElem hlt
    exact (h.tier i _ hlevel hrank d c c' hr (by omega)).stop (not_holds_of_rank_lt hlevel hk)

/-! ### From one level to the looser ones -/

/-- What is delivered at one level is delivered at every looser one where the token after it does
not continue those. Induction on the distance of the levels. -/
theorem deliver_below {e : Expr} {j : Nat} (hj : j ≤ 6)
    (htop : ∀ (d : Nat) (c c' : Cursor σ), c.Reads e.symbols c' → c'.current.kind.rank < j + 2 →
      (tier d j).Delivers c (e.depth ≤ d) e c') :
    ∀ n i, i + n = j → ∀ (d : Nat) (c c' : Cursor σ), c.Reads e.symbols c' →
      c'.current.kind.rank < i + 2 → (tier d i).Delivers c (e.depth ≤ d) e c' := by
  intro n
  induction n with
  | zero =>
      intro i hij d c c' hr hk
      obtain rfl : i = j := by omega
      exact htop d c c' hr hk
  | succ n ih =>
      intro i hij d c c' hr hk
      have hlt : i < BinaryLevel.all.length := by
        show i < 6
        omega
      have hlevel := List.getElem?_eq_getElem hlt
      have hnext := ih (i + 1) (by omega) d c c' hr (by omega)
      rw [tier_eq hlevel]
      exact (Arrives.start hnext).stop (not_holds_of_rank_lt hlevel hk)

/-- **An expression of a tighter tier arrives in a looser one**: it is an operand there, and the
loops of the tiers in between make no round. -/
theorem arrives_below {e : Expr} {j : Nat} (hj : j ≤ 6)
    (htop : ∀ (d : Nat) (c c' : Cursor σ), c.Reads e.symbols c' → c'.current.kind.rank < j + 2 →
      (tier d j).Delivers c (e.depth ≤ d) e c')
    {i : Nat} {level : BinaryLevel} (hi : BinaryLevel.all[i]? = some level) (hij : i < j) {d : Nat}
    {c c' : Cursor σ} (hr : c.Reads e.symbols c') (hk : c'.current.kind.rank ≤ i + 2) :
    (tier d i).Arrives c (e.depth ≤ d) level.holds (binaryRound level (tier d (i + 1))) e c' := by
  rw [tier_eq hi]
  exact Arrives.start
    (deliver_below hj htop (j - (i + 1)) (i + 1) (by omega) d c c' hr (by omega))

/-- An operand of the loosest level of operators is delivered as a whole expression before a token
that continues nothing. -/
theorem whole_of_tier {e : Expr}
    (h : ∀ (d : Nat) (c c' : Cursor σ), c.Reads e.symbols c' → c'.current.kind.rank < 2 →
      (tier d 0).Delivers c (e.depth ≤ d) e c') (d : Nat) (c c' : Cursor σ)
    (hr : c.Reads e.symbols c') (hk : c'.current.kind.rank = 0) :
    (expression d).Delivers c (e.need ≤ d) e c' := by
  cases d with
  | zero => exact delivers_tooDeep (by simp [Expr.need])
  | succ d =>
      have hdel := h d c c' hr (by omega)
      refine (hdel.then_ok ?_).congr (Nat.succ_le_succ_iff).symm
      rw [kind_bind, if_neg (by simp [not_isAssignment_of_rank hk])]
      rfl

/-- Without a unary operator in front, a unary operand is read as accesses. -/
theorem unary_run_of_not_isUnary {c : Cursor σ} (h : c.current.kind.isUnary = false) (d : Nat) :
    unary d c = accesses (expression d) c := by
  cases d with
  | zero => simp only [unary, unaryOver, kind_bind, h]; rfl
  | succ d => simp only [unary, unaryOver, kind_bind, h]; rfl

/-- **What binds like a unary operand** is complete once it is delivered as one. -/
theorem complete_of_unary {e : Expr} (hrank : e.rank = 8)
    (h : ∀ (d : Nat) (c c' : Cursor σ), c.Reads e.symbols c' → c'.current.kind.rank < 8 →
      (unary d).Delivers c (e.depth ≤ d) e c') : Complete σ e where
  accesses := fun h9 => by omega
  unary := fun _ => h
  tier := fun i level hi _ d c c' hr hk =>
    arrives_below (Nat.le_refl 6) h hi (BinaryLevel.lt_of_getElem? hi) hr hk
  whole := whole_of_tier (deliver_below (Nat.le_refl 6) h 6 0 rfl)

/-- **What binds like an access** is complete once the loop of accesses arrives at it. -/
theorem complete_of_accesses {e : Expr} (hcanon : e.canonical = true) (hrank : 9 ≤ e.rank)
    (h : ∀ (d : Nat) (c c' : Cursor σ), c.Reads e.symbols c' →
      (accesses (expression d)).Arrives c (e.depth ≤ d) Kind.isAccess
        (accessRound (expression d)) e c') : Complete σ e := by
  have hunary : ∀ (d : Nat) (c c' : Cursor σ), c.Reads e.symbols c' →
      c'.current.kind.rank < 8 → (unary d).Delivers c (e.depth ≤ d) e c' := by
    intro d c c' hr hk
    obtain ⟨s, ss, hs, -, hprim⟩ := e.opens hcanon
    have hhead : c.current.symbol? = some s := by
      rw [hs] at hr
      exact hr.1
    have hnot := Kind.not_isUnary_of_opensPrimary (hprim hrank)
    rw [← Token.kind_of_symbol? hhead] at hnot
    exact ((h d c c' hr).stop (not_isAccess_of_rank_lt hk)).of_run_eq
      (unary_run_of_not_isUnary hnot d)
  exact {
    accesses := fun _ => h
    unary := fun _ => hunary
    tier := fun i level hi _ d c c' hr hk =>
      arrives_below (Nat.le_refl 6) hunary hi (BinaryLevel.lt_of_getElem? hi) hr hk
    whole := whole_of_tier (deliver_below (Nat.le_refl 6) hunary 6 0 rfl) }

/-- **A primary expression** is complete once it is delivered as one. -/
theorem complete_of_primary {e : Expr} (hcanon : e.canonical = true) (hrank : e.rank = 10)
    (h : ∀ (d : Nat) (c c' : Cursor σ), c.Reads e.symbols c' →
      (primary (expression d)).Delivers c (e.depth ≤ d) e c') : Complete σ e :=
  complete_of_accesses hcanon (by omega) fun d c c' hr => Arrives.start (h d c c' hr)

/-! ### Primary expressions -/

/-- A truth value is complete on every level. -/
theorem complete_boolean (value : Bool) : Complete σ (.boolean value) := by
  refine complete_of_primary rfl rfl fun d c c' hr => delivers_of_ok (Nat.zero_le _) ?_
  obtain ⟨hs, rfl⟩ := hr
  have hk := Token.kind_of_symbol? hs
  cases value <;> simp only [primary, current_bind, show c.current.kind = _ from hk] <;> rfl

/-- A number is complete on every level. -/
theorem complete_number (value : Binary64) : Complete σ (.number value) := by
  refine complete_of_primary rfl rfl fun d c c' hr => delivers_of_ok (Nat.zero_le _) ?_
  obtain ⟨hs, rfl⟩ := hr
  have hk := Token.kind_of_symbol? hs
  simp only [primary, current_bind, show c.current.kind = .number from hk,
    Token.read?_of_symbol?_number hs]
  rfl

/-- A text is complete on every level. -/
theorem complete_string (value : Bytes) : Complete σ (.string value) := by
  refine complete_of_primary rfl rfl fun d c c' hr => delivers_of_ok (Nat.zero_le _) ?_
  obtain ⟨hs, rfl⟩ := hr
  have hk := Token.kind_of_symbol? hs
  simp only [primary, current_bind, show c.current.kind = .string from hk,
    Token.value_of_symbol?_text hs]
  rfl

/-- A reference is complete on every level. -/
theorem complete_reference (name : Bytes) : Complete σ (.reference name) := by
  refine complete_of_primary rfl rfl fun d c c' hr => delivers_of_ok (Nat.zero_le _) ?_
  obtain ⟨hs, rfl⟩ := hr
  have hk := Token.kind_of_symbol? hs
  by_cases hthis : name = utf8 "this"
  · subst hthis
    simp only [primary, current_bind, show c.current.kind = .keyword .thisKw from hk]
    rfl
  · rw [Symbol.reference, if_neg hthis] at hs hk
    simp only [primary, current_bind, show c.current.kind = .identifier from hk,
      Token.value_of_symbol?_name hs]
    rfl

/-- A method of the superclass is complete on every level. -/
theorem complete_super (method : Bytes) : Complete σ (.super method) := by
  refine complete_of_primary rfl rfl fun d c c' hr => delivers_of_ok (Nat.zero_le _) ?_
  obtain ⟨hs, hdot, hname, rfl⟩ := hr
  have hk := Token.kind_of_symbol? hs
  simp only [primary, current_bind, show c.current.kind = .keyword .superKw from hk,
    advance_bind]
  rw [bind_ok (expect_run hdot), bind_ok (identifier_run hname), Token.value_of_symbol?_name hname]
  rfl

/-- An expression in parentheses is complete if the expression is. -/
theorem complete_grouping {inner : Expr} (hcanon : inner.canonical = true)
    (h : Complete σ inner) : Complete σ (.grouping inner) := by
  refine complete_of_primary hcanon rfl fun d c c' hr => ?_
  obtain ⟨hopen, hr⟩ := hr
  obtain ⟨c₁, hr₁, hclose, rfl⟩ := Cursor.reads_append.mp hr
  have hk := Token.kind_of_symbol? hopen
  have hinner := h.whole d c.step c₁ hr₁ (by rw [Token.kind_of_symbol? hclose]; rfl)
  have hall : (do
      let e ← expression d
      let _ ← expect .parenRight
      return Expr.grouping e).Delivers c.step (inner.need ≤ d) (.grouping inner) c₁.step := by
    refine hinner.then_ok ?_
    rw [bind_ok (expect_run hclose)]
    rfl
  refine hall.of_run_eq ?_
  simp only [primary, current_bind, show c.current.kind = .punctuator .parenLeft from hk]
  rfl

/-! ### Calls and accesses -/

/-- Items between parentheses are delivered if each of them is delivered before a token that
continues nothing, and none begins with the closing parenthesis. After an item comes a comma or the
closing parenthesis, and neither continues it. -/
theorem parenthesized_delivers {α : Type} {item : Parse σ α} {S : α → List Symbol}
    {N : α → Prop} {as : List α} {c c' : Cursor σ}
    (hhead : ∀ a ∈ as, ∀ c c₁ : Cursor σ, c.Reads (S a) c₁ →
      c.current.kind ≠ .punctuator .parenRight)
    (hitem : ∀ a ∈ as, ∀ c c₁, c.Reads (S a) c₁ → c₁.current.kind.rank = 0 →
      item.Delivers c (N a) a c₁)
    (hr : c.Reads (Symbol.separated (as.map S) ++ [.punct .parenRight]) c') :
    (parenthesized item).Delivers c (∀ a ∈ as, N a) as c' := by
  cases as with
  | nil =>
      obtain ⟨hclose, rfl⟩ := hr
      refine delivers_of_ok (by simp) ?_
      rw [parenthesized, bind_ok (accept_of_eq (Token.kind_of_symbol? hclose))]
      rfl
  | cons a as =>
      rw [List.map_cons, Symbol.separated, List.append_assoc] at hr
      obtain ⟨c₁, hr₁, hr⟩ := Cursor.reads_append.mp hr
      obtain ⟨c₂, hr₂, hclose, rfl⟩ := Cursor.reads_append.mp hr
      rw [List.flatMap_map] at hr₂
      have hclosing := Token.kind_of_symbol? hclose
      have hnext : c₁.current.kind.rank = 0 := by
        cases as with
        | nil =>
            rw [List.flatMap_nil, Cursor.reads_nil] at hr₂
            rw [hr₂, hclosing]
            rfl
        | cons b bs =>
            rw [List.flatMap_cons, List.cons_append, Cursor.reads_cons] at hr₂
            rw [Token.kind_of_symbol? hr₂.1]
            rfl
      have hfirst := hitem a List.mem_cons_self c c₁ hr₁ hnext
      have hrest : (collectWhile (· = Kind.punctuator .comma)
          (do let _ ← advance; item)).Delivers c₁ (∀ b ∈ as, N b) as c₂ := by
        refine collectWhile_delivers (F := fun k => k.rank = 0) ?_ ?_ hr₂ ?_ ?_
        · intro b hb c c₁ hr
          have hlt := hr.remaining_lt (by simp)
          rw [Token.kind_of_symbol? hr.1]
          exact ⟨rfl, rfl, hlt⟩
        · intro b hb c c₁ hr hk
          exact (hitem b (List.mem_cons_of_mem _ hb) c.step c₁ hr.2 hk).of_run_eq rfl
        · rw [hclosing]
          rfl
        · rw [hclosing]
          rfl
      have hall : (do
          let first ← item
          let rest ← collectWhile (· = Kind.punctuator .comma) (do let _ ← advance; item)
          let _ ← expect .parenRight
          return first :: rest).Delivers c (N a ∧ ∀ b ∈ as, N b) (a :: as) c₂.step := by
        refine hfirst.bind (hrest.then_ok ?_)
        rw [bind_ok (expect_run hclose)]
        rfl
      refine (hall.of_run_eq ?_).congr (by simp)
      rw [parenthesized, bind_ok (accept_of_ne (hhead a List.mem_cons_self c c₁ hr₁))]
      rfl

/-- A call is complete if what is called and its arguments are. -/
theorem complete_call {callee : Expr} {args : List Expr}
    (hcanon : (Expr.call callee args).canonical = true) (hcallee : Complete σ callee)
    (hargs : ∀ e ∈ args, e.canonical = true ∧ Complete σ e) : Complete σ (.call callee args) := by
  refine complete_of_accesses hcanon (Nat.le_refl _) fun d c c' hr => ?_
  simp only [Expr.canonical, Bool.and_eq_true, decide_eq_true_eq] at hcanon
  rw [Expr.symbols, List.append_assoc, List.cons_append] at hr
  obtain ⟨c₁, hr₁, hopen, hr₂⟩ := Cursor.reads_append.mp hr
  have hk : c₁.current.kind = .punctuator .parenLeft := Token.kind_of_symbol? hopen
  have harrive := hcallee.accesses hcanon.1.1 d c c₁ hr₁
  have hparens : (parenthesized (expression d)).Delivers c₁.step (∀ e ∈ args, e.need ≤ d) args
      c' := by
    refine parenthesized_delivers (S := Expr.symbols) ?_ ?_ ?_
    · intro e he c c₁ hr
      rw [← List.append_nil e.symbols] at hr
      exact Kind.ne_of_opensExpr (Cursor.opensExpr_of_reads (hargs e he).1 hr) rfl
    · intro e he c c₁ hr hk
      exact (hargs e he).2.whole d c c₁ hr hk
    · rw [← Expr.symbolsEach_eq_map]
      exact hr₂
  have hround : (accessRound (expression d) callee).Delivers c₁ (∀ e ∈ args, e.need ≤ d)
      (.call callee args) c' := by
    have hcall : (parenthesized (expression d) >>= fun as => pure (Expr.call callee as)).Delivers
        c₁.step (∀ e ∈ args, e.need ≤ d) (.call callee args) c' := hparens.then_ok rfl
    refine hcall.of_run_eq ?_
    rw [accessRound, advance_bind, if_pos hk]
  have hlt : c'.remaining < c₁.remaining :=
    Cursor.Reads.remaining_lt (Cursor.reads_cons.mpr ⟨hopen, hr₂⟩) (by simp)
  refine (harrive.next ?_ rfl hround hlt).congr ?_
  · rw [hk]
    rfl
  · rw [← Expr.needs_le_iff, Expr.depth, Nat.max_le]

/-- An access is complete if its object is. -/
theorem complete_get {object : Expr} {name : Bytes}
    (hcanon : (Expr.get object name).canonical = true) (hobject : Complete σ object) :
    Complete σ (.get object name) := by
  refine complete_of_accesses hcanon (Nat.le_refl _) fun d c c' hr => ?_
  simp only [Expr.canonical, Bool.and_eq_true, decide_eq_true_eq] at hcanon
  obtain ⟨c₁, hr₁, hdot, hname, rfl⟩ := Cursor.reads_append.mp hr
  have hk := Token.kind_of_symbol? hdot
  have harrive := hobject.accesses hcanon.1 d c c₁ hr₁
  have hround : (accessRound (expression d) object).Delivers c₁ True (.get object name)
      c₁.step.step := by
    refine delivers_of_ok trivial ?_
    rw [accessRound, advance_bind, if_neg (by rw [hk]; decide), bind_ok (identifier_run hname),
      Token.value_of_symbol?_name hname]
    rfl
  have hreads : c₁.Reads [.punct .dot, .name name] c₁.step.step := ⟨hdot, hname, rfl⟩
  have hlt := hreads.remaining_lt (by simp)
  refine (harrive.next ?_ rfl hround hlt).congr ?_
  · rw [hk]
    rfl
  · rw [and_true]
    rfl

/-! ### Operators -/

/-- A unary operation is complete if its operand is. -/
theorem complete_unary {operator : Kind} {right : Expr}
    (hcanon : (Expr.unary operator right).canonical = true) (hright : Complete σ right) :
    Complete σ (.unary operator right) := by
  refine complete_of_unary rfl fun d c c' hr hk => ?_
  simp only [Expr.canonical, Bool.and_eq_true, decide_eq_true_eq] at hcanon
  obtain ⟨hop, hr⟩ := hr
  have hkind := Token.kind_of_symbol? hop
  have hisUnary : c.current.kind.isUnary = true := by
    rw [hkind]
    exact hcanon.1.1
  cases d with
  | zero =>
      refine @Delivers.of_run_eq _ _ _ _ _ _ _ _ c (delivers_tooDeep (by simp [Expr.depth])) ?_
      simp only [unary, unaryOver, kind_bind, hisUnary]
      rfl
  | succ d =>
      have hdel := hright.unary hcanon.1.2 d c.step c' hr hk
      have hall : (unary d >>= fun e => pure (Expr.unary c.current.kind e)).Delivers c.step
          (right.depth ≤ d) (.unary operator right) c' := by
        refine hdel.then_ok ?_
        rw [hkind]
        rfl
      refine (hall.of_run_eq ?_).congr Nat.succ_le_succ_iff.symm
      simp only [unary, unaryOver, kind_bind, hisUnary]
      rfl

/-- A node of a level of binary operators is complete: the loop arrives at the left operand and goes
on by one round. -/
theorem complete_node {i : Nat} {level : BinaryLevel} {left right e : Expr} {operator : Kind}
    (hi : BinaryLevel.all[i]? = some level) (hop : level.holds operator = true)
    (he : level.node left operator right = e)
    (hsymbols : e.symbols = left.symbols ++ .fixed operator :: right.symbols)
    (hdepth : e.depth = max left.depth right.depth) (herank : e.rank = operator.rank)
    (hleft : operator.rank ≤ left.rank) (hright : operator.rank < right.rank)
    (hl : Complete σ left) (hr : Complete σ right) : Complete σ e := by
  have hrank := BinaryLevel.rank_of_holds hi hop
  have hlt := BinaryLevel.lt_of_getElem? hi
  have harrive : ∀ (d : Nat) (c c' : Cursor σ), c.Reads e.symbols c' →
      c'.current.kind.rank ≤ i + 2 →
      (tier d i).Arrives c (e.depth ≤ d) level.holds (binaryRound level (tier d (i + 1))) e c' := by
    intro d c c' hread hk
    rw [hsymbols] at hread
    obtain ⟨c₁, hread₁, hoper, hread₂⟩ := Cursor.reads_append.mp hread
    have hkind : c₁.current.kind = operator := Token.kind_of_symbol? hoper
    have hfirst := hl.tier i level hi (by omega) d c c₁ hread₁ (by rw [hkind]; omega)
    have hsecond := hr.deliver (i := i + 1) (by omega) (by omega) (d := d) hread₂ (by omega)
    have hround : (binaryRound level (tier d (i + 1)) left).Delivers c₁ (right.depth ≤ d) e
        c' := by
      have hall : (tier d (i + 1) >>= fun r =>
          pure (level.node left c₁.current.kind r)).Delivers c₁.step (right.depth ≤ d) e c' := by
        refine hsecond.then_ok ?_
        rw [hkind, he]
        rfl
      exact hall.of_run_eq rfl
    have hless : c'.remaining < c₁.remaining :=
      Cursor.Reads.remaining_lt (Cursor.reads_cons.mpr ⟨hoper, hread₂⟩) (by simp)
    have heof : Kind.eof.rank < i + 2 := Nat.succ_pos _
    refine (hfirst.next (by rw [hkind, hop]) (not_holds_of_rank_lt hi heof) hround hless).congr ?_
    rw [hdepth, Nat.max_le]
  have hdeliver : ∀ (d : Nat) (c c' : Cursor σ), c.Reads e.symbols c' →
      c'.current.kind.rank < i + 2 → (tier d i).Delivers c (e.depth ≤ d) e c' :=
    fun d c c' hread hk =>
      (harrive d c c' hread (by omega)).stop (not_holds_of_rank_lt hi hk)
  refine ⟨fun h9 => by omega, fun h8 => by omega, ?_, ?_⟩
  · intro j level' hj hjrank d c c' hread hk
    by_cases hij : j = i
    · subst hij
      obtain rfl : level = level' := Option.some.inj (hi.symm.trans hj)
      exact harrive d c c' hread hk
    · exact arrives_below (by omega) hdeliver hj (by omega) hread hk
  · exact whole_of_tier (deliver_below (by omega) hdeliver i 0 (by omega))

/-- A binary operation is complete if its operands are. -/
theorem complete_binary {left right : Expr} {operator : Kind}
    (hcanon : (Expr.binary left operator right).canonical = true) (hl : Complete σ left)
    (hr : Complete σ right) : Complete σ (.binary left operator right) := by
  simp only [Expr.canonical, Bool.and_eq_true, decide_eq_true_eq] at hcanon
  obtain ⟨i, level, hi, hop, hnode⟩ := BinaryLevel.exists_of_isArithmetic hcanon.1.1.1.1
  exact complete_node hi hop (by rw [hnode]) rfl rfl rfl hcanon.1.1.1.2 hcanon.1.1.2 hl hr

/-- A logical operation is complete if its operands are. -/
theorem complete_logical {left right : Expr} {operator : Kind}
    (hcanon : (Expr.logical left operator right).canonical = true) (hl : Complete σ left)
    (hr : Complete σ right) : Complete σ (.logical left operator right) := by
  simp only [Expr.canonical, Bool.and_eq_true, decide_eq_true_eq] at hcanon
  obtain ⟨i, level, hi, hop, hnode⟩ := BinaryLevel.exists_of_isLogical hcanon.1.1.1.1
  exact complete_node hi hop (by rw [hnode]) rfl rfl rfl hcanon.1.1.1.2 hcanon.1.1.2 hl hr

/-- An assignment is complete: its target is delivered up to the operator, its value after that. -/
theorem complete_assignment {target value e : Expr} {operator : Kind}
    (hop : operator.isAssignment = true) (htarget : assignment? target operator value = some e)
    (hsymbols : e.symbols = target.symbols ++ .fixed operator :: value.symbols)
    (hdepth : e.depth = max target.depth value.depth) (herank : e.rank = 1)
    (htrank : 2 ≤ target.rank) (hvrank : 1 < value.rank) (ht : Complete σ target)
    (hv : Complete σ value) : Complete σ e := by
  refine ⟨fun h9 => by omega, fun h8 => by omega, fun i level _ hrank => by omega, ?_⟩
  intro d c c' hread hk
  cases d with
  | zero => exact delivers_tooDeep (by simp [Expr.need])
  | succ d =>
      rw [hsymbols] at hread
      obtain ⟨c₁, hread₁, hoper, hread₂⟩ := Cursor.reads_append.mp hread
      have hkind : c₁.current.kind = operator := Token.kind_of_symbol? hoper
      have hrank : c₁.current.kind.rank = 1 := by
        rw [hkind]
        simp [Kind.rank, hop]
      have hfirst := ht.deliver (i := 0) (by omega) htrank (d := d) hread₁ (by omega)
      have hsecond := hv.deliver (i := 0) (by omega) hvrank (d := d) hread₂ (by omega)
      have hwhole : (expression (d + 1)).Delivers c (target.depth ≤ d ∧ value.depth ≤ d) e c' := by
        refine hfirst.bind (.of_bind_ok rfl ?_)
        rw [if_pos (by rw [hkind, hop])]
        refine .of_bind_ok rfl (hsecond.then_ok ?_)
        rw [hkind, htarget]
        rfl
      refine hwhole.congr ?_
      rw [← Nat.max_le, ← hdepth]
      exact Nat.succ_le_succ_iff.symm

end Parse

/-! ### Every expression -/

mutual

/-- **Every canonical expression is complete.** Induction on the tree. -/
theorem Expr.complete (σ : Type) [TokenSource σ] :
    (e : Expr) → e.canonical = true → Parse.Complete σ e
  | .boolean value, _ => Parse.complete_boolean value
  | .number value, _ => Parse.complete_number value
  | .string value, _ => Parse.complete_string value
  | .reference name, _ => Parse.complete_reference name
  | .super method, _ => Parse.complete_super method
  | .unary operator right, h => by
    have hparts := h
    simp only [Expr.canonical, Bool.and_eq_true] at hparts
    exact Parse.complete_unary h (right.complete σ hparts.2)
  | .binary left operator right, h => by
    have hparts := h
    simp only [Expr.canonical, Bool.and_eq_true] at hparts
    exact Parse.complete_binary h (left.complete σ hparts.1.2) (right.complete σ hparts.2)
  | .logical left operator right, h => by
    have hparts := h
    simp only [Expr.canonical, Bool.and_eq_true] at hparts
    exact Parse.complete_logical h (left.complete σ hparts.1.2) (right.complete σ hparts.2)
  | .grouping inner, h => Parse.complete_grouping h (inner.complete σ h)
  | .assign name operator value, h => by
    simp only [Expr.canonical, Bool.and_eq_true, decide_eq_true_eq] at h
    have htarget : Parse.assignment? (.reference name) operator value =
        some (.assign name operator value) := rfl
    exact Parse.complete_assignment h.1.1 htarget rfl (by simp [Expr.depth]) rfl
      (by simp [Expr.rank]) h.1.2 (Parse.complete_reference name) (value.complete σ h.2)
  | .get object name, h => by
    have hparts := h
    simp only [Expr.canonical, Bool.and_eq_true] at hparts
    exact Parse.complete_get h (object.complete σ hparts.2)
  | .set object name operator value, h => by
    simp only [Expr.canonical, Bool.and_eq_true, decide_eq_true_eq] at h
    have hget : (Expr.get object name).canonical = true := by
      simp [Expr.canonical, h.1.1.1.2, h.1.2]
    have htarget : Parse.assignment? (.get object name) operator value =
        some (.set object name operator value) := rfl
    exact Parse.complete_assignment h.1.1.1.1 htarget (by simp [Expr.symbols]) rfl rfl
      (by simp [Expr.rank]) h.1.1.2 (Parse.complete_get hget (object.complete σ h.1.2))
      (value.complete σ h.2)
  | .call callee args, h => by
    have hparts := h
    simp only [Expr.canonical, Bool.and_eq_true] at hparts
    exact Parse.complete_call h (callee.complete σ hparts.1.2) (Expr.completes σ args hparts.2)

/-- Every expression of a canonical list is complete. -/
theorem Expr.completes (σ : Type) [TokenSource σ] :
    (es : List Expr) → Expr.canonicals es = true →
      ∀ e ∈ es, e.canonical = true ∧ Parse.Complete σ e
  | [], _, _, hmem => absurd hmem List.not_mem_nil
  | e :: es, h, e', hmem => by
    simp only [Expr.canonicals, Bool.and_eq_true] at h
    rcases List.mem_cons.mp hmem with heq | hmem
    · rw [heq]
      exact ⟨h.1, e.complete σ h.1⟩
    · exact Expr.completes σ es h.2 e' hmem

end

end ScriptFront

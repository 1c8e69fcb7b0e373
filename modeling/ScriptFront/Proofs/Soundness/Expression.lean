import ScriptFront.Proofs.Reading

/-!
# Expressions that are Parsed are Spelled by what was Read

Every successful run of an expression parser reads exactly the symbols of the tree it returns, and
the tree is canonical, binds as tightly as the place it was parsed for demands and needs no more
nesting than there were charges left.

The statement is one predicate on parsers (`Parse.Spells`) with a lemma for each production; the
productions are parameterized by the parsers of their parts, and so are the lemmas. Only
`Parse.unary_spells` is an induction, on the charges.
-/

namespace ScriptFront

open Text

/-- A canonical expression that binds at least as tightly as `rank` and needs at most `charges`
once it has been entered. -/
structure Expr.Fits (rank charges : Nat) (e : Expr) : Prop where
  canonical : e.canonical = true
  rank_le : rank ≤ e.rank
  depth_le : e.depth ≤ charges

/-- A canonical expression that needs at most `charges` as a whole. -/
structure Expr.FitsWhole (charges : Nat) (e : Expr) : Prop where
  canonical : e.canonical = true
  need_le : e.need ≤ charges

namespace Expr

/-- The node that a level makes of fitting operands fits at that level, and is spelled by its
operands with the operator between them. -/
theorem Fits.node {i d : Nat} {level : BinaryLevel} {k : Kind} {l r : Expr}
    (hi : BinaryLevel.all[i]? = some level) (hk : level.holds k = true)
    (hl : l.Fits (i + 2) d) (hr : r.Fits (i + 3) d) :
    (level.node l k r).Fits (i + 2) d ∧
      (level.node l k r).symbols = l.symbols ++ .fixed k :: r.symbols := by
  have hrank := BinaryLevel.rank_of_holds hi hk
  have hleft := hl.rank_le
  have hright := hr.rank_le
  have hdepth := Nat.max_le.mpr ⟨hl.depth_le, hr.depth_le⟩
  rcases BinaryLevel.node_cases hi hk with ⟨hn, hop⟩ | ⟨hn, hop⟩ <;> rw [hn] <;>
    refine ⟨⟨?_, ?_, hdepth⟩, rfl⟩
  · simp only [Expr.canonical, hop, hl.canonical, hr.canonical, Bool.and_true, Bool.true_and,
      Bool.and_eq_true, decide_eq_true_eq]
    omega
  · simp only [Expr.rank]
    omega
  · simp only [Expr.canonical, hop, hl.canonical, hr.canonical, Bool.and_true, Bool.true_and,
      Bool.and_eq_true, decide_eq_true_eq]
    omega
  · simp only [Expr.rank]
    omega

end Expr

namespace Parse

variable {σ : Type} {α : Type}

/-- The parser that was run, under a name. A choice between parsers can be split by its cases only
while it is not applied to the cursor. -/
theorem exists_eq_run {x : Parse σ α} {c c' : Cursor σ} {a : α} (h : x c = .ok a c') :
    ∃ y, x = y ∧ y c = .ok a c' :=
  ⟨x, rfl, h⟩

variable [TokenSource σ]

/-- **Every successful run reads the symbols of its result**, which has a property that may depend
on the kind of the token the run stops at. -/
def Spells (x : Parse σ α) (symbols : α → List Symbol) (P : α → Kind → Prop) : Prop :=
  ∀ ⦃c : Cursor σ⦄ ⦃a : α⦄ ⦃c' : Cursor σ⦄, c.Named → x c = .ok a c' →
    c.Reads (symbols a) c' ∧ P a c'.current.kind

/-- An expression parser whose results fit. -/
abbrev SpellsFit (x : Parse σ Expr) (rank charges : Nat) : Prop :=
  x.Spells Expr.symbols fun e _ => e.Fits rank charges

/-- A parser of whole expressions whose results fit. -/
abbrev SpellsWhole (x : Parse σ Expr) (charges : Nat) : Prop :=
  x.Spells Expr.symbols fun e _ => e.FitsWhole charges

/-! ### Repetition -/

/-- **What a loop preserves.** If every round reads the symbols it adds to the spelling and keeps
the invariant, so does the loop. Induction on the bound. -/
theorem foldWithin_reads {continues : Kind → Bool} {round : α → Parse σ α}
    {S : α → List Symbol} {I : α → Prop}
    (hround : ∀ ⦃a c a' c'⦄, c.Named → I a → continues c.current.kind = true →
      round a c = .ok a' c' → ∃ ss, c.Reads ss c' ∧ S a' = S a ++ ss ∧ I a')
    {bound : Nat} {a b : α} {c c' : Cursor σ} (hn : c.Named) (ha : I a)
    (h : foldWithin continues round bound a c = .ok b c') :
    ∃ ss, c.Reads ss c' ∧ S b = S a ++ ss ∧ I b := by
  induction bound generalizing a c with
  | zero =>
      obtain ⟨rfl, rfl⟩ := pure_eq_ok_iff.mp h
      exact ⟨[], rfl, by simp, ha⟩
  | succ bound ih =>
      simp only [foldWithin, kind_bind] at h
      split at h
      · next hk =>
        obtain ⟨a₁, c₁, h₁, h⟩ := bind_eq_ok_iff.mp h
        obtain ⟨ss, hr, hs, hI⟩ := hround hn ha hk h₁
        obtain ⟨ts, hr', hs', hI'⟩ := ih (hn.of_reads hr) hI h
        exact ⟨ss ++ ts, hr.append hr', by rw [hs', hs, List.append_assoc], hI'⟩
      · obtain ⟨rfl, rfl⟩ := pure_eq_ok_iff.mp h
        exact ⟨[], rfl, by simp, ha⟩

/-- **A loop reads the symbols of its rounds**, and keeps what a round keeps. -/
theorem foldWhile_reads {continues : Kind → Bool} {round : α → Parse σ α}
    {S : α → List Symbol} {I : α → Prop}
    (hround : ∀ ⦃a c a' c'⦄, c.Named → I a → continues c.current.kind = true →
      round a c = .ok a' c' → ∃ ss, c.Reads ss c' ∧ S a' = S a ++ ss ∧ I a')
    {a b : α} {c c' : Cursor σ} (hn : c.Named) (ha : I a)
    (h : foldWhile continues round a c = .ok b c') :
    ∃ ss, c.Reads ss c' ∧ S b = S a ++ ss ∧ I b := by
  rw [foldWhile] at h
  split at h
  · exact foldWithin_reads hround hn ha h
  · cases h
    exact ⟨[], rfl, by simp, ha⟩

/-- **What a list of items spells.** Each item reads its own symbols, so the list reads the items'
symbols in a row; and where the loop ends the current kind does not allow another item. -/
theorem collectWithin_reads {continues : Kind → Bool} {item : Parse σ α}
    {S : α → List Symbol} {P : α → Prop} (heof : continues .eof = false)
    (hitem : ∀ ⦃c a c'⦄, c.Named → continues c.current.kind = true → item c = .ok a c' →
      c.Reads (S a) c' ∧ S a ≠ [] ∧ P a)
    {bound : Nat} {as : List α} {c c' : Cursor σ} (hb : c.remaining ≤ bound) (hn : c.Named)
    (h : collectWithin continues item bound c = .ok as c') :
    c.Reads (as.flatMap S) c' ∧ (∀ a ∈ as, P a) ∧ continues c'.current.kind = false := by
  induction bound generalizing as c with
  | zero =>
      obtain ⟨rfl, rfl⟩ := pure_eq_ok_iff.mp h
      have hk := Cursor.kind_eq_eof_of_remaining (c := c) (by omega)
      exact ⟨rfl, by simp, by rw [hk, heof]⟩
  | succ bound ih =>
      simp only [collectWithin, kind_bind] at h
      split at h
      · next hk =>
        obtain ⟨a, c₁, h₁, h⟩ := bind_eq_ok_iff.mp h
        obtain ⟨as', c₂, h₂, h⟩ := bind_eq_ok_iff.mp h
        obtain ⟨rfl, rfl⟩ := pure_eq_ok_iff.mp h
        obtain ⟨hr, hne, hP⟩ := hitem hn hk h₁
        have hlt := hr.remaining_lt hne
        obtain ⟨hr', hP', hstop⟩ := ih (by omega) (hn.of_reads hr) h₂
        refine ⟨?_, ?_, hstop⟩
        · rw [List.flatMap_cons]
          exact hr.append hr'
        · intro a' ha'
          rcases List.mem_cons.mp ha' with rfl | ha'
          · exact hP
          · exact hP' a' ha'
      · next hk =>
        obtain ⟨rfl, rfl⟩ := pure_eq_ok_iff.mp h
        exact ⟨rfl, by simp, by simpa using hk⟩

/-- **Items that are collected** are read one after the other, up to a token that allows no further
one. -/
theorem collectWhile_reads {continues : Kind → Bool} {item : Parse σ α}
    {S : α → List Symbol} {P : α → Prop} (heof : continues .eof = false)
    (hitem : ∀ ⦃c a c'⦄, c.Named → continues c.current.kind = true → item c = .ok a c' →
      c.Reads (S a) c' ∧ S a ≠ [] ∧ P a)
    {as : List α} {c c' : Cursor σ} (hn : c.Named)
    (h : collectWhile continues item c = .ok as c') :
    c.Reads (as.flatMap S) c' ∧ (∀ a ∈ as, P a) ∧ continues c'.current.kind = false := by
  rw [collectWhile] at h
  split at h
  · exact collectWithin_reads heof hitem (Nat.le_refl _) hn h
  · next hk =>
    cases h
    exact ⟨rfl, by simp, by simpa using hk⟩

/-- Items between parentheses read their symbols with commas between them, and the closing
parenthesis. An item after the first is read together with the comma before it. -/
theorem parenthesized_reads {item : Parse σ α} {S : α → List Symbol} {P : α → Prop}
    (hitem : item.Spells S fun a _ => P a) {as : List α} {c c' : Cursor σ} (hn : c.Named)
    (h : parenthesized item c = .ok as c') :
    c.Reads (Symbol.separated (as.map S) ++ [.punct .parenRight]) c' ∧ ∀ a ∈ as, P a := by
  rw [parenthesized] at h
  by_cases hk : c.current.kind = .punctuator .parenRight
  · rw [bind_ok (accept_of_eq hk)] at h
    obtain ⟨rfl, rfl⟩ := pure_eq_ok_iff.mp h
    exact ⟨⟨symbol?_punct hk, rfl⟩, by simp⟩
  · rw [bind_ok (accept_of_ne hk)] at h
    obtain ⟨a, c₁, h₁, h⟩ := bind_eq_ok_iff.mp h
    obtain ⟨as', c₂, h₂, h⟩ := bind_eq_ok_iff.mp h
    obtain ⟨t, c₃, h₃, h⟩ := bind_eq_ok_iff.mp h
    obtain ⟨rfl, rfl⟩ := pure_eq_ok_iff.mp h
    obtain ⟨hr₁, hP₁⟩ := hitem hn h₁
    have hn₁ := hn.of_reads hr₁
    have hrest := collectWhile_reads (S := fun a => .punct .comma :: S a) (P := P)
      rfl (by
        intro c a c' hn hk h
        rw [advance_bind] at h
        have hcomma : c.Reads [.punct .comma] c.step := ⟨symbol?_punct (by simpa using hk), rfl⟩
        obtain ⟨hr, hP⟩ := hitem (hn.of_reads hcomma) h
        exact ⟨hcomma.append hr, by simp, hP⟩) hn₁ h₂
    obtain ⟨hr₂, hP₂, -⟩ := hrest
    refine ⟨?_, ?_⟩
    · rw [List.map_cons, Symbol.separated, List.flatMap_map]
      exact (hr₁.append hr₂).append (reads_of_expect h₃)
    · intro a' ha'
      rcases List.mem_cons.mp ha' with rfl | ha'
      · exact hP₁
      · exact hP₂ a' ha'

/-! ### Operands -/

/-- The keyword of the receiver is spelled by its reference. -/
theorem reference_this : Symbol.reference (utf8 "this") = .word .thisKw := if_pos rfl

/-- An identifier that carries a name is spelled by its reference. -/
theorem reference_of_named {t : Token} (h : t.Named) (hk : t.kind = .identifier) :
    Symbol.reference t.value = .name t.value := by
  refine if_neg fun hthis => ?_
  have hword := (h hk).2
  rw [hthis] at hword
  exact absurd hword (by decide)

/-- A primary expression spells its symbols. -/
theorem primary_spells {inner : Parse σ Expr} {d : Nat} (hin : inner.SpellsWhole d) :
    (primary inner).SpellsFit 10 d := by
  intro c e c' hn h
  simp only [primary, current_bind] at h
  obtain ⟨x, hx, h⟩ := exists_eq_run h
  split at hx <;> rename_i hk
  case h_1 | h_2 =>
      subst hx
      obtain ⟨rfl, rfl⟩ := pure_eq_ok_iff.mp h
      exact ⟨⟨symbol?_word hk, rfl⟩, rfl, Nat.le_refl _, Nat.zero_le _⟩
  case h_3 =>
      split at hx
      · next v hv =>
        subst hx
        obtain ⟨rfl, rfl⟩ := pure_eq_ok_iff.mp h
        refine ⟨⟨?_, rfl⟩, rfl, Nat.le_refl _, Nat.zero_le _⟩
        simp [Token.symbol?, hk, hv]
      · subst hx
        exact absurd h fail_ne_ok
  case h_4 =>
      subst hx
      obtain ⟨rfl, rfl⟩ := pure_eq_ok_iff.mp h
      refine ⟨⟨?_, rfl⟩, rfl, Nat.le_refl _, Nat.zero_le _⟩
      simp [Token.symbol?, hk]
  case h_5 =>
      subst hx
      obtain ⟨rfl, rfl⟩ := pure_eq_ok_iff.mp h
      refine ⟨?_, rfl, Nat.le_refl _, Nat.zero_le _⟩
      rw [Expr.symbols, reference_of_named hn.current hk]
      exact ⟨symbol?_name hk, rfl⟩
  case h_6 =>
      subst hx
      obtain ⟨rfl, rfl⟩ := pure_eq_ok_iff.mp h
      refine ⟨?_, rfl, Nat.le_refl _, Nat.zero_le _⟩
      rw [Expr.symbols, reference_this]
      exact ⟨symbol?_word hk, rfl⟩
  case h_7 =>
      subst hx
      have hopen : c.Reads [.punct .parenLeft] c.step := ⟨symbol?_punct hk, rfl⟩
      rw [advance_bind] at h
      obtain ⟨e', c₁, h₁, h⟩ := bind_eq_ok_iff.mp h
      obtain ⟨t, c₂, h₂, h⟩ := bind_eq_ok_iff.mp h
      obtain ⟨rfl, rfl⟩ := pure_eq_ok_iff.mp h
      obtain ⟨hr, hfit⟩ := hin (hn.of_reads hopen) h₁
      exact ⟨(hopen.append hr).append (reads_of_expect h₂), hfit.canonical, Nat.le_refl _,
        hfit.need_le⟩
  case h_8 =>
      subst hx
      have hsuper : c.Reads [.word .superKw] c.step := ⟨symbol?_word hk, rfl⟩
      rw [advance_bind] at h
      obtain ⟨t, c₁, h₁, h⟩ := bind_eq_ok_iff.mp h
      obtain ⟨m, c₂, h₂, h⟩ := bind_eq_ok_iff.mp h
      obtain ⟨rfl, rfl⟩ := pure_eq_ok_iff.mp h
      exact ⟨(hsuper.append (reads_of_expect h₁)).append (reads_of_identifier h₂), rfl,
        Nat.le_refl _, Nat.zero_le _⟩
  case h_9 =>
      subst hx
      exact absurd h unexpected_ne_ok
  case h_10 =>
      subst hx
      exact absurd h fail_ne_ok

/-- Calls on fitting arguments need what the arguments need. -/
theorem needs_le_of_fitsWhole {d : Nat} {args : List Expr} (h : ∀ e ∈ args, e.FitsWhole d) :
    Expr.canonicals args = true ∧ Expr.needs args ≤ d :=
  ⟨Expr.canonicals_iff.mpr fun e he => (h e he).canonical,
    Expr.needs_le_iff.mpr fun e he => (h e he).need_le⟩

/-- Calls and accesses spell their symbols. -/
theorem accesses_spells {inner : Parse σ Expr} {d : Nat} (hin : inner.SpellsWhole d) :
    (accesses inner).SpellsFit 9 d := by
  intro c e c' hn h
  obtain ⟨first, c₁, h₁, h⟩ := bind_eq_ok_iff.mp h
  obtain ⟨hr₁, hfit₁⟩ := primary_spells hin hn h₁
  have hloop := foldWhile_reads (S := Expr.symbols) (I := Expr.Fits 9 d) (by
    intro e c e' c' hn he hk h
    rw [advance_bind] at h
    split at h
    · next hparen =>
      have hopen : c.Reads [.punct .parenLeft] c.step := ⟨symbol?_punct hparen, rfl⟩
      obtain ⟨args, c₂, h₂, h⟩ := bind_eq_ok_iff.mp h
      obtain ⟨rfl, rfl⟩ := pure_eq_ok_iff.mp h
      obtain ⟨hr, hargs⟩ := parenthesized_reads hin (hn.of_reads hopen) h₂
      obtain ⟨hcanon, hneeds⟩ := needs_le_of_fitsWhole hargs
      refine ⟨_, hopen.append hr, ?_, ?_, Nat.le_refl _, ?_⟩
      · simp [Expr.symbols, Expr.symbolsEach_eq_map]
      · simp [Expr.canonical, he.canonical, he.rank_le, hcanon]
      · exact Nat.max_le.mpr ⟨he.depth_le, hneeds⟩
    · next hparen =>
      have hdot : c.Reads [.punct .dot] c.step := by
        refine ⟨symbol?_punct ?_, rfl⟩
        simpa [Kind.isAccess, hparen] using hk
      obtain ⟨m, c₂, h₂, h⟩ := bind_eq_ok_iff.mp h
      obtain ⟨rfl, rfl⟩ := pure_eq_ok_iff.mp h
      refine ⟨_, hdot.append (reads_of_identifier h₂), rfl, ?_, Nat.le_refl _, he.depth_le⟩
      simp [Expr.canonical, he.canonical, he.rank_le]) (hn.of_reads hr₁)
    ⟨hfit₁.canonical, by have := hfit₁.rank_le; omega, hfit₁.depth_le⟩ h
  obtain ⟨ss, hr, hs, hfit⟩ := hloop
  rw [hs]
  exact ⟨hr₁.append hr, hfit⟩

/-! ### Binary operators and assignment -/

/-- A binary level spells its symbols if its operands do, and binds as tightly as it should. -/
theorem binary_spells {i d : Nat} {level : BinaryLevel} {operand : Parse σ Expr}
    (hi : BinaryLevel.all[i]? = some level) (hop : operand.SpellsFit (i + 3) d) :
    (binary level operand).SpellsFit (i + 2) d := by
  intro c e c' hn h
  obtain ⟨first, c₁, h₁, h⟩ := bind_eq_ok_iff.mp h
  obtain ⟨hr₁, hfit₁⟩ := hop hn h₁
  have hloop := foldWhile_reads (S := Expr.symbols) (I := Expr.Fits (i + 2) d) (by
    intro l c e' c' hn hl hk h
    rw [advance_bind] at h
    obtain ⟨r, c₂, h₂, h⟩ := bind_eq_ok_iff.mp h
    obtain ⟨rfl, rfl⟩ := pure_eq_ok_iff.mp h
    have hoper := reads_punctuator (BinaryLevel.punctuator_of_holds hk)
    obtain ⟨hr, hfit⟩ := hop (hn.of_reads hoper) h₂
    obtain ⟨hnode, hsymbols⟩ := Expr.Fits.node hi hk hl hfit
    exact ⟨_, hoper.append hr, hsymbols, hnode⟩) (hn.of_reads hr₁)
    ⟨hfit₁.canonical, by have := hfit₁.rank_le; omega, hfit₁.depth_le⟩ h
  obtain ⟨ss, hr, hs, hfit⟩ := hloop
  rw [hs]
  exact ⟨hr₁.append hr, hfit⟩

/-- The binary levels spell their symbols. -/
theorem binaries_spells {d : Nat} {operand : Parse σ Expr} (hop : operand.SpellsFit 8 d) :
    (binaries BinaryLevel.all operand).SpellsFit 2 d :=
  binary_spells (i := 0) rfl <| binary_spells (i := 1) rfl <| binary_spells (i := 2) rfl <|
    binary_spells (i := 3) rfl <| binary_spells (i := 4) rfl <| binary_spells (i := 5) rfl hop

/-- An assignment spells its symbols. -/
theorem assignment_spells {d : Nat} {operand : Parse σ Expr} (hop : operand.SpellsFit 8 d) :
    (assignment operand).SpellsWhole (d + 1) := by
  intro c e c' hn h
  obtain ⟨target, c₁, h₁, h⟩ := bind_eq_ok_iff.mp h
  obtain ⟨hr₁, hfit₁⟩ := binaries_spells hop hn h₁
  rw [kind_bind] at h
  split at h
  · next hk =>
    rw [advance_bind] at h
    obtain ⟨value, c₂, h₂, h⟩ := bind_eq_ok_iff.mp h
    have hoper := reads_punctuator (Kind.punctuator_of_isAssignment hk)
    obtain ⟨hr₂, hfit₂⟩ := binaries_spells hop ((hn.of_reads hr₁).of_reads hoper) h₂
    have hvalue := hfit₂.rank_le
    obtain ⟨x, hx, h⟩ := exists_eq_run h
    split at hx <;> subst hx
    · next e' he' =>
      obtain ⟨rfl, rfl⟩ := pure_eq_ok_iff.mp h
      cases target with
      | reference name =>
          cases he'
          refine ⟨(hr₁.append hoper).append hr₂, ?_, ?_⟩
          · simp only [Expr.canonical, hk, hfit₂.canonical, Bool.and_true, Bool.true_and,
              decide_eq_true_eq]
            omega
          · exact Nat.succ_le_succ hfit₂.depth_le
      | get object name =>
          cases he'
          have hobject := hfit₁.canonical
          have hdepth : object.depth ≤ d := hfit₁.depth_le
          simp only [Expr.canonical, Bool.and_eq_true, decide_eq_true_eq] at hobject
          obtain ⟨hrank, hcanon⟩ := hobject
          refine ⟨?_, ?_, ?_⟩
          · have hall := (hr₁.append hoper).append hr₂
            simpa [Expr.symbols] using hall
          · simp only [Expr.canonical, hk, hfit₂.canonical, hcanon, Bool.and_true,
              Bool.true_and, Bool.and_eq_true, decide_eq_true_eq]
            omega
          · exact Nat.succ_le_succ (Nat.max_le.mpr ⟨hdepth, hfit₂.depth_le⟩)
      | _ => cases he'
    · exact absurd h fail_ne_ok
  · obtain ⟨rfl, rfl⟩ := pure_eq_ok_iff.mp h
    exact ⟨hr₁, hfit₁.canonical, Nat.succ_le_succ hfit₁.depth_le⟩

/-! ### Charges -/

/-- Without a charge no expression is read. -/
theorem expressionOver_none_spells (d : Nat) :
    (expressionOver none : Parse σ Expr).SpellsWhole d := by
  intro c e c' _ h
  exact absurd h tooDeep_ne_ok

/-- **Unary operands are spelled by what they read.** Induction on the charges left; one is used up
by every unary operator and every whole expression inside. -/
theorem unary_spells (d : Nat) : (unary d : Parse σ Expr).SpellsFit 8 d := by
  induction d with
  | zero =>
      intro c e c' hn h
      simp only [unary, unaryOver, kind_bind] at h
      split at h
      · exact absurd h tooDeep_ne_ok
      · obtain ⟨hr, hfit⟩ := accesses_spells (expressionOver_none_spells 0) hn h
        exact ⟨hr, hfit.canonical, by have := hfit.rank_le; omega, hfit.depth_le⟩
  | succ d ih =>
      intro c e c' hn h
      simp only [unary, unaryOver, kind_bind] at h
      split at h
      · next hk =>
        rw [advance_bind] at h
        obtain ⟨r, c₁, h₁, h⟩ := bind_eq_ok_iff.mp h
        obtain ⟨rfl, rfl⟩ := pure_eq_ok_iff.mp h
        have hoper := reads_punctuator (Kind.punctuator_of_isUnary hk)
        obtain ⟨hr, hfit⟩ := ih (hn.of_reads hoper) h₁
        refine ⟨hoper.append hr, ?_, Nat.le_refl _, Nat.succ_le_succ hfit.depth_le⟩
        simp [Expr.canonical, hk, hfit.canonical, hfit.rank_le]
      · obtain ⟨hr, hfit⟩ := accesses_spells (assignment_spells ih) hn h
        exact ⟨hr, hfit.canonical, by have := hfit.rank_le; omega, hfit.depth_le⟩

/-- **Whole expressions are spelled by what they read.** -/
theorem expression_spells (d : Nat) : (expression d : Parse σ Expr).SpellsWhole d := by
  cases d with
  | zero => exact expressionOver_none_spells 0
  | succ d => exact assignment_spells (unary_spells d)

end Parse

end ScriptFront

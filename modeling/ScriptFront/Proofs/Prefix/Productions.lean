import ScriptFront.Proofs.Prefix.Viability

/-!
# Every Production is Viable

One lemma for each production of the grammar, with what it begins with and what may follow it. A
statement can always be completed in such a way that what is added **begins with a name**, so that
is what follows the tokens read so far; an expression may be followed by whatever continues none of
its levels, a statement by anything but `else`.

The grammar is taken under any discipline whose charges are counted down by the recursion. If it
lets every target be assigned to, what stands before a fault can be completed (`relaxed`); if it
does not, a target that is refused is still located at the assignment after it.
`Discipline.viable_program` is the result of the induction on the charges.
-/

namespace ScriptFront

open Text

/-- A kind that passes a test which the end of the input does not pass. -/
theorem Kind.ne_eof_of_holds {p : Kind → Bool} {k : Kind} (heof : p .eof = false)
    (h : p k = true) : k ≠ .eof := by
  rintro rfl
  rw [heof] at h
  cases h

namespace Parse

variable {σ : Type} [TokenSource σ] {α : Type} {r : Prop} {N : Nat} {S B F G : Token → Prop}

/-! ### What tokens begin and end phrases with -/

/-- The token of a name. -/
def IsName (t : Token) : Prop :=
  t.kind = .identifier

/-- The token continues no access and none of the levels of operators. -/
def Closes (levels : List BinaryLevel) (t : Token) : Prop :=
  t.kind.isAccess = false ∧ ∀ level ∈ levels, level.holds t.kind = false

/-- The token continues no expression. -/
def EndsExpr (t : Token) : Prop :=
  t.kind.rank = 0

/-- The token continues no statement. -/
def EndsStmt (t : Token) : Prop :=
  t.kind ≠ .keyword .elseKw

/-- A token that continues no expression continues no level of it. -/
theorem EndsExpr.closes {t : Token} (h : EndsExpr t) : Closes BinaryLevel.all t := by
  refine ⟨not_isAccess_of_rank_lt (by rw [h]; decide), fun level hl => ?_⟩
  obtain ⟨i, hi⟩ := List.mem_iff_getElem?.mp hl
  exact not_holds_of_rank_lt hi (by rw [h]; omega)

/-- A punctuation mark without a rank continues no expression. -/
theorem endsExpr_of_kind {t : Token} {p : Punctuator} (h : t.kind = .punctuator p)
    (hp : (Kind.punctuator p).rank = 0) : EndsExpr t := by
  rw [EndsExpr, h, hp]

/-! ### Tokens -/

/-- There is no hope where the token itself is unexpected. -/
theorem Hopeless.unexpected {t : Token} {cause : Token → FaultCause}
    (hcause : ∀ t, cause t ≠ .invalidTarget) :
    Hopeless r N (·.Same t) (fun _ => (unexpected cause : Parse σ α)) := by
  refine .of_fails fun n c _ => ⟨_, _, rfl, rfl, ?_⟩
  dsimp only
  split
  · exact nofun
  · exact hcause _

namespace Viable

/-- A punctuation mark that is expected is its own phrase. -/
theorem expect (p : Punctuator) :
    Viable r N S (·.kind = .punctuator p) F (fun _ => (Parse.expect p : Parse σ Token)) := by
  have h : Viable r N S (·.kind = .punctuator p) F (fun _ => (Parse.kind >>= fun k =>
      if ¬k = .punctuator p then Parse.unexpected fun t => .expected (.punctuator p) t.description
      else Parse.advance : Parse σ Token)) := by
    refine .firstOf (fun t _ _ => .inr (.unexpected nofun)) ?_ fun t ht => not_not.mpr ht
    exact .advance (t := ⟨.punctuator p, [], {}⟩) rfl nofun fun t ht => by simp [not_not.mp ht.2]
  simp only [ite_not] at h
  exact h

/-- The delimiter that the run begins with. -/
theorem expect_at {p : Punctuator} {t : Token} (ht : t.kind = .punctuator p) :
    Viable r N (·.Same t) (·.Same t) F (fun _ => (Parse.expect p : Parse σ Token)) := by
  have hadvance : ∀ (n : Nat) (d : Cursor σ), d.current.Same t →
      Parse.expect p d = Parse.advance d := fun _ d hd => by
    rw [Parse.expect, Parse.expectKind, kind_bind, if_pos (hd.1.trans ht)]
  refine .dispatch ⟨t, _, .consume (by simp [ht]), fun _ hu => hu, hadvance⟩ fun u hu => ?_
  refine ⟨_, fun n d hd => hadvance n d (hd.trans hu), .inl (.consume ?_)⟩
  simp [hu.1, ht]

/-- An identifier is its own phrase. -/
theorem identifier :
    Viable r N S IsName F (fun _ => (Parse.identifier : Parse σ Token)) := by
  have h : Viable r N S IsName F (fun _ => (Parse.kind >>= fun k =>
      if ¬k = .identifier then Parse.unexpected fun t => .expectedIdentifier t.description
      else Parse.advance : Parse σ Token)) := by
    refine .firstOf (fun t _ _ => .inr (.unexpected nofun)) ?_ fun t ht => not_not.mpr ht
    exact .advance (t := ⟨.identifier, [], {}⟩) rfl nofun fun t ht => by simp [not_not.mp ht.2]
  simp only [ite_not] at h
  exact h

/-- What comes after an optional mark is viable if it is so with the mark and without. -/
theorem accept {p : Punctuator} {f : Bool → Nat → Parse σ α}
    (h : Viable r N anyToken G F (f true)) (h' : Viable r N anyToken B F (f false))
    (hB : ∀ t, B t → t.kind ≠ .punctuator p) :
    Viable r N S B F (fun n => Parse.accept p >>= fun b => f b n) := by
  simp only [accept_bind]
  refine .firstOf (fun t _ hk => .inl ?_) (h'.widen fun _ ht => ht) hB
  exact .bind (.consume (by simp [hk])) fun _ => h

/-! ### Lists -/

/-- **A list of items** is viable if they are and advance. -/
theorem collectWhile {L : Token → Prop} {continues : Kind → Bool} {item : Nat → Parse σ α}
    (heof : continues .eof = false)
    (hprogress : ∀ n, Advances (continues · = true) true (item n))
    (hitem : ∀ t, continues t.kind = true →
      Viable r N (·.Same t) (fun u => u.Same t ∨ L u ∧ continues u.kind = true) L item)
    (hF : ∀ t, F t → L t ∧ continues t.kind = false) :
    Viable r N S L F (fun n => Parse.collectWhile continues (item n)) := by
  simp only [collectWhile_eq]
  refine .map _ (.foldWhile heof (fun as n => (hprogress n).bind_pure (· :: as)) ?_ hF [])
  exact fun as t ht => (hitem t ht).bind fun a => .pure (a :: as)

/-- Arguments and parameters are viable if each of them is. -/
theorem parenthesized {item : Nat → Parse σ α} (hitem : Viable r N anyToken IsName G item)
    (hprogress : ∀ n, Advances anyKind true (do let _ ← Parse.advance; item n))
    (hG : ∀ t, t.kind = .punctuator .comma ∨ t.kind = .punctuator .parenRight → G t) :
    Viable r N S IsName F (fun n => Parse.parenthesized (item n)) := by
  have hloop : Viable r N anyToken G (·.kind = .punctuator .parenRight) (fun n =>
      Parse.collectWhile (· = .punctuator .comma) (do let _ ← Parse.advance; item n)) := by
    refine .widen (.collectWhile (L := fun t => t.kind = .punctuator .comma ∨
      t.kind = .punctuator .parenRight) rfl (fun n => (hprogress n).at_kinds) ?_ ?_) hG
    · intro t ht
      have hk : t.kind ≠ .eof := by simp [of_decide_eq_true ht]
      have hround := (Viable.consume hk).bind fun _ => hitem.narrow hG
      exact hround.mono (fun _ h => h) (fun _ => .inl) fun _ h => h
    · intro t ht
      exact ⟨.inr ht, by simp [ht]⟩
  refine .accept (.pure []) (.bind hitem fun first => ?_) fun t ht => ?_
  · exact hloop.bind fun rest => (Viable.expect _).bind fun _ => .pure _
  · simp [show t.kind = .identifier from ht]

end Viable

/-! ### Expressions -/

section Expressions

variable {assign : Expr → Kind → Expr → Option Expr} {x : Nat → Parse σ Expr}

/-- **The binary levels** are viable if their operands are, by induction on the list of them. -/
theorem Viable.binaries (hx : Viable r N anyToken IsName (Closes []) x)
    (hself : ∀ n, Alike (Pairing.self assign) n anyKind true Eq (x n) (x n))
    (levels : List BinaryLevel) :
    Viable r N anyToken IsName (Closes levels) (fun n => Parse.binaries levels (x n)) := by
  induction levels with
  | nil => exact hx
  | cons level levels ih =>
      refine ih.bind (f := fun left n => Parse.foldWhile level.holds
        (binaryRound level (Parse.binaries levels (x n))) left) fun left => ?_
      refine .foldWhile (g := fun left n => binaryRound level (Parse.binaries levels (x n)) left)
        rfl (fun left n => (((hself n).binaries levels).binaryRound left).advances) ?_ ?_ left
      · intro left t ht
        have hk := Kind.ne_eof_of_holds rfl ht
        have hround := (Viable.consume hk).bind fun operator =>
          ih.bind fun right => .pure (level.node left operator.kind right)
        exact hround.mono (fun _ h => h) (fun _ => .inl) fun _ h => h
      · rintro t ⟨haccess, hlevels⟩
        exact ⟨⟨haccess, fun l hl => hlevels l (List.mem_cons_of_mem _ hl)⟩,
          hlevels level List.mem_cons_self⟩

/-- A delimiter after an expression, and nothing else. -/
theorem Viable.closing {p : Punctuator} (hp : (Kind.punctuator p).rank = 0) (a : α) :
    Viable r N anyToken EndsExpr F (fun _ => (do
      let _ ← Parse.expect p
      return a : Parse σ α)) :=
  ((Viable.expect p).bind fun _ => .pure a).widen fun _ ht => endsExpr_of_kind ht hp

/-- How a primary expression is read at a token that is none by itself. -/
theorem primary_run {inner : Parse σ Expr} {t : Token} {d : Cursor σ} (ht : t.atom? = none)
    (hd : d.current.Same t) : Parse.primary inner d =
      (if t.kind = .punctuator .parenLeft then do
        let _ ← Parse.advance
        let e ← inner
        let _ ← Parse.expect .parenRight
        return .grouping e
      else if t.kind = .keyword .superKw then do
        let _ ← Parse.advance
        let _ ← Parse.expect .dot
        let method ← Parse.identifier
        return .super method.value
      else if t.kind = .number ∨ t.kind = .error then fail d.current.span (refusal d.current)
      else do
        let _ ← Parse.advance
        fail d.current.span .expectedExpression) d := by
  rw [primary_eq, current_bind, Token.atom?_congr hd.1 hd.2, ht, hd.1]

/-- **A primary expression** is viable if what is in parentheses is. -/
theorem Viable.primary (hx : Viable r N anyToken IsName EndsExpr x) :
    Viable r N S IsName F (fun n => Parse.primary (x n)) := by
  have hatom : ∀ t e, t.atom? = some e → ∃ X, Viable r N (·.Same t) (·.Same t) F X ∧
      ∀ n (d : Cursor σ), d.current.Same t → Parse.primary (x n) d = X n d := by
    intro t e ht
    refine ⟨_, .bind (.consume (Token.kind_ne_eof_of_atom? ht)) fun _ => .pure e, ?_⟩
    intro n d hd
    rw [primary_eq, current_bind, Token.atom?_congr hd.1 hd.2, ht]
  have hname : ∃ t X, Viable r N (·.Same t) (·.Same t) F X ∧ (∀ u, u.Same t → IsName u) ∧
      ∀ n (d : Cursor σ), d.current.Same t → Parse.primary (x n) d = X n d := by
    obtain ⟨X, hX, heq⟩ := hatom ⟨.identifier, [], {}⟩ _ rfl
    exact ⟨_, X, hX, fun u hu => hu.1, heq⟩
  refine .dispatch hname fun t _ => ?_
  cases ht : t.atom? with
  | some e =>
      obtain ⟨X, hX, heq⟩ := hatom t e ht
      exact ⟨X, heq, .inl hX⟩
  | none =>
      by_cases hparen : t.kind = .punctuator .parenLeft
      · refine ⟨_, fun n d hd => (primary_run ht hd).trans (by rw [if_pos hparen]), .inl ?_⟩
        exact .bind (.consume (by simp [hparen])) fun _ => hx.bind fun e => .closing rfl _
      by_cases hsuper : t.kind = .keyword .superKw
      · refine ⟨_, fun n d hd => (primary_run ht hd).trans (by rw [if_neg hparen, if_pos hsuper]),
          .inl ?_⟩
        exact .bind (.consume (by simp [hsuper])) fun _ => (Viable.expect _).bind fun _ =>
          Viable.identifier.bind fun method => .pure _
      by_cases hstay : t.kind = .number ∨ t.kind = .error
      · refine ⟨fun _ => Parse.current >>= fun u => fail u.span (refusal u), ?_, .inr ?_⟩
        · intro n d hd
          rw [primary_run ht hd, if_neg hparen, if_neg hsuper, if_pos hstay]
          rfl
        · refine .of_fails fun n c _ => ⟨_, _, rfl, rfl, ?_⟩
          dsimp only [refusal]
          split <;> exact nofun
      · refine ⟨fun _ => Parse.current >>= fun u => Parse.advance >>= fun _ =>
          fail u.span .expectedExpression, ?_,
          .inr (.of_fails fun n c _ => ⟨_, _, rfl, rfl, nofun⟩)⟩
        intro n d hd
        rw [primary_run ht hd, if_neg hparen, if_neg hsuper, if_neg hstay]
        rfl

/-- Calls and accesses are viable if what they are made on and their arguments are. -/
theorem Viable.accesses (hx : Viable r N anyToken IsName EndsExpr x)
    (hself : ∀ n, Alike (Pairing.self assign) n anyKind true Eq (x n) (x n)) :
    Viable r N S IsName (Closes []) (fun n => Parse.accesses (x n)) := by
  have hargs : Viable r N anyToken IsName anyToken (fun n => Parse.parenthesized (x n)) := by
    refine .parenthesized hx (fun n => (Alike.andThen .take fun _ _ _ => hself n).advances) ?_
    rintro t (ht | ht)
    · exact endsExpr_of_kind ht rfl
    · exact endsExpr_of_kind ht rfl
  refine hx.primary.bind (G := anyToken) (f := fun e n => Parse.foldWhile Kind.isAccess
    (accessRound (x n)) e) fun e => ?_
  refine .foldWhile (g := fun e n => accessRound (x n) e) rfl
    (fun e n => ((hself n).accessRound e).advances) ?_ (fun t ht => ⟨trivial, ht.1⟩) e
  intro e t ht
  have hk := Kind.ne_eof_of_holds rfl ht
  have hround : Viable r N (·.Same t) (·.Same t) anyToken (fun n => accessRound (x n) e) := by
    refine .bind (G := IsName) (.consume hk) fun t' => ?_
    by_cases hcall : t'.kind = .punctuator .parenLeft
    · simp only [if_pos hcall]
      exact hargs.bind fun args => .pure _
    · simp only [if_neg hcall]
      exact Viable.identifier.bind fun name => .pure _
  exact hround.mono (fun _ h => h) (fun _ => .inl) fun _ h => h

/-- An assignment to a target that cannot be assigned to fails, whatever its value. It is the
operator that is to blame, unless the value has a fault of its own. -/
theorem Hopeless.refusedTarget {target : Expr} {t : Token} (hr : ¬r)
    (hnone : ∀ operator value, assign target operator value = none)
    (ht : t.kind.isAssignment = true) (hx : Viable r N anyToken B F x) :
    Hopeless r N (·.Same t) (fun n => do
      let operator ← Parse.advance
      let value ← x n
      match assign target operator.kind value with
      | some e => return e
      | none => fail operator.span .invalidTarget) := by
  have hfails : ∀ n (c : Cursor σ), c.current.Same t → ∃ f c', (do
      let operator ← Parse.advance
      let value ← x n
      match assign target operator.kind value with
      | some e => return e
      | none => fail operator.span .invalidTarget : Parse σ Expr) c = .error f c' := by
    intro n c _
    rw [advance_bind]
    cases hrun : x n c.step with
    | ok value c' => exact ⟨_, _, (bind_ok hrun).trans (by rw [hnone]; rfl)⟩
    | error f c' => exact ⟨f, c', bind_error hrun⟩
  refine ⟨hfails, fun n hn c f c' hc hrun hdeep => ?_⟩
  have hk : c.current.kind.isAssignment = true := hc.1 ▸ ht
  rw [advance_bind] at hrun
  rcases bind_eq_error_iff.mp hrun with hrun | ⟨value, c₁, -, hrun⟩
  · have hvalue := hx.explained n hn c.step trivial
    rw [hrun] at hvalue
    obtain ⟨u, ⟨c'', hu, hspan, htarget, -⟩, -⟩ := hvalue hdeep
    have heof := Kind.ne_eof_of_holds rfl hk
    refine ⟨c.current :: u, ⟨c'', ⟨rfl, heof, hu⟩, hspan, htarget, ?_⟩, fun h => absurd h hr⟩
    rintro n d d' ⟨hd, -⟩ -
    exact hfails n d (hd ▸ hc)
  · rw [hnone] at hrun
    cases hrun
    refine ⟨[], ⟨c, rfl, rfl, fun _ => hk, ?_⟩, fun h => absurd h hr⟩
    rintro n d d' rfl hsame
    exact hfails n d (hsame.trans hc)

/-- **An assignment** is viable if its sides are, and if it is known from the target whether it is
refused. -/
theorem Viable.assignment (hx : Viable r N anyToken IsName (Closes []) x)
    (hself : ∀ n, Alike (Pairing.self assign) n anyKind true Eq (x n) (x n))
    (hassign : ∀ target, (∀ operator value, (assign target operator value).isSome) ∨
      ¬r ∧ ∀ operator value, assign target operator value = none) :
    Viable r N S IsName EndsExpr (fun n => (Discipline.plain assign).assignment (x n)) := by
  have hb := hx.binaries hself BinaryLevel.all
  refine (hb.widen fun _ ht => ht).bind fun target =>
    .widen (B := EndsExpr) ?_ fun _ => EndsExpr.closes
  refine .firstOf (fun t _ ht => ?_) (.pure target) fun t ht => ?_
  · have hk := Kind.ne_eof_of_holds rfl ht
    rcases hassign target with hsome | ⟨hr, hnone⟩
    · refine .inl (.bind (G := IsName) (.consume hk) fun operator => ?_)
      refine (hb.narrow fun _ => EndsExpr.closes).bind fun value => ?_
      obtain ⟨e, he⟩ := Option.isSome_iff_exists.mp (hsome operator.kind value)
      simp only [Discipline.plain, he]
      exact .pure e
    · exact .inr (.refusedTarget hr hnone ht hb)
  · rw [not_isAssignment_of_rank ht]
    exact Bool.false_ne_true

end Expressions

/-! ### Statements -/

section Statements

variable {x : Nat → Parse σ Expr} {s : Nat → Parse σ Stmt} {t : Token}

/-- A token that every expression ends before, or a name. -/
theorem endsStmt_of_kind {p : Punctuator} (h : t.kind = .punctuator p) : EndsStmt t := by
  rw [EndsStmt, h]
  exact nofun

/-- A name continues no statement. -/
theorem endsStmt_of_isName (h : IsName t) : EndsStmt t := by
  rw [EndsStmt, show t.kind = .identifier from h]
  exact nofun

/-- A condition in parentheses is viable. -/
theorem Viable.condition (hx : Viable r N anyToken IsName EndsExpr x) :
    Viable r N S (·.kind = .punctuator .parenLeft) F (fun n => Parse.condition (x n)) :=
  (Viable.expect _).bind fun _ => hx.bind fun e => .closing rfl e

/-- An expression that may be missing is viable. -/
theorem Viable.optionalBefore (hx : Viable r N anyToken IsName EndsExpr x) (stop : Punctuator)
    (hstop : (Kind.punctuator stop).rank = 0) :
    Viable r N S (fun t => t.kind = .punctuator stop ∨ IsName t) (·.kind = .punctuator stop)
      (fun n => Parse.optionalBefore stop (x n)) := by
  refine .choice (.pure none) (Viable.mono (B := IsName) ?_ (fun _ _ => trivial) (fun _ ht => ht)
    fun _ ht => ht) (fun _ ht => ht) fun t ht => ?_
  · exact (hx.narrow fun _ ht => endsExpr_of_kind ht hstop).bind fun e => .pure (some e)
  · rw [show t.kind = .identifier from ht]
    exact nofun

/-- Items in braces are viable if they are and advance. -/
theorem Viable.braced {α : Type} {item : Nat → Parse σ α}
    (hopen : Viable r N S B (fun t => IsName t ∨ t.kind = .punctuator .braceRight)
      (fun _ => (Parse.expect .braceLeft : Parse σ Token)))
    (hitem : Viable r N anyToken IsName EndsStmt item)
    (hprogress : ∀ n, Advances anyKind true (item n)) :
    Viable r N S B F (fun n => Parse.braced (item n)) := by
  have hloop : Viable r N anyToken (fun t => IsName t ∨ t.kind = .punctuator .braceRight)
      (·.kind = .punctuator .braceRight) (fun n => Parse.collectWhile insideBraces (item n)) := by
    refine .collectWhile rfl (fun n => (hprogress n).at_kinds) (fun t _ => ?_) fun t ht => ?_
    · refine hitem.mono (fun _ _ => trivial) (fun u hu => .inr ⟨.inl hu, ?_⟩) ?_
      · rw [show u.kind = .identifier from hu]
        rfl
      · rintro u (hu | hu)
        · exact endsStmt_of_isName hu
        · exact endsStmt_of_kind hu
    · refine ⟨.inr ht, ?_⟩
      rw [ht]
      rfl
  exact hopen.bind fun _ => hloop.bind fun items => (Viable.expect _).bind fun _ => .pure items

/-- A binding is viable if its value is. -/
theorem Viable.binding (hx : Viable r N anyToken IsName EndsExpr x) (ht : t.kind ≠ .eof) :
    Viable r N (·.Same t) (·.Same t) F (fun n => Parse.binding (x n)) := by
  refine .bind (G := IsName) (.consume ht) fun keyword => ?_
  refine .bind (G := (·.kind = .punctuator .semicolon)) .identifier fun name => ?_
  refine .accept (G := IsName) ?_ ?_ fun t ht => ?_
  · exact (hx.map some).bind fun value => .closing rfl _
  · exact .bind (.pure none) fun value => (Viable.expect _).bind fun _ => .pure _
  · rw [ht]
    exact nofun

/-- A function is viable if the statements of its body are. -/
theorem Viable.functionDecl (hs : Viable r N anyToken IsName EndsStmt s)
    (hprogress : ∀ n, Advances anyKind true (s n)) :
    Viable r N S IsName F (fun n => Parse.functionDecl (s n)) := by
  have hparams : Viable r N anyToken IsName (·.kind = .punctuator .braceLeft)
      (fun _ => (Parse.parenthesized Parse.identifier : Parse σ (List Token))) := by
    refine .parenthesized (G := anyToken) .identifier (fun _ => ?_) fun _ _ => trivial
    exact (Alike.andThen (P := Pairing.self assignment?) (n := 0) .take
      fun _ _ _ => .identifier).advances
  exact Viable.identifier.bind fun name => (Viable.expect .parenLeft).bind fun _ =>
    hparams.bind fun params => (Viable.braced (.expect _) hs hprogress).bind fun _ => .pure _

/-- The name of a superclass, which may be any but the name of the class. -/
def superclassName (name : Bytes) : Parse σ (Option Bytes) := do
  let parent ← Parse.identifier
  if parent.value = name then fail parent.span .selfInheritance
  else if parent.value = [] then return none
  else return some parent.value

/-- The name of a superclass is refused if it is that of the class, and taken for none if it has no
characters. -/
theorem superclassName_of_isName {name : Bytes} {d : Cursor σ} (h : IsName d.current) :
    superclassName name d =
      (if d.current.value = name then fail d.current.span .selfInheritance
      else if d.current.value = [] then return none
      else return some d.current.value : Parse σ (Option Bytes)) d.step :=
  bind_ok (identifier_eq_ok_iff.mpr ⟨h, rfl, rfl⟩)

/-- A token that is no name is refused as a superclass. -/
theorem superclassName_of_not_isName {name : Bytes} {d : Cursor σ}
    (h : d.current.kind ≠ .identifier) :
    superclassName name d = unexpected (fun t => .expectedIdentifier t.description) d := by
  have hid : (Parse.identifier : Parse σ Token) d =
      unexpected (fun t => .expectedIdentifier t.description) d := by
    rw [Parse.identifier, kind_bind, if_neg h]
  exact bind_error (hid.trans rfl)

/-- The name of a superclass is viable: there is another name than that of the class. -/
theorem Viable.superclassName (name : Bytes) :
    Viable r N S IsName F (fun _ => (Parse.superclassName name : Parse σ (Option Bytes))) := by
  have hother : ∀ t : Token, IsName t → t.value ≠ name → ∃ X,
      Viable r N (·.Same t) (·.Same t) F X ∧ ∀ n (d : Cursor σ), d.current.Same t →
        Parse.superclassName name d = X n d := by
    intro t ht hname
    have hk : t.kind ≠ .eof := by simp [show t.kind = .identifier from ht]
    refine ⟨_, (Viable.consume hk).bind fun _ =>
      .pure (if t.value = [] then none else some t.value), fun n d hd => ?_⟩
    rw [superclassName_of_isName (hd.1.trans ht), hd.2 (hd.1 ▸ hk), if_neg hname, advance_bind]
    split <;> rfl
  refine .dispatch ?_ fun t _ => ?_
  · obtain ⟨X, hX, heq⟩ := hother ⟨.identifier, byte 'a' :: name, {}⟩ rfl (List.cons_ne_self _ _)
    exact ⟨_, X, hX, fun u hu => hu.1, heq⟩
  by_cases ht : IsName t
  · by_cases hname : t.value = name
    · refine ⟨fun _ => Parse.current >>= fun u => Parse.advance >>= fun _ =>
        fail u.span .selfInheritance, ?_, .inr (.of_fails fun n c _ => ⟨_, _, rfl, rfl, nofun⟩)⟩
      intro n d hd
      have hk : d.current.kind = .identifier := hd.1.trans ht
      rw [superclassName_of_isName hk, hd.2 (by simp [hk]), if_pos hname]
      rfl
    · obtain ⟨X, hX, heq⟩ := hother t ht hname
      exact ⟨X, heq, .inl hX⟩
  · refine ⟨fun _ => unexpected fun t => .expectedIdentifier t.description, fun n d hd => ?_,
      .inr (.unexpected nofun)⟩
    exact superclassName_of_not_isName fun h => ht (hd.1.symm.trans h)

/-- A superclass that may be missing is viable. -/
theorem Viable.superclass (name : Bytes) :
    Viable r N S (·.kind = .punctuator .braceLeft) (·.kind = .punctuator .braceLeft)
      (fun _ => (Parse.superclass name : Parse σ (Option Bytes))) := by
  refine .accept (.superclassName name) (.pure none) fun t ht => ?_
  rw [ht]
  exact nofun

/-- A class is viable if the statements of its methods are. -/
theorem Viable.classDecl (hs : Viable r N anyToken IsName EndsStmt s)
    (hprogress : ∀ n, Advances anyKind true (s n))
    (hmethod : ∀ n, Advances anyKind true (Parse.functionDecl (s n))) (ht : t.kind ≠ .eof) :
    Viable r N (·.Same t) (·.Same t) F (fun n => Parse.classDecl (s n)) :=
  (Viable.consume ht).bind fun _ => Viable.identifier.bind fun name =>
    (Viable.superclass name.value).bind fun _ =>
      (Viable.braced (.expect _) (hs.functionDecl hprogress) hmethod).bind fun _ => .pure _

/-- A statement that is an expression is viable if the expression is. -/
theorem Viable.expressionStatement (hx : Viable r N anyToken IsName EndsExpr x) :
    Viable r N S IsName F (fun n => Parse.expressionStatement (x n)) :=
  (hx.widen fun _ ht => ht).bind fun _ => .closing rfl _

/-- The initializer of a loop is viable if its expression is. -/
theorem Viable.initializer (hx : Viable r N anyToken IsName EndsExpr x) :
    Viable r N S IsName F (fun n => Parse.initializer (x n)) := by
  refine .accept (.pure none) (.firstOf (fun t _ ht => .inl ?_) ?_ fun t ht => ?_) fun t ht => ?_
  · exact (hx.binding (by simp [ht])).bind fun s => .pure (some s)
  · exact hx.expressionStatement.bind fun s => .pure (some s)
  · rw [show t.kind = .identifier from ht]
    exact nofun
  · rw [show t.kind = .identifier from ht]
    exact nofun

/-- A loop with clauses is viable if the clauses and the body are. -/
theorem Viable.forLoop (hx : Viable r N anyToken IsName EndsExpr x)
    (hs : Viable r N anyToken IsName EndsStmt s) (ht : t.kind ≠ .eof) :
    Viable r N (·.Same t) (·.Same t) EndsStmt (fun n => Parse.forLoop (x n) (s n)) :=
  (Viable.consume ht).bind fun _ => (Viable.expect .parenLeft).bind fun _ =>
    hx.initializer.bind fun _ => (hx.optionalBefore .semicolon rfl).bind fun _ =>
      (Viable.expect .semicolon).bind fun _ => (hx.optionalBefore .parenRight rfl).bind fun _ =>
        (Viable.expect .parenRight).bind fun _ => hs.bind fun _ => .pure _

/-- A conditional is viable if its condition and its branches are. -/
theorem Viable.branch (hx : Viable r N anyToken IsName EndsExpr x)
    (hs : Viable r N anyToken IsName EndsStmt s) (ht : t.kind ≠ .eof) :
    Viable r N (·.Same t) (·.Same t) EndsStmt (fun n => Parse.branch (x n) (s n)) := by
  refine .bind (.consume ht) fun _ => hx.condition.bind fun test => hs.bind fun yes => ?_
  refine .firstOf (fun t _ ht => .inl ?_) (.pure _) fun t ht => ht
  exact .bind (.consume (by simp [ht])) fun _ => hs.bind fun no => .pure _

/-- A loop is viable if its condition and its body are. -/
theorem Viable.whileLoop (hx : Viable r N anyToken IsName EndsExpr x)
    (hs : Viable r N anyToken IsName EndsStmt s) (ht : t.kind ≠ .eof) :
    Viable r N (·.Same t) (·.Same t) EndsStmt (fun n => Parse.whileLoop (x n) (s n)) :=
  (Viable.consume ht).bind fun _ => hx.condition.bind fun _ => hs.bind fun _ => .pure _

/-- A statement that prints is viable if the expression is. -/
theorem Viable.printing (hx : Viable r N anyToken IsName EndsExpr x) (ht : t.kind ≠ .eof) :
    Viable r N (·.Same t) (·.Same t) F (fun n => Parse.printing (x n)) :=
  (Viable.consume ht).bind fun _ => hx.bind fun _ => .closing rfl _

/-- A statement that returns is viable if its value is. -/
theorem Viable.returning (hx : Viable r N anyToken IsName EndsExpr x) (ht : t.kind ≠ .eof) :
    Viable r N (·.Same t) (·.Same t) F (fun n => Parse.returning (x n)) :=
  (Viable.consume ht).bind fun _ => (hx.optionalBefore .semicolon rfl).bind fun _ =>
    (Viable.expect .semicolon).bind fun _ => .pure _

/-- **An item of a block** is viable over viable levels. -/
theorem Viable.itemOver {d : Nat → Parse σ Stmt} (hx : Viable r N anyToken IsName EndsExpr x)
    (hd : Viable r N anyToken IsName EndsStmt d) (hs : Viable r N anyToken IsName EndsStmt s)
    (hprogress : ∀ n, Advances anyKind true (d n))
    (hmethod : ∀ n, Advances anyKind true (Parse.functionDecl (d n))) :
    Viable r N S IsName EndsStmt (fun n => Parse.itemOver (x n) (d n) (s n)) := by
  refine .firstOf (fun t _ ht => .inl ?_) (.firstOf (fun t _ ht => .inl ?_)
    (.firstOf (fun t _ ht => .inl ?_) (hs.widen fun _ ht => ht) ?_) ?_) ?_
  · exact hx.binding (by rcases ht with ht | ht <;> simp [ht])
  · exact hd.classDecl hprogress hmethod (by simp [ht])
  · exact .bind (.consume (by simp [ht])) fun _ =>
      (hd.functionDecl hprogress).bind fun _ => .pure _
  all_goals
    intro t ht
    rw [show t.kind = .identifier from ht]
    simp

/-- **A statement** is viable over viable levels. -/
theorem Viable.clauseOver {d : Nat → Parse σ Stmt} (hx : Viable r N anyToken IsName EndsExpr x)
    (hd : Viable r N anyToken IsName EndsStmt d) (hs : Viable r N anyToken IsName EndsStmt s)
    (hprogress : ∀ n, Advances anyKind true (d n)) :
    Viable r N S IsName EndsStmt (fun n => Parse.clauseOver (x n) (d n) (s n)) := by
  refine .firstOf (fun t _ ht => .inl ?_) (.firstOf (fun t _ ht => .inl ?_)
    (.firstOf (fun t _ ht => .inl ?_) (.firstOf (fun t _ ht => .inl ?_)
    (.firstOf (fun t _ ht => .inl ?_) (.firstOf (fun t _ ht => .inl ?_)
    hx.expressionStatement ?_) ?_) ?_) ?_) ?_) ?_
  · exact hx.printing (by simp [ht])
  · exact hx.branch hs (by simp [ht])
  · exact hx.whileLoop hs (by simp [ht])
  · exact hx.forLoop hs (by simp [ht])
  · exact hx.returning (by simp [ht])
  · exact (Viable.braced (.expect_at ht) hd hprogress).bind fun _ => .pure _
  all_goals
    intro t ht
    rw [show t.kind = .identifier from ht]
    simp

end Statements

end Parse

/-! ### The recursive levels -/

namespace Discipline

open Parse

variable {σ : Type} [TokenSource σ] {r : Prop} {N : Nat}
  {assign : Expr → Kind → Expr → Option Expr}

/-- Operands as a family: a unary operator takes a charge. -/
theorem operand_eq : ((plain assign).operand : Nat → Parse σ Expr) = fun n => (do
    if (← Parse.kind).isUnary then charge (fun n => prefixed ((plain assign).operand n)) n
    else accesses ((plain assign).expression n)) := by
  funext n
  cases n <;> rfl

/-- Expressions as a family: each takes a charge. -/
theorem expression_eq : ((plain assign).expression : Nat → Parse σ Expr) =
    charge fun n => (plain assign).assignment ((plain assign).operand n) := by
  funext n
  cases n <;> rfl

/-- Items of a block as a family: each takes a charge. -/
theorem declaration_eq : ((plain assign).declaration : Nat → Parse σ Stmt) =
    charge fun n => itemOver ((plain assign).expression n) ((plain assign).declaration n)
      ((plain assign).statement n) := by
  funext n
  cases n with
  | zero => rw [declaration]; rfl
  | succ n => rw [declaration]; rfl

/-- Statements as a family: each takes a charge. -/
theorem statement_eq : ((plain assign).statement : Nat → Parse σ Stmt) =
    charge fun n => clauseOver ((plain assign).expression n) ((plain assign).declaration n)
      ((plain assign).statement n) := by
  funext n
  cases n with
  | zero => rw [statement]; rfl
  | succ n => rw [statement]; rfl

/-- A name is an operand where it is not continued. -/
theorem operand_name (n : Nat) {d : Cursor σ} (hd : IsName d.current)
    (hc : Closes [] d.step.current) :
    (plain assign).operand n d = .ok (.reference d.current.value) d.step := by
  have hk : d.current.kind = .identifier := hd
  have hprimary : primary ((plain assign).expression n) d =
      .ok (.reference d.current.value) d.step := by
    rw [primary_eq, current_bind]
    simp only [Token.atom?, hk]
    rfl
  rw [congrFun operand_eq n, kind_bind, hk]
  refine (bind_ok hprimary).trans ?_
  rw [foldWhile_eq, foldWithin_stop hc.1]

/-- Whether a target can be assigned to does not depend on the rest of the assignment; and if the
grammar is relaxed, every target can. -/
def Decides (assign : Expr → Kind → Expr → Option Expr) (relaxed : Prop) : Prop :=
  ∀ target, (∀ operator value, (assign target operator value).isSome) ∨
    ¬relaxed ∧ ∀ operator value, assign target operator value = none

/-- All recursive levels are viable, for runs with fewer than `N` charges. -/
structure ViableLevels (r : Prop) (N : Nat) (D : Discipline σ) : Prop where
  operand : Viable r N anyToken IsName (Closes []) D.operand
  expression : Viable r N anyToken IsName EndsExpr D.expression
  declaration : Viable r N anyToken IsName EndsStmt D.declaration
  statement : Viable r N anyToken IsName EndsStmt D.statement

/-- Without charges there are no runs to speak of, but there are phrases: a name, and a name with
its semicolon. -/
theorem viableLevels_zero (hassign : Decides assign r) :
    ViableLevels r 0 (plain assign : Discipline σ) := by
  have hoperand :
      Viable r 0 anyToken IsName (Closes []) ((plain assign).operand : _ → Parse σ _) := by
    refine ⟨⟨[⟨.identifier, [], {}⟩], .reference [], by simp, 0, ?_⟩,
      fun n hn => absurd hn (by simp)⟩
    rintro d d' ⟨hd, -, rfl⟩ hc
    have hname : IsName d.current := by rw [hd]; rfl
    refine ⟨hname, fun n => .inl ?_⟩
    rw [operand_name n hname hc, hd]
  have hexpression : Viable r 0 anyToken IsName EndsExpr
      ((plain assign).expression : _ → Parse σ _) := by
    rw [expression_eq]
    refine ⟨?_, fun n hn => absurd hn (by simp)⟩
    exact (hoperand.assignment (S := anyToken)
      (fun n => Alike.operand (P := Pairing.self assign) (.inl rfl) n) hassign).charge.filler
  obtain ⟨w, s, hphrase⟩ := (hexpression.expressionStatement (S := anyToken) (F := EndsStmt)).filler
  have hstatement : Accepts ((plain assign).statement : _ → Parse σ _) w IsName EndsStmt s := by
    rw [statement_eq]
    refine (hphrase.of_eq fun n d hd => ?_).charge
    rw [clauseOver, kind_bind, show d.current.kind = .identifier from hd]
    rfl
  have hdeclaration : Accepts ((plain assign).declaration : _ → Parse σ _) w IsName EndsStmt s := by
    rw [declaration_eq]
    refine (hstatement.of_eq fun n d hd => ?_).charge
    rw [itemOver, kind_bind, show d.current.kind = .identifier from hd]
    rfl
  exact ⟨hoperand, hexpression, ⟨⟨w, s, hdeclaration⟩, fun n hn => absurd hn (by simp)⟩,
    ⟨⟨w, s, hstatement⟩, fun n hn => absurd hn (by simp)⟩⟩

/-- One charge more, for all levels. -/
theorem ViableLevels.succ (hassign : Decides assign r)
    (h : ViableLevels r N (plain assign : Discipline σ)) :
    ViableLevels r (N + 1) (plain assign : Discipline σ) := by
  have hprogress : ∀ n, Advances anyKind true ((plain assign).declaration n : Parse σ Stmt) :=
    advances_declaration assign
  have hmethod : ∀ n,
      Advances anyKind true (functionDecl ((plain assign).declaration n) : Parse σ FunctionDecl) :=
    fun n => (Alike.declaration (P := Pairing.self assign) (.inl rfl) n).functionDecl.advances
  have hexpression : Viable r (N + 1) anyToken IsName EndsExpr
      ((plain assign).expression : _ → Parse σ _) := by
    rw [expression_eq]
    exact (h.operand.assignment
      (fun n => Alike.operand (P := Pairing.self assign) (.inl rfl) n) hassign).charge
  refine ⟨?_, hexpression, ?_, ?_⟩
  · rw [operand_eq]
    refine .firstOf (fun t _ ht => .inl (.charge ?_)) ?_ fun t ht => ?_
    · exact .bind (.consume (Kind.ne_eof_of_holds rfl ht)) fun _ =>
        h.operand.bind fun _ => .pure _
    · exact hexpression.accesses fun n => Alike.expression (P := Pairing.self assign) (.inl rfl) n
    · rw [show t.kind = .identifier from ht]
      exact nofun
  · rw [declaration_eq]
    exact (h.expression.itemOver h.declaration h.statement hprogress hmethod).charge
  · rw [statement_eq]
    exact (h.expression.clauseOver h.declaration h.statement hprogress).charge

/-- **All levels are viable**, by induction on the charges. -/
theorem viableLevels (hassign : Decides assign r) (N : Nat) :
    ViableLevels r N (plain assign : Discipline σ) := by
  induction N with
  | zero => exact viableLevels_zero hassign
  | succ N ih => exact ih.succ hassign

/-- **Every program that is read or fails is explained**, with any number of charges. -/
theorem viable_program (hassign : Decides assign r) (N : Nat) :
    Viable r N anyToken (fun t => IsName t ∨ t.kind = .eof) (·.kind = .eof)
      ((plain assign).program : _ → Parse σ Program) := by
  refine .collectWhile rfl (fun n => (advances_declaration assign n).at_kinds) (fun t _ => ?_)
    fun t ht => ⟨.inr ht, by simp [ht]⟩
  refine (viableLevels hassign N).declaration.mono (fun _ _ => trivial)
    (fun u hu => .inr ⟨.inl hu, ?_⟩) ?_
  · simp [show u.kind = .identifier from hu]
  · rintro u (hu | hu)
    · exact endsStmt_of_isName hu
    · rw [EndsStmt, hu]
      exact nofun

end Discipline

end ScriptFront

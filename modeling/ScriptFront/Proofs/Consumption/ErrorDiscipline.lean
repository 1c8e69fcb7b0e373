import ScriptFront.Proofs.Consumption.Requests

/-!
# Where Diagnostics Point

Every fault of a parser is a diagnostic **about a token that the parser has seen**, and which one
is told by its message (`Diagnostic.PointsAt`): the current token, the one consumed last, or an
operator consumed before. This holds of a parser that is asked again after a fault, whatever it was
asked before (`Parser.pointsAt_ask`).

A token that could not be scanned is never consumed. It is refused by every production that it can
begin, so a parser that has come to one is stuck there (`Parser.stuck_of_error`), and unless the
nesting limit is too low to reach it, what the scanner said is all it says from then on.
-/

namespace ScriptFront

open Text Parse

/-- **The token a diagnostic is about**, if the tokens `consumed` have been consumed and `current`
is the next one. -/
inductive Diagnostic.PointsAt (consumed : List Token) (current : Token) : Diagnostic → Prop
  /-- A token in the wrong place; one that could not be scanned speaks for itself. -/
  | misplaced {message : Bytes} (hscan : current.kind = .error → message = current.value) :
      PointsAt consumed current ⟨.syntaxError, message, current.span⟩
  | expression {t : Token} (hlast : consumed.getLast? = some t) :
      PointsAt consumed current ⟨.parseError, utf8 "expect expression", t.span⟩
  | inheritance {t : Token} (hlast : consumed.getLast? = some t) :
      PointsAt consumed current ⟨.parseError, utf8 "cannot inherit from itself", t.span⟩
  | number :
      PointsAt consumed current
        ⟨.parseError, utf8 "invalid number literal " ++ Quoted.text current.value, current.span⟩
  | nesting :
      PointsAt consumed current
        ⟨.parseError, utf8 "maximum nesting depth exceeded", current.span⟩
  | target {t : Token} (hmem : t ∈ consumed) (hkind : t.kind.isAssignment = true) :
      PointsAt consumed current ⟨.parseError, utf8 "invalid assignment target", t.span⟩

section

variable {σ : Type} [TokenSource σ]

/-! ### From causes to messages -/

/-- The diagnostic of a fault points at a token that has been seen by then. -/
theorem Parse.FaultAt.pointsAt {consumed : List Token} {c c' : Cursor σ} {f : ParseFault}
    (h : FaultAt consumed c f c') :
    ∃ k, c.Placed k c' ∧ f.diagnostic.PointsAt (consumed ++ c.upcoming k) c'.current := by
  have hstay : c.Placed 0 c := c.consumes_nil.placed
  cases h with
  | @misplaced cause hkind hscan =>
      refine ⟨0, hstay, ?_⟩
      rw [ParseFault.diagnostic, hkind]
      refine .misplaced fun herror => ?_
      rw [hscan herror]
      rfl
  | number => exact ⟨0, hstay, .number⟩
  | nesting => exact ⟨0, hstay, .nesting⟩
  | expression hscan => exact ⟨1, Cursor.placed_step hscan, .expression List.getLast?_concat⟩
  | inheritance hlast =>
      refine ⟨0, hstay, .inheritance ?_⟩
      rw [Cursor.upcoming, List.append_nil, hlast]
  | target hmem hkind => exact ⟨0, hstay, .target (List.mem_append_left _ hmem) hkind⟩

/-! ### Tokens that could not be scanned -/

/-- The fault that a token which could not be scanned stands for. -/
def Token.stray (t : Token) : ParseFault :=
  ⟨.unscannable t.value, t.span⟩

namespace Parse

variable {c : Cursor σ}

/-- A primary expression stops at a token that could not be scanned. -/
theorem primary_of_error (h : c.current.kind = .error) (inner : Parse σ Expr) :
    primary inner c = .error c.current.stray c := by
  rw [primary, current_bind]
  simp only [h]
  rw [unexpected, if_pos h]
  rfl

/-- A unary operation stops at a token that could not be scanned. -/
theorem unary_of_error (h : c.current.kind = .error) (d : Nat) :
    unary d c = .error c.current.stray c := by
  have hover : ∀ deeper : Option (Parse σ Expr),
      unaryOver deeper c = .error c.current.stray c := by
    intro deeper
    unfold unaryOver
    rw [kind_bind, h, if_neg (by decide), accesses, bind_error (primary_of_error h _)]
  cases d with
  | zero => exact hover none
  | succ d => exact hover (some (unary d))

/-- Levels of operators fail where their first operand does. -/
theorem binaries_of_error {operand : Parse σ Expr} {f : ParseFault} {c' : Cursor σ}
    (h : operand c = .error f c') (levels : List BinaryLevel) :
    binaries levels operand c = .error f c' := by
  induction levels with
  | nil => exact h
  | cons level levels ih => exact bind_error ih

/-- An expression stops at a token that could not be scanned. -/
theorem expression_of_error (h : c.current.kind = .error) (d : Nat) :
    expression (d + 1) c = .error c.current.stray c :=
  bind_error (binaries_of_error (unary_of_error h d) _)

/-- A token that could not be scanned is taken for the beginning of an expression. -/
theorem statement_of_error (h : c.current.kind = .error) (d : Nat) :
    statement (d + 1) c = expressionStatement (expression d) c := by
  rw [statement_succ, clauseOver, kind_bind, h]
  rfl

/-- A token that could not be scanned is taken for the beginning of a statement. -/
theorem declaration_eq_statement_of_error (h : c.current.kind = .error) (d : Nat) :
    declaration (d + 1) c = statement d c := by
  rw [declaration_succ, itemOver, kind_bind, h]
  rfl

/-- **A token that could not be scanned begins no statement**, and the parser does not get past it.
Three charges are taken on the way to the primary expression that tells what the scanner said: for
the declaration, the statement and the expression. -/
theorem declaration_of_error (h : c.current.kind = .error) (d : Nat) :
    ∃ f, declaration d c = .error f c ∧ (3 ≤ d → f = c.current.stray) := by
  match d with
  | 0 => exact ⟨_, rfl, by omega⟩
  | 1 =>
      rw [declaration_eq_statement_of_error h]
      exact ⟨_, rfl, by omega⟩
  | 2 =>
      rw [declaration_eq_statement_of_error h, statement_of_error h]
      exact ⟨_, rfl, by omega⟩
  | d + 3 =>
      rw [declaration_eq_statement_of_error h, statement_of_error h, expressionStatement,
        bind_error (expression_of_error h d)]
      exact ⟨_, rfl, fun _ => rfl⟩

end Parse

namespace Parser

variable {p : Parser σ} {r : Request}

/-- **The step**: the diagnostic of a request that fails points at a token seen by then. -/
theorem pointsAt_ask {c₀ : Cursor σ} {m : Nat} {f : ParseFault} (h : c₀.Placed m p.cursor)
    (hf : (p.ask r).1 = .error f) :
    ∃ k, c₀.Placed (m + k) (p.ask r).2.cursor ∧
      f.diagnostic.PointsAt (c₀.upcoming (m + k)) (p.ask r).2.cursor.current := by
  obtain ⟨ts, c, hts, hfault⟩ := faultAt_ask hf (c₀.upcoming m)
  obtain ⟨k, hk, hpoints⟩ := hfault.pointsAt
  refine ⟨ts.length + k, h.add (hts.placed.add hk), ?_⟩
  obtain ⟨hc, hup⟩ := hts.takes.eq_forward
  rwa [Cursor.upcoming_add, ← h.cursor, Cursor.upcoming_add, hup, ← hc, ← List.append_assoc]

/-- Only at the end of the input is there no next statement. -/
theorem ask_statement_none_iff :
    (p.ask .statement).1 = .ok (.statement none) ↔ p.cursor.current.kind = .eof := by
  have hrun : p.ask .statement =
      p.run (Answer.statement <$> Discipline.strict.nextStatement p.limit) :=
    ask_eq_run p .statement
  rw [hrun, run_map, Discipline.nextStatement, run, kind_bind]
  by_cases h : p.cursor.current.kind = .eof
  · rw [if_pos h]
    exact iff_of_true rfl h
  · rw [if_neg h]
    refine iff_of_false ?_ h
    cases hx : (Discipline.strict.declaration p.limit : Parse σ Stmt) p.cursor with
    | ok s c =>
        rw [bind_ok hx]
        intro hask
        cases hask
    | error f c =>
        rw [bind_error hx]
        intro hask
        cases hask

/-- At a token that could not be scanned a parser is stuck. -/
theorem stuck_of_error (h : p.cursor.current.kind = .error) :
    ∃ f, p.Stuck f ∧ (3 ≤ p.limit → f = p.cursor.current.stray) := by
  obtain ⟨f, hf, hd⟩ := declaration_of_error h p.limit
  refine ⟨f, ⟨by simp [h], ?_⟩, hd⟩
  rw [Discipline.declaration_strict]
  exact hf

/-- **The discipline of a parser in its faults**, when it has consumed `m` tokens of its source: all
of them could be scanned; whatever it is asked, it goes on to consume such tokens, and the
diagnostic of a fault points at a token seen by then. It runs out of statements exactly at the end
of the input. Come to a token that could not be scanned, it fails at every request from then on,
and with what the scanner said if the limit lets it get there. -/
structure Disciplined (setting : Int) (source : σ) (m : Nat) (p : Parser σ) : Prop where
  placed : (Cursor.start source).Placed m p.cursor
  fault : ∀ r, ∃ k, (Cursor.start source).Placed (m + k) (p.ask r).2.cursor ∧
    ∀ f, (p.ask r).1 = .error f →
      f.diagnostic.PointsAt ((Cursor.start source).upcoming (m + k)) (p.ask r).2.cursor.current
  ended : (p.ask .statement).1 = .ok (.statement none) ↔ p.cursor.current.kind = .eof
  stuck : p.cursor.current.kind = .error → ∀ later r, ∃ f,
    ((p.after later).ask r).1 = .error f ∧
      (3 ≤ limitOf setting →
        f.diagnostic = ⟨.syntaxError, p.cursor.current.value, p.cursor.current.span⟩)

/-- **Every parser is disciplined**, after whatever it has been asked. -/
theorem exists_disciplined_after (setting : Int) (source : σ) (requests : List Request) :
    ∃ m, Disciplined setting source m ((start setting source).after requests) := by
  obtain ⟨m, hm⟩ := placed_session setting source requests
  have hlimit : ((start setting source).after requests).limit = limitOf setting :=
    limit_after _ requests
  generalize (start setting source).after requests = p at hm hlimit
  refine ⟨m, hm, fun r => ?_, ask_statement_none_iff, fun herror later r => ?_⟩
  · cases hask : (p.ask r).1 with
    | ok a =>
        obtain ⟨k, hk⟩ := placed_ask p r
        refine ⟨k, hm.add hk, fun g hg => ?_⟩
        cases hg
    | error f =>
        obtain ⟨k, hk, hpoints⟩ := pointsAt_ask hm hask
        refine ⟨k, hk, fun g hg => ?_⟩
        cases hg
        exact hpoints
  · obtain ⟨f, hstuck, hstray⟩ := stuck_of_error herror
    rw [hlimit] at hstray
    refine ⟨f, ?_, fun hthree => ?_⟩
    · rw [hstuck.after_eq later, hstuck.ask_eq r]
    · rw [hstray hthree]
      rfl

end Parser

end

end ScriptFront

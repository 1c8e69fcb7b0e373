import ScriptFront.Proofs.Parallel.Coupling

/-!
# Progress

A parser coupled with itself comes forward: no production goes back to tokens it has left, and a
statement that is read has consumed a token (`Discipline.advances_declaration`). So the bounds of
the loops in the grammar are always enough, and a loop can be **unrolled** into its first round and
the loop after it (`Parse.foldWhile_unroll`, `Parse.collectWhile_unroll`).
-/

namespace ScriptFront

open Text Parse

/-! ### Failed runs -/

namespace Parse

variable {σ : Type} {α β : Type}

/-- A sequence fails in its first part, or in its second after the first. -/
theorem bind_eq_error_iff {x : Parse σ α} {f : α → Parse σ β} {c c'' : Cursor σ}
    {e : ParseFault} : (x >>= f) c = .error e c'' ↔
      x c = .error e c'' ∨ ∃ a c', x c = .ok a c' ∧ f a c' = .error e c'' := by
  cases hx : x c with
  | ok a c' => simp [bind_ok hx]
  | error e' c' => simp [bind_error hx]

/-- A function of the result does not change the faults. -/
theorem map_eq_error_iff {f : α → β} {x : Parse σ α} {c c' : Cursor σ} {e : ParseFault} :
    (f <$> x) c = .error e c' ↔ x c = .error e c' := by
  rw [map_eq_pure_bind, bind_eq_error_iff]
  exact or_iff_left fun ⟨a, c₁, _, h⟩ => by cases h

end Parse

variable {σ : Type} [TokenSource σ]

/-! ### Progress -/

/-- The pairing of a grammar with itself, on one source. -/
def Pairing.self (assign : Expr → Kind → Expr → Option Expr) : Pairing σ σ :=
  .ofEq (.plain assign) (.plain assign) (fun _ => False) False fun _ _ _ => .inl rfl

/-- The coupling of a grammar with itself: the cursors are the same one. -/
def Coupling.self (assign : Expr → Kind → Expr → Option Expr) :
    Coupling (Pairing.self assign : Pairing σ σ) :=
  .ofCursors _ rfl rfl False.elim Eq (fun h => by rw [h]; rfl) fun h => by rw [h]

namespace Parse

/-- From a current kind in `S` the computation never comes back to tokens it has left, and where
it succeeds and `consumes`, **it leaves at least one**. -/
structure Advances (S : Kind → Prop) (consumes : Bool) {α : Type} (x : Parse σ α) : Prop where
  ok : ∀ {c : Cursor σ} {a : α} {c' : Cursor σ}, S c.current.kind → x c = .ok a c' →
    c'.remaining + consumes.toNat ≤ c.remaining
  error : ∀ {c : Cursor σ} {f : ParseFault} {c' : Cursor σ}, S c.current.kind →
    x c = .error f c' → c'.remaining ≤ c.remaining

/-- What advances from every kind does so from particular ones. -/
theorem Advances.at_kinds {S : Kind → Prop} {i : Bool} {α : Type} {x : Parse σ α}
    (h : Advances anyKind i x) : Advances S i x where
  ok _ := h.ok trivial
  error _ := h.error trivial

end Parse

/-- A computation that is alike to itself makes progress. -/
theorem Alike.advances {assign : Expr → Kind → Expr → Option Expr} {n : Nat} {S : Kind → Prop}
    {i : Bool} {α : Type} {Q : α → α → Prop} {x : Parse σ α}
    (h : Alike (Pairing.self assign) n S i Q x x) : Advances S i x := by
  constructor
  · intro c a c' hS hx
    exact (hx ▸ h.agree (Coupling.self assign) c c rfl hS).remaining_of_ok
  · intro c f c' hS hx
    exact (hx ▸ h.agree (Coupling.self assign) c c rfl hS).remaining_of_error fun _ h => h

/-- **A statement advances**, and consumes a token. -/
theorem Discipline.advances_declaration (assign : Expr → Kind → Expr → Option Expr) (d : Nat) :
    Advances anyKind true ((plain assign).declaration d : Parse σ Stmt) :=
  (Alike.declaration (P := Pairing.self assign) (.inl rfl) d).advances

/-- A program advances. -/
theorem Discipline.advances_program (assign : Expr → Kind → Expr → Option Expr) (d : Nat) :
    Advances anyKind false ((plain assign).program d : Parse σ Program) :=
  (Alike.program (P := Pairing.self assign) (.inl rfl) d).advances

namespace Parse

variable {α : Type} {continues : Kind → Bool}

/-- A bound that is enough for the tokens that can still come makes no difference. -/
theorem foldWithin_eq_foldWhile {round : α → Parse σ α} (heof : continues .eof = false)
    (h : ∀ a, Advances (continues · = true) true (round a)) {m : Nat} {a : α} {c : Cursor σ}
    (hm : c.remaining ≤ m) : foldWithin continues round m a c = foldWhile continues round a c := by
  rw [foldWhile_eq]
  induction m using Nat.strongRecOn generalizing a c with
  | ind m ih =>
      cases hk : continues c.current.kind with
      | false => rw [foldWithin_stop hk, foldWithin_stop hk]
      | true =>
          have hpos : c.remaining ≠ 0 := by
            intro hzero
            rw [Cursor.kind_eq_eof_of_remaining hzero, heof] at hk
            cases hk
          obtain ⟨l, hl⟩ := Nat.exists_eq_succ_of_ne_zero hpos
          obtain ⟨m, rfl⟩ : ∃ l, m = l + 1 := ⟨m - 1, by omega⟩
          rw [hl, foldWithin_round hk, foldWithin_round hk]
          cases hr : round a c with
          | error f c' => rw [bind_error hr, bind_error hr]
          | ok b c' =>
              have hlt : c'.remaining + 1 ≤ c.remaining := (h a).ok hk hr
              rw [bind_ok hr, bind_ok hr, ih m (by omega) (by omega), ← ih l (by omega) (by omega)]

/-- **A loop unrolled.** Its bound is never the reason that it ends. -/
theorem foldWhile_unroll {round : α → Parse σ α} (heof : continues .eof = false)
    (h : ∀ a, Advances (continues · = true) true (round a)) (a : α) :
    foldWhile continues round a = (do
      if continues (← Parse.kind) then foldWhile continues round (← round a) else pure a) := by
  funext c
  rw [kind_bind]
  cases hk : continues c.current.kind with
  | false =>
      rw [foldWhile_eq, foldWithin_stop hk]
      rfl
  | true =>
      rw [if_pos rfl, ← foldWithin_eq_foldWhile heof h (Nat.le_succ c.remaining),
        foldWithin_round hk]
      cases hr : round a c with
      | error f c' => rw [bind_error hr, bind_error hr]
      | ok b c' =>
          have hlt : c'.remaining + 1 ≤ c.remaining := (h a).ok hk hr
          rw [bind_ok hr, bind_ok hr, foldWithin_eq_foldWhile heof h (by omega)]

/-- A function of the result does not change what is consumed. -/
theorem Advances.bind_pure {S : Kind → Prop} {i : Bool} {β : Type} {x : Parse σ α}
    (h : Advances S i x) (g : α → β) : Advances S i (x >>= fun a => pure (g a)) where
  ok hk hx := by
    obtain ⟨a, c₁, ha, hp⟩ := bind_eq_ok_iff.mp hx
    obtain ⟨-, rfl⟩ := pure_eq_ok_iff.mp hp
    exact h.ok hk ha
  error hk hx := by
    rcases bind_eq_error_iff.mp hx with hx | ⟨a, c₁, -, hp⟩
    · exact h.error hk hx
    · cases hp

/-- **The bound of a loop is never reached** if its rounds advance: any bound that is enough for the
tokens that remain gives what the bound of the cursor does. -/
theorem collectWithin_eq_collectWhile {item : Parse σ α} (heof : continues .eof = false)
    (h : Advances (continues · = true) true item) {m : Nat} {c : Cursor σ}
    (hm : c.remaining ≤ m) : collectWithin continues item m c = collectWhile continues item c := by
  have hround := fun as : List α => h.bind_pure (· :: as)
  have hm' : collectWithin continues item m = List.reverse <$>
      foldWithin continues (fun as => item >>= fun a => pure (a :: as)) m [] := by
    rw [foldWithin_cons]
    simp
  rw [hm', collectWhile_eq]
  change EStateM.map _ _ c = EStateM.map _ _ c
  rw [EStateM.map, EStateM.map, foldWithin_eq_foldWhile heof hround hm]

/-- **A list of items unrolled**: the first of them, and then the rest. -/
theorem collectWhile_unroll {item : Parse σ α} (heof : continues .eof = false)
    (h : Advances (continues · = true) true item) : collectWhile continues item = (do
      if continues (← Parse.kind) then
        let a ← item
        let as ← collectWhile continues item
        return a :: as
      else return []) := by
  funext c
  rw [← collectWithin_eq_collectWhile heof h (Nat.le_succ c.remaining), collectWithin, kind_bind,
    kind_bind]
  cases hk : continues c.current.kind with
  | false => rfl
  | true =>
      rw [if_pos rfl, if_pos rfl]
      cases hr : item c with
      | error f c' => rw [bind_error hr, bind_error hr]
      | ok a c' =>
          have hlt : c'.remaining + 1 ≤ c.remaining := h.ok hk hr
          rw [bind_ok hr, bind_ok hr]
          change EStateM.bind _ _ c' = EStateM.bind _ _ c'
          rw [EStateM.bind, EStateM.bind, collectWithin_eq_collectWhile heof h (by omega)]

end Parse

/-- **A program is its first statement and the program after it.** -/
theorem Discipline.program_unroll (assign : Expr → Kind → Expr → Option Expr) (d : Nat) :
    ((plain assign).program d : Parse σ Program) = (do
      if (← Parse.kind) ≠ .eof then
        let s ← (plain assign).declaration d
        let p ← (plain assign).program d
        return s :: p
      else return []) := by
  have h : ((plain assign).program d : Parse σ Program) = _ :=
    collectWhile_unroll rfl (advances_declaration assign d).at_kinds
  simp only [decide_eq_true_eq] at h
  exact h

/-! ### Parsers -/

namespace Parser

/-- A run that succeeds moves the parser to where it has ended. -/
theorem run_of_ok {σ : Type} {α : Type} {p : Parser σ} {x : Parse σ α} {a : α} {c : Cursor σ}
    (h : x p.cursor = .ok a c) : p.run x = (.ok a, { p with cursor := c }) := by
  rw [run, h]

/-- A run that fails moves the parser to where it has failed. -/
theorem run_of_error {σ : Type} {α : Type} {p : Parser σ} {x : Parse σ α} {f : ParseFault}
    {c : Cursor σ} (h : x p.cursor = .error f c) :
    p.run x = (.error f, { p with cursor := c }) := by
  rw [run, h]

/-- A run that gives a fault has ended in it. -/
theorem error_of_run {σ : Type} {α : Type} {p : Parser σ} {x : Parse σ α} {f : ParseFault}
    (h : (p.run x).1 = .error f) : ∃ c, x p.cursor = .error f c := by
  cases hx : x p.cursor with
  | ok a c =>
      rw [run_of_ok hx] at h
      cases h
  | error g c =>
      rw [run_of_error hx] at h
      cases h
      exact ⟨c, rfl⟩

end Parser

/-- A program is parsed by the parser's own discipline. -/
theorem Program.ofTokens_eq_run (setting : Int) (source : σ) :
    Program.ofTokens setting source = ((Parser.start setting source).run
      (Discipline.strict.program (Parser.limitOf setting))).1 := by
  rw [Discipline.program, Discipline.declaration_strict]
  rfl

end ScriptFront

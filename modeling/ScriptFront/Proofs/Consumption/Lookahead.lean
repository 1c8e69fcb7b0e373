import ScriptFront.Proofs.Parallel.Locality

/-!
# One Token of Lookahead

How often a parser pulls from its source, if the source gives `n` tokens before it first gives the
end of the input (`TokenSource.HasLength`):

* reading a whole program **comes to an end**, after `n + 1` pulls if it succeeds, the first of them
  when the parser was made, and after at most `n + 2` if it fails;
* reading a statement takes as many pulls as the statement has symbols, so that the parser is never
  further than **the one token it looks at**;
* whatever it is asked, **what it has not pulled plays no part**: another source that begins with
  the same tokens gives the same result.

`Parser.frugal_of_hasLength` says it of every source and every nesting limit.
-/

namespace ScriptFront

open Text Parse

section

variable {σ : Type} [TokenSource σ]

/-! ### The tokens of a source -/

namespace TokenSource

/-- The token that a source gives after `i` others. -/
def nth (source : σ) (i : Nat) : Token :=
  ((Cursor.start source).forward i).current

/-- The source gives **`n` tokens before the end of the input**. -/
structure HasLength (source : σ) (n : Nat) : Prop where
  before : ∀ i < n, (nth source i).kind ≠ .eof
  eof : (nth source n).kind = .eof

/-- Counting the pulls leaves the tokens as they are. -/
theorem nth_counted (source : σ) (pulls i : Nat) :
    nth (Counted.mk source pulls) i = nth source i := by
  have hforward : ∀ (c : Cursor (Counted σ)) (d : Cursor σ),
      c.current = d.current → c.source.source = d.source →
      (c.forward i).current = (d.forward i).current := by
    induction i with
    | zero => exact fun c d hcur _ => hcur
    | succ i ih =>
        intro c d _ hsource
        refine ih c.step d.step ?_ ?_
        · rw [Cursor.step, Cursor.step, ← hsource]
          rfl
        · rw [Cursor.step, Cursor.step, ← hsource]
          rfl
  exact hforward _ _ rfl rfl

/-- A source has its length also when its pulls are counted. -/
theorem HasLength.counted {source : σ} {n : Nat} (h : HasLength source n) :
    HasLength (Counted.mk source 0) n where
  before i hi := by
    rw [nth_counted]
    exact h.before i hi
  eof := by
    rw [nth_counted]
    exact h.eof

end TokenSource

namespace Cursor

variable {c c' : Cursor σ} {ts : List Token}

/-- The tokens that come up are the current ones of the cursors further on. -/
theorem upcoming_eq_map (c : Cursor σ) (k : Nat) :
    c.upcoming k = (List.range k).map fun i => (c.forward i).current := by
  induction k with
  | zero => rfl
  | succ k ih => rw [upcoming_succ, ih, List.range_succ, List.map_append, List.map_singleton]

/-- A token comes up if it is the current one of a cursor further on. -/
theorem mem_upcoming_iff {t : Token} {k : Nat} :
    t ∈ c.upcoming k ↔ ∃ i < k, (c.forward i).current = t := by
  simp only [upcoming_eq_map, List.mem_map, List.mem_range]

/-- Tokens other than the end of the input are no more than there are before it. -/
theorem Consumes.length_le {source : σ} {n : Nat} (h : (start source).Consumes ts c')
    (hn : TokenSource.HasLength source n) : ts.length ≤ n := by
  refine Nat.le_of_not_lt fun hlt => ?_
  have hmem := mem_upcoming_iff.mpr ⟨n, hlt, (rfl : TokenSource.nth source n = _)⟩
  rw [h.takes.eq_forward.2] at hmem
  exact h.takes.kind_ne_eof _ hmem hn.eof

/-- Who has come to the end of the input has consumed all tokens before it. -/
theorem Consumes.length_eq {source : σ} {n : Nat} (h : (start source).Consumes ts c')
    (hn : TokenSource.HasLength source n) (heof : c'.current.kind = .eof) : ts.length = n := by
  refine Nat.le_antisymm (h.length_le hn) (Nat.le_of_not_lt fun hlt => ?_)
  rw [h.takes.eq_forward.1] at heof
  exact hn.before _ hlt heof

end Cursor

/-- A program that has been read reaches to the end of the input. -/
theorem Discipline.kind_eof_of_program {assign : Expr → Kind → Expr → Option Expr} {d : Nat}
    {c c' : Cursor σ} {p : Program} (h : (plain assign).program d c = .ok p c') :
    c'.current.kind = .eof := by
  induction hc : c.remaining using Nat.strongRecOn generalizing c p with
  | ind m ih =>
      rw [program_unroll, kind_bind] at h
      split at h
      · obtain ⟨s, c₁, hs, h⟩ := bind_eq_ok_iff.mp h
        obtain ⟨ss, c₂, hss, h⟩ := bind_eq_ok_iff.mp h
        obtain ⟨-, rfl⟩ := pure_eq_ok_iff.mp h
        have hlt : c₁.remaining < c.remaining := (advances_declaration assign d).ok trivial hs
        exact ih _ (hc ▸ hlt) hss rfl
      · next hk =>
        obtain ⟨-, rfl⟩ := pure_eq_ok_iff.mp h
        exact Decidable.not_not.mp hk

end

namespace Parser

variable {σ : Type} [TokenSource σ]

/-- The parser of a source whose pulls are **counted**. -/
def counted (setting : Int) (source : σ) : Parser (Counted σ) :=
  start setting ⟨source, 0⟩

/-- The number of tokens that a parser has pulled. -/
def pulls (p : Parser (Counted σ)) : Nat :=
  p.cursor.source.pulls

/-- Reading all statements that are left **comes to an end**, wherever the parser stands. -/
theorem runs_program (d : Nat) (c : Cursor σ) :
    ∃ k, Runs (collectWhile (· ≠ .eof) (declaration d)) c k
      (collectWhile (· ≠ .eof) (declaration d) c) := by
  have halike := Alike.program (P := (Pairing.self assignment? : Pairing σ σ)) (.inl rfl) d
  have hruns := (halike.ends rfl (fun _ => rfl) c trivial).runs
  rw [← Discipline.declaration_strict]
  exact hruns

/-- A program ends at the end of the input. -/
theorem kind_eof_of_program {p : Parser σ} {program : Program} (h : p.program.1 = .ok program) :
    p.program.2.cursor.current.kind = .eof := by
  have hrun : p.program = p.run (Discipline.strict.program p.limit) := by
    rw [Discipline.program, Discipline.declaration_strict]
    rfl
  rw [hrun] at h ⊢
  cases hx : (Discipline.strict.program p.limit : Parse σ Program) p.cursor with
  | ok a c =>
      rw [run_of_ok hx]
      exact Discipline.kind_eof_of_program hx
  | error f c =>
      rw [run_of_error hx] at h
      cases h

/-- A program that is read takes all tokens there are before the end of the input, and that one is
looked at. -/
theorem pulls_of_program {setting : Int} {source : σ} {n : Nat} {program : Program}
    (hn : TokenSource.HasLength source n) (h : (counted setting source).program.1 = .ok program) :
    (counted setting source).program.2.pulls = n + 1 := by
  have hask : ((counted setting source).ask .program).1 = .ok (.program program) := by
    rw [ask, h]
    rfl
  obtain ⟨ts, hts, -⟩ := consumes_ask hask
  have hlength := Cursor.Consumes.length_eq hts hn.counted (kind_eof_of_program h)
  have hpulls := hts.placed.pulls_eq
  rw [hlength] at hpulls
  exact hpulls.trans (Nat.add_comm 1 n)

/-- A fault takes no more than the end of the input, and looks at no more than the token behind. -/
theorem pulls_of_fault {setting : Int} {source : σ} {n : Nat} {f : ParseFault}
    (hn : TokenSource.HasLength source n) (h : (counted setting source).program.1 = .error f) :
    (counted setting source).program.2.pulls ≤ n + 2 := by
  have hask : ((counted setting source).ask .program).1 = .error f := by
    rw [ask, h]
    rfl
  obtain ⟨ts, c, hts, hfault⟩ := faultAt_ask hask []
  have hlength := Cursor.Consumes.length_le hts hn.counted
  have hpulls : c.source.pulls = 1 + ts.length := hts.placed.pulls_eq
  change ((counted setting source).ask .program).2.cursor.source.pulls ≤ n + 2
  rcases hfault.cursor with hc | ⟨hc, -⟩
  · rw [hc]
    omega
  · rw [hc]
    have hstep : c.step.source.pulls = c.source.pulls + 1 := c.pulls_forward 1
    omega

/-- Reading a program **comes to an end**, by a run that consumes no more than the tokens and the
end of the input. -/
theorem exists_runs_program {source : σ} {n : Nat} (setting : Int)
    (hn : TokenSource.HasLength source n) : ∃ k ≤ n + 1,
      Runs (collectWhile (· ≠ .eof) (declaration (limitOf setting)))
        (counted setting source).cursor k
        (collectWhile (· ≠ .eof) (declaration (limitOf setting))
          (counted setting source).cursor) := by
  obtain ⟨k, hrun⟩ := runs_program (limitOf setting) (counted setting source).cursor
  have hpulls : (counted setting source).program.2.pulls = 1 + k := by
    rw [pulls, program, cursor_run]
    exact (congrArg (·.source.pulls) hrun.finish_eq).trans (Cursor.pulls_forward _ k)
  have hle : (counted setting source).program.2.pulls ≤ n + 2 := by
    cases h : (counted setting source).program.1 with
    | ok program => exact Nat.le_succ_of_le (Nat.le_of_eq (pulls_of_program hn h))
    | error f => exact pulls_of_fault hn h
  exact ⟨k, by omega, hrun⟩

/-- The tokens that a parser consumes are among those of its source. -/
theorem exists_nth_of_consumes {setting : Int} {source : σ} {requests : List Request}
    {ts : List Token} {c : Cursor (Counted σ)}
    (h : ((counted setting source).after requests).cursor.Consumes ts c) :
    ∀ t ∈ ts, ∃ i, TokenSource.nth source i = t := by
  intro t ht
  obtain ⟨m, hm⟩ : ∃ m, (Cursor.start (Counted.mk source 0)).Placed m
      ((counted setting source).after requests).cursor :=
    placed_session setting _ requests
  rw [← h.takes.eq_forward.2, hm.cursor] at ht
  obtain ⟨i, -, rfl⟩ := Cursor.mem_upcoming_iff.mp ht
  refine ⟨m + i, ?_⟩
  rw [← Cursor.forward_add]
  exact (TokenSource.nth_counted source 0 (m + i)).symm

/-- **A statement takes as many tokens as it has symbols**, if no name is empty. -/
theorem pulls_of_nextStatement {setting : Int} {source : σ} {requests : List Request} {s : Stmt}
    (hnames : ∀ i, (TokenSource.nth source i).kind = .identifier →
      (TokenSource.nth source i).value ≠ [])
    (h : ((counted setting source).after requests).nextStatement.1 = .ok (some s)) :
    ((counted setting source).after requests).nextStatement.2.pulls =
      ((counted setting source).after requests).pulls + s.symbols.length := by
  have hask : (((counted setting source).after requests).ask .statement).1 =
      .ok (.statement (some s)) := by
    rw [ask, h]
    rfl
  obtain ⟨ts, hts, htally⟩ := consumes_ask hask
  have hlength : ts.length = s.symbols.length := by
    refine htally fun t ht hk => ?_
    obtain ⟨i, rfl⟩ := exists_nth_of_consumes hts t ht
    exact hnames i hk
  rw [← hlength]
  exact hts.placed.pulls_eq

/-- **What has not been pulled plays no part**: a source that begins with the same tokens gives the
same answer. -/
theorem ask_eq_of_nth_eq {τ : Type} [TokenSource τ] {setting : Int} {source : σ} {other : τ}
    {requests : List Request} {r : Request}
    (h : ∀ i < (((counted setting source).after requests).ask r).2.pulls,
      TokenSource.nth other i = TokenSource.nth source i) :
    (((start setting other).after requests).ask r).1 =
      (((counted setting source).after requests).ask r).1 := by
  have hsame : (counted setting source).cursor.SameUpTo
      (((counted setting source).after requests).ask r).2.pulls (start setting other).cursor := by
    intro i hi
    have hlt : i < (((counted setting source).after requests).ask r).2.pulls :=
      Nat.lt_of_lt_of_le (Nat.lt_add_of_pos_left Nat.one_pos) hi
    exact (TokenSource.nth_counted source 0 i).trans (h i hlt).symm
  obtain ⟨k, hk⟩ := placed_ask ((counted setting source).after requests) r
  have hle : ((counted setting source).after requests).cursor.source.pulls ≤
      (((counted setting source).after requests).ask r).2.pulls := by
    rw [pulls, hk.pulls_eq]
    exact Nat.le_add_right _ k
  have hafter := after_upTo (q := start setting other) rfl hsame requests hle
  refine (ask_upTo ?_ hafter r (Nat.le_refl _)).1.symm
  rw [limit_after, limit_after]
  rfl

/-- **What a parser pulls** from a source that gives `n` tokens before the end of the input. To
read a program comes to an end by a run without bounds; the pulls of a success are as many as the
tokens with the end of the input, those of a fault one more at most; a statement takes as many as
it has symbols; and sources that agree on what has been pulled are answered from alike. -/
structure Frugal (setting : Int) (source : σ) (n : Nat) : Prop where
  ends : ∃ k ≤ n + 1,
    Runs (collectWhile (· ≠ .eof) (declaration (limitOf setting))) (counted setting source).cursor k
      (collectWhile (· ≠ .eof) (declaration (limitOf setting)) (counted setting source).cursor)
  success : ∀ program, (counted setting source).program.1 = .ok program →
    (counted setting source).program.2.pulls = n + 1
  failure : ∀ f, (counted setting source).program.1 = .error f →
    (counted setting source).program.2.pulls ≤ n + 2
  statement : ∀ requests s,
    ((counted setting source).after requests).nextStatement.1 = .ok (some s) →
    ((counted setting source).after requests).nextStatement.2.pulls =
      ((counted setting source).after requests).pulls + s.symbols.length ∧ 1 ≤ s.symbols.length
  unseen : ∀ requests r (τ : Type) [TokenSource τ] (other : τ),
    (∀ i < (((counted setting source).after requests).ask r).2.pulls,
      TokenSource.nth other i = TokenSource.nth source i) →
    (((start setting other).after requests).ask r).1 =
      (((counted setting source).after requests).ask r).1

/-- **A parser looks one token ahead**, and comes to an end. -/
theorem frugal_of_hasLength (setting : Int) (source : σ) (n : Nat)
    (hn : TokenSource.HasLength source n)
    (hnames : ∀ i, (TokenSource.nth source i).kind = .identifier →
      (TokenSource.nth source i).value ≠ []) : Frugal setting source n where
  ends := exists_runs_program setting hn
  success _ h := pulls_of_program hn h
  failure _ h := pulls_of_fault hn h
  statement _ s h := ⟨pulls_of_nextStatement hnames h, List.length_pos_iff.mpr s.symbols_ne_nil⟩
  unseen _ _ _ _ _ h := ask_eq_of_nth_eq h

/-- A `print` without an operand takes the end of the input for one, and the token behind it is
pulled before the fault. -/
theorem frugal_of_hasLength_print :
    let source : Replay := ⟨[⟨.keyword .printKw, utf8 "print", ⟨1, 0, 5⟩⟩]⟩
    TokenSource.HasLength source 1 ∧ Frugal 3 source 1 ∧
      (counted 3 source).program.2.pulls = 3 := by
  intro source
  have hlength : TokenSource.HasLength source 1 := ⟨by decide, rfl⟩
  have hend : ∀ i, (TokenSource.nth (Replay.mk []) i).kind = .eof := by
    intro i
    induction i with
    | zero => rfl
    | succ i ih => exact ih
  refine ⟨hlength, frugal_of_hasLength 3 source 1 hlength fun i hk => ?_, rfl⟩
  cases i with
  | zero => cases hk
  | succ i => cases (hend i).symm.trans hk

end Parser

end ScriptFront

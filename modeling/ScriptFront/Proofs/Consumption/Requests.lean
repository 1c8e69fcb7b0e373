import ScriptFront.Proofs.Consumption.Productions
import ScriptFront.Proofs.Session

/-!
# Consumption by Requests

A parser only moves forward. **One request** consumes tokens from where the parser stands, as many
as its answer has symbols, and a fault points at what it says (`Parser.consumes_ask`,
`Parser.faultAt_ask`). So after any list of requests the parser stands some number of tokens behind
the first one of its source, and none of those it has left behind is a token that could not be
scanned (`Parser.placed_session`).
-/

namespace ScriptFront

open Text Parse

/-- The number of symbols of what a parser answers. -/
def Answer.size : Answer → Nat
  | .statement none => 0
  | .statement (some s) => s.symbols.length
  | .program p => p.symbols.length

section

variable {σ : Type} [TokenSource σ]

/-- **An answer** stands for as many tokens as it has symbols. -/
theorem Parse.measured_answer (d : Nat) (r : Request) :
    Measured Answer.size (Discipline.strict.answer d r : Parse σ Answer) := by
  intro past
  cases r with
  | statement =>
      refine .map (Q := fun s ts => Tally ts (Answer.statement s).size) ?_ fun _ _ h => h
      rw [Discipline.nextStatement, Discipline.declaration_strict]
      refine .kind fun k => .ite (fun _ => .pure .nil) fun _ => ?_
      refine .bind (measured_declaration d past).at_tokens fun s ts hs => .pure ?_
      exact hs.append .nil
  | program =>
      refine .map (Q := fun p ts => Tally ts (Answer.program p).size) ?_ fun _ _ h => h
      rw [Discipline.program, Discipline.declaration_strict]
      refine (Orderly.collectWhile fun past => (measured_declaration d past).at_tokens).weaken
        (fun _ h => h) fun p ts hp => hp.of_eq ?_
      rw [Answer.size, Program.symbols, Stmt.symbolsAll_eq_flatMap, List.length_flatMap]

/-! ### Walking forward -/

namespace Cursor

variable {c c' c₀ : Cursor σ} {ts : List Token} {m k : Nat}

/-- The cursor `c` is **`m` tokens behind** `c₀`, and those could be scanned. -/
structure Placed (c₀ : Cursor σ) (m : Nat) (c : Cursor σ) : Prop where
  cursor : c = c₀.forward m
  scanned : ∀ t ∈ c₀.upcoming m, t.kind ≠ .error

/-- A cursor is as many tokens behind another as have been consumed. -/
theorem Consumes.placed (h : c.Consumes ts c') : c.Placed ts.length c' := by
  obtain ⟨hc', hts⟩ := h.takes.eq_forward
  exact ⟨hc', by rw [hts]; exact h.scanned⟩

/-- A step leads one token behind, if that could be scanned. -/
theorem placed_step (h : c.current.kind ≠ .error) : c.Placed 1 c.step :=
  ⟨rfl, List.forall_mem_singleton.mpr h⟩

/-- Distances of cursors add up. -/
theorem Placed.add (h : c₀.Placed m c) (h' : c.Placed k c') : c₀.Placed (m + k) c' := by
  obtain ⟨rfl, hm⟩ := h
  obtain ⟨rfl, hk⟩ := h'
  refine ⟨(c₀.forward_add m k).symm, ?_⟩
  rw [upcoming_add]
  exact List.forall_mem_append.mpr ⟨hm, hk⟩

end Cursor

namespace Parser

/-- A request leaves the nesting limit as it is. -/
@[simp] theorem limit_ask (p : Parser σ) (r : Request) : (p.ask r).2.limit = p.limit := by
  rw [ask_eq_run, limit_run]

/-- Requests leave the nesting limit as it is. -/
@[simp] theorem limit_after (p : Parser σ) (requests : List Request) :
    (p.after requests).limit = p.limit := by
  induction requests generalizing p with
  | nil => rfl
  | cons r requests ih =>
      rw [after, List.foldl_cons]
      exact (ih _).trans (limit_ask p r)

variable {p : Parser σ} {r : Request}

/-- **An answer has as many symbols** as tokens have been consumed for it. -/
theorem consumes_ask {a : Answer} (h : (p.ask r).1 = .ok a) :
    ∃ ts, p.cursor.Consumes ts (p.ask r).2.cursor ∧ Tally ts a.size := by
  rw [ask_eq_run] at h ⊢
  cases hx : (Discipline.strict.answer p.limit r : Parse σ Answer) p.cursor with
  | error f c =>
      rw [run_of_error hx] at h
      cases h
  | ok b c =>
      rw [run_of_ok hx] at h ⊢
      cases h
      exact (measured_answer p.limit r []).ok trivial hx

/-- **A fault comes after the tokens** that have been consumed up to it, those before the request
included. -/
theorem faultAt_ask {f : ParseFault} (h : (p.ask r).1 = .error f) (past : List Token) :
    ∃ ts c, p.cursor.Consumes ts c ∧ FaultAt (past ++ ts) c f (p.ask r).2.cursor := by
  rw [ask_eq_run] at h ⊢
  cases hx : (Discipline.strict.answer p.limit r : Parse σ Answer) p.cursor with
  | ok b c =>
      rw [run_of_ok hx] at h
      cases h
  | error g c =>
      rw [run_of_error hx] at h ⊢
      cases h
      exact (measured_answer p.limit r past).error trivial hx

/-- **The step**: a request moves the parser forward. -/
theorem placed_ask (p : Parser σ) (r : Request) :
    ∃ k, p.cursor.Placed k (p.ask r).2.cursor := by
  cases h : (p.ask r).1 with
  | ok a =>
      obtain ⟨ts, hts, -⟩ := consumes_ask h
      exact ⟨_, hts.placed⟩
  | error f =>
      obtain ⟨ts, c, hts, hfault⟩ := faultAt_ask h []
      rcases hfault.cursor with hc | ⟨hc, hscan⟩
      · exact ⟨_, hc ▸ hts.placed⟩
      · exact ⟨_, hc ▸ hts.placed.add (Cursor.placed_step hscan)⟩

/-- **The run**: so does every list of requests. -/
theorem placed_after {c₀ : Cursor σ} {m : Nat} {p : Parser σ} (h : c₀.Placed m p.cursor)
    (requests : List Request) : ∃ k, c₀.Placed k (p.after requests).cursor := by
  induction requests generalizing m p with
  | nil => exact ⟨m, h⟩
  | cons r requests ih =>
      obtain ⟨k, hk⟩ := placed_ask p r
      exact ih (h.add hk)

/-- A session stands some tokens behind the first one of its source. -/
theorem placed_session (setting : Int) (source : σ) (requests : List Request) :
    ∃ m, (Cursor.start source).Placed m ((start setting source).after requests).cursor :=
  placed_after (p := start setting source) (Cursor.consumes_nil _).placed requests

end Parser

end

end ScriptFront

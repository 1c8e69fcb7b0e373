import ScriptFront.Proofs.Completeness.Statement
import ScriptFront.Proofs.Soundness.Statement

/-!
# Programs from Lists of Tokens

The two halves of the theory for a parser that is fed a **list of tokens**, with the end of the
input after it.

* Soundness (`Program.symbols_of_ofTokens`): the tokens before the first end of the input are
  exactly the symbols of the program that is returned, in order, and that program is canonical.
* Completeness (`Program.ofTokens_of_symbols`): a list that spells a canonical program is parsed to
  that program if and only if its nesting is within the limit, and a program that is nested too
  deeply ends in that fault.

What remains to be said is how a list is read (`Replay.symbols_of_reads`,
`Replay.reads_of_symbols`).
-/

namespace ScriptFront

open Text

namespace Replay

/-- A list that has been read up to the end of the input begins with the symbols read. -/
theorem symbols_of_reads {ts : List Token} {ss : List Symbol} {c' : Cursor Replay}
    (hr : (Cursor.start (Replay.mk ts)).Reads ss c') (heof : c'.current.kind = .eof) :
    (ts.takeWhile (·.kind ≠ .eof)).map Token.symbol? = ss.map some := by
  induction ss generalizing ts with
  | nil =>
      rw [Cursor.reads_nil] at hr
      subst hr
      cases ts with
      | nil => rfl
      | cons t ts =>
          have hk : t.kind = .eof := heof
          rw [List.takeWhile_cons_of_neg (by simp [hk])]
          rfl
  | cons s ss ih =>
      obtain ⟨hs, hr⟩ := hr
      cases ts with
      | nil => cases hs
      | cons t ts =>
          have hs : t.symbol? = some s := hs
          have hk := Token.kind_ne_eof_of_symbol? hs
          rw [List.takeWhile_cons_of_pos (by simpa using hk), List.map_cons, List.map_cons, hs,
            ih hr]

/-- A list of tokens for some symbols is read as those, up to the end of the input. -/
theorem reads_of_symbols {ts : List Token} {ss : List Symbol}
    (h : ts.map Token.symbol? = ss.map some) :
    (Cursor.start (Replay.mk ts)).Reads ss (Cursor.start ⟨[]⟩) := by
  induction ss generalizing ts with
  | nil =>
      rw [List.map_nil, List.map_eq_nil_iff] at h
      rw [h]
      rfl
  | cons s ss ih =>
      cases ts with
      | nil => cases h
      | cons t ts =>
          rw [List.map_cons, List.map_cons, List.cons.injEq] at h
          exact ⟨h.1, ih h.2⟩

/-- If all identifiers of a list carry names, so do those that are reached by reading it. -/
theorem named_start {ts : List Token} (h : ∀ t ∈ ts, t.Named) :
    (Cursor.start (Replay.mk ts)).Named := by
  intro ss c' hr
  induction ss generalizing ts with
  | nil =>
      rw [Cursor.reads_nil] at hr
      subst hr
      cases ts with
      | nil => exact fun hk => by cases hk
      | cons t ts => exact h t List.mem_cons_self
  | cons s ss ih =>
      cases ts with
      | nil => cases hr.1
      | cons t ts => exact ih (fun t' ht' => h t' (List.mem_cons_of_mem _ ht')) hr.2

end Replay

namespace Program

/-! ### A program and its tokens -/

/-- The tokens of `if (a < 2) f(-a, "s"); else this.b = true;`, without their places. -/
def sampleTokens : List Token :=
  [{ kind := .keyword .ifKw }, { kind := .punctuator .parenLeft },
   { kind := .identifier, value := utf8 "a" }, { kind := .punctuator .less },
   { kind := .number, value := utf8 "2" }, { kind := .punctuator .parenRight },
   { kind := .identifier, value := utf8 "f" }, { kind := .punctuator .parenLeft },
   { kind := .punctuator .minus }, { kind := .identifier, value := utf8 "a" },
   { kind := .punctuator .comma }, { kind := .string, value := utf8 "s" },
   { kind := .punctuator .parenRight }, { kind := .punctuator .semicolon },
   { kind := .keyword .elseKw }, { kind := .keyword .thisKw }, { kind := .punctuator .dot },
   { kind := .identifier, value := utf8 "b" }, { kind := .punctuator .equals },
   { kind := .keyword .trueKw }, { kind := .punctuator .semicolon }]

/-- The program that `sampleTokens` spell. The operand of the unary operator lies deepest: within a
program item, a statement, a branch, an expression, an argument and the operator. -/
def sample : Program :=
  [.branch (.logical (.reference (utf8 "a")) (.punctuator .less) (.number ⟨0x4000000000000000⟩))
    (.expression (.call (.reference (utf8 "f"))
      [.unary (.punctuator .minus) (.reference (utf8 "a")), .string (utf8 "s")]))
    (some (.expression (.set (.reference (utf8 "this")) (utf8 "b") (.punctuator .equals)
      (.boolean true))))]

/-! ### Soundness -/

/-- **Soundness of the parser.** Where a list of tokens is parsed, the symbols of the program are
those of the tokens before the first end of the input: nothing is dropped, duplicated or reordered.
The program is canonical. -/
theorem symbols_of_ofTokens {setting : Int} {ts : List Token} {p : Program}
    (hnamed : ∀ t ∈ ts, t.Named) (h : ofTokens setting (Replay.mk ts) = .ok p) :
    (ts.takeWhile (·.kind ≠ .eof)).map Token.symbol? = p.symbols.map some ∧
      p.canonical = true := by
  obtain ⟨⟨c', hr, heof⟩, hcanon, -⟩ := reads_of_ofTokens (Replay.named_start hnamed) h
  exact ⟨Replay.symbols_of_reads hr heof, hcanon⟩

/-- The sample is parsed to its program, whatever comes after the end of the input. -/
theorem symbols_of_ofTokens_sample :
    let ts : List Token := sampleTokens ++ [{ kind := .eof }, { kind := .error }]
    (∀ t ∈ ts, t.Named) ∧ ofTokens 6 (Replay.mk ts) = .ok sample ∧
      (ts.takeWhile (·.kind ≠ .eof)).map Token.symbol? = sample.symbols.map some ∧
      sample.canonical = true := by
  intro ts
  have hnamed : ∀ t ∈ ts, t.Named := by decide
  have hrun : ofTokens 6 (Replay.mk ts) = .ok sample := rfl
  exact ⟨hnamed, hrun, symbols_of_ofTokens hnamed hrun⟩

/-! ### Completeness -/

/-- **Completeness of the parser, with the exact nesting limit.** A list of tokens that spells a
canonical program is parsed to that program if the limit allows the nesting it needs. If it does
not, the parse ends in a fault of structure that says so. -/
theorem ofTokens_of_symbols {ts : List Token} {p : Program} (hcanon : p.canonical = true)
    (hts : ts.map Token.symbol? = p.symbols.map some) (setting : Int) :
    (p.need ≤ Parser.limitOf setting → ofTokens setting (Replay.mk ts) = .ok p) ∧
      (¬p.need ≤ Parser.limitOf setting →
        ∃ f : ParseFault, ofTokens setting (Replay.mk ts) = .error f ∧ f.cause = .tooDeep ∧
          f.diagnostic.kind = .parseError ∧
          f.diagnostic.message = utf8 "maximum nesting depth exceeded") := by
  have hr := Replay.reads_of_symbols hts
  refine ⟨(ofTokens_of_reads hcanon hr rfl).1, fun hneed => ?_⟩
  obtain ⟨span, h⟩ := (ofTokens_of_reads hcanon hr rfl).2 hneed
  exact ⟨⟨.tooDeep, span⟩, h, rfl, rfl, rfl⟩

/-- Six charges are enough for the sample, and five are not. -/
theorem ofTokens_of_symbols_sample :
    sample.canonical = true ∧ sampleTokens.map Token.symbol? = sample.symbols.map some ∧
      ofTokens 6 (Replay.mk sampleTokens) = .ok sample ∧
      ∃ f : ParseFault, ofTokens 5 (Replay.mk sampleTokens) = .error f ∧ f.cause = .tooDeep := by
  have hcanon : sample.canonical = true := by decide
  have hts : sampleTokens.map Token.symbol? = sample.symbols.map some := by decide
  have hneed : sample.need = 6 := by decide
  refine ⟨hcanon, hts, (ofTokens_of_symbols hcanon hts 6).1 (by rw [hneed]; decide), ?_⟩
  obtain ⟨f, hf, hcause, -⟩ := (ofTokens_of_symbols hcanon hts 5).2 (by rw [hneed]; decide)
  exact ⟨f, hf, hcause⟩

end Program

end ScriptFront

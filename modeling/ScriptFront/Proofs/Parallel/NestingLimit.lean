import ScriptFront.Proofs.Parallel.Progress

/-!
# The Nesting Limit only Cuts Parses Short

A parser with more charges does what one with fewer does, **up to the point where the latter has
none left**. So under a higher limit a program is parsed just as it was, and so is a fault found
that was not due to the limit (`Program.ofTokens_of_limit_le`).

The two parsers are the two sides of one pairing (`Discipline.raising`): on the same tokens, the
right one ahead of the left one by some charges, and the fault of the limit spared. Everything else
about them is `Alike.program`.
-/

namespace ScriptFront

open Text Parse

variable {σ : Type} [TokenSource σ]

namespace Discipline

/-- The parser beside one that has **more charges left**: they differ where the first has none. -/
def raising : Pairing σ σ :=
  .ofEq .strict .strict (· = .tooDeep) True fun _ _ _ => .inl rfl

/-- With more charges a program is read just the same, unless the limit was reached. -/
theorem program_raise (d e : Nat) (c : Cursor σ) :
    (strict.program d : Parse σ Program) c = strict.program (d + e) c ∨
      ∃ span c', (strict.program d : Parse σ Program) c = .error ⟨.tooDeep, span⟩ c' := by
  have hagree := (Alike.program (P := raising) (e := e) (.inr trivial) d).agree
    (.ofCursors _ rfl rfl (fun _ => rfl) Eq (fun h => by rw [h]; rfl) fun h => by rw [h]) c c rfl
    trivial
  change Agree _ _ _ _ _ _ (strict.program d c) (strict.program (d + e) c) at hagree
  generalize strict.program d c = r at hagree ⊢
  generalize strict.program (d + e) c = r' at hagree ⊢
  cases hagree with
  | ok hresult hcursor _ _ =>
      cases hresult
      cases hcursor
      exact .inl rfl
  | error htoken hcursor _ _ =>
      cases htoken
      cases hcursor
      exact .inl rfl
  | spared hcause =>
      cases hcause
      exact .inr ⟨_, _, rfl⟩

end Discipline

namespace Program

/-- **The nesting limit only ever cuts a parse short.** Under a limit and under a higher one a
source gives the same program or the same fault, or the lower limit ends the parse in a fault of
structure that says so. In particular a program stays the same under every higher limit, and so
does every other fault. -/
theorem ofTokens_of_limit_le (source : σ) {setting setting' : Int}
    (h : Parser.limitOf setting ≤ Parser.limitOf setting') :
    (ofTokens setting source = ofTokens setting' source ∨
      ∃ f : ParseFault, ofTokens setting source = .error f ∧ f.cause = .tooDeep ∧
        f.diagnostic.kind = .parseError ∧
        f.diagnostic.message = utf8 "maximum nesting depth exceeded") ∧
      (∀ p, ofTokens setting source = .ok p → ofTokens setting' source = .ok p) ∧
      ∀ f, ofTokens setting source = .error f → f.cause ≠ .tooDeep →
        ofTokens setting' source = .error f := by
  obtain ⟨e, he⟩ := Nat.exists_eq_add_of_le h
  have hcases : ofTokens setting source = ofTokens setting' source ∨
      ∃ span, ofTokens setting source = .error ⟨.tooDeep, span⟩ := by
    rw [ofTokens_eq_run, ofTokens_eq_run, he]
    rcases Discipline.program_raise (Parser.limitOf setting) e (Cursor.start source) with
      heq | ⟨span, c', herror⟩
    · refine .inl ?_
      simp only [Parser.run, Parser.start, heq]
      split <;> rfl
    · exact .inr ⟨span, by rw [Parser.run_of_error herror]⟩
  rcases hcases with heq | ⟨span, hdeep⟩
  · refine ⟨.inl heq, ?_, ?_⟩
    · rintro p hp
      rw [← heq, hp]
    · rintro f hf -
      rw [← heq, hf]
  · refine ⟨.inr ⟨⟨.tooDeep, span⟩, hdeep, rfl, rfl, rfl⟩, ?_, ?_⟩
    · rintro p hp
      rw [hdeep] at hp
      cases hp
    · rintro f hf hcause
      rw [hdeep] at hf
      cases hf
      exact absurd rfl hcause

/-- The tokens of `(-a) = ;`: too deep for four charges, and with more of them it is the missing
value that is refused. -/
def unfinishedTokens : List Token :=
  [⟨.punctuator .parenLeft, utf8 "(", ⟨1, 0, 1⟩⟩, ⟨.punctuator .minus, utf8 "-", ⟨1, 1, 2⟩⟩,
   ⟨.identifier, utf8 "a", ⟨1, 2, 3⟩⟩, ⟨.punctuator .parenRight, utf8 ")", ⟨1, 3, 4⟩⟩,
   ⟨.punctuator .equals, utf8 "=", ⟨1, 5, 6⟩⟩, ⟨.punctuator .semicolon, utf8 ";", ⟨1, 7, 8⟩⟩]

/-- Five charges find the fault that the default limit finds. Four end before it, at the sign. -/
theorem ofTokens_of_limit_le_unfinished :
    Parser.limitOf 5 ≤ Parser.limitOf 0 ∧
      ofTokens 4 (Replay.mk unfinishedTokens) = .error ⟨.tooDeep, ⟨1, 1, 2⟩⟩ ∧
      ofTokens 5 (Replay.mk unfinishedTokens) = .error ⟨.expectedExpression, ⟨1, 7, 8⟩⟩ ∧
      ofTokens 0 (Replay.mk unfinishedTokens) = .error ⟨.expectedExpression, ⟨1, 7, 8⟩⟩ := by
  have hle : Parser.limitOf 5 ≤ Parser.limitOf 0 := by decide
  have hfault : ofTokens 5 (Replay.mk unfinishedTokens) =
      .error ⟨.expectedExpression, ⟨1, 7, 8⟩⟩ := rfl
  exact ⟨hle, rfl, hfault, (ofTokens_of_limit_le _ hle).2.2 _ hfault nofun⟩

end Program

end ScriptFront

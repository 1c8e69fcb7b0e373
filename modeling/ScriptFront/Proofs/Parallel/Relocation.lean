import ScriptFront.Proofs.Parallel.Progress

/-!
# Tokens at other Places

The parser never looks at where a token stands; places only come out again in its faults. So if two
sources give the same tokens at different places (`Follows`), **the same program is parsed from
both, or the same fault is found** at the place that the token has in each of them
(`Program.ofTokens_relocate`).
-/

namespace ScriptFront

open Text Parse

/-- The token at another place. -/
def Token.relocate (g : Span → Span) (t : Token) : Token :=
  { t with span := g t.span }

/-- The fault at another place. -/
def ParseFault.relocate (g : Span → Span) (f : ParseFault) : ParseFault :=
  { f with span := g f.span }

variable {σ τ : Type} [TokenSource σ] [TokenSource τ] {g : Span → Span} {T : Token → Prop}
  {R : σ → τ → Prop}

/-- **One source follows the other**: wherever `R` relates them, the second gives the token of the
first at the place that `g` says. All these tokens satisfy `T`. -/
structure Follows (g : Span → Span) (T : Token → Prop) (R : σ → τ → Prop) : Prop where
  holds : ∀ {s s'}, R s s' → T (TokenSource.next s).1
  token : ∀ {s s'}, R s s' → (TokenSource.next s').1 = (TokenSource.next s).1.relocate g
  rest : ∀ {s s'}, R s s' → R (TokenSource.next s).2 (TokenSource.next s').2

namespace Follows

/-- Two parsers for the same tokens at different places. -/
def pairing (σ τ : Type) [TokenSource σ] [TokenSource τ] (g : Span → Span) (T : Token → Prop) :
    Pairing σ τ where
  left := .strict
  right := .strict
  corresponds t u := T t ∧ u = t.relocate g
  kind_eq h := by rw [h.2]; rfl
  value_eq h _ := by rw [h.2]; rfl
  spared _ := False
  ahead := False
  assign_eq _ _ _ := .inl rfl

/-- The cursors at the fronts of two sources go together if the sources do. -/
def coupling (h : Follows g T R) : Coupling (pairing σ τ g T) :=
  .ofCursors _ rfl rfl False.elim
    (fun c d => ∃ s s', R s s' ∧ c = Cursor.start s ∧ d = Cursor.start s')
    (by
      rintro c d ⟨s, s', hR, rfl, rfl⟩
      exact ⟨h.holds hR, h.token hR⟩)
    (by
      rintro c d ⟨s, s', hR, rfl, rfl⟩
      exact ⟨_, _, h.rest hR, rfl, rfl⟩)

end Follows

/-- **The place of a token does not matter to the parser.** A fault lies at a token of the
source. -/
theorem Program.ofTokens_relocate (h : Follows g T R) {s : σ} {s' : τ} (hR : R s s')
    (setting : Int) :
    ofTokens setting s' = (ofTokens setting s).mapError (·.relocate g) ∧
      ∀ f, ofTokens setting s = .error f → ∃ t, T t ∧ f.span = t.span := by
  have hagree := (Alike.program (P := Follows.pairing σ τ g T) (.inl rfl)
    (Parser.limitOf setting)).agree h.coupling _ _ ⟨s, s', hR, rfl, rfl⟩ trivial
  rw [ofTokens_eq_run, ofTokens_eq_run, Parser.run, Parser.run, Parser.start, Parser.start]
  change Agree _ _ _ _ _ _ (Discipline.strict.program _ (Cursor.start s))
    (Discipline.strict.program _ (Cursor.start s')) at hagree
  generalize Discipline.strict.program _ (Cursor.start s) = r at hagree ⊢
  generalize Discipline.strict.program _ (Cursor.start s') = r' at hagree ⊢
  cases hagree with
  | ok hQ _ _ _ =>
      subst hQ
      refine ⟨rfl, ?_⟩
      rintro f hf
      cases hf
  | error htu _ _ _ =>
      obtain ⟨ht, rfl⟩ := htu
      refine ⟨rfl, ?_⟩
      rintro f hf
      cases hf
      exact ⟨_, ht, rfl⟩
  | spared h => exact h.elim

end ScriptFront

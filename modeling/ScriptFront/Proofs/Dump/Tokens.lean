import ScriptFront.Proofs.Dump.Text
import ScriptFront.Proofs.Scanner.Relocation

/-!
# The Tokens of a Dump

**The dump of a tree has exactly the tokens that the tree is made of** (`Program.tokens_dump`), in
order and up to the end of the input. Nothing is asked of the tree but that its symbols can be
written: it may have operands that bind too loosely, declarations as branches and any statement as
the first clause of a loop. A parser may refuse such a dump, or read another tree from it; the
scanner takes no two of its tokens for one, none of them for two, and none for a comment.
-/

namespace ScriptFront

open Text Scanner

/-- **A text that is scanned as some symbols and ends there has the tokens of these**, and then the
end of the input. -/
theorem Lexes.tokens {text rest : List Rune} {ss : List Symbol} (h : Lexes text ss rest)
    (hrest : core rest = []) (position : Position) :
    ∃ (ts : List Token) (last : Token), (Scanner.mk text position).tokens = ts ++ [last] ∧
      last.kind = .eof ∧ ts.map Token.symbol? = ss.map some := by
  induction ss generalizing text position with
  | nil =>
      have hcore : core text = [] := Eq.trans h hrest
      have heof := kind_next_of_core (s := ⟨text, position⟩) hcore
      exact ⟨[], _, tokens_of_eof heof, heof, rfl⟩
  | cons s ss ih =>
      obtain ⟨r, more, htext, hcomment, hs, h⟩ := h
      have hnext := splitLayout_of_core htext hcomment
      obtain ⟨ts, last, htokens, hlast, hsymbols⟩ := ih h
        ((position.past (splitLayout false text).1).past (lexeme r more).runes)
      have hsymbol : (Scanner.mk text position).next.1.symbol? = some s := by
        simp only [next, hnext]
        exact hs
      have hne : (Scanner.mk text position).next.1.kind ≠ .eof := by
        intro heof
        rw [Token.symbol?, heof] at hsymbol
        cases hsymbol
      refine ⟨(Scanner.mk text position).next.1 :: ts, last, ?_, hlast, ?_⟩
      · rw [tokens_of_ne_eof hne, List.cons_append, ← htokens]
        simp only [next, hnext]
      · rw [List.map_cons, List.map_cons, hsymbol, hsymbols]

/-- Tokens that stand for symbols are of their kinds, and none is a fault. -/
theorem Token.kinds_of_symbols {ts : List Token} {ss : List Symbol}
    (h : ts.map symbol? = ss.map some) :
    ts.map kind = ss.map Symbol.kind ∧ ∀ t ∈ ts, t.kind ≠ .error := by
  induction ts generalizing ss with
  | nil =>
      cases ss with
      | nil => exact ⟨rfl, List.forall_mem_nil _⟩
      | cons s ss => cases h
  | cons t ts ih =>
      cases ss with
      | nil => cases h
      | cons s ss =>
          rw [List.map_cons, List.map_cons, List.cons.injEq] at h
          obtain ⟨hkinds, hclean⟩ := ih h.2
          refine ⟨?_, List.forall_mem_cons.mpr ⟨?_, hclean⟩⟩
          · rw [List.map_cons, List.map_cons, kind_of_symbol? h.1, hkinds]
          · intro herror
            have hsymbol := h.1
            rw [symbol?, herror] at hsymbol
            cases hsymbol

namespace Program

/-- **Dumps keep their tokens apart.** Where the operators of a program are in their places and its
symbols can be written, the tokens of its dump are those of the program, each of its kind and with
its name, text or number, and then the end of the input. None of them is a fault. -/
theorem tokens_dump {p : Program} (hfit : p.operatorsFit = true)
    (hs : ∀ sym ∈ p.symbols, sym.Spellable) :
    ∃ (ts : List Token) (last : Token), (Scanner.ofText p.dump).tokens = ts ++ [last] ∧
      last.kind = .eof ∧ (∀ t ∈ ts, t.kind ≠ .error) ∧
      ts.map Token.kind = p.symbols.map Symbol.kind ∧
      ts.map Token.symbol? = p.symbols.map some := by
  obtain ⟨ts, last, htokens, hlast, hsymbols⟩ :=
    (lexes_dump_of_operatorsFit hfit hs).tokens rfl {}
  obtain ⟨hkinds, hclean⟩ := Token.kinds_of_symbols hsymbols
  exact ⟨ts, last, htokens, hlast, hclean, hkinds, hsymbols⟩

/-- A program that no text is parsed to: its loop has a block for its first clause and a declaration
for its body, operators stand between assignments, and a number is taken for an object. -/
def unparsedProgram : Program :=
  [.for
    (some (.block [.expression (.unary (.punctuator .minus)
      (.unary (.punctuator .minus) (.get (.number ⟨0x3ff0000000000000⟩) (utf8 "x"))))]))
    none
    (some (.assign (utf8 "this") (.punctuator .slash) (.string (utf8 "//"))))
    (.binding (utf8 "foré") (some (.binary
      (.unary (.punctuator .bang) (.assign (utf8 "x") (.punctuator .equals) (.boolean true)))
      (.punctuator .equalEqual) (.grouping (.super (utf8 "x"))))) true)]

/-- Its dump keeps signs, a point after a number and slashes in a string apart. -/
theorem tokens_dump_unparsedProgram :
    unparsedProgram.canonical = false ∧
      unparsedProgram.dump =
        utf8 "for (\x7b --1.x; \x7d; this / \"//\") const foré = !x = true == (super.x);\n" ∧
      ∃ (ts : List Token) (last : Token),
        (Scanner.ofText unparsedProgram.dump).tokens = ts ++ [last] ∧ last.kind = .eof ∧
        (∀ t ∈ ts, t.kind ≠ .error) ∧
        ts.map Token.kind = unparsedProgram.symbols.map Symbol.kind ∧
        ts.map Token.symbol? = unparsedProgram.symbols.map some := by
  have hs : ∀ sym ∈ unparsedProgram.symbols, sym.Spellable := by
    have hx : IsName (utf8 "x") := ⟨⟨'x', [], rfl, rfl, nofun⟩, rfl⟩
    have hparts : ['o', 'r', 'é'].all (fun c => isWordPart (.char c)) = true := rfl
    have hword : IsName (utf8 "foré") := ⟨⟨'f', _, rfl, rfl, List.all_eq_true.mp hparts⟩, rfl⟩
    have htext : (Symbol.text (utf8 "//")).Spellable := ⟨['/', '/'], rfl⟩
    have hnumber : (Symbol.number ⟨0x3ff0000000000000⟩).Spellable := ⟨rfl, rfl⟩
    simp only [Symbol.Spellable] at htext hnumber
    simp [unparsedProgram, symbols, Stmt.symbolsAll, Stmt.symbols, Stmt.clauseSymbols,
      Expr.symbols, Symbol.reference, Symbol.Spellable, hx, hword, htext, hnumber]
  exact ⟨by decide, by decide +kernel, tokens_dump (by decide) hs⟩

end Program

end ScriptFront

import ScriptFront.Proofs.Dump.RoundTrip
import ScriptFront.Proofs.Text.Lines

/-!
# One Statement a Line

Each statement of a parsed program is **on a line of its own in the dump, and the line parses to
that statement alone** (`Program.dump_lines`), under the same nesting limit.

No part of a tree has a line feed in its dump, however deep the part is (`Expr.oneLine_dump`,
`Stmt.oneLine_dump`; the induction is on the tree): blocks and lists are written with blanks, and a
string that goes over several lines is written with escapes. That a line can be read alone needs
nothing of the lines around it, since a dump is scanned as its symbols before everything that
breaks it off (`Stmt.writes_dump`), and the end of a text does (`breaks_nil`). In particular, a
branch without an `else` stays one.
-/

namespace ScriptFront

open Text Scanner

/-! ### Leaves -/

/-- A blank is on one line. -/
theorem oneLine_blank : OneLine [byte ' '] := by
  decide

/-- What is written between the parts of a list. -/
theorem oneLine_comma : OneLine (utf8 ", ") := by
  decide

/-- A name is on one line. -/
theorem IsName.oneLine {name : Bytes} (h : IsName name) : OneLine name := by
  obtain ⟨⟨c, cs, rfl, hc, hcs⟩, -⟩ := h
  have hparts : ∀ c' ∈ c :: cs, isWordPart (.char c') = true :=
    List.forall_mem_cons.mpr ⟨isWordPart_of_isWordStart hc, hcs⟩
  rw [Rune.encode, List.flatMap_map, oneLine_flatMap]
  intro c' hmem
  refine oneLine_char ?_
  rintro rfl
  exact absurd (hparts _ hmem) (by decide)

/-- A reference that can be spelled is on one line. -/
theorem oneLine_of_reference {name : Bytes} (h : (Symbol.reference name).Spellable) :
    OneLine name := by
  rw [Symbol.reference] at h
  split at h
  · next hthis =>
    rw [hthis]
    decide
  · exact IsName.oneLine h

/-- A number is on one line. -/
theorem Expr.oneLine_number {x : Binary64} (h : (Symbol.number x).Spellable) :
    OneLine (numberStyle.write x) := by
  obtain ⟨whole, fraction, -, hw, hf, hwrite, -⟩ := Expr.numberStyle_write h.1 h.2
  rw [hwrite]
  intro hmem
  obtain ⟨c, hc, heq⟩ := List.mem_map.mp hmem
  rcases Numeral.isDigit_or_of_mem_plain hw hf hc with hdigit | rfl
  · exact Numeral.byte_ne_of_isDigit hdigit (by decide) (by decide) heq
  · cases heq

/-! ### Expressions -/

mutual

/-- **The dump of an expression is on one line.** Induction on the tree. -/
theorem Expr.oneLine_dump : (e : Expr) → (∀ s ∈ e.symbols, s.Spellable) → OneLine e.dump
  | .boolean true, _ => by decide
  | .boolean false, _ => by decide
  | .number _, hs => Expr.oneLine_number (hs _ List.mem_cons_self)
  | .string value, _ => Literal.oneLine_quote value
  | .reference _, hs => oneLine_of_reference (hs _ List.mem_cons_self)
  | .unary operator right, hs => by
    simp only [Expr.symbols, List.forall_mem_cons] at hs
    simp [Expr.dump, operator.oneLine_name, right.oneLine_dump hs.2]
  | .binary left operator right, hs | .logical left operator right, hs => by
    simp only [Expr.symbols, List.forall_mem_append, List.forall_mem_cons] at hs
    simp +decide [Expr.dump, operator.oneLine_name, left.oneLine_dump hs.1,
      right.oneLine_dump hs.2.2]
  | .grouping inner, hs => by
    simp only [Expr.symbols, List.forall_mem_append, List.forall_mem_cons] at hs
    simp +decide [Expr.dump, inner.oneLine_dump hs.1.2]
  | .assign name operator value, hs => by
    simp only [Expr.symbols, List.forall_mem_cons] at hs
    simp +decide [Expr.dump, operator.oneLine_name, oneLine_of_reference hs.1,
      value.oneLine_dump hs.2.2]
  | .get object name, hs => by
    simp only [Expr.symbols, List.forall_mem_append, List.forall_mem_cons] at hs
    simp +decide [Expr.dump, IsName.oneLine hs.2.2.1, object.oneLine_dump hs.1]
  | .set object name operator value, hs => by
    simp only [Expr.symbols, List.forall_mem_append, List.forall_mem_cons] at hs
    simp +decide [Expr.dump, IsName.oneLine hs.2.2.1, operator.oneLine_name,
      object.oneLine_dump hs.1, value.oneLine_dump hs.2.2.2.2]
  | .super method, hs => by
    simp only [Expr.symbols, List.forall_mem_cons] at hs
    simp +decide [Expr.dump, IsName.oneLine hs.2.2.1]
  | .call callee args, hs => by
    simp only [Expr.symbols, List.forall_mem_append, List.forall_mem_cons, List.append_assoc,
      List.cons_append] at hs
    rw [Expr.symbolsEach_eq_map] at hs
    have hargs := Expr.oneLine_dumps args fun e he =>
      Symbol.forall_of_separated hs.2.2.1 _ (List.mem_map_of_mem he)
    have hlist := oneLine_join oneLine_comma hargs
    simp +decide [Expr.dump, callee.oneLine_dump hs.1, hlist]

/-- The dumps of expressions are on one line each. -/
theorem Expr.oneLine_dumps : (es : List Expr) → (∀ e ∈ es, ∀ s ∈ e.symbols, s.Spellable) →
    ∀ text ∈ Expr.dumps es, OneLine text
  | [], _ => nofun
  | e :: es, hs => by
    rw [List.forall_mem_cons] at hs
    rw [Expr.dumps, List.forall_mem_cons]
    exact ⟨e.oneLine_dump hs.1, Expr.oneLine_dumps es hs.2⟩

end

/-! ### Statements -/

namespace Stmt

/-- Parts between braces are on one line if each of them is. -/
theorem oneLine_braced {parts : List Bytes} (h : ∀ part ∈ parts, OneLine part) :
    OneLine (braced parts) := by
  cases parts with
  | nil => decide
  | cons part parts =>
      have hjoin := oneLine_join oneLine_blank h
      rw [braced]
      · simp +decide [hjoin]
      · exact List.cons_ne_nil part parts

/-- A clause is on one line if what introduces it is and its symbols can be spelled. -/
theorem oneLine_clause {leadIn : Bytes} (hlead : OneLine leadIn) {syms : List Symbol}
    {value : Option Expr} (hs : ∀ s ∈ clauseSymbols syms value, s.Spellable) :
    OneLine (clause leadIn value) := by
  cases value with
  | none => exact oneLine_nil
  | some e =>
      have hexpr := e.oneLine_dump fun s hmem => hs s (List.mem_append_right _ hmem)
      exact oneLine_append.mpr ⟨hlead, hexpr⟩

end Stmt

mutual

/-- **The dump of a statement is on one line.** Induction on the tree. -/
theorem Stmt.oneLine_dump : (s : Stmt) → (∀ sym ∈ s.symbols, sym.Spellable) → OneLine s.dump
  | .binding name value constant, hs => by
    simp only [Stmt.symbols, List.forall_mem_append, List.forall_mem_cons, List.cons_append] at hs
    have hvalue := Stmt.oneLine_clause (by decide : OneLine (utf8 " = ")) hs.2.2.1
    cases constant <;> simp +decide [Stmt.dump, IsName.oneLine hs.2.1, hvalue]
  | .function decl, hs => by
    simp only [Stmt.symbols, List.forall_mem_cons] at hs
    simp +decide [Stmt.dump, decl.oneLine_dump hs.2]
  | .classDecl name superclass methods, hs => by
    simp only [Stmt.symbols, List.forall_mem_append, List.forall_mem_cons, List.cons_append,
      List.append_assoc, FunctionDecl.symbolsAll_eq_flatMap, List.forall_mem_flatMap] at hs
    have hbody := Stmt.oneLine_braced (FunctionDecl.oneLine_dumps methods hs.2.2.2.2.1)
    cases superclass with
    | none => simp +decide [Stmt.dump, IsName.oneLine hs.2.1, hbody]
    | some parent =>
        have hparent := IsName.oneLine (hs.2.2.1 (.name parent) (List.mem_cons_of_mem _
          List.mem_cons_self))
        simp +decide [Stmt.dump, IsName.oneLine hs.2.1, hparent, hbody]
  | .expression e, hs => by
    simp only [Stmt.symbols, List.forall_mem_append] at hs
    simp +decide [Stmt.dump, e.oneLine_dump hs.1]
  | .print e, hs => by
    simp only [Stmt.symbols, List.forall_mem_append, List.forall_mem_cons, List.cons_append] at hs
    simp +decide [Stmt.dump, e.oneLine_dump hs.2.1]
  | .return value, hs => by
    simp only [Stmt.symbols, List.forall_mem_append, List.forall_mem_cons, List.cons_append] at hs
    have hvalue := Stmt.oneLine_clause oneLine_blank hs.2.1
    simp +decide [Stmt.dump, hvalue]
  | .branch condition yes none, hs => by
    simp only [Stmt.symbols, List.forall_mem_append, List.forall_mem_cons, List.cons_append,
      List.append_assoc] at hs
    simp +decide [Stmt.dump, condition.oneLine_dump hs.2.2.1, yes.oneLine_dump hs.2.2.2.2.1]
  | .branch condition yes (some no), hs => by
    simp only [Stmt.symbols, List.forall_mem_append, List.forall_mem_cons, List.cons_append,
      List.append_assoc] at hs
    simp +decide [Stmt.dump, condition.oneLine_dump hs.2.2.1, yes.oneLine_dump hs.2.2.2.2.1,
      no.oneLine_dump hs.2.2.2.2.2.2]
  | .while condition body, hs => by
    simp only [Stmt.symbols, List.forall_mem_append, List.forall_mem_cons, List.cons_append] at hs
    simp +decide [Stmt.dump, condition.oneLine_dump hs.2.2.1, body.oneLine_dump hs.2.2.2.2]
  | .for none condition increment body, hs => by
    simp only [Stmt.symbols, List.forall_mem_append, List.forall_mem_cons, List.cons_append,
      List.append_assoc, List.nil_append] at hs
    obtain ⟨-, -, -, hcondition, -, hincrement, -, hbody⟩ := hs
    have htest := Stmt.oneLine_clause oneLine_blank hcondition
    have hstep := Stmt.oneLine_clause oneLine_blank hincrement
    simp +decide [Stmt.dump, htest, hstep, body.oneLine_dump hbody]
  | .for (some init) condition increment body, hs => by
    simp only [Stmt.symbols, List.forall_mem_append, List.forall_mem_cons, List.cons_append,
      List.append_assoc] at hs
    obtain ⟨-, -, hinit, hcondition, -, hincrement, -, hbody⟩ := hs
    have htest := Stmt.oneLine_clause oneLine_blank hcondition
    have hstep := Stmt.oneLine_clause oneLine_blank hincrement
    simp +decide [Stmt.dump, init.oneLine_dump hinit, htest, hstep, body.oneLine_dump hbody]
  | .block body, hs => by
    simp only [Stmt.symbols, List.forall_mem_append, List.forall_mem_cons, List.cons_append,
      Stmt.symbolsAll_eq_flatMap, List.forall_mem_flatMap] at hs
    exact Stmt.oneLine_braced (Stmt.oneLine_dumps body hs.2.1)

/-- The dumps of statements are on one line each. -/
theorem Stmt.oneLine_dumps : (ss : List Stmt) → (∀ s ∈ ss, ∀ sym ∈ s.symbols, sym.Spellable) →
    ∀ text ∈ Stmt.dumps ss, OneLine text
  | [], _ => nofun
  | s :: ss, hs => by
    rw [List.forall_mem_cons] at hs
    rw [Stmt.dumps, List.forall_mem_cons]
    exact ⟨s.oneLine_dump hs.1, Stmt.oneLine_dumps ss hs.2⟩

/-- The dump of a function is on one line. -/
theorem FunctionDecl.oneLine_dump : (f : FunctionDecl) → (∀ sym ∈ f.symbols, sym.Spellable) →
    OneLine f.dump
  | .mk name params body, hs => by
    simp only [FunctionDecl.symbols, List.forall_mem_append, List.forall_mem_cons,
      List.cons_append, List.append_assoc, Stmt.symbolsAll_eq_flatMap,
      List.forall_mem_flatMap] at hs
    have hparams : ∀ param ∈ params.getD [], OneLine param := by
      intro param hparam
      have hname := Symbol.forall_of_separated hs.2.2.1 _ (List.mem_map_of_mem hparam) _
        List.mem_cons_self
      exact IsName.oneLine hname
    have hlist := oneLine_join oneLine_comma hparams
    have hbody := Stmt.oneLine_braced (Stmt.oneLine_dumps body hs.2.2.2.2.2.1)
    simp +decide [FunctionDecl.dump, IsName.oneLine hs.1, hlist, hbody]

/-- The dumps of functions are on one line each. -/
theorem FunctionDecl.oneLine_dumps : (fs : List FunctionDecl) →
    (∀ f ∈ fs, ∀ sym ∈ f.symbols, sym.Spellable) →
    ∀ text ∈ FunctionDecl.dumps fs, OneLine text
  | [], _ => nofun
  | f :: fs, hs => by
    rw [List.forall_mem_cons] at hs
    rw [FunctionDecl.dumps, List.forall_mem_cons]
    exact ⟨f.oneLine_dump hs.1, FunctionDecl.oneLine_dumps fs hs.2⟩

end

/-! ### Programs -/

/-- The end of a text breaks off what stands before it. -/
theorem breaks_nil : Breaks [] :=
  ⟨nofun, rfl, rfl, nofun⟩

namespace Program

/-- A text that is scanned as the symbols of a canonical program is parsed to it. -/
theorem ofText_of_lexes {setting : Int} {text : Bytes} {p : Program} (hcanon : p.canonical = true)
    (hneed : p.need ≤ Parser.limitOf setting) (h : Lexes (Rune.decode text) p.symbols []) :
    ofText setting text = .ok p := by
  obtain ⟨s, hreads, hcore⟩ := h.reads {}
  exact (ofTokens_of_reads hcanon hreads (kind_next_of_core hcore)).1 hneed

/-- What a text is parsed to can be found by running the parser, since programs can be compared. -/
theorem eq_ok_of_toOption {setting : Int} {source : Bytes} {p : Program}
    (h : (ofText setting source).toOption = some p) : ofText setting source = .ok p := by
  cases hresult : ofText setting source with
  | ok q =>
      rw [hresult] at h
      exact congrArg Except.ok (Option.some.inj h)
  | error f =>
      rw [hresult] at h
      cases h

/-- **The dump of a statement is a program by itself.** -/
theorem ofText_dump_stmt {setting : Int} {s : Stmt} (hcanon : s.canonical = true)
    (hs : ∀ sym ∈ s.symbols, sym.Spellable) (hneed : s.need < Parser.limitOf setting) :
    ofText setting s.dump = .ok [s] := by
  have hsingle : canonical [s] = true := Stmt.canonicals_iff.mpr (by simpa using hcanon)
  have hwrites := Stmt.writes_dumps [s] (operatorsFit_of_canonical hsingle) (by simpa using hs)
  have hlexes := hwrites s List.mem_cons_self [] breaks_nil
  rw [List.append_nil, ← List.append_nil s.symbols] at hlexes
  exact ofText_of_lexes hsingle (Stmt.needs_le_iff.mpr (by simpa using hneed)) hlexes

/-- **One statement a line.** The dump of a parsed program has as many line feeds as the program has
statements; the lines are the dumps of the statements, with nothing after the last line feed; and
each line alone is parsed to its statement, under the same setting of the nesting limit. -/
theorem dump_lines {setting : Int} {source : Bytes} {p : Program}
    (h : ofText setting source = .ok p) :
    p.dump.count (byte '\n') = p.length ∧
      splitAt (byte '\n') p.dump = p.map Stmt.dump ++ [[]] ∧
      ∀ s ∈ p, ofText setting s.dump = .ok [s] := by
  obtain ⟨⟨_, hreads, -⟩, hcanon, hneed⟩ := reads_of_ofTokens (named_start _) h
  have hs : ∀ s ∈ p, ∀ sym ∈ s.symbols, sym.Spellable := by
    simpa only [symbols, Stmt.symbolsAll_eq_flatMap, List.forall_mem_flatMap]
      using spellable_of_reads hreads
  have hrows := Stmt.oneLine_dumps p hs
  rw [Stmt.dumps_eq_map] at hrows
  rw [dump, Stmt.dumps_eq_map]
  refine ⟨?_, splitAt_lines hrows, ?_⟩
  · rw [count_lines hrows, List.length_map]
  · intro s hmem
    exact ofText_dump_stmt (Stmt.canonicals_iff.mp hcanon s hmem) (hs s hmem)
      (Stmt.needs_le_iff.mp hneed s hmem)

/-- A string over two lines, and a branch that another branch follows. -/
def brokenLines : Bytes :=
  utf8 "\"x\ny\"; if (a)\n\n\x7b b; \x7d if (c) d; else e;"

/-- The program that `brokenLines` spells. -/
def threeStatements : Program :=
  [.expression (.string (utf8 "x\ny")),
   .branch (.reference (utf8 "a")) (.block [.expression (.reference (utf8 "b"))]) none,
   .branch (.reference (utf8 "c")) (.expression (.reference (utf8 "d")))
    (some (.expression (.reference (utf8 "e"))))]

/-- Three statements in a text of more lines than that, one of them with a line feed in a
literal. -/
theorem dump_lines_three :
    ofText 8 brokenLines = .ok threeStatements ∧
      splitAt (byte '\n') threeStatements.dump =
        [utf8 "\"x\\ny\";", utf8 "if (a) \x7b b; \x7d", utf8 "if (c) d; else e;", []] ∧
      ∀ s ∈ threeStatements, ofText 8 s.dump = .ok [s] := by
  have hrun : ofText 8 brokenLines = .ok threeStatements :=
    eq_ok_of_toOption (by decide +kernel)
  obtain ⟨-, hsplit, hlines⟩ := dump_lines hrun
  exact ⟨hrun, hsplit, hlines⟩

end Program

end ScriptFront

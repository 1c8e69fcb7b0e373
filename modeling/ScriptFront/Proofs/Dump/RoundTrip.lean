import ScriptFront.Proofs.Completeness.Statement
import ScriptFront.Proofs.Dump.Text
import ScriptFront.Proofs.Soundness.Statement

/-!
# Dumps are Parsed Back

**The dump of a parsed program parses to the same program** (`Program.ofText_dump`), under the same
nesting limit. The four components meet here:

* the parser is sound: the program is canonical, its nesting is within the limit, and its symbols
  are those of the text (`Program.reads_of_ofTokens`);
* what the scanner gives is spellable (`Scanner.spellable_of_reads`);
* so the dump is scanned as the same symbols (`Program.lexes_dump`);
* and the parser is complete on them (`Program.ofTokens_of_reads`).

The two texts have in common only their symbols. The dump may differ from the source in layout,
quotes, escapes and the digits of numbers.
-/

namespace ScriptFront

open Text Scanner

namespace Program

/-- **The dump of a canonical program is scanned as its symbols.** -/
theorem lexes_dump {p : Program} (hcanon : p.canonical = true)
    (hs : ∀ sym ∈ p.symbols, sym.Spellable) : Lexes (Rune.decode p.dump) p.symbols [] :=
  lexes_dump_of_operatorsFit (operatorsFit_of_canonical hcanon) hs

/-- **Dump round trip.** Where a text is parsed, the dump of the program is parsed to that program
under the same setting of the nesting limit. -/
theorem ofText_dump {setting : Int} {source : Bytes} {p : Program}
    (h : ofText setting source = .ok p) : ofText setting p.dump = .ok p := by
  obtain ⟨⟨c', hr, -⟩, hcanon, hneed⟩ := reads_of_ofTokens (named_start _) h
  have hlexes := lexes_dump hcanon (spellable_of_reads hr)
  obtain ⟨s, hreads, hcore⟩ := hlexes.reads {}
  have heof : (Cursor.start s).current.kind = .eof := kind_next_of_core hcore
  exact (ofTokens_of_reads hcanon hreads heof).1 hneed

/-- A source that is not its own dump: in layout, in the digits of a number and in its quotes. -/
def untidySource : Bytes :=
  utf8 "o.x=--01.50; // c\nif(a)'\"';"

/-- The program that `untidySource` spells. -/
def untidyProgram : Program :=
  [.expression (.set (.reference (utf8 "o")) (utf8 "x") (.punctuator .equals)
    (.unary (.punctuator .minus) (.unary (.punctuator .minus) (.number ⟨0x3ff8000000000000⟩)))),
   .branch (.reference (utf8 "a")) (.expression (.string (utf8 "\""))) none]

/-- An untidy source, whose dump is parsed as the same program at the same limit. -/
theorem ofText_dump_untidy :
    ofText 5 untidySource = .ok untidyProgram ∧
      untidyProgram.dump = utf8 "o.x = --1.5;\nif (a) \"\\\"\";\n" ∧
      ofText 5 untidyProgram.dump = .ok untidyProgram := by
  have hfound : (ofText 5 untidySource).toOption = some untidyProgram := by decide +kernel
  have hrun : ofText 5 untidySource = .ok untidyProgram := by
    cases hresult : ofText 5 untidySource with
    | ok q =>
        rw [hresult] at hfound
        exact congrArg Except.ok (Option.some.inj hfound)
    | error e =>
        rw [hresult] at hfound
        cases hfound
  exact ⟨hrun, by decide +kernel, ofText_dump hrun⟩

end Program

end ScriptFront

import ScriptFront.Proofs.Completeness.Statement
import ScriptFront.Proofs.Scanner.Relocation
import ScriptFront.Proofs.Soundness.Statement
import ScriptFront.Proofs.Text.Splice

/-!
# Programs one after the other

**Texts on separate lines are parsed apart** (`Program.ofText_append_newline`): if a text is parsed,
then with another text on the lines below it the statements of both are parsed, or the fault of the
second is found where its text now stands. The one thing that could go on from the first text to the
second is an `if` whose `else` begins the second.

The three runs are related in two steps. The line feed breaks off the last token of the first text
and ends a comment, so that reading both texts comes to the start of the second
(`Scanner.reads_newline`). A parser that has come to the end of a statement, with no `else` behind
it, is in the state it started from (`Program.ofTokens_of_reads_append`).
-/

namespace ScriptFront

open Text Parse

/-! ### Statements one after the other -/

section Statements

variable {σ : Type} [TokenSource σ]

omit [TokenSource σ] in
/-- Parsers that run alike do so also when their result is changed. -/
theorem Parse.map_congr {α β : Type} {f : α → β} {x y : Parse σ α} {c c' : Cursor σ}
    (h : x c = y c') : (f <$> x) c = (f <$> y) c' := by
  show EStateM.map f x c = EStateM.map f y c'
  rw [EStateM.map, EStateM.map, h]

/-- Where canonical statements are read, the current kind is not an `else` if there is none behind
them. -/
theorem Cursor.ne_else_of_reads {p : Program} (hcanon : ∀ s ∈ p, s.canonical = true)
    {c c' : Cursor σ} (hr : c.Reads (p.flatMap Stmt.symbols) c')
    (helse : c'.current.kind ≠ .keyword .elseKw) : c.current.kind ≠ .keyword .elseKw := by
  cases p with
  | nil =>
      obtain rfl : c = c' := hr
      exact helse
  | cons s p =>
      rw [List.flatMap_cons] at hr
      obtain ⟨c₁, hs, -⟩ := Cursor.reads_append.mp hr
      have hopens := Cursor.opensItem_of_reads (hcanon s List.mem_cons_self) hs
      simp only [Kind.opensItem, Bool.and_eq_true, decide_eq_true_eq] at hopens
      exact hopens.1

/-- **A program is parsed statement by statement**: where the symbols of canonical statements have
been read, what is left is parsed by itself. No statement begins with `else`, so that each of them
ends where it was read to. -/
theorem Discipline.program_of_reads {d : Nat} {p : Program} (hcanon : Stmt.canonicals p = true)
    (hneed : ∀ s ∈ p, s.need < d) {c c' : Cursor σ} (hr : c.Reads (p.flatMap Stmt.symbols) c')
    (helse : c'.current.kind ≠ .keyword .elseKw) :
    strict.program d c = ((p ++ ·) <$> strict.program d) c' := by
  have hcomplete := Stmt.completes σ p hcanon
  clear hcanon
  induction p generalizing c with
  | nil =>
      obtain rfl : c = c' := hr
      simp only [List.nil_append, id_map']
  | cons s p ih =>
      obtain ⟨hs, hp⟩ := List.forall_mem_cons.mp hcomplete
      obtain ⟨hneeds, hneedp⟩ := List.forall_mem_cons.mp hneed
      rw [List.flatMap_cons] at hr
      obtain ⟨c₁, hr₁, hr₂⟩ := Cursor.reads_append.mp hr
      have hnext := Cursor.ne_else_of_reads (fun s hs => (hp s hs).1) hr₂ helse
      have hrun : strict.declaration d c = .ok s c₁ := by
        rw [declaration_strict]
        exact (hs.2.item d c c₁ hr₁ hnext).1 hneeds
      have hk : c.current.kind ≠ .eof := by
        have hopens := Cursor.opensItem_of_reads hs.1 hr₁
        simp only [Kind.opensItem, Parse.insideBraces, Bool.and_eq_true,
          decide_eq_true_eq] at hopens
        exact hopens.2.2
      calc strict.program d c
          = (strict.program d >>= fun q => pure (s :: q)) c₁ := by
            have hunroll := congrFun (program_unroll (σ := σ) assignment? d) c
            rw [kind_bind, if_pos hk] at hunroll
            exact hunroll.trans (bind_ok hrun)
        _ = ((s :: ·) <$> (p ++ ·) <$> strict.program d) c' := by
            rw [← map_eq_pure_bind]
            exact map_congr (ih hneedp hr₂ hp)
        _ = ((s :: p ++ ·) <$> strict.program d) c' := by
            rw [Functor.map_map]
            rfl

/-- **A parser goes on after statements as it started.** -/
theorem Program.ofTokens_of_reads_append {setting : Int} {source source' : σ} {p : Program}
    (hcanon : p.canonical = true) (hneed : p.need ≤ Parser.limitOf setting)
    (hr : (Cursor.start source).Reads p.symbols (Cursor.start source'))
    (helse : (TokenSource.next source').1.kind ≠ .keyword .elseKw) :
    ofTokens setting source = (ofTokens setting source').map (p ++ ·) := by
  rw [symbols, Stmt.symbolsAll_eq_flatMap] at hr
  rw [need, Stmt.needs_le_iff] at hneed
  have hrun := Discipline.program_of_reads hcanon hneed hr helse
  rw [ofTokens_eq_run, ofTokens_eq_run]
  cases h : Discipline.strict.program (Parser.limitOf setting) (Cursor.start source') with
  | ok q c =>
      rw [map_eq_ok_iff.mpr ⟨q, h, rfl⟩] at hrun
      rw [Parser.run_of_ok (p := .start setting source) hrun,
        Parser.run_of_ok (p := .start setting source') h]
      rfl
  | error f c =>
      rw [map_eq_error_iff.mpr h] at hrun
      rw [Parser.run_of_error (p := .start setting source) hrun,
        Parser.run_of_error (p := .start setting source') h]
      rfl

end Statements

/-! ### Texts on separate lines -/

namespace Scanner

/-- Reading symbols is scanning tokens for them. -/
theorem exists_gives_of_reads {s : Scanner} {ss : List Symbol} {c' : Cursor Scanner}
    (h : (Cursor.start s).Reads ss c') :
    ∃ ts s', s.Gives ts s' ∧ c' = Cursor.start s' ∧ ts.map Token.symbol? = ss.map some := by
  induction ss generalizing s with
  | nil => exact ⟨[], s, rfl, (Cursor.reads_nil.mp h).symm, rfl⟩
  | cons sym ss ih =>
      obtain ⟨hsym, h⟩ := h
      obtain ⟨ts, s', hgives, hc', hts⟩ := ih (s := s.next.2) h
      exact ⟨s.next.1 :: ts, s', ⟨rfl, hgives⟩, hc', congrArg₂ List.cons hsym hts⟩

/-- Tokens that the scanner gives in a row are read by a cursor as the symbols that they stand
for. -/
theorem Gives.reads {s s' : Scanner} {ts : List Token} (h : s.Gives ts s') {ss : List Symbol}
    (hss : ts.map Token.symbol? = ss.map some) : (Cursor.start s).Reads ss (Cursor.start s') := by
  induction ts generalizing s ss with
  | nil =>
      obtain rfl : s = s' := h
      cases ss with
      | nil => rfl
      | cons sym ss => cases hss
  | cons t ts ih =>
      obtain ⟨rfl, h⟩ := h
      cases ss with
      | nil => cases hss
      | cons sym ss =>
          rw [List.map_cons, List.map_cons, List.cons.injEq] at hss
          exact ⟨hss.1, ih h hss.2⟩

/-- **A line feed ends what stands before it**: the last token, and a comment. Reading a text to its
end leads to what comes behind the line feed if anything does. Whether the text ends in a comment or
not, behind the line feed the scanner is in none. -/
theorem reads_newline {s : Scanner} {ss : List Symbol} {c' : Cursor Scanner}
    (h : (Cursor.start s).Reads ss c') (heof : c'.current.kind = .eof) (more : List Rune) :
    (Cursor.start (Scanner.mk (s.input ++ .char '\n' :: more) s.position)).Reads ss
      (Cursor.start (Scanner.mk more (s.position.past (s.input ++ [.char '\n'])))) := by
  obtain ⟨ts, s', hgives, rfl, hts⟩ := exists_gives_of_reads h
  have hsolid : ∀ t ∈ ts, t.kind ≠ .error ∧ t.kind ≠ .eof := by
    intro t ht
    have hsymbol : t.symbol? ∈ ss.map some := hts ▸ List.mem_map_of_mem ht
    obtain ⟨sym, -, hsym⟩ := List.mem_map.mp hsymbol
    refine ⟨fun hk => ?_, Token.kind_ne_eof_of_symbol? hsym.symm⟩
    simp [Token.symbol?, hk] at hsym
  obtain ⟨front, hinput, hposition, hfront⟩ := hgives.broken hsolid
  obtain ⟨c, hpass, -⟩ := passes_of_eof heof
  have hnewline : Passes c [.char '\n'] false := by
    cases c with
    | false => exact .blank rfl .nil
    | true => exact .inside .nil
  have hbroken : Broken s'.input (s'.input ++ .char '\n' :: more) := by
    have h : Broken (s'.input ++ []) (s'.input ++ .char '\n' :: more) := (Broken.blank rfl).append _
    rwa [List.append_nil] at h
  have hreads := (hfront _ hbroken).reads hts
  have hend : s.position.past (s.input ++ [.char '\n']) =
      s'.position.past (s'.input ++ [.char '\n']) := by
    rw [hinput, hposition, List.append_assoc, Position.past_append]
  have hskip : next ⟨s'.input ++ .char '\n' :: more, s'.position⟩ =
      next ⟨more, s.position.past (s.input ++ [.char '\n'])⟩ := by
    rw [hend, ← next_of_passes (hpass.append hnewline) rfl, List.append_assoc,
      List.singleton_append]
  have hstart : Cursor.start (Scanner.mk (s'.input ++ .char '\n' :: more) s'.position) =
      Cursor.start (Scanner.mk more (s.position.past (s.input ++ [.char '\n']))) := by
    simp only [Cursor.start, TokenSource.next, hskip]
  rwa [hstart, ← List.append_assoc, ← hinput] at hreads

/-- The second of two texts on separate lines stands behind the first and a line feed. -/
theorem ofText_append (s₁ s₂ : Bytes) :
    ofText (s₁ ++ byte '\n' :: s₂) =
      ⟨(ofText s₁).input ++ .char '\n' :: (ofText s₂).input, {}⟩ := by
  have hascii : ∀ b ∈ (byte '\n' :: s₂).head?, b.toNat < 128 := by
    rintro b hb
    cases hb
    decide
  rw [ofText, Rune.decode_append s₁ hascii, Rune.decode_byte_cons (by decide)]
  rfl

/-- The position behind a text and a line feed, counted in lines and in bytes. -/
theorem past_newline (s : Bytes) :
    ({} : Position).past ((ofText s).input ++ [.char '\n']) =
      ({} : Position).shift (1 + s.count (byte '\n')) (s.length + 1) := by
  have hproper : ∀ r ∈ Rune.decode s ++ [.char '\n'], r.Proper := by
    intro r hr
    rcases List.mem_append.mp hr with hr | hr
    · exact Rune.proper_of_mem_decode hr
    · rw [List.mem_singleton.mp hr]
      trivial
  have hencode : Rune.encode (Rune.decode s ++ [.char '\n']) = s ++ [byte '\n'] := by
    rw [Rune.encode_append, Rune.encode_decode]
    rfl
  show ({} : Position).past (Rune.decode s ++ [.char '\n']) = _
  rw [Position.past_eq_shift _ hproper, hencode, List.count_append, List.length_append,
    Nat.add_comm 1]
  rfl

/-- Reading a text to its end leads to the text on the lines below it. -/
theorem reads_append {s₁ : Bytes} {ss : List Symbol} {c' : Cursor Scanner}
    (h : (Cursor.start (ofText s₁)).Reads ss c') (heof : c'.current.kind = .eof) (s₂ : Bytes) :
    (Cursor.start (ofText (s₁ ++ byte '\n' :: s₂))).Reads ss
      (Cursor.start ((ofText s₂).shift (1 + s₁.count (byte '\n')) (s₁.length + 1))) := by
  have hreads := reads_newline h heof (ofText s₂).input
  rw [show (ofText s₁).position = {} from rfl, past_newline] at hreads
  rw [ofText_append]
  exact hreads

end Scanner

namespace Program

/-- **Texts on separate lines are parsed apart.** Behind a text that is parsed, the statements of a
text that does not begin with `else` are added to its own, and a fault of that text is found with
the same cause and further on by the bytes and lines before it. -/
theorem ofText_append_newline {setting : Int} {s₁ s₂ : Bytes} {p₁ : Program}
    (h : ofText setting s₁ = .ok p₁)
    (helse : (Scanner.ofText s₂).next.1.kind ≠ .keyword .elseKw) :
    (∀ p₂, ofText setting s₂ = .ok p₂ →
      ofText setting (s₁ ++ byte '\n' :: s₂) = .ok (p₁ ++ p₂)) ∧
    ∀ f, ofText setting s₂ = .error f →
      ofText setting (s₁ ++ byte '\n' :: s₂) =
        .error ⟨f.cause, f.span.shift (1 + s₁.count (byte '\n')) (s₁.length + 1)⟩ := by
  obtain ⟨⟨c', hr, heof⟩, hcanon, hneed⟩ := reads_of_ofTokens (Scanner.named_start _) h
  have hreads := Scanner.reads_append hr heof s₂
  have hkind := congrArg (fun x : Token × Scanner => x.1.kind)
    (Scanner.next_shift (1 + s₁.count (byte '\n')) (s₁.length + 1) (Scanner.ofText s₂))
  have hboth := ofTokens_of_reads_append hcanon hneed hreads fun hk => helse (hkind.symm.trans hk)
  have hsecond := (ofTokens_relocate (Scanner.follows_shift (1 + s₁.count (byte '\n'))
    (s₁.length + 1)) (s := Scanner.ofText s₂) rfl setting).1
  rw [hsecond] at hboth
  constructor
  · intro p₂ (hp₂ : ofTokens setting (Scanner.ofText s₂) = .ok p₂)
    rw [hp₂] at hboth
    exact hboth
  · intro f (hf : ofTokens setting (Scanner.ofText s₂) = .error f)
    rw [hf] at hboth
    exact hboth

/-- An `if` that could go on with an `else`, and a comment that is open at the end of the text. -/
def openSource : Bytes :=
  utf8 "x;\nif (a) b; // c"

/-- The program that `openSource` spells. -/
def openProgram : Program :=
  [.expression (.reference (utf8 "x")),
   .branch (.reference (utf8 "a")) (.expression (.reference (utf8 "b"))) none]

/-- A statement below `openSource` is added to its program, and the fault of a call that is not
closed is found two lines and eighteen bytes further on. -/
theorem ofText_append_newline_openSource :
    ofText 4 openSource = .ok openProgram ∧
      ofText 4 (openSource ++ byte '\n' :: utf8 "2;") =
        .ok (openProgram ++ [.expression (.number ⟨0x4000000000000000⟩)]) ∧
      ofText 4 (utf8 "\n f(1;") =
        .error ⟨.expected (.punctuator .parenRight) (utf8 ";"), ⟨2, 5, 6⟩⟩ ∧
      ofText 4 (openSource ++ byte '\n' :: utf8 "\n f(1;") =
        .error ⟨.expected (.punctuator .parenRight) (utf8 ";"), ⟨4, 23, 24⟩⟩ := by
  have hfirst : ofText 4 openSource = .ok openProgram := by rfl
  have hadded : ofText 4 (utf8 "2;") = .ok [.expression (.number ⟨0x4000000000000000⟩)] := by rfl
  have hfault : ofText 4 (utf8 "\n f(1;") =
      .error ⟨.expected (.punctuator .parenRight) (utf8 ";"), ⟨2, 5, 6⟩⟩ := by rfl
  exact ⟨hfirst, (ofText_append_newline hfirst (by decide)).1 _ hadded, hfault,
    (ofText_append_newline hfirst (by decide)).2 _ hfault⟩

end Program

end ScriptFront

import ScriptFront.Command.Parse
import ScriptFront.Command.Tokens
import ScriptFront.Proofs.LayoutInsertion
import ScriptFront.Proofs.ScanningAhead
import ScriptFront.Proofs.Scanner.Stream
import ScriptFront.Proofs.Text.Lines

/-!
# Listing and Parsing Agree

A list of tokens and a parse see the same stream. The list is written **a line a token**, through
the end of the input or the first text that cannot be scanned, and it fails if and only if there is
such a text (`TokenList.list_of_stop`). A parse of it fails as well, whatever the nesting limit, and
not over anything behind it (`Program.ofTokens_of_unscannable`): the tokens that the parser has
consumed by then could be scanned, so that the parser stands at that text or before, and a fault is
about the token at which the parser stands or about one that it has consumed
(`Parser.faultAt_ask`). `TokenList.agrees_with_parsing` puts this together.
-/

namespace ScriptFront

open Text TokenSource

/-! ### Places in the stream -/

namespace Scanner

/-- A scanner gives tokens from where it stands on. -/
theorem offset_le_start_nth (s : Scanner) (i : Nat) :
    s.position.offset ≤ (nth s i).span.start := by
  induction i generalizing s with
  | zero => exact s.next_offsets.1
  | succ i ih =>
      have hgo := s.next_offsets
      exact Int.le_trans (Int.le_trans hgo.1 hgo.2.1) (ih s.next.2)

/-- **Tokens start one behind the other**, up to the end of the input. -/
theorem start_nth_lt {s : Scanner} {i k : Nat} (h : i < k) (hne : (nth s i).kind ≠ .eof) :
    (nth s i).span.start < (nth s k).span.start := by
  induction i generalizing s k with
  | zero =>
      obtain ⟨k, rfl⟩ := Nat.exists_eq_succ_of_ne_zero (Nat.ne_of_gt h)
      exact Int.lt_of_lt_of_le (s.next_offsets.2.2 hne) (offset_le_start_nth s.next.2 k)
  | succ i ih =>
      obtain ⟨k, rfl⟩ := Nat.exists_eq_succ_of_ne_zero (Nat.ne_of_gt (Nat.zero_lt_of_lt h))
      exact ih (s := s.next.2) (Nat.lt_of_succ_lt_succ h) hne

/-- A stream comes to its **first stop**: the end of the input, behind which there is nothing, or a
text that cannot be scanned. -/
theorem exists_stop (s : Scanner) :
    ∃ (before : List Token) (last : Token) (rest : List Token), s.tokens = before ++ last :: rest ∧
      (∀ t ∈ before, t.Solid) ∧ (last.kind = .eof ∧ rest = [] ∨ last.kind = .error) := by
  obtain ⟨before, last, htokens, hlast, hne, hclean⟩ := s.tokens_split
  rcases List.eq_nil_or_concat' before with rfl | ⟨front, t, rfl⟩
  · exact ⟨[], last, [], htokens, nofun, .inl ⟨hlast, rfl⟩⟩
  · rw [List.dropLast_concat] at hclean
    rw [List.forall_mem_append, List.forall_mem_singleton] at hne
    have hfront : ∀ u ∈ front, u.Solid := fun u hu => ⟨hne.1 u hu, hclean u hu⟩
    by_cases ht : t.kind = .error
    · exact ⟨front, t, [last], by rw [htokens, List.append_assoc]; rfl, hfront, .inr ht⟩
    · refine ⟨front ++ [t], last, [], htokens, ?_, .inl ⟨hlast, rfl⟩⟩
      rw [List.forall_mem_append, List.forall_mem_singleton]
      exact ⟨hfront, hne.2, ht⟩

/-- Every token of a text has a place in the stream. -/
theorem exists_nth_of_mem {s : Scanner} {t : Token} (h : t ∈ s.tokens) : ∃ k, nth s k = t := by
  obtain ⟨k, hk, hget⟩ := List.getElem_of_mem h
  have hnth := getElem?_tokens hk
  rw [List.getElem?_eq_getElem hk, hget] at hnth
  exact ⟨k, (Option.some.inj hnth).symm⟩

end Scanner

/-! ### Faults of a parse -/

/-- A diagnostic that comes **no later than the token**, which could not be scanned: it passes on
why, it is about a place before, or it is about the nesting. -/
def Diagnostic.UpTo (t : Token) (d : Diagnostic) : Prop :=
  d = ⟨.syntaxError, t.value, t.span⟩ ∨ d.span.start < t.span.start ∨
    d.message = utf8 "maximum nesting depth exceeded"

section

variable {σ : Type} [TokenSource σ] {source : σ} {k : Nat}

/-- A fault comes no later than the token if the parser does not. -/
theorem Parse.FaultAt.upTo {consumed : List Token} {c c' : Cursor σ} {f : ParseFault} {t : Token}
    (h : FaultAt consumed c f c') (ht : t.kind = .error)
    (hconsumed : ∀ u ∈ consumed, u.span.start < t.span.start)
    (hcurrent : c.current.span.start < t.span.start ∨ c.current = t) : f.diagnostic.UpTo t := by
  have hscanned (hne : c.current.kind ≠ .error) : c.current.span.start < t.span.start := by
    refine hcurrent.resolve_right ?_
    rintro rfl
    exact hne ht
  cases h with
  | misplaced _ hscan =>
      rcases hcurrent with hlt | rfl
      · exact .inr (.inl hlt)
      · left
        rw [hscan ht]
        rfl
  | number hkind => exact .inr (.inl (hscanned (by rw [hkind]; nofun)))
  | nesting => exact .inr (.inr rfl)
  | expression hscan => exact .inr (.inl (hscanned hscan))
  | inheritance hlast => exact .inr (.inl (hconsumed _ (List.mem_of_getLast? hlast)))
  | target hmem => exact .inr (.inl (hconsumed _ hmem))

/-- **What has been consumed is before a token that cannot be scanned**, and the cursor is at most
at that token. -/
theorem Cursor.Consumes.before_unscannable {ts : List Token} {c : Cursor σ}
    (h : (Cursor.start source).Consumes ts c) (herror : (nth source k).kind = .error) :
    (∀ t ∈ ts, ∃ i < k, nth source i = t) ∧ ∃ i ≤ k, nth source i = c.current := by
  obtain ⟨hc, hup⟩ := h.takes.eq_forward
  have hle : ts.length ≤ k := by
    refine Nat.le_of_not_lt fun hlt => ?_
    have hmem := Cursor.mem_upcoming_iff.mpr ⟨k, hlt, (rfl : nth source k = _)⟩
    rw [hup] at hmem
    exact h.scanned _ hmem herror
  refine ⟨?_, ts.length, hle, by rw [hc]; rfl⟩
  intro t ht
  rw [← hup, Cursor.mem_upcoming_iff] at ht
  obtain ⟨i, hi, hnth⟩ := ht
  exact ⟨i, Nat.lt_of_lt_of_le hi hle, hnth⟩

/-- **A parse fails over a token that cannot be scanned, or earlier.** A parse that succeeds would
have come to the end of the input, which lies behind that token. -/
theorem Program.ofTokens_of_unscannable (herror : (nth source k).kind = .error)
    (hbefore : ∀ i < k, (nth source i).kind ≠ .eof ∧
      (nth source i).span.start < (nth source k).span.start) (setting : Int) :
    ∃ f, ofTokens setting source = .error f ∧ f.diagnostic.UpTo (nth source k) := by
  cases hrun : (Parser.start setting source).program.1 with
  | error f =>
      have hask : ((Parser.start setting source).ask .program).1 = .error f := by
        rw [Parser.ask, hrun]
        rfl
      obtain ⟨ts, c, hts, hfault⟩ := Parser.faultAt_ask hask []
      obtain ⟨hconsumed, i, hi, hcurrent⟩ := Cursor.Consumes.before_unscannable hts herror
      refine ⟨f, hrun, hfault.upTo herror ?_ ?_⟩
      · intro t ht
        obtain ⟨j, hj, rfl⟩ := hconsumed t ht
        exact (hbefore j hj).2
      · rw [← hcurrent]
        rcases Nat.lt_or_eq_of_le hi with hlt | rfl
        · exact .inl (hbefore i hlt).2
        · exact .inr rfl
  | ok p =>
      have hask : ((Parser.start setting source).ask .program).1 = .ok (.program p) := by
        rw [Parser.ask, hrun]
        rfl
      obtain ⟨ts, hts, -⟩ := Parser.consumes_ask hask
      obtain ⟨-, i, hi, hcurrent⟩ := Cursor.Consumes.before_unscannable hts herror
      have heof : (nth source i).kind = .eof := hcurrent ▸ Parser.kind_eof_of_program hrun
      rcases Nat.lt_or_eq_of_le hi with hlt | rfl
      · exact absurd heof (hbefore i hlt).1
      · rw [herror] at heof
        cases heof

end

/-- **A text that cannot be scanned cannot be parsed**, whatever the nesting limit. The end of the
input is given for ever, and so it does not come before that token. -/
theorem Program.ofText_of_unscannable {source : Bytes} {t : Token}
    (ht : t ∈ (Scanner.ofText source).tokens) (herror : t.kind = .error) (setting : Int) :
    ∃ f, ofText setting source = .error f ∧ f.diagnostic.UpTo t := by
  obtain ⟨k, rfl⟩ := Scanner.exists_nth_of_mem ht
  refine ofTokens_of_unscannable herror ?_ setting
  intro i hi
  have hne : (nth (Scanner.ofText source) i).kind ≠ .eof := by
    intro heof
    rw [Scanner.kind_nth_eq_eof_iff] at heof
    have hend := (Scanner.kind_nth_eq_eof_iff (Scanner.ofText source) k).mpr (by omega)
    rw [herror] at hend
    cases hend
  exact ⟨hne, Scanner.start_nth_lt hi hne⟩

/-! ### Lists of tokens -/

namespace TokenList

/-- What is written about a token, on its line. -/
def row (t : Token) : Bytes :=
  t.span.text ++ byte ' ' :: t.kind.name
    ++ if showsValue t.kind then byte ' ' :: Quoted.text t.value else []

/-- The row of a token is on one line. -/
theorem oneLine_row (t : Token) : OneLine (row t) := by
  have hvalue : OneLine (if showsValue t.kind then byte ' ' :: Quoted.text t.value else []) := by
    split
    · exact oneLine_cons.mpr ⟨by decide, Quoted.oneLine_text t.value⟩
    · exact oneLine_nil
  simp +decide [row, t.span.oneLine_text, t.kind.oneLine_name, hvalue]

/-- **A list goes through the first stop**, a line a token, and fails if that is a text that cannot
be scanned. -/
theorem list_of_stop (name : Bytes) {before : List Token} {last : Token} (rest : List Token)
    (hbefore : ∀ t ∈ before, t.Solid) (hlast : last.kind = .eof ∨ last.kind = .error) :
    (list name (before ++ last :: rest)).1.out = (before ++ [last]).flatMap tokenLine ∧
      (list name (before ++ last :: rest)).2 =
        if last.kind = .error then some .reported else none := by
  induction before with
  | nil => rcases hlast with hk | hk <;> simp [list, hk]
  | cons t before ih =>
      obtain ⟨ht, hbefore⟩ := List.forall_mem_cons.mp hbefore
      obtain ⟨hout, hfailure⟩ := ih hbefore
      simp [list, if_neg ht.1, if_neg ht.2, hout, hfailure]

/-- A text that cannot be scanned is the first stop, since behind the end of the input there is
nothing. -/
theorem any_error_of_stop {before : List Token} {last : Token} {rest : List Token}
    (hbefore : ∀ t ∈ before, t.Solid)
    (hstop : last.kind = .eof ∧ rest = [] ∨ last.kind = .error) :
    (before ++ last :: rest).any (·.kind = .error) = decide (last.kind = .error) := by
  have hnone : before.any (·.kind = .error) = false := by
    rw [List.any_eq_false]
    exact fun t ht => by simpa using (hbefore t ht).2
  rcases hstop with ⟨hk, rfl⟩ | hk
  · simp [hnone, hk]
  · simp [hk]

/-- The lines of a list can be told apart. -/
theorem splitAt_tokenLines (ts : List Token) :
    splitAt (byte '\n') (ts.flatMap tokenLine) = ts.map row ++ [[]] := by
  have hrows : ∀ r ∈ ts.map row, OneLine r := by
    intro r hr
    obtain ⟨t, -, rfl⟩ := List.mem_map.mp hr
    exact oneLine_row t
  rw [← splitAt_lines hrows, List.flatMap_map]
  rfl

/-- **Listing and parsing agree.** The list of the tokens of a text has one line for each token
through the first stop, and it fails if and only if there is a text that cannot be scanned. Where
there is one, parsing fails under every nesting limit: with the words of the scanner at that place,
with something that starts before, or because of the nesting. Hence a text that is parsed is listed
without a failure. -/
theorem agrees_with_parsing (name source : Bytes) :
    (∃ (before : List Token) (last : Token) (rest : List Token),
      (Scanner.ofText source).tokens = before ++ last :: rest ∧
        (∀ t ∈ before, t.kind ≠ .eof ∧ t.kind ≠ .error) ∧
        (last.kind = .eof ∨ last.kind = .error) ∧
        splitAt (byte '\n') (list name (Scanner.ofText source).tokens).1.out =
          (before ++ [last]).map row ++ [[]]) ∧
      (list name (Scanner.ofText source).tokens).2 =
        (if (Scanner.ofText source).tokens.any (·.kind = .error) then some .reported else none) ∧
      (∀ t ∈ (Scanner.ofText source).tokens, t.kind = .error → ∀ job : ParseJob,
        ∃ f, Program.ofText job.maxDepth source = .error f ∧ f.diagnostic.UpTo t ∧
          job.outcome name source =
            .error (.within (name ++ byte ':' :: f.span.text) (.diagnostic f.diagnostic))) ∧
      ∀ setting p, Program.ofText setting source = .ok p →
        (list name (Scanner.ofText source).tokens).2 = none := by
  obtain ⟨before, last, rest, htokens, hbefore, hstop⟩ := (Scanner.ofText source).exists_stop
  have hlast : last.kind = .eof ∨ last.kind = .error := hstop.imp_left And.left
  obtain ⟨hout, hfailure⟩ := list_of_stop name rest hbefore hlast
  rw [← htokens] at hout hfailure
  refine ⟨⟨before, last, rest, htokens, hbefore, hlast, ?_⟩, ?_, ?_, ?_⟩
  · rw [hout, splitAt_tokenLines]
  · rw [hfailure, htokens, any_error_of_stop hbefore hstop]
    simp only [decide_eq_true_eq]
  · intro t ht herror job
    obtain ⟨f, hrun, hupTo⟩ := Program.ofText_of_unscannable ht herror job.maxDepth
    exact ⟨f, hrun, hupTo, by rw [ParseJob.outcome, hrun]⟩
  · intro setting p hrun
    rw [hfailure, if_neg]
    intro herror
    obtain ⟨f, hfault, -⟩ := Program.ofText_of_unscannable
      (htokens ▸ List.mem_append_right _ List.mem_cons_self) herror setting
    rw [hrun] at hfault
    cases hfault

/-- A string without its second quote, behind a statement. -/
def unclosedString : Bytes :=
  utf8 "a;'b"

/-- The token of the string without its second quote. -/
def unclosedToken : Token :=
  ⟨.error, utf8 "unterminated string", ⟨1, 2, 4⟩⟩

/-- A literal that is not closed: the listing ends at it with a failure, and no limit makes the text
one that can be parsed. -/
theorem agrees_with_parsing_unclosed :
    unclosedToken ∈ (Scanner.ofText unclosedString).tokens ∧ unclosedToken.kind = .error ∧
      (list [] (Scanner.ofText unclosedString).tokens).2 = some .reported ∧
      ∀ setting, ∃ f, Program.ofText setting unclosedString = .error f ∧
        f.diagnostic.UpTo unclosedToken := by
  have hmem : unclosedToken ∈ (Scanner.ofText unclosedString).tokens := by decide
  obtain ⟨-, hlist, hparse, -⟩ := agrees_with_parsing [] unclosedString
  refine ⟨hmem, rfl, ?_, ?_⟩
  · rw [hlist, if_pos (List.any_eq_true.mpr ⟨_, hmem, rfl⟩)]
  · intro setting
    obtain ⟨f, hrun, hupTo, -⟩ := hparse _ hmem rfl ⟨setting, .dump, false⟩
    exact ⟨f, hrun, hupTo⟩

end TokenList

end ScriptFront

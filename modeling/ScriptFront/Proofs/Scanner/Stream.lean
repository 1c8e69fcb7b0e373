import ScriptFront.Proofs.Scanner.Relocation
import ScriptFront.Proofs.Text.Splice

/-!
# Token Streams End

A scanner can also be read as a machine that goes through **stages**: it looks for what comes next,
passes a comment and looks again, or cuts a lexeme off, which gives a token. Comments give none, so
that stages can follow one another without a token for as long as there are comments. `Stage.run`
runs the machine for a number of steps, and `Scanner.run_next` says that it **returns within as many
steps as there is text**, with the token that `Scanner.next` gives.

From there on the stream is seen token by token. Every token but the end of the input takes a rune
(`Scanner.length_tokens_le`), a fault leaves nothing to scan, and the end of the input leaves the
scanner as it is (`Scanner.drain_fixed`). `Scanner.stream_ends` puts this together.
-/

namespace ScriptFront

open Text

/-- There are no more runes than bytes. -/
theorem Text.Rune.length_le_encode (runes : List Rune) :
    runes.length ≤ (encode runes).length := by
  induction runes with
  | nil => exact Nat.le_refl 0
  | cons r rs ih =>
      have hpos := List.length_pos_iff.mpr r.bytes_ne_nil
      rw [encode_cons, List.length_append, List.length_cons]
      omega

namespace Scanner

/-! ### Stages -/

/-- The **stages** of scanning a token: looking for what comes next, passing a comment, and cutting
off the lexeme that begins with a rune. -/
inductive Stage where
  | text
  | comment
  | lexeme (first : Rune)
  deriving DecidableEq, Repr

/-- Divides a text behind its first line. -/
def splitLine : List Rune → List Rune × List Rune
  | [] => ([], [])
  | r :: rest =>
    if r = .char '\n' then ([r], rest)
    else (r :: (splitLine rest).1, (splitLine rest).2)

namespace Stage

/-- **One step**: the stage gives a token, or it hands over to another stage. -/
def step : Stage → Scanner → (Token × Scanner) ⊕ (Stage × Scanner)
  | .text, s =>
    let start := s.position.past (s.input.takeWhile isBlank)
    match s.input.dropWhile isBlank with
    | [] => .inl (⟨.eof, [], start.upTo start⟩, ⟨[], start⟩)
    | r :: rest =>
      if r = .char '/' ∧ rest.head? = some (.char '/') then .inr (.comment, ⟨r :: rest, start⟩)
      else .inr (.lexeme r, ⟨rest, start⟩)
  | .comment, s =>
    .inr (.text, ⟨(splitLine s.input).2, s.position.past (splitLine s.input).1⟩)
  | .lexeme first, s =>
    let x := Scanner.lexeme first s.input
    let stop := s.position.past x.runes
    .inl (⟨x.kind, x.value, s.position.upTo stop⟩, ⟨x.rest, stop⟩)

/-- **Runs the stages** for so many steps at most. -/
def run : (steps : Nat) → Stage → Scanner → Option (Token × Scanner)
  | 0, _, _ => none
  | steps + 1, stage, s =>
    match stage.step s with
    | .inl out => some out
    | .inr (stage, s) => run steps stage s

end Stage

/-! ### What the stages pass is layout -/

/-- Blanks are layout. -/
theorem passes_of_blank {blanks : List Rune} (h : ∀ r ∈ blanks, isBlank r = true) :
    Passes false blanks false := by
  induction blanks with
  | nil => exact .nil
  | cons r blanks ih =>
      obtain ⟨hr, hblanks⟩ := List.forall_mem_cons.mp h
      exact .blank hr (ih hblanks)

/-- A comment is passed with its line. At the end of the text it does not matter whether a comment
is still open. -/
theorem passes_splitLine (text : List Rune) :
    ∃ c, Passes true (splitLine text).1 c ∧
      splitLayout c (splitLine text).2 = splitLayout false (splitLine text).2 := by
  induction text with
  | nil => exact ⟨true, .nil, rfl⟩
  | cons r rest ih =>
      rw [splitLine]
      split
      · next hfeed => exact ⟨false, .inside (by rw [hfeed]; exact .nil), rfl⟩
      · next hfeed =>
        obtain ⟨c, hpass, hend⟩ := ih
        exact ⟨c, .inside (by rw [decide_eq_true hfeed]; exact hpass), hend⟩

/-- A line and what comes after it are the text. -/
theorem splitLine_append (text : List Rune) : (splitLine text).1 ++ (splitLine text).2 = text := by
  induction text with
  | nil => rfl
  | cons r rest ih =>
      rw [splitLine]
      split
      · rfl
      · rw [List.cons_append, ih]

/-- **The next token comes after a comment as if the comment were not there**, further on. -/
theorem next_comment (more : List Rune) (position : Position) :
    next ⟨.char '/' :: .char '/' :: more, position⟩ = next ⟨(splitLine more).2,
      position.past (.char '/' :: .char '/' :: (splitLine more).1)⟩ := by
  obtain ⟨c, hpass, hend⟩ := passes_splitLine more
  rw [← next_of_passes (.slashes hpass) hend, List.cons_append, List.cons_append, splitLine_append]

/-- **The stages return the next token**, after at most two steps more than there are runes.
Induction on the length of the text: what follows a comment is shorter by its two slashes, and these
pay for the two steps that it takes. -/
theorem run_next (s : Scanner) :
    ∃ steps ≤ s.input.length + 2, Stage.run steps .text s = some s.next := by
  have hblanks : Passes false (s.input.takeWhile isBlank) false :=
    passes_of_blank fun r hr => List.all_eq_true.mp List.all_takeWhile r hr
  have hsplit := List.takeWhile_append_dropWhile (p := isBlank) (l := s.input)
  have hnext : s.next =
      next ⟨s.input.dropWhile isBlank, s.position.past (s.input.takeWhile isBlank)⟩ := by
    rw [← next_of_passes hblanks rfl, hsplit]
  have hstop := List.head?_dropWhile_not isBlank s.input
  have hlen := congrArg List.length hsplit
  rw [List.length_append] at hlen
  cases htext : s.input.dropWhile isBlank with
  | nil =>
      refine ⟨1, by omega, ?_⟩
      rw [hnext, Stage.run, Stage.step, htext]
      rfl
  | cons r rest =>
      rw [htext] at hnext hstop hlen
      have hblank : isBlank r = false := hstop
      by_cases hslash : r = .char '/' ∧ rest.head? = some (.char '/')
      · obtain ⟨rfl, hhead⟩ := hslash
        obtain ⟨more, rfl⟩ := List.head?_eq_some_iff.mp hhead
        have hshort := congrArg List.length (splitLine_append more)
        rw [List.length_append] at hshort
        simp only [List.length_cons] at hlen
        have hlt : (splitLine more).2.length + 2 ≤ s.input.length := by omega
        rw [next_comment] at hnext
        obtain ⟨steps, hle, hrun⟩ := run_next ⟨(splitLine more).2,
          (s.position.past (s.input.takeWhile isBlank)).past
            (.char '/' :: .char '/' :: (splitLine more).1)⟩
        refine ⟨steps + 2, by simp only at hle; omega, ?_⟩
        rw [hnext, ← hrun, Stage.run, Stage.step, htext]
        rfl
      · refine ⟨2, by omega, ?_⟩
        have htoken : splitLayout false (r :: rest) = ([], r :: rest) :=
          splitLayout_cons hblank fun hr hhead => hslash ⟨hr, hhead⟩
        rw [hnext, Stage.run, Stage.step, htext]
        simp only [if_neg hslash, Stage.run, Stage.step, next, htoken, Position.past_nil]
termination_by s.input.length
decreasing_by exact Nat.lt_of_succ_lt hlt

/-- Two comments take two steps each before the two that any token takes. -/
example : Stage.run 5 .text (ofText (utf8 "//\n//\n+")) = none ∧
    Stage.run 6 .text (ofText (utf8 "//\n//\n+")) = some (ofText (utf8 "//\n//\n+")).next := by
  decide

/-! ### The last token -/

/-- Every token but the end of the input takes a rune. -/
theorem length_tokens_le (s : Scanner) : s.tokens.length ≤ s.input.length + 1 := by
  induction s using tokens_induction with
  | eof s heof =>
      rw [tokens_of_eof heof]
      exact Nat.le_add_left 1 _
  | token s hne ih =>
      have hlen := length_input_next s
      rw [if_neg hne] at hlen
      rw [tokens_of_ne_eof hne, List.length_cons]
      omega

/-- **A stream has one end, and a fault only right before it.** Induction along the tokens: what is
left after a fault is the end of the input alone. -/
theorem tokens_split (s : Scanner) :
    ∃ (before : List Token) (last : Token), s.tokens = before ++ [last] ∧ last.kind = .eof ∧
      (∀ t ∈ before, t.kind ≠ .eof) ∧ ∀ t ∈ before.dropLast, t.kind ≠ .error := by
  induction s using tokens_induction with
  | eof s heof =>
      exact ⟨[], s.next.1, tokens_of_eof heof, heof, List.forall_mem_nil _, List.forall_mem_nil _⟩
  | token s hne ih =>
      by_cases hfault : s.next.1.kind = .error
      · have heof : s.next.2.next.1.kind = .eof := by
          rw [next, input_of_error hfault]
          rfl
        refine ⟨[s.next.1], s.next.2.next.1, ?_, heof, ?_, List.forall_mem_nil _⟩
        · rw [tokens_of_ne_eof hne, tokens_of_eof heof]
          rfl
        · exact List.forall_mem_singleton.mpr hne
      · obtain ⟨before, last, htokens, hlast, hbefore, hclean⟩ := ih
        refine ⟨s.next.1 :: before, last, ?_, hlast, List.forall_mem_cons.mpr ⟨hne, hbefore⟩, ?_⟩
        · rw [tokens_of_ne_eof hne, htokens, List.cons_append]
        · cases before with
          | nil => exact List.forall_mem_nil _
          | cons t before =>
              rw [List.dropLast_cons_cons]
              exact List.forall_mem_cons.mpr ⟨hfault, hclean⟩

/-- **The scanner that is left gives the last token again** and stays as it is. -/
theorem drain_fixed {s : Scanner} {limit : Nat} (h : s.input.length ≤ limit) :
    ∃ last, (drain limit s).1.getLast? = some last ∧
      (drain limit s).2.next = (last, (drain limit s).2) := by
  induction limit generalizing s with
  | zero =>
      have heof : s.next.1.kind = .eof := by
        by_contra hne
        have hlen := length_input_next s
        rw [if_neg hne] at hlen
        omega
      exact ⟨s.next.1, rfl, next_of_eof heof⟩
  | succ limit ih =>
      by_cases heof : s.next.1.kind = .eof
      · have hdrain : drain (limit + 1) s = ([s.next.1], s.next.2) := by simp [drain, heof]
        rw [hdrain]
        exact ⟨s.next.1, rfl, next_of_eof heof⟩
      · have hlen := length_input_next s
        rw [if_neg heof] at hlen
        have hdrain : drain (limit + 1) s =
            (s.next.1 :: (drain limit s.next.2).1, (drain limit s.next.2).2) := by
          simp [drain, heof]
        obtain ⟨last, hlast, hfixed⟩ := ih (s := s.next.2) (by omega)
        rw [hdrain]
        refine ⟨last, ?_, hfixed⟩
        rw [List.getLast?_cons, hlast]
        rfl

/-- A scanner that comes to stand still gives the same token for ever. -/
theorem take_of_fixed {s : Scanner} {t : Token} (h : s.next = (t, s)) (count : Nat) :
    take count s = List.replicate count t := by
  induction count with
  | zero => rfl
  | succ count ih => rw [take, h, ih, List.replicate_succ]

/-- **Token streams end.** Every request for a token is answered after finitely many steps. A text
of `n` bytes has at most `n + 1` tokens; the last of them, and no other, is the end of the input; a
fault can only stand right before it; and whatever is asked for afterwards is the last token
again. -/
theorem stream_ends (input : Bytes) :
    (∀ s : Scanner, ∃ steps ≤ s.input.length + 2, Stage.run steps .text s = some s.next) ∧
      (ofText input).tokens.length ≤ input.length + 1 ∧
      ∃ (before : List Token) (last : Token), (ofText input).tokens = before ++ [last] ∧
        last.kind = .eof ∧ (∀ t ∈ before, t.kind ≠ .eof) ∧
        (∀ t ∈ before.dropLast, t.kind ≠ .error) ∧
        ∀ count, (ofText input).exhaust.2.take count = List.replicate count last := by
  refine ⟨run_next, ?_, ?_⟩
  · have hlen := (ofText input).length_tokens_le
    have hrunes := Rune.length_le_encode (Rune.decode input)
    rw [Rune.encode_decode] at hrunes
    exact Nat.le_trans hlen (Nat.succ_le_succ hrunes)
  · obtain ⟨before, last, htokens, hlast, hbefore, hclean⟩ := (ofText input).tokens_split
    obtain ⟨last', hlast', hfixed⟩ := drain_fixed (Nat.le_refl (ofText input).input.length)
    have hsame : last' = last := by
      have hget : (ofText input).tokens.getLast? = some last' := hlast'
      rw [htokens, List.getLast?_append_cons] at hget
      exact (Option.some.inj hget).symm
    exact ⟨before, last, htokens, hlast, hbefore, hclean, fun count =>
      hsame ▸ take_of_fixed hfixed count⟩

end Scanner

end ScriptFront

import ScriptFront.Token.Scanner

/-!
# Sources of tokens

A parser pulls tokens one at a time from a **source**. A source never runs dry, it only goes on
giving the end of the input; what makes it finite is a bound on the tokens that can come before
that, and the bound goes down with each of them.

The scanner is a source, and so is a list of tokens. `Counted` watches another source and counts
the pulls.
-/

namespace ScriptFront

/-- A source of tokens, with a **bound** on the tokens other than the end of the input that it can
still give.

That there is a bound is an assumption about sources, and it is the documented contract of the
parser (SPEC A.2 and A.5): statements are requested until the end of the input is signalled, over a
finite sequence of tokens, and the end is then repeated indefinitely. Before the end a source may
give any tokens, errors among them, and also ends of the input after which it goes on. -/
class TokenSource (σ : Type) where
  next : σ → Token × σ
  size : σ → Nat
  size_next : ∀ s, size (next s).2 + (if (next s).1.kind = .eof then 0 else 1) ≤ size s

/-! ### Scanning on demand -/

namespace Scanner

/-- A string literal leaves no more text than there was after its opening quote. -/
theorem length_rest_stringTail (mark : Char) (text : List Text.Rune) :
    (stringTail mark text).rest.length ≤ text.length := by
  fun_induction stringTail mark text with
  | case1 | case2 | case3 | case4 | case6 => simp [Lexeme.fault]
  | case5 _ _ _ _ _ ih => exact Nat.le_succ_of_le (Nat.le_succ_of_le ih)
  | case7 _ _ _ _ ih => exact Nat.le_succ_of_le ih

/-- A number that begins with a digit takes at least that digit. -/
theorem length_rest_number {r : Text.Rune} {rest : List Text.Rune} (h : isDigit r = true) :
    (number (r :: rest)).rest.length ≤ rest.length := by
  have hd : ((r :: rest).dropWhile isDigit).length ≤ rest.length := by
    rw [List.dropWhile_cons_of_pos h]
    exact (List.dropWhile_suffix _).length_le
  unfold number
  split
  · next tail heq =>
    rw [heq] at hd
    have hfraction : (tail.dropWhile isDigit).length ≤ tail.length :=
      (List.dropWhile_suffix _).length_le
    simp only [List.length_cons] at hd
    by_cases hf : tail.takeWhile isDigit = []
    · simp [hf, Lexeme.plain, hd]
    · simp only [hf, if_false, Lexeme.plain]; omega
  · next heq => exact hd

/-- A word that begins with a word part takes at least that. -/
theorem length_rest_word {r : Text.Rune} {rest : List Text.Rune} (h : isWordPart r = true) :
    (word (r :: rest)).rest.length ≤ rest.length := by
  simp only [word, Lexeme.plain, List.dropWhile_cons_of_pos h]
  exact (List.dropWhile_suffix _).length_le

/-- What begins a word may also go on with one. -/
theorem isWordPart_of_isWordStart {r : Text.Rune} (h : isWordStart r = true) :
    isWordPart r = true := by
  cases r with
  | char c => simp only [isWordStart] at h; simp [isWordPart, h]
  | invalid b => simp [isWordStart] at h

/-- **A lexeme takes at least one rune.** -/
theorem length_rest_lexeme (r : Text.Rune) (rest : List Text.Rune) :
    (lexeme r rest).rest.length ≤ rest.length := by
  unfold lexeme
  split
  · simp [Lexeme.fault]
  · next c =>
    split
    · exact length_rest_stringTail c rest
    split
    · next h => exact length_rest_number h
    split
    · next h => exact length_rest_word (isWordPart_of_isWordStart h)
    unfold double? single?
    split
    · next second tail =>
      cases Punctuator.ofSpelling? (Text.Rune.encode [.char c, .char second]) <;>
        cases Punctuator.ofSpelling? (Text.Rune.encode [.char c]) <;>
        simp [Lexeme.fault, Lexeme.plain]
    · cases Punctuator.ofSpelling? (Text.Rune.encode [.char c]) <;>
        simp [Lexeme.fault, Lexeme.plain]

/-- What comes behind layout is no longer than the text. -/
theorem length_rest_splitLayout (inComment : Bool) (text : List Text.Rune) :
    (splitLayout inComment text).2.length ≤ text.length := by
  have h := congrArg List.length (splitLayout_append inComment text)
  simp only [List.length_append] at h
  omega

/-- The scanner uses up at least one rune for every token but the end of the input. -/
theorem length_input_next (s : Scanner) :
    s.next.2.input.length + (if s.next.1.kind = .eof then 0 else 1) ≤ s.input.length := by
  have hl := length_rest_splitLayout false s.input
  cases h : (splitLayout false s.input).2 with
  | nil => simp [next, h]
  | cons r rest =>
    have hx := length_rest_lexeme r rest
    rw [h, List.length_cons] at hl
    simp only [next, h]
    by_cases hk : (lexeme r rest).kind = .eof <;> simp only [hk, if_true, if_false] <;> omega

end Scanner

/-- **A scanner is a source**: every token other than the end of the input takes a rune. -/
instance : TokenSource Scanner where
  next := Scanner.next
  size s := s.input.length
  size_next := Scanner.length_input_next

/-! ### Tokens made beforehand -/

/-- A list of tokens as a source. After the list comes the end of the input, at no place. -/
structure Replay where
  tokens : List Token
  deriving DecidableEq, Repr

namespace Replay

/-- The first token of the list. -/
def next : Replay → Token × Replay
  | ⟨[]⟩ => (⟨.eof, [], {}⟩, ⟨[]⟩)
  | ⟨t :: ts⟩ => (t, ⟨ts⟩)

end Replay

/-- A list is a source, with the end of the input after its last token. -/
instance : TokenSource Replay where
  next := Replay.next
  size r := r.tokens.length
  size_next
    | ⟨[]⟩ => by simp [Replay.next]
    | ⟨t :: ts⟩ => by
      by_cases h : t.kind = .eof <;> simp [Replay.next, h]

/-! ### Counting pulls -/

/-- A source and the number of tokens pulled from it. -/
structure Counted (σ : Type) where
  source : σ
  pulls : Nat := 0

/-- A source is one also with its pulls counted. -/
instance {σ : Type} [TokenSource σ] : TokenSource (Counted σ) where
  next s :=
    let (t, source) := TokenSource.next s.source
    (t, ⟨source, s.pulls + 1⟩)
  size s := TokenSource.size s.source
  size_next s := TokenSource.size_next s.source

end ScriptFront

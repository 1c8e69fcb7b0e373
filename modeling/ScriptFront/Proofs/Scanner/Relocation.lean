import ScriptFront.Proofs.Parallel.Relocation
import ScriptFront.Proofs.Scanner.Insertion

/-!
# Scanning from another Position

What the scanner gives depends on the position it starts from in its spans only: **shifting a
scanner shifts its tokens** (`Scanner.next_shift`). A text that has been passed shifts it by its
bytes and its line feeds (`Position.past_eq_shift`).

The list of all tokens is a recursion over the text (`Scanner.tokens_of_eof`,
`Scanner.tokens_of_ne_eof`), and proofs about whole lists go along it (`Scanner.tokens_induction`).
In particular a scanner that follows another has the same list of tokens at other places
(`Scanner.tokens_relocate`).
-/

namespace ScriptFront

open Text

/-! ### Shifts -/

/-- A span so many lines and bytes further on. -/
def Span.shift (lines bytes : Nat) (s : Span) : Span where
  line := s.line + lines
  start := s.start + bytes
  stop := s.stop + bytes

/-- A position so many lines and bytes further on. -/
def Position.shift (lines bytes : Nat) (p : Position) : Position where
  line := p.line + lines
  offset := p.offset + bytes

/-- A scanner of the same text so many lines and bytes further on. -/
def Scanner.shift (lines bytes : Nat) (s : Scanner) : Scanner :=
  { s with position := s.position.shift lines bytes }

variable {lines bytes : Nat}

namespace Position

/-- A shift of the position is one behind any runes. -/
theorem past_shift (p : Position) (runes : List Rune) :
    (p.shift lines bytes).past runes = (p.past runes).shift lines bytes := by
  induction runes generalizing p with
  | nil => rfl
  | cons r rs ih =>
      have hafter : (p.shift lines bytes).after r = (p.after r).shift lines bytes := by
        simp only [after, shift, mk.injEq]
        constructor
        · split <;> omega
        · omega
      show ((p.shift lines bytes).after r).past rs = ((p.after r).past rs).shift lines bytes
      rw [hafter, ih]

/-- A shift of both ends is one of the span. -/
theorem upTo_shift (p q : Position) :
    (p.shift lines bytes).upTo (q.shift lines bytes) = (p.upTo q).shift lines bytes := by
  simp only [upTo, shift, Span.shift, Int.natCast_add]

/-- **Passing a text shifts a position** by the bytes of the text and by its line feeds. -/
theorem past_eq_shift (p : Position) {runes : List Rune} (h : ∀ r ∈ runes, r.Proper) :
    p.past runes = p.shift ((Rune.encode runes).count (byte '\n')) (Rune.encode runes).length := by
  rw [shift, ← p.line_past h, ← p.offset_past runes]

end Position

namespace Scanner

/-- **Shifting a scanner shifts its tokens.** -/
theorem next_shift (lines bytes : Nat) (s : Scanner) :
    (s.shift lines bytes).next =
      (s.next.1.relocate (.shift lines bytes), s.next.2.shift lines bytes) := by
  cases htext : (splitLayout false s.input).2 with
  | nil =>
      simp only [next, shift, htext, Position.past_shift, Position.upTo_shift]
      rfl
  | cons r rest =>
      simp only [next, shift, htext, Position.past_shift, Position.upTo_shift]
      rfl

/-- **A scanner that is shifted** gives shifted tokens. -/
theorem follows_shift (lines bytes : Nat) : Follows (.shift lines bytes) (fun _ => True)
    fun s s' : Scanner => s' = s.shift lines bytes := by
  constructor
  · exact fun _ => trivial
  · rintro s _ rfl
    exact congrArg Prod.fst (next_shift lines bytes s)
  · rintro s _ rfl
    exact congrArg Prod.snd (next_shift lines bytes s)

/-! ### Lists of tokens -/

/-- Bounds that are enough for the text make no difference. -/
theorem drain_congr {s : Scanner} {m n : Nat} (hm : s.input.length ≤ m)
    (hn : s.input.length ≤ n) : (drain m s).1 = (drain n s).1 := by
  induction m generalizing s n with
  | zero =>
      have heof : s.next.1.kind = .eof := by
        by_contra hne
        have hlen := length_input_next s
        rw [if_neg hne] at hlen
        omega
      rw [drain_of_eof heof, drain_of_eof heof]
  | succ m ih =>
      have hlen := length_input_next s
      by_cases heof : s.next.1.kind = .eof
      · rw [drain_of_eof heof, drain_of_eof heof]
      · rw [if_neg heof] at hlen
        obtain ⟨n, rfl⟩ : ∃ k, n = k + 1 := ⟨n - 1, by omega⟩
        rw [drain_of_ne_eof heof, drain_of_ne_eof heof, ih (n := n) (by omega) (by omega)]

/-- At the end of the input there is no other token. -/
theorem tokens_of_eof {s : Scanner} (h : s.next.1.kind = .eof) : s.tokens = [s.next.1] :=
  drain_of_eof h _

/-- **The tokens of a text** are the first and those after it, up to the end of the input. -/
theorem tokens_of_ne_eof {s : Scanner} (h : s.next.1.kind ≠ .eof) :
    s.tokens = s.next.1 :: s.next.2.tokens := by
  have hlen := length_input_next s
  rw [if_neg h] at hlen
  obtain ⟨n, hn⟩ : ∃ k, s.input.length = k + 1 := ⟨s.input.length - 1, by omega⟩
  rw [tokens, exhaust, hn, drain_of_ne_eof h]
  exact congrArg _ (drain_congr (by omega) (Nat.le_refl _))

/-- Induction along the tokens of a text. -/
theorem tokens_induction {motive : Scanner → Prop}
    (eof : ∀ s, s.next.1.kind = .eof → motive s)
    (token : ∀ s, s.next.1.kind ≠ .eof → motive s.next.2 → motive s) (s : Scanner) : motive s := by
  by_cases h : s.next.1.kind = .eof
  · exact eof s h
  · exact token s h (tokens_induction eof token s.next.2)
termination_by s.input.length
decreasing_by
  have hlen := length_input_next s
  rw [if_neg h] at hlen
  omega

/-- The next token is one of the tokens. -/
theorem mem_tokens_next (s : Scanner) : s.next.1 ∈ s.tokens := by
  by_cases h : s.next.1.kind = .eof
  · rw [tokens_of_eof h]
    exact List.mem_singleton_self _
  · rw [tokens_of_ne_eof h]
    exact List.mem_cons_self

/-- The tokens after the next one are among the tokens. -/
theorem tokens_next_subset (s : Scanner) : s.next.2.tokens ⊆ s.tokens := by
  by_cases h : s.next.1.kind = .eof
  · have h' : s.next.2.next.1.kind = .eof := by rw [next_of_eof h, h]
    rw [tokens_of_eof h', tokens_of_eof h, next_of_eof h]
    exact fun _ ht => ht
  · rw [tokens_of_ne_eof h]
    exact List.subset_cons_self _ _

/-- **A scanner that follows another gives its tokens** at their other places. -/
theorem tokens_relocate {g : Span → Span} {T : Token → Prop} {R : Scanner → Scanner → Prop}
    (h : Follows g T R) {s s' : Scanner} (hR : R s s') :
    s'.tokens = s.tokens.map (Token.relocate g) := by
  induction s using tokens_induction generalizing s' with
  | eof s heof =>
      have htoken : s'.next.1 = s.next.1.relocate g := h.token hR
      rw [tokens_of_eof heof, tokens_of_eof (by rw [htoken]; exact heof), htoken]
      rfl
  | token s hne ih =>
      have htoken : s'.next.1 = s.next.1.relocate g := h.token hR
      have hrest : s'.next.2.tokens = s.next.2.tokens.map (Token.relocate g) := ih (h.rest hR)
      rw [tokens_of_ne_eof hne, tokens_of_ne_eof (by rw [htoken]; exact hne), htoken, hrest]
      rfl

end Scanner

end ScriptFront

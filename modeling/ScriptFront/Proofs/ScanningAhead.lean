import ScriptFront.Proofs.Consumption.Lookahead
import ScriptFront.Proofs.Scanner.Relocation

/-!
# Scanning Ahead

A parser can pull its tokens from the scanner as it goes, or from the list of all tokens, made
beforehand. **Both ways every request is answered alike** (`Parser.ask_scanned_ahead`), after
whatever was asked before.

The two sources differ behind the end of the input: the scanner gives its last token again, the
list a token at no place. A parser does pull that token, when it takes the end of the input for an
operand, so what has to be shown is that its place is never told. A fault only tells a place and not
the token it means, and two tokens may have one place. So both parsers are compared with a third
one, whose tokens have **their numbers for places** (`Numbered`): its faults say which token they
mean, and that is none behind the first end of the input (`Parser.exists_place_of_ask`).
-/

namespace ScriptFront

open Text Parse

/-! ### Sessions at other places -/

section Sessions

variable {σ τ : Type} [TokenSource σ] [TokenSource τ] {g : Span → Span} {T : Token → Prop}
  {R : σ → τ → Prop} {p : Parser σ} {q : Parser τ}

/-- Two parsers stand **at the same token** of sources of which the second follows the first. -/
structure Follows.Level (h : Follows g T R) (p : Parser σ) (q : Parser τ) : Prop where
  limit : p.limit = q.limit
  cursor : h.coupling.rel p.limit p.cursor q.cursor

namespace Follows.Level

variable {h : Follows g T R}

/-- Sources that are related start sessions that are. -/
theorem start {s : σ} {s' : τ} (hR : R s s') (setting : Int) :
    h.Level (Parser.start setting s) (Parser.start setting s') :=
  ⟨rfl, s, s', hR, rfl, rfl⟩

/-- **The step**: a request is answered alike, but for the places of faults. -/
theorem ask (hlevel : h.Level p q) (r : Request) :
    (q.ask r).1 = (p.ask r).1.mapError (·.relocate g) ∧ h.Level (p.ask r).2 (q.ask r).2 := by
  obtain ⟨hlimit, hcursor⟩ := hlevel
  have hagree := (Alike.answer (P := pairing σ τ g T) (.inl rfl) p.limit r).agree h.coupling
    p.cursor q.cursor hcursor trivial
  rw [Parser.ask_eq_run, Parser.ask_eq_run, Parser.run, Parser.run, ← hlimit]
  change Agree _ _ _ _ _ _ (Discipline.strict.answer p.limit r p.cursor)
    (Discipline.strict.answer p.limit r q.cursor) at hagree
  generalize Discipline.strict.answer p.limit r p.cursor = x at hagree ⊢
  generalize Discipline.strict.answer p.limit r q.cursor = y at hagree ⊢
  cases hagree with
  | ok hQ hR _ _ =>
      subst hQ
      exact ⟨rfl, rfl, hR⟩
  | error htu hR _ _ =>
      obtain ⟨-, rfl⟩ := htu
      exact ⟨rfl, rfl, hR⟩
  | spared h => exact h.elim

/-- **The run**: the parsers stay level over every list of requests. -/
theorem after (hlevel : h.Level p q) (requests : List Request) :
    h.Level (p.after requests) (q.after requests) := by
  induction requests generalizing p q with
  | nil => exact hlevel
  | cons r requests ih => exact ih (hlevel.ask r).2

end Follows.Level

end Sessions

/-! ### Numbers for places -/

/-- The place with a number. -/
def Span.ofNumber (i : Nat) : Span :=
  ⟨i, i, i⟩

/-- A source whose tokens have **their numbers for places**, from `count` on. -/
structure Numbered (σ : Type) where
  source : σ
  count : Nat := 0

/-- The source with the tokens numbered instead of placed. -/
instance {σ : Type} [TokenSource σ] : TokenSource (Numbered σ) where
  next s :=
    let (t, source) := TokenSource.next s.source
    ({ t with span := .ofNumber s.count }, ⟨source, s.count + 1⟩)
  size s := TokenSource.size s.source
  size_next s := TokenSource.size_next s.source

namespace TokenSource

variable {σ τ : Type} [TokenSource σ] [TokenSource τ]

/-- The tokens after the first are those of the rest. -/
theorem nth_succ (source : σ) (i : Nat) : nth source (i + 1) = nth (next source).2 i := rfl

/-- The tokens of the numbered source, with their numbers for spans. -/
theorem nth_numbered (source : σ) (count i : Nat) :
    nth (Numbered.mk source count) i = { nth source i with span := .ofNumber (count + i) } := by
  induction i generalizing source count with
  | zero => rfl
  | succ i ih =>
      rw [nth_succ, nth_succ, ← Nat.add_assoc, Nat.add_right_comm]
      exact ih (next source).2 (count + 1)

/-- A source follows another one if its tokens do. -/
theorem follows_of_nth (g : Span → Span) : Follows g (fun _ => True)
    fun (s : σ) (s' : τ) => ∀ i, nth s' i = (nth s i).relocate g where
  holds _ := trivial
  token h := h 0
  rest h i := h (i + 1)

/-- The place that a source gives to the token with a number. -/
def placeIn (source : σ) (place : Span) : Span :=
  (nth source place.line.toNat).span

/-- A source with the same kinds and values gives the numbered tokens at its own places. -/
theorem nth_eq_relocate {source : σ} {other : τ}
    (h : ∀ i, ∃ span, nth other i = { nth source i with span }) (i : Nat) :
    nth other i = (nth (Numbered.mk source 0) i).relocate (placeIn other) := by
  obtain ⟨span, hspan⟩ := h i
  have hplace : placeIn other (.ofNumber i) = span := by
    rw [placeIn, Span.ofNumber, Int.toNat_natCast, hspan]
  rw [nth_numbered, Nat.zero_add, Token.relocate, hplace, hspan]

end TokenSource

/-! ### What is behind the end of the input -/

namespace Parser

variable {σ τ : Type} [TokenSource σ] [TokenSource τ]

/-- At the end of the input no request fails. -/
theorem kind_ne_eof_of_ask {p : Parser σ} {r : Request} {f : ParseFault}
    (h : (p.ask r).1 = .error f) : p.cursor.current.kind ≠ .eof := by
  intro hk
  rw [ask_eq_run] at h
  obtain ⟨c, hx⟩ := error_of_run h
  cases r with
  | statement =>
      rw [Discipline.answer, map_eq_error_iff, Discipline.nextStatement, kind_bind, if_pos hk] at hx
      cases hx
  | program =>
      rw [Discipline.answer, map_eq_error_iff, Discipline.strict, Discipline.program_unroll,
        kind_bind, if_neg (not_not.mpr hk)] at hx
      cases hx

/-- **A fault is about a token up to the first end of the input.** The tokens that are consumed come
before the end of the input, since the first of them does. -/
theorem exists_place_of_ask {setting : Int} {source : σ} {n : Nat}
    (hend : ∀ i, (TokenSource.nth source i).kind = .eof ↔ n ≤ i) {requests : List Request}
    {r : Request} {f : ParseFault}
    (h : (((start setting (Numbered.mk source 0)).after requests).ask r).1 = .error f) :
    ∃ i ≤ n, f.span = .ofNumber i := by
  have hnth (i : Nat) : ((Cursor.start (Numbered.mk source 0)).forward i).current =
      { TokenSource.nth source i with span := .ofNumber i } := by
    have hnumbered := TokenSource.nth_numbered source 0 i
    rwa [Nat.zero_add] at hnumbered
  obtain ⟨m, hm⟩ := placed_session setting (Numbered.mk source 0) requests
  have hbefore := kind_ne_eof_of_ask h
  obtain ⟨ts, c, hts, hfault⟩ := faultAt_ask h []
  rw [hm.cursor] at hbefore hts
  obtain ⟨hc, hup⟩ := hts.takes.eq_forward
  rw [← Cursor.forward_add] at hc
  have hle : m + ts.length ≤ n := by
    by_contra hlt
    rw [hnth, ne_eq, hend] at hbefore
    have hmem : ((Cursor.start (Numbered.mk source 0)).forward n).current ∈ ts := by
      rw [← hup, Cursor.mem_upcoming_iff]
      refine ⟨n - m, by omega, ?_⟩
      rw [← Cursor.forward_add]
      congr 2
      omega
    refine hts.takes.kind_ne_eof _ hmem ?_
    rw [hnth]
    exact (hend n).mpr (Nat.le_refl n)
  have hcurrent : ∃ i ≤ n, c.current.span = .ofNumber i := ⟨m + ts.length, hle, by rw [hc, hnth]⟩
  have hconsumed : ∀ t ∈ ts, ∃ i ≤ n, t.span = .ofNumber i := by
    intro t ht
    rw [← hup, Cursor.mem_upcoming_iff] at ht
    obtain ⟨i, hi, rfl⟩ := ht
    refine ⟨m + i, by omega, ?_⟩
    rw [← Cursor.forward_add, hnth]
  generalize (((start setting (Numbered.mk source 0)).after requests).ask r).2.cursor = c' at hfault
  cases hfault with
  | misplaced | number | nesting | expression => exact hcurrent
  | inheritance hlast => exact hconsumed _ (List.mem_of_getLast? hlast)
  | target hmem => exact hconsumed _ hmem

/-- **What comes behind the end of the input plays no part**: sources that give the same tokens
through the first end of the input, and only differ in the places they give to the others, are
answered from alike. -/
theorem ask_eq_through_end {source : σ} {other : τ} {n : Nat}
    (hend : ∀ i, (TokenSource.nth source i).kind = .eof ↔ n ≤ i)
    (hwords : ∀ i, ∃ span, TokenSource.nth other i = { TokenSource.nth source i with span })
    (hsame : ∀ i ≤ n, TokenSource.nth other i = TokenSource.nth source i) (setting : Int)
    (requests : List Request) (r : Request) :
    (((start setting source).after requests).ask r).1 =
      (((start setting other).after requests).ask r).1 := by
  have hself (i : Nat) :
      ∃ span, TokenSource.nth source i = { TokenSource.nth source i with span } := ⟨_, rfl⟩
  have hsource := ((Follows.Level.start (h := TokenSource.follows_of_nth _)
    (TokenSource.nth_eq_relocate hself) setting).after requests).ask r
  have hother := ((Follows.Level.start (h := TokenSource.follows_of_nth _)
    (TokenSource.nth_eq_relocate hwords) setting).after requests).ask r
  rw [hsource.1, hother.1]
  cases hask : (((start setting (Numbered.mk source 0)).after requests).ask r).1 with
  | ok answer => rfl
  | error f =>
      obtain ⟨i, hi, hspan⟩ := exists_place_of_ask hend hask
      have hplace : TokenSource.placeIn source f.span = TokenSource.placeIn other f.span := by
        rw [hspan, TokenSource.placeIn, TokenSource.placeIn, Span.ofNumber, Int.toNat_natCast,
          hsame i hi]
      simp only [Except.mapError, ParseFault.relocate, hplace]

end Parser

/-! ### The scanner and the list of its tokens -/

namespace Scanner

/-- The end of the input is given for ever. -/
theorem nth_of_eof {s : Scanner} (h : s.next.1.kind = .eof) (i : Nat) :
    TokenSource.nth s i = s.next.1 := by
  induction i generalizing s with
  | zero => rfl
  | succ i ih =>
      have hagain := next_of_eof h
      rw [TokenSource.nth_succ]
      exact (ih (s := s.next.2) (by rw [hagain, h])).trans (by rw [hagain])

/-- The end of the input has no value. -/
theorem exists_nth_eof {s : Scanner} {i : Nat} (h : (TokenSource.nth s i).kind = .eof) :
    ∃ span, TokenSource.nth s i = ⟨.eof, [], span⟩ := by
  induction i generalizing s with
  | zero =>
      obtain ⟨c, -, hnext⟩ := passes_of_eof (s := s) h
      exact ⟨_, congrArg Prod.fst hnext⟩
  | succ i ih => exact ih (s := s.next.2) h

/-- The scanner gives the end of the input **from the last token of the text on**. -/
theorem kind_nth_eq_eof_iff (s : Scanner) (i : Nat) :
    (TokenSource.nth s i).kind = .eof ↔ s.tokens.length - 1 ≤ i := by
  induction s using tokens_induction generalizing i with
  | eof s heof =>
      rw [nth_of_eof heof, tokens_of_eof heof]
      exact iff_of_true heof (Nat.zero_le i)
  | token s hne ih =>
      have hpos := List.length_pos_of_mem s.next.2.mem_tokens_next
      rw [tokens_of_ne_eof hne, List.length_cons]
      cases i with
      | zero => exact iff_of_false hne (by omega)
      | succ i => exact (ih i).trans (by omega)

/-- **The tokens of a text are those that the scanner gives.** -/
theorem getElem?_tokens {s : Scanner} {i : Nat} (h : i < s.tokens.length) :
    s.tokens[i]? = some (TokenSource.nth s i) := by
  induction s using tokens_induction generalizing i with
  | eof s heof =>
      rw [tokens_of_eof heof] at h ⊢
      obtain rfl : i = 0 := Nat.lt_one_iff.mp h
      rfl
  | token s hne ih =>
      rw [tokens_of_ne_eof hne] at h ⊢
      cases i with
      | zero => rfl
      | succ i => exact ih (Nat.lt_of_succ_lt_succ h)

end Scanner

/-- A list gives its tokens in turn, and then the end of the input. -/
theorem Replay.nth_eq (ts : List Token) (i : Nat) :
    TokenSource.nth (Replay.mk ts) i = ts[i]?.getD ⟨.eof, [], {}⟩ := by
  induction i generalizing ts with
  | zero => cases ts <;> rfl
  | succ i ih =>
      rw [TokenSource.nth_succ]
      cases ts with
      | nil => exact ih []
      | cons t ts => exact ih ts

/-- **Scanning on demand and scanning ahead come to the same.** A parser over a text gives every
answer that a parser over the list of its tokens gives, with the end of the input at no place behind
them: the same statements and programs, the same end, and the same faults at the same places. -/
theorem Parser.ask_scanned_ahead (setting : Int) (text : Bytes) (requests : List Request)
    (r : Request) :
    (((start setting (Scanner.ofText text)).after requests).ask r).1 =
      (((start setting (Replay.mk (Scanner.ofText text).tokens)).after requests).ask r).1 := by
  have hpos := List.length_pos_of_mem (Scanner.ofText text).mem_tokens_next
  have hsame : ∀ i ≤ (Scanner.ofText text).tokens.length - 1,
      TokenSource.nth (Replay.mk (Scanner.ofText text).tokens) i =
        TokenSource.nth (Scanner.ofText text) i := by
    intro i hi
    rw [Replay.nth_eq, Scanner.getElem?_tokens (by omega)]
    rfl
  refine ask_eq_through_end (Scanner.kind_nth_eq_eof_iff _) (fun i => ?_) hsame setting requests r
  by_cases hi : i ≤ (Scanner.ofText text).tokens.length - 1
  · exact ⟨_, hsame i hi⟩
  · obtain ⟨span, heof⟩ := Scanner.exists_nth_eof
      ((Scanner.kind_nth_eq_eof_iff (Scanner.ofText text) i).mpr (Nat.le_of_not_le hi))
    refine ⟨{}, ?_⟩
    rw [Replay.nth_eq, List.getElem?_eq_none (by omega), heof]
    rfl

/-- The sources do differ: behind its last token the list gives a token at no place. -/
example : TokenSource.nth (Scanner.ofText (utf8 "print")) 2 = ⟨.eof, [], ⟨1, 5, 5⟩⟩ ∧
    TokenSource.nth (Replay.mk (Scanner.ofText (utf8 "print")).tokens) 2 = ⟨.eof, [], {}⟩ := by
  decide

end ScriptFront

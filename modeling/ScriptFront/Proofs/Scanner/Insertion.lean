import ScriptFront.Proofs.Scanner.Lexing
import ScriptFront.Proofs.Scanner.Tiling

/-!
# Blanks after a Token

How far a token reaches is decided by what comes after it, by at most two runes. **A blank among
these decides nothing**: `Broken rest more` says that `more` begins like `rest` and, at some point,
goes on with a blank, and a token that leaves `rest` is the same token, at the same place, if it is
made to leave `more` (`Scanner.firm_lexeme`, `Scanner.next_broken`). A fault is the exception: it
takes the whole rest of the text with it.

Between tokens stands layout. `Passes inComment layout inComment'` says that the runes are layout
from one state of the scanner to another, so that layout can be joined (`Passes.append`) and is
skipped as a whole (`Scanner.next_of_passes`).
-/

namespace ScriptFront.Scanner

open Text

/-! ### Layout in runes -/

/-- **Layout**, by whether the scanner is in a comment before it and after it. -/
inductive Passes : Bool → List Rune → Bool → Prop
  | nil {c : Bool} : Passes c [] c
  | blank {r : Rune} {layout : List Rune} {c : Bool} : isBlank r = true → Passes false layout c →
      Passes false (r :: layout) c
  | slashes {layout : List Rune} {c : Bool} : Passes true layout c →
      Passes false (.char '/' :: .char '/' :: layout) c
  | inside {r : Rune} {layout : List Rune} {c : Bool} : Passes (r ≠ .char '\n') layout c →
      Passes true (r :: layout) c

variable {c c' c'' : Bool} {layout more text : List Rune}

/-- Layout in two parts is layout, as long as one goes on where the other ends. -/
theorem Passes.append (h : Passes c layout c') (h' : Passes c' more c'') :
    Passes c (layout ++ more) c'' := by
  induction h with
  | nil => exact h'
  | blank hr _ ih => exact .blank hr (ih h')
  | slashes _ ih => exact .slashes (ih h')
  | inside _ ih => exact .inside (ih h')

/-- Layout in front of a text is the first part of its layout. -/
theorem Passes.splitLayout_append (h : Passes c layout c') (text : List Rune) :
    splitLayout c (layout ++ text) =
      (layout ++ (splitLayout c' text).1, (splitLayout c' text).2) := by
  induction h with
  | nil => rfl
  | blank hr _ ih => simp only [List.cons_append, splitLayout, hr, if_true, ih]
  | slashes _ ih => rw [List.cons_append, List.cons_append, splitLayout_slashes, ih]; rfl
  | inside _ ih => simp only [List.cons_append, splitLayout, ih]

/-- **What is split off a text is layout**, and no more of it follows. -/
theorem passes_splitLayout (c : Bool) (text : List Rune) :
    ∃ c', Passes c (splitLayout c text).1 c' ∧
      splitLayout c' (splitLayout c text).2 = ([], (splitLayout c text).2) := by
  induction text generalizing c with
  | nil => cases c <;> exact ⟨_, .nil, rfl⟩
  | cons r rest ih =>
      cases c with
      | true =>
          obtain ⟨c', hpass, hend⟩ := ih (r ≠ .char '\n')
          exact ⟨c', .inside hpass, hend⟩
      | false =>
          by_cases hblank : isBlank r = true
          · obtain ⟨c', hpass, hend⟩ := ih false
            simp only [splitLayout, hblank, if_true]
            exact ⟨c', .blank hblank hpass, hend⟩
          · by_cases hslash : r = .char '/' ∧ rest.head? = some (.char '/')
            · obtain ⟨rfl, hhead⟩ := hslash
              obtain ⟨rest, rfl⟩ := List.head?_eq_some_iff.mp hhead
              obtain ⟨c', hpass, hend⟩ := ih true
              rw [splitLayout_slashes]
              cases hpass with
              | inside hpass => exact ⟨c', .slashes hpass, hend⟩
            · have hnone : splitLayout false (r :: rest) = ([], r :: rest) := by
                simp only [splitLayout, hblank, hslash, if_false, Bool.false_eq_true]
              rw [hnone]
              exact ⟨false, .nil, hnone⟩

/-- Where text follows that is no layout, the scanner is in no comment. -/
theorem not_inComment {r : Rune} {rest : List Rune}
    (h : splitLayout c (r :: rest) = ([], r :: rest)) : c = false := by
  cases c with
  | false => rfl
  | true => cases congrArg Prod.fst h

/-- Where a token begins the scanner is in no comment. -/
theorem splitLayout_eq_of_nil (h : splitLayout c text = ([], text)) :
    splitLayout c text = splitLayout false text := by
  cases text with
  | nil => cases c <;> rfl
  | cons r rest => rw [not_inComment h]

/-- **Layout is skipped as a whole**, up to the end of a comment or of the text. -/
theorem next_of_passes (h : Passes false layout c)
    (htext : splitLayout c text = splitLayout false text) (position : Position) :
    next ⟨layout ++ text, position⟩ = next ⟨text, position.past layout⟩ := by
  simp only [next, h.splitLayout_append, htext, Position.past_append]

/-! ### Lexemes before a blank -/

/-- The second text **begins like the first and goes on with a blank**. -/
inductive Broken : List Rune → List Rune → Prop
  | blank {r : Rune} {rest more : List Rune} : isBlank r = true → Broken rest (r :: more)
  | cons {r : Rune} {rest more : List Rune} : Broken rest more → Broken (r :: rest) (r :: more)

variable {r : Rune} {rest : List Rune}

/-- What stands in front may be the same in both. -/
theorem Broken.append (h : Broken rest more) (front : List Rune) :
    Broken (front ++ rest) (front ++ more) := by
  induction front with
  | nil => exact h
  | cons r front ih => exact .cons ih

/-- A blank belongs to no token. -/
theorem blank_spec (h : isBlank r = true) :
    isDigit r = false ∧ isWordPart r = false ∧ r ≠ .char '.' ∧
      ∀ c, r = .char c → c ∉ secondHalves := by
  simp only [isBlank, Bool.or_eq_true, decide_eq_true_eq] at h
  rcases h with ((rfl | rfl) | rfl) | rfl
  all_goals exact ⟨by decide, by decide, by decide, fun c hc => by cases hc; decide⟩

/-- A run that has ended is not taken up again. -/
theorem Broken.takeWhile_eq_nil {p : Rune → Bool} (h : Broken rest more)
    (hp : ∀ r, isBlank r = true → p r = false) (hrest : rest.takeWhile p = []) :
    more.takeWhile p = [] := by
  cases h with
  | blank hr => exact List.takeWhile_cons_of_neg (by simp [hp _ hr])
  | @cons r rest more h =>
      cases hr : p r with
      | true => simp [List.takeWhile_cons_of_pos hr] at hrest
      | false => exact List.takeWhile_cons_of_neg (by simp [hr])

/-- A point that is not followed by digits stays without. -/
theorem Broken.fraction (h : Broken rest more)
    (hrest : ∀ tail, rest = .char '.' :: tail → tail.takeWhile isDigit = []) :
    ∀ tail, more = .char '.' :: tail → tail.takeWhile isDigit = [] := by
  rintro tail rfl
  cases h with
  | blank hr => exact absurd rfl (blank_spec hr).2.2.1
  | cons h => exact h.takeWhile_eq_nil (fun r hr => (blank_spec hr).1) (hrest _ rfl)

/-- An operator that is not made longer is not so before a blank either. -/
theorem Broken.double? {first : Char} (h : Broken rest more)
    (hrest : double? first rest = none) : double? first more = none := by
  cases h with
  | blank hr =>
      refine double?_eq_none ?_
      rintro c tail heq
      cases heq
      exact (blank_spec hr).2.2.2 c rfl
  | @cons r rest more h =>
      cases r with
      | invalid b => rfl
      | char second =>
          rw [Scanner.double?, Option.map_eq_none_iff] at hrest ⊢
          exact hrest

/-- A comment does not begin where there was none. -/
theorem Broken.head? (h : Broken rest more) (hrest : rest.head? ≠ some (.char '/')) :
    more.head? ≠ some (.char '/') := by
  cases h with
  | blank hr =>
      intro heq
      cases heq
      exact absurd hr (by decide)
  | cons h => exact hrest

/-- **What a lexeme is does not change** if the rest after it is broken off by a blank. -/
def Firm (r : Rune) (x : Lexeme) : Prop :=
  ∃ runes, x.runes = r :: runes ∧
    ∀ more, Broken x.rest more → lexeme r (runes ++ more) = { x with rest := more }

/-- What is left after all that could be taken begins with nothing of it. -/
theorem takeWhile_dropWhile (p : Rune → Bool) (text : List Rune) :
    (text.dropWhile p).takeWhile p = [] := by
  have hstop := List.head?_dropWhile_not p text
  cases h : text.dropWhile p with
  | nil => rfl
  | cons r rest =>
      rw [h] at hstop
      exact List.takeWhile_cons_of_neg (by simp [show p r = false from hstop])

/-- **How a number ends**: where its digits do and no fraction follows, or where the digits of its
fraction do. -/
theorem number_cases (text : List Rune) :
    (∃ rest, number text = .plain .number (text.takeWhile isDigit) rest ∧
      rest.takeWhile isDigit = [] ∧
      ∀ tail, rest = .char '.' :: tail → tail.takeWhile isDigit = []) ∨
    (∃ fraction rest, number text =
        .plain .number (text.takeWhile isDigit ++ .char '.' :: fraction) rest ∧
      fraction ≠ [] ∧ (∀ r ∈ fraction, isDigit r = true) ∧ rest.takeWhile isDigit = []) := by
  have hend := takeWhile_dropWhile isDigit text
  rw [number]
  split
  · next tail heq =>
    by_cases hf : tail.takeWhile isDigit = []
    · refine .inl ⟨.char '.' :: tail, by rw [if_pos hf], heq ▸ hend, ?_⟩
      rintro tail' heq'
      cases heq'
      exact hf
    · refine .inr ⟨tail.takeWhile isDigit, tail.dropWhile isDigit, by rw [if_neg hf], hf, ?_,
        takeWhile_dropWhile isDigit tail⟩
      exact fun r hr => List.all_eq_true.mp List.all_takeWhile r hr
  · next hpoint => exact .inl ⟨_, rfl, hend, fun tail heq => absurd heq (hpoint tail)⟩

/-- **A number is firm.** The rest may begin with a point that is no part of it, and the blank may
stand before or behind that point. -/
theorem firm_number {c : Char} (hc : c.isDigit = true) (rest : List Rune) :
    Firm (.char c) (number (.char c :: rest)) := by
  have htake : (.char c :: rest).takeWhile isDigit = .char c :: rest.takeWhile isDigit :=
    List.takeWhile_cons_of_pos hc
  have hdigits : ∀ r ∈ (.char c :: rest).takeWhile isDigit, isDigit r = true :=
    fun r hr => List.all_eq_true.mp List.all_takeWhile r hr
  have hdigit : ∀ r, isBlank r = true → isDigit r = false := fun r hr => (blank_spec hr).1
  rcases number_cases (.char c :: rest) with ⟨rest', hx, hend, hpoint⟩ | ⟨fraction, rest', hx, hne,
    hfraction, hend⟩
  · rw [hx]
    refine ⟨rest.takeWhile isDigit, htake, fun more hmore => ?_⟩
    rw [lexeme_of_isDigit hc, ← List.cons_append, ← htake]
    exact number_whole hdigits (hmore.takeWhile_eq_nil hdigit hend) (hmore.fraction hpoint)
  · rw [hx]
    refine ⟨rest.takeWhile isDigit ++ .char '.' :: fraction, by rw [htake]; rfl,
      fun more hmore => ?_⟩
    rw [lexeme_of_isDigit hc, ← List.cons_append, ← List.cons_append, ← htake]
    exact number_fraction hdigits hfraction hne (hmore.takeWhile_eq_nil hdigit hend)

/-- **A word is firm.** -/
theorem firm_word {c : Char} (hc : isWordStart (.char c) = true) (rest : List Rune) :
    Firm (.char c) (word (.char c :: rest)) := by
  have hpart := isWordPart_of_isWordStart hc
  have htake : (.char c :: rest).takeWhile isWordPart = .char c :: rest.takeWhile isWordPart :=
    List.takeWhile_cons_of_pos hpart
  have hparts : ∀ r ∈ (.char c :: rest).takeWhile isWordPart, isWordPart r = true :=
    fun r hr => List.all_eq_true.mp List.all_takeWhile r hr
  refine ⟨rest.takeWhile isWordPart, htake, fun more hmore => ?_⟩
  have hend := hmore.takeWhile_eq_nil (fun r hr => (blank_spec hr).2.1)
    (takeWhile_dropWhile isWordPart (.char c :: rest))
  obtain ⟨htake', hdrop'⟩ := span_run hparts hend
  rw [lexeme_of_isWordStart hc, ← List.cons_append, ← htake, word, htake', hdrop']
  rfl

/-- **A string is firm** if it is closed: it does not look at what comes after it. -/
theorem firm_string {c : Char} (hmark : c = '"' ∨ c = '\'') {rest : List Rune}
    (hk : ((stringTail c rest).extend [.char c] []).kind ≠ .error) :
    Firm (.char c) ((stringTail c rest).extend [.char c] []) := by
  have hslash : c ≠ '\\' := by rcases hmark with rfl | rfl <;> decide
  rcases stringTail_cases c rest with ⟨f, runes, more, -, heq⟩ | ⟨body, chars, rest', -, hden, heq⟩
  · rw [heq] at hk
    exact absurd rfl hk
  · rw [heq]
    refine ⟨body ++ [.char c], rfl, fun more _ => ?_⟩
    simp only [lexeme, if_pos hmark, List.append_assoc, List.singleton_append,
      stringTail_of_denotes hslash hden]
    rfl

/-- A second half is part of the operator wherever the text is broken off behind it, and a blank is
no second half. -/
theorem firm_punctuator {c : Char} {rest : List Rune} {x : Lexeme}
    (hx : (double? c rest).or (single? c rest) = some x) :
    ∃ runes, x.runes = .char c :: runes ∧ ∀ more, Broken x.rest more →
      (double? c (runes ++ more)).or (single? c (runes ++ more)) =
        some { x with rest := more } := by
  cases hdouble : double? c rest with
  | some y =>
      rw [hdouble] at hx
      cases hx
      simp only [double?] at hdouble
      split at hdouble
      · next d tail =>
        obtain ⟨p, hp, rfl⟩ := Option.map_eq_some_iff.mp hdouble
        refine ⟨[.char d], rfl, fun more _ => ?_⟩
        simp only [List.singleton_append, double?, hp, Option.map_some]
        rfl
      · cases hdouble
  | none =>
      rw [hdouble, Option.none_or] at hx
      obtain ⟨p, hp, rfl⟩ := Option.map_eq_some_iff.mp hx
      refine ⟨[], rfl, fun more hmore => ?_⟩
      rw [List.nil_append, hmore.double? hdouble, Option.none_or, single?, hp]
      rfl

/-- **Every lexeme but a fault is firm.** -/
theorem firm_lexeme {r : Rune} {rest : List Rune} (hk : (lexeme r rest).kind ≠ .error) :
    Firm r (lexeme r rest) := by
  cases r with
  | invalid b => exact absurd rfl hk
  | char c =>
      by_cases hmark : c = '"' ∨ c = '\''
      · have hx : lexeme (.char c) rest = (stringTail c rest).extend [.char c] [] := by
          simp only [lexeme, if_pos hmark]
        rw [hx] at hk ⊢
        exact firm_string hmark hk
      · cases hdigit : c.isDigit with
        | true =>
            rw [lexeme_of_isDigit hdigit]
            exact firm_number hdigit rest
        | false =>
            cases hstart : isWordStart (.char c) with
            | true =>
                rw [lexeme_of_isWordStart hstart]
                exact firm_word hstart rest
            | false =>
                have hlexeme (text : List Rune) : lexeme (.char c) text =
                    ((double? c text).or (single? c text)).getD
                      (.fault (.unexpectedCharacter c) [.char c]) := by
                  simp only [lexeme, if_neg hmark, hdigit, hstart, Bool.false_eq_true, if_false]
                rw [hlexeme] at hk ⊢
                cases hx : (double? c rest).or (single? c rest) with
                | none =>
                    rw [hx] at hk
                    exact absurd rfl hk
                | some x =>
                    obtain ⟨runes, hrunes, hfirm⟩ := firm_punctuator hx
                    refine ⟨runes, hrunes, fun more hmore => ?_⟩
                    rw [hlexeme, hfirm more hmore]
                    rfl

/-! ### Tokens before a blank -/

/-- The text behind layout that begins a lexeme. -/
theorem splitLayout_cons {r : Rune} {rest : List Rune} (hblank : isBlank r = false)
    (hslash : r = .char '/' → rest.head? ≠ some (.char '/')) :
    splitLayout false (r :: rest) = ([], r :: rest) := by
  have hnone : ¬(r = .char '/' ∧ rest.head? = some (.char '/')) := fun h => hslash h.1 h.2
  simp only [splitLayout, hblank, hnone, if_false, Bool.false_eq_true]

/-- What is no layout begins with no blank, and with no two slashes. -/
theorem not_layout_of_splitLayout {r : Rune} {rest : List Rune}
    (h : splitLayout false (r :: rest) = ([], r :: rest)) :
    isBlank r = false ∧ (r = .char '/' → rest.head? ≠ some (.char '/')) := by
  constructor
  · cases hblank : isBlank r with
    | false => rfl
    | true =>
        simp only [splitLayout, hblank, if_true] at h
        cases congrArg Prod.fst h
  · rintro rfl hhead
    obtain ⟨rest, rfl⟩ := List.head?_eq_some_iff.mp hhead
    rw [splitLayout_slashes] at h
    cases congrArg Prod.fst h

/-- A text divided at **the place where its first token begins**. -/
theorem exists_layout (s : Scanner) :
    ∃ layout text c, s.input = layout ++ text ∧ Passes false layout c ∧
      splitLayout c text = ([], text) ∧ s.next = next ⟨text, s.position.past layout⟩ := by
  obtain ⟨c, hpass, hend⟩ := passes_splitLayout false s.input
  have hsplit := splitLayout_append false s.input
  refine ⟨_, _, c, hsplit.symm, hpass, hend, ?_⟩
  rw [← next_of_passes hpass (splitLayout_eq_of_nil hend), hsplit]

/-- A lexeme is a fault, which leaves no text, or it stands at the front of the text it leaves. -/
theorem lexeme_cases (r : Rune) (rest : List Rune) :
    ((lexeme r rest).kind = .error ∧ (lexeme r rest).rest = []) ∨
      ((lexeme r rest).kind ≠ .error ∧ (lexeme r rest).kind ≠ .eof ∧
        r :: rest = (lexeme r rest).runes ++ (lexeme r rest).rest) := by
  rcases (lexeme_scans r rest).cases with ⟨f, _, _, -, -, hx⟩ | ⟨-, hfront, herror, heof, -⟩
  · rw [hx]
    exact .inl ⟨rfl, rfl⟩
  · exact .inr ⟨herror, heof, hfront⟩

/-- **What one token does**: only layout is left, or a lexeme is cut off behind some. -/
theorem next_inv (s : Scanner) :
    (∃ c, Passes false s.input c ∧
      s.next = (⟨.eof, [], (s.position.past s.input).upTo (s.position.past s.input)⟩,
        ⟨[], s.position.past s.input⟩)) ∨
    ∃ layout r rest, s.input = layout ++ r :: rest ∧ Passes false layout false ∧
      splitLayout false (r :: rest) = ([], r :: rest) ∧
      s.next = (⟨(lexeme r rest).kind, (lexeme r rest).value,
          (s.position.past layout).upTo ((s.position.past layout).past (lexeme r rest).runes)⟩,
        ⟨(lexeme r rest).rest, (s.position.past layout).past (lexeme r rest).runes⟩) := by
  obtain ⟨layout, text, c, hinput, hpass, hend, hnext⟩ := s.exists_layout
  cases text with
  | nil =>
      rw [List.append_nil] at hinput
      rw [hinput]
      exact .inl ⟨c, hpass, hnext⟩
  | cons r rest =>
      obtain rfl := not_inComment hend
      refine .inr ⟨layout, r, rest, hinput, hpass, hend, hnext.trans ?_⟩
      simp only [next, hend, Position.past_nil]

/-- At the end of the input only layout is left. -/
theorem passes_of_eof {s : Scanner} (h : s.next.1.kind = .eof) :
    ∃ c, Passes false s.input c ∧
      s.next = (⟨.eof, [], (s.position.past s.input).upTo (s.position.past s.input)⟩,
        ⟨[], s.position.past s.input⟩) := by
  rcases s.next_inv with hlayout | ⟨layout, r, rest, -, -, -, hnext⟩
  · exact hlayout
  · rw [hnext] at h
    rcases lexeme_cases r rest with ⟨hk, -⟩ | ⟨-, hk, -⟩
    · cases hk.symm.trans h
    · exact absurd h hk

/-- The end of the input is given again and again. -/
theorem next_of_eof {s : Scanner} (h : s.next.1.kind = .eof) : s.next.2.next = s.next := by
  obtain ⟨c, -, hnext⟩ := passes_of_eof h
  rw [hnext]
  rfl

/-- A fault takes the rest of the text with it. -/
theorem input_of_error {s : Scanner} (h : s.next.1.kind = .error) : s.next.2.input = [] := by
  rcases s.next_inv with ⟨c, -, hnext⟩ | ⟨layout, r, rest, -, -, -, hnext⟩
  · rw [hnext] at h
    cases h
  · rw [hnext] at h ⊢
    rcases lexeme_cases r rest with ⟨-, hrest⟩ | ⟨hk, -⟩
    · exact hrest
    · exact absurd h hk

/-- **A token is scanned alike** whether its rest is broken off by a blank or not: it takes the same
runes from the front of the text. A slash by itself becomes no comment, since what stands behind it
is a blank now, or what stood there before. -/
theorem next_broken {s : Scanner} (herror : s.next.1.kind ≠ .error) (heof : s.next.1.kind ≠ .eof) :
    ∃ front, s.input = front ++ s.next.2.input ∧ s.next.2.position = s.position.past front ∧
      ∀ more, Broken s.next.2.input more →
        next ⟨front ++ more, s.position⟩ = (s.next.1, ⟨more, s.next.2.position⟩) := by
  rcases s.next_inv with ⟨c, -, hnext⟩ | ⟨layout, r, rest, hinput, hpass, hend, hnext⟩
  · rw [hnext] at heof
    exact absurd rfl heof
  · rw [hnext] at herror ⊢
    obtain ⟨hblank, hslash⟩ := not_layout_of_splitLayout hend
    obtain ⟨runes, hrunes, hfirm⟩ := firm_lexeme herror
    rcases lexeme_cases r rest with ⟨hk, -⟩ | ⟨-, -, hfront⟩
    · exact absurd hk herror
    refine ⟨layout ++ (lexeme r rest).runes, ?_, (Position.past_append ..).symm,
      fun more hmore => ?_⟩
    · rw [hinput, hfront, List.append_assoc]
    · have hend' : splitLayout false (r :: (runes ++ more)) = ([], r :: (runes ++ more)) := by
        refine splitLayout_cons hblank fun hr => ?_
        have hrest := hslash hr
        rw [hrunes, List.cons_append, List.cons.injEq] at hfront
        rw [hfront.2] at hrest
        cases runes with
        | nil => exact hmore.head? hrest
        | cons r' runes => exact hrest
      rw [hrunes, List.append_assoc, List.cons_append, next_of_passes hpass rfl]
      simp only [next, hend', Position.past_nil, hfirm more hmore, hrunes]

/-! ### Tokens in a row -/

/-- **Scanning gives the tokens**, one after the other, and leaves the second scanner. -/
def Gives : Scanner → List Token → Scanner → Prop
  | s, [], s' => s = s'
  | s, t :: ts, s' => s.next.1 = t ∧ s.next.2.Gives ts s'

/-- Tokens in a row are scanned alike whether the rest after them is broken off by a blank or
not. -/
theorem Gives.broken {s s' : Scanner} {ts : List Token} (h : s.Gives ts s')
    (hts : ∀ t ∈ ts, t.kind ≠ .error ∧ t.kind ≠ .eof) :
    ∃ front, s.input = front ++ s'.input ∧ s'.position = s.position.past front ∧
      ∀ more, Broken s'.input more →
        Gives ⟨front ++ more, s.position⟩ ts ⟨more, s'.position⟩ := by
  induction ts generalizing s with
  | nil =>
      obtain rfl : s = s' := h
      exact ⟨[], rfl, rfl, fun more _ => rfl⟩
  | cons t ts ih =>
      obtain ⟨rfl, h⟩ := h
      obtain ⟨⟨herror, heof⟩, hts⟩ := List.forall_mem_cons.mp hts
      obtain ⟨front, hinput, hposition, hfront⟩ := next_broken herror heof
      obtain ⟨front', hinput', hposition', hfront'⟩ := ih h hts
      refine ⟨front ++ front', ?_, ?_, fun more hmore => ?_⟩
      · rw [hinput, hinput', List.append_assoc]
      · rw [hposition', hposition, Position.past_append]
      · have hbroken : Broken s.next.2.input (front' ++ more) := hinput' ▸ hmore.append front'
        rw [List.append_assoc, Gives, hfront _ hbroken]
        exact ⟨rfl, hfront' more hmore⟩

end ScriptFront.Scanner

import ScriptFront.Proofs.LayoutInsertion

/-!
# Longest Match

**A token is the longest lexeme at its place**, and its kind is the one kind that its text is a
lexeme of. **A character is unexpected** exactly where it begins no lexeme
(`Scanner.longest_match`).

What the lexemes of a kind are is said without the scanner, as sets of texts (`Kind.IsLexeme`). The
scanner meets them at one point, `Scanner.takes_of_isLexeme`: it takes at least the runes of any
lexeme that the text begins with, and where it takes no more than these, it finds the kind. Three
facts follow from that: there is no longer lexeme, there is no other kind, and a character that
begins a lexeme is never a fault.
-/

namespace ScriptFront

open Text Scanner

/-! ### Lexemes as texts -/

/-- The **lexemes of a kind**. A word is the lexeme of a keyword or of the identifiers, never of
both. -/
inductive Kind.IsLexeme : Kind → Bytes → Prop
  | keyword (k : Keyword) : IsLexeme (.keyword k) k.spelling
  | identifier {word : Bytes} : IsWord word → (∀ k : Keyword, word ≠ k.spelling) →
      IsLexeme .identifier word
  | number {runes : List Rune} : IsNumeral runes → IsLexeme .number (Rune.encode runes)
  | punctuator (p : Punctuator) : IsLexeme (.punctuator p) p.spelling

/-- The character **begins a lexeme**, possibly a longer one. -/
def BeginsLexeme (c : Char) : Prop :=
  ∃ (k : Kind) (rest : Bytes), k.IsLexeme (String.utf8EncodeChar c ++ rest)

namespace Kind

variable {k : Kind} {bytes : Bytes}

/-- A word is a lexeme of its kind, be it a keyword or a name. -/
theorem isLexeme_ofWord (h : IsWord bytes) : (ofWord bytes).IsLexeme bytes := by
  rcases ofWord_cases bytes with ⟨k, hk, rfl⟩ | hk
  · rw [hk]
    exact .keyword k
  · rw [hk]
    refine .identifier h ?_
    rintro k rfl
    cases k.ofWord_spelling.symm.trans hk

/-- The lexeme of a keyword is its spelling. -/
theorem isLexeme_keyword {k : Keyword} : (keyword k).IsLexeme bytes ↔ bytes = k.spelling := by
  constructor
  · rintro ⟨⟩
    rfl
  · rintro rfl
    exact .keyword k

/-- A lexeme is a **word, a number, or an operator or delimiter**. -/
theorem IsLexeme.cases (h : k.IsLexeme bytes) :
    (IsWord bytes ∧ k = ofWord bytes) ∨
      (∃ runes, IsNumeral runes ∧ bytes = Rune.encode runes ∧ k = .number) ∨
      ∃ p : Punctuator, bytes = p.spelling ∧ k = .punctuator p := by
  cases h with
  | keyword kw => exact .inl ⟨kw.isWord_spelling, kw.ofWord_spelling.symm⟩
  | identifier hword hnone =>
      rcases ofWord_cases bytes with ⟨kw, -, hspelling⟩ | hk
      · exact absurd hspelling (hnone kw)
      · exact .inl ⟨hword, hk.symm⟩
  | number hnum => exact .inr (.inl ⟨_, hnum, rfl, rfl⟩)
  | punctuator p => exact .inr (.inr ⟨p, rfl, rfl⟩)

/-- A lexeme is made of characters, at least one. -/
theorem IsLexeme.exists_chars (h : k.IsLexeme bytes) :
    ∃ (c : Char) (cs : List Char), bytes = Rune.encode ((c :: cs).map .char) := by
  rcases h.cases with ⟨⟨c, cs, hword, -⟩, -⟩ | ⟨runes, hnum, rfl, -⟩ | ⟨p, rfl, -⟩
  · exact ⟨c, cs, hword⟩
  · obtain ⟨whole, fraction, hne, hw, -, rfl⟩ := hnum.exists_plain
    obtain ⟨c, cs, hcs, -⟩ := Numeral.exists_plain_cons hne hw fraction
    exact ⟨c, cs, by rw [hcs]⟩
  · obtain ⟨c, -, hp | ⟨d, -, hp⟩⟩ := p.chars_cases
    · exact ⟨c, [], by rw [p.encode_chars, hp]⟩
    · exact ⟨c, [d], by rw [p.encode_chars, hp]⟩

end Kind

/-- The first character of an operator is an operator. -/
theorem Punctuator.exists_single (p : Punctuator) : ∃ q ∈ all, q.chars = p.chars.take 1 := by
  cases p <;> decide

/-- **The first character of a lexeme is a lexeme.** -/
theorem BeginsLexeme.single {c : Char} (h : BeginsLexeme c) :
    ∃ k : Kind, k.IsLexeme (Rune.encode ([c].map .char)) := by
  obtain ⟨k, rest, h⟩ := h
  have hfirst {c' : Char} {cs : List Char}
      (heq : String.utf8EncodeChar c ++ rest = Rune.encode ((c' :: cs).map .char)) : c' = c := by
    have hdecode := congrArg Rune.decode heq
    rw [Rune.decode_utf8EncodeChar_append, Rune.decode_encode_char, List.map_cons] at hdecode
    exact (Rune.char.inj (List.cons.inj hdecode).1).symm
  rcases h.cases with ⟨⟨c', cs, heq, hc, -⟩, -⟩ | ⟨runes, hnum, heq, -⟩ | ⟨p, heq, -⟩
  · obtain rfl := hfirst heq
    exact ⟨_, Kind.isLexeme_ofWord ⟨c', [], rfl, hc, List.forall_mem_nil _⟩⟩
  · obtain ⟨whole, fraction, hne, hw, -, rfl⟩ := hnum.exists_plain
    obtain ⟨c', cs, hcs, hc⟩ := Numeral.exists_plain_cons hne hw fraction
    obtain rfl := hfirst (hcs ▸ heq)
    refine ⟨_, .number (.whole (List.cons_ne_nil _ _) ?_)⟩
    exact List.forall_mem_singleton.mpr hc
  · rw [p.encode_chars] at heq
    obtain ⟨q, -, hq⟩ := p.exists_single
    have hspelling := q.encode_chars
    obtain ⟨c', -, hp | ⟨d, -, hp⟩⟩ := p.chars_cases
    all_goals
      obtain rfl := hfirst (hp ▸ heq)
      rw [hq, hp] at hspelling
      exact ⟨.punctuator q, hspelling ▸ .punctuator q⟩

/-- The wording tells an unexpected character from the other faults. It does so by its third byte,
`e` here and `v`, `t` or `k` in the other wordings. -/
theorem ScanFault.exists_of_wording {f : ScanFault}
    (h : utf8 "unexpected character: " <+: f.message) : ∃ c, f = .unexpectedCharacter c := by
  obtain ⟨rest, h⟩ := h
  have hthird : (utf8 "unexpected character: " ++ rest)[2]? = some (byte 'e') := rfl
  rw [h] at hthird
  cases f with
  | invalidEncoding => exact absurd hthird (by decide)
  | unterminatedString => exact absurd hthird (by decide)
  | unknownEscape r =>
      have hother : some (byte 'k') = some (byte 'e') := hthird
      exact absurd hother (by decide)
  | unexpectedCharacter c => exact ⟨c, rfl⟩

namespace Scanner

/-! ### What the scanner takes -/

/-- The lexeme is no fault and takes **at least the runes at its front**, and if it takes only
these, it is of the kind. -/
structure Takes (front : List Rune) (k : Kind) (x : Lexeme) : Prop where
  front_prefix : front <+: x.runes
  kind_ne_error : x.kind ≠ .error
  kind_eq : x.runes = front → x.kind = k

/-- A word goes on as long as there are word parts. -/
theorem takes_word {runes : List Rune} (h : ∀ r ∈ runes, isWordPart r = true) (more : List Rune) :
    Takes runes (.ofWord (Rune.encode runes)) (word (runes ++ more)) := by
  have htake : (runes ++ more).takeWhile isWordPart = runes ++ more.takeWhile isWordPart :=
    List.takeWhile_append_of_pos h
  constructor
  · exact ⟨_, htake.symm⟩
  · rcases ofWord_cases (Rune.encode ((runes ++ more).takeWhile isWordPart)) with ⟨k, hk, -⟩ | hk
    all_goals
      rw [word, Lexeme.plain, hk]
      exact Kind.noConfusion
  · intro hall
    have hruns : (runes ++ more).takeWhile isWordPart = runes := hall
    rw [word, hruns]
    rfl

/-- A number goes on as long as there are digits, over a point if a digit follows it. -/
theorem takes_number {runes : List Rune} (h : IsNumeral runes) (more : List Rune) :
    Takes runes .number (number (runes ++ more)) := by
  cases h with
  | whole _ hdigits =>
      have htake : (runes ++ more).takeWhile isDigit = runes ++ more.takeWhile isDigit :=
        List.takeWhile_append_of_pos hdigits
      rcases number_cases (runes ++ more) with ⟨rest, hx, -⟩ | ⟨fraction, rest, hx, -⟩
      · rw [hx, htake]
        exact ⟨List.prefix_append _ _, Kind.noConfusion, fun _ => rfl⟩
      · rw [hx, htake, List.append_assoc]
        exact ⟨List.prefix_append _ _, Kind.noConfusion, fun _ => rfl⟩
  | @fraction digits digits' _ hdigits hne hdigits' =>
      have hpoint : (.char '.' :: (digits' ++ more)).takeWhile isDigit = [] :=
        List.takeWhile_cons_of_neg (by decide)
      obtain ⟨htake, hdrop⟩ := span_run hdigits hpoint
      have htake' : (digits' ++ more).takeWhile isDigit = digits' ++ more.takeWhile isDigit :=
        List.takeWhile_append_of_pos hdigits'
      have hne' : digits' ++ more.takeWhile isDigit ≠ [] := List.append_ne_nil_of_left_ne_nil hne _
      rw [List.append_assoc, List.cons_append, number, htake, hdrop]
      simp only [htake', if_neg hne']
      exact ⟨⟨more.takeWhile isDigit, by simp [Lexeme.plain]⟩, Kind.noConfusion, fun _ => rfl⟩

/-- An operator goes on if it can be made longer. What is longer is an operator of another kind,
about which nothing is said here. -/
theorem takes_punctuator (p : Punctuator) {r : Rune} {rest more : List Rune}
    (htext : r :: rest = p.chars.map .char ++ more) :
    Takes (p.chars.map .char) (.punctuator p) (lexeme r rest) := by
  have hspelling := p.ofSpelling?_spelling
  rw [p.encode_chars] at hspelling
  obtain ⟨c, hc, hp | ⟨d, -, hp⟩⟩ := p.chars_cases
  · rw [hp, List.map_singleton] at htext hspelling ⊢
    rw [List.singleton_append, List.cons.injEq] at htext
    obtain ⟨rfl, rfl⟩ := htext
    rw [lexeme_of_opens hc]
    cases hdouble : double? c rest with
    | some x =>
        simp only [double?] at hdouble
        split at hdouble
        · obtain ⟨q, -, rfl⟩ := Option.map_eq_some_iff.mp hdouble
          refine ⟨List.prefix_append [Rune.char c] _, Kind.noConfusion, ?_⟩
          intro hruns
          cases hruns
        · cases hdouble
    | none =>
        rw [Option.none_or, single?, hspelling]
        exact ⟨List.prefix_rfl, Kind.noConfusion, fun _ => rfl⟩
  · rw [hp, List.map_cons, List.map_singleton] at htext hspelling ⊢
    rw [List.cons_append, List.singleton_append, List.cons.injEq] at htext
    obtain ⟨rfl, rfl⟩ := htext
    rw [lexeme_of_opens hc, double?, hspelling]
    exact ⟨List.prefix_rfl, Kind.noConfusion, fun _ => rfl⟩

/-- **The scanner takes at least any lexeme that the text begins with**, and where it takes no more,
it finds its kind. -/
theorem takes_of_isLexeme {k : Kind} {cs : List Char}
    (h : k.IsLexeme (Rune.encode (cs.map .char))) {r : Rune} {rest more : List Rune}
    (htext : r :: rest = cs.map .char ++ more) : Takes (cs.map .char) k (lexeme r rest) := by
  rcases h.cases with ⟨⟨c, cs', heq, hc, hcs⟩, rfl⟩ | ⟨runes, hnum, heq, rfl⟩ | ⟨p, heq, rfl⟩
  · obtain rfl := Rune.encode_char_inj heq
    rw [List.map_cons, List.cons_append, List.cons.injEq] at htext
    obtain ⟨rfl, rfl⟩ := htext
    rw [lexeme_of_isWordStart hc, ← List.cons_append, ← List.map_cons]
    refine takes_word ?_ more
    rw [List.map_cons, List.forall_mem_cons]
    exact ⟨isWordPart_of_isWordStart hc, List.forall_mem_map.mpr hcs⟩
  · obtain ⟨whole, fraction, hne, hw, -, rfl⟩ := hnum.exists_plain
    obtain rfl := Rune.encode_char_inj heq
    obtain ⟨c, cs, hcs, hc⟩ := Numeral.exists_plain_cons hne hw fraction
    have htaken := takes_number hnum more
    rw [hcs, List.map_cons, List.cons_append] at htext htaken
    rw [List.cons.injEq] at htext
    obtain ⟨rfl, rfl⟩ := htext
    rw [hcs, List.map_cons, lexeme_of_isDigit hc]
    exact htaken
  · rw [p.encode_chars] at heq
    obtain rfl := Rune.encode_char_inj heq
    exact takes_punctuator p htext

/-- **What the scanner takes is a lexeme of the kind it finds**, literals and faults apart. -/
theorem isLexeme_lexeme {r : Rune} {rest : List Rune} (herror : (lexeme r rest).kind ≠ .error)
    (hstring : (lexeme r rest).kind ≠ .string) :
    (lexeme r rest).kind.IsLexeme (Rune.encode (lexeme r rest).runes) := by
  have hscans := lexeme_scans r rest
  generalize lexeme r rest = x at hscans herror hstring ⊢
  generalize r :: rest = text at hscans
  cases hscans with
  | fault f _ => exact absurd rfl herror
  | string _ _ => exact absurd rfl hstring
  | number hnum => exact .number hnum
  | word hstart hparts => exact Kind.isLexeme_ofWord (isWord_of_parts hstart hparts)
  | @punctuator p runes rest _ hspelling =>
      have hp : (Kind.punctuator p).IsLexeme p.spelling := .punctuator p
      rwa [← hspelling] at hp

/-! ### Unexpected characters -/

/-- In a literal no character is unexpected. -/
theorem stringTail_fault {mark : Char} {text : List Rune}
    (h : (stringTail mark text).kind = .error) :
    ∃ f : ScanFault, (stringTail mark text).value = f.message ∧
      ∀ c, f ≠ .unexpectedCharacter c := by
  fun_induction stringTail mark text with
  | case1 => exact ⟨.unterminatedString, rfl, fun _ => ScanFault.noConfusion⟩
  | case2 => exact ⟨.invalidEncoding, rfl, fun _ => ScanFault.noConfusion⟩
  | case3 => cases h
  | case4 => exact ⟨.unterminatedString, rfl, fun _ => ScanFault.noConfusion⟩
  | case5 _ _ _ _ _ ih =>
      obtain ⟨f, hf, hne⟩ := ih h
      exact ⟨f, (if_pos h).trans hf, hne⟩
  | case6 => exact ⟨.unknownEscape _, rfl, fun _ => ScanFault.noConfusion⟩
  | case7 _ _ _ _ ih =>
      obtain ⟨f, hf, hne⟩ := ih h
      exact ⟨f, (if_pos h).trans hf, hne⟩

/-- **A character that begins no lexeme and no literal is a fault.** -/
theorem lexeme_of_not_begins {c : Char} (hmark : ¬(c = '"' ∨ c = '\'')) (h : ¬BeginsLexeme c)
    (rest : List Rune) :
    lexeme (.char c) rest = .fault (.unexpectedCharacter c) [.char c] := by
  have hsingle (k : Kind) : ¬k.IsLexeme (Rune.encode ([c].map .char)) :=
    fun hk => h ⟨k, [], hk⟩
  have hdigit : c.isDigit = false := by
    by_contra hd
    rw [Bool.not_eq_false] at hd
    exact hsingle _ (.number (.whole (List.cons_ne_nil _ _) (List.forall_mem_singleton.mpr hd)))
  have hstart : isWordStart (.char c) = false := by
    by_contra hs
    rw [Bool.not_eq_false] at hs
    exact hsingle _ (Kind.isLexeme_ofWord ⟨c, [], rfl, hs, List.forall_mem_nil _⟩)
  have hnone (runes : List Rune) :
      Punctuator.ofSpelling? (Rune.encode (.char c :: runes)) = none := by
    rw [Option.eq_none_iff_forall_ne_some]
    intro p hp
    have hspelling : String.utf8EncodeChar c ++ Rune.encode runes = p.spelling :=
      spelling_of_ofSpelling? hp
    exact h ⟨.punctuator p, Rune.encode runes, hspelling ▸ .punctuator p⟩
  have hdouble : double? c rest = none := by
    simp only [double?]
    split
    · rw [hnone, Option.map_none]
    · rfl
  simp only [lexeme, if_neg hmark, hdigit, hstart, Bool.false_eq_true, if_false, hdouble, single?,
    hnone, Option.map_none, Option.none_or, Option.getD_none]

/-- **A character is unexpected if and only if it begins no lexeme and no literal.** -/
theorem unexpected_iff {r : Rune} {rest : List Rune} :
    ((lexeme r rest).kind = .error ∧ utf8 "unexpected character: " <+: (lexeme r rest).value) ↔
      ∃ c, r = .char c ∧ ¬(c = '"' ∨ c = '\'') ∧ ¬BeginsLexeme c := by
  constructor
  · rintro ⟨herror, hwording⟩
    cases r with
    | invalid b =>
        obtain ⟨c, hc⟩ := ScanFault.exists_of_wording (f := .invalidEncoding) hwording
        cases hc
    | char c =>
        have hmark : ¬(c = '"' ∨ c = '\'') := by
          intro hmark
          simp only [lexeme, if_pos hmark] at herror hwording
          obtain ⟨f, hf, hne⟩ := stringTail_fault herror
          have hvalue : ((stringTail c rest).extend [.char c] []).value = f.message :=
            (if_pos herror).trans hf
          rw [hvalue] at hwording
          obtain ⟨c', hc'⟩ := ScanFault.exists_of_wording hwording
          exact hne c' hc'
        refine ⟨c, rfl, hmark, ?_⟩
        intro hbegins
        obtain ⟨k, hk⟩ := hbegins.single
        have htakes : Takes [.char c] k (lexeme (.char c) rest) := takes_of_isLexeme hk rfl
        exact htakes.kind_ne_error herror
  · rintro ⟨c, rfl, hmark, hbegins⟩
    rw [lexeme_of_not_begins hmark hbegins]
    exact ⟨rfl, List.prefix_append _ _⟩

/-! ### Tokens of a text -/

/-- Behind layout stands **a character that begins no lexeme** and no literal. -/
structure Unexpected (input : Bytes) (offset start : Int) (c : Char) : Prop where
  offset_le : offset ≤ start
  layout : Layout False (slice input offset start)
  character : String.utf8EncodeChar c <+: input.drop start.toNat
  not_blank : isBlank (.char c) = false
  not_mark : ¬(c = '"' ∨ c = '\'')
  not_begins : ¬BeginsLexeme c

/-- Where scanning goes on behind some tokens. -/
def resume (offset : Int) : List Token → Int
  | [] => offset
  | t :: ts => resume t.span.stop ts

end Scanner

/-- The text of a token is **the longest lexeme at its place**, and its kind is the only one that it
is a lexeme of. -/
structure Token.Longest (input : Bytes) (t : Token) : Prop where
  longest : ∀ (k : Kind) (bytes : Bytes), k.IsLexeme bytes →
    bytes <+: input.drop t.span.start.toNat → (bytes.length : Int) ≤ t.span.stop - t.span.start
  kind_iff : ∀ k : Kind, t.kind = k ↔ k.IsLexeme (slice input t.span.start t.span.stop)
  keyword_iff : ∀ k : Keyword,
    t.kind = .keyword k ↔ slice input t.span.start t.span.stop = k.spelling

/-- A slice and what comes after it are what comes after its start. -/
theorem slice_append_drop (text : Bytes) {start stop : Int} (h : start ≤ stop) :
    slice text start stop ++ text.drop stop.toNat = text.drop start.toNat := by
  have hle : start.toNat ≤ stop.toNat := Int.toNat_le_toNat h
  conv_rhs => rw [← List.take_append_drop stop.toNat text, List.drop_append]
  rw [slice, List.length_take, List.drop_drop]
  congr 1
  by_cases hend : stop.toNat ≤ text.length
  · rw [Nat.min_eq_left hend, Nat.sub_eq_zero_of_le hle, Nat.add_zero]
  · rw [List.drop_eq_nil_of_le (by omega), List.drop_eq_nil_of_le (by omega)]

namespace Scanner

variable {input : Bytes} {done : List Rune} {s : Scanner}

/-- Behind the runes passed lie the bytes of those to come, and they are read as these. -/
theorem drop_reach {more : List Rune} (h : Rune.decode input = done ++ more) :
    input.drop (reach done).offset = Rune.encode more ∧ Rune.decode (Rune.encode more) = more := by
  have hinput : input = Rune.encode done ++ Rune.encode more := by
    rw [← Rune.encode_append, ← h, Rune.encode_decode]
  constructor
  · rw [offset_reach, hinput, List.drop_left]
  · exact (Rune.decode_encode_of_append (hinput ▸ h)).2

/-- A lexeme at the front of the bytes is one at the front of the runes. -/
theorem exists_takes {k : Kind} {bytes : Bytes} {r : Rune} {rest : List Rune}
    (hread : Rune.decode (Rune.encode (r :: rest)) = r :: rest) (hk : k.IsLexeme bytes)
    (hfront : bytes <+: Rune.encode (r :: rest)) :
    ∃ front, bytes = Rune.encode front ∧ Takes front k (lexeme r rest) := by
  obtain ⟨c, cs, rfl⟩ := hk.exists_chars
  obtain ⟨more, hmore⟩ := hfront
  have htext : r :: rest = (c :: cs).map .char ++ Rune.decode more := by
    rw [← hread, ← hmore, Rune.decode_encode_append]
  exact ⟨_, rfl, takes_of_isLexeme hk htext⟩

/-- **The kind that the scanner finds is the only one** that what it takes is a lexeme of. What the
scanner takes beyond such a lexeme would have bytes, and there are none left. -/
theorem kind_eq_iff {k : Kind} {r : Rune} {rest : List Rune}
    (hread : Rune.decode (Rune.encode (r :: rest)) = r :: rest)
    (herror : (lexeme r rest).kind ≠ .error) (hstring : (lexeme r rest).kind ≠ .string) :
    (lexeme r rest).kind = k ↔ k.IsLexeme (Rune.encode (lexeme r rest).runes) := by
  constructor
  · rintro rfl
    exact isLexeme_lexeme herror hstring
  · intro hk
    rcases lexeme_cases r rest with ⟨hfault, -⟩ | ⟨-, -, hfront⟩
    · exact absurd hfault herror
    have hprefix : Rune.encode (lexeme r rest).runes <+: Rune.encode (r :: rest) := by
      rw [hfront, Rune.encode_append]
      exact List.prefix_append _ _
    obtain ⟨front, hbytes, htakes⟩ := exists_takes hread hk hprefix
    obtain ⟨more, hmore⟩ := htakes.front_prefix
    have hnil : more = [] := by
      by_contra hne
      rw [← hmore, Rune.encode_append] at hbytes
      exact encode_ne_nil hne (List.append_right_eq_self.mp hbytes)
    exact htakes.kind_eq (by rw [← hmore, hnil, List.append_nil])

/-- **A token is what the scanner takes** behind layout. -/
theorem next_of_at (h : At input done s) (heof : s.next.1.kind ≠ .eof) :
    ∃ layout r rest, Rune.decode input = done ++ layout ++ r :: rest ∧
      Layout False (Rune.encode layout) ∧ isBlank r = false ∧
      s.next.1 = ⟨(lexeme r rest).kind, (lexeme r rest).value,
        (reach (done ++ layout)).upTo (reach (done ++ layout ++ (lexeme r rest).runes))⟩ := by
  rcases s.next_inv with ⟨c, -, hnext⟩ | ⟨layout, r, rest, hinput, hpass, hend, hnext⟩
  · rw [hnext] at heof
    exact absurd rfl heof
  · have hdecode := h.decode_eq
    have hproper : ∀ r' ∈ s.input, r'.Proper := by
      intro r' hr'
      have hmem : r' ∈ Rune.decode input := hdecode ▸ List.mem_append_right _ hr'
      exact Rune.proper_of_mem_decode hmem
    have hlayout := layout_splitLayout s.input hproper
    rw [hinput, hpass.splitLayout_append, hend, List.append_nil] at hlayout
    refine ⟨layout, r, rest, ?_, hlayout.mono (List.cons_ne_nil r rest),
      (not_layout_of_splitLayout hend).1, ?_⟩
    · rw [hdecode, hinput, List.append_assoc]
    · rw [hnext, h.position_eq]
      simp only [reach, Position.past_append]

/-- **A token that is no literal is the longest lexeme** at its place, and of its kind. -/
theorem longest_next (h : At input done s) (heof : s.next.1.kind ≠ .eof)
    (herror : s.next.1.kind ≠ .error) (hstring : s.next.1.kind ≠ .string) :
    s.next.1.Longest input := by
  obtain ⟨layout, r, rest, hdecode, -, -, hnext⟩ := next_of_at h heof
  rw [hnext] at herror hstring ⊢
  obtain ⟨hdrop, hread⟩ := drop_reach hdecode
  rcases lexeme_cases r rest with ⟨hk, -⟩ | ⟨-, -, hfront⟩
  · exact absurd hk herror
  have hplace : Rune.decode input =
      done ++ layout ++ (lexeme r rest).runes ++ (lexeme r rest).rest := by
    rw [hdecode, hfront, List.append_assoc _ (lexeme r rest).runes]
  have hslice := slice_reach hplace
  constructor
  · intro k bytes hk hprefix
    obtain ⟨front, rfl, htakes⟩ := exists_takes hread hk (hdrop ▸ hprefix)
    obtain ⟨more, hmore⟩ := htakes.front_prefix
    have hlen := congrArg (fun runes => (Rune.encode runes).length) hmore
    have hstop := offset_reach (done ++ layout ++ (lexeme r rest).runes)
    have hstart := offset_reach (done ++ layout)
    simp only [Rune.encode_append, List.length_append] at hlen hstop hstart
    simp only [Position.upTo]
    omega
  · intro k
    exact hslice ▸ kind_eq_iff hread herror hstring
  · intro k
    exact hslice ▸ (kind_eq_iff hread herror hstring).trans Kind.isLexeme_keyword

/-- A fault in this wording is **at a character that begins no lexeme**. -/
theorem exists_unexpected_of_next (h : At input done s) (herror : s.next.1.kind = .error)
    (hwording : utf8 "unexpected character: " <+: s.next.1.value) :
    ∃ c, Unexpected input (reach done).offset s.next.1.span.start c := by
  have heof : s.next.1.kind ≠ .eof := by
    rw [herror]
    exact Kind.noConfusion
  obtain ⟨layout, r, rest, hdecode, hlayout, hblank, hnext⟩ := next_of_at h heof
  rw [hnext] at herror hwording ⊢
  obtain ⟨c, rfl, hmark, hbegins⟩ := unexpected_iff.mp ⟨herror, hwording⟩
  refine ⟨c, ?_, ?_, ?_, hblank, hmark, hbegins⟩
  · exact (gap_of_decode hdecode hlayout False.elim).1
  · exact slice_reach hdecode ▸ hlayout
  · refine ⟨Rune.encode rest, ?_⟩
    exact (drop_reach hdecode).1.symm

/-- **A character that begins no lexeme** is a fault in this wording. It is no slash, which is a
lexeme by itself, and so no comment begins here. -/
theorem next_of_unexpected {start : Int} {c : Char} (h : At input done s)
    (hc : Unexpected input (reach done).offset start c) :
    s.next.1.kind = .error ∧ s.next.1.value = (ScanFault.unexpectedCharacter c).message ∧
      s.next.1.span.start = start := by
  obtain ⟨more, hmore⟩ := hc.character
  have hbytes := slice_append_drop input hc.offset_le
  obtain ⟨hdrop, hread⟩ := drop_reach h.decode_eq
  rw [Int.toNat_natCast, hdrop, ← hmore] at hbytes
  have hinput : s.input =
      Rune.decode (slice input (reach done).offset start) ++ .char c :: Rune.decode more := by
    rw [← hread, ← hbytes, hc.layout.decode_append, Rune.decode_utf8EncodeChar_append]
  have hslash : Rune.char c ≠ .char '/' := by
    rintro heq
    cases heq
    exact hc.not_begins ⟨.punctuator .slash, [], .punctuator .slash⟩
  have hend : splitLayout false (.char c :: Rune.decode more) = ([], .char c :: Rune.decode more) :=
    splitLayout_cons hc.not_blank fun heq => absurd heq hslash
  have hnext : s.next = next ⟨.char c :: Rune.decode more,
      s.position.past (Rune.decode (slice input (reach done).offset start))⟩ := by
    rw [← next_of_passes hc.layout.passes.1 rfl, ← hinput]
  rw [hnext]
  simp only [next, hend, lexeme_of_not_begins hc.not_mark hc.not_begins, Position.past_nil]
  refine ⟨rfl, rfl, ?_⟩
  have hlen := congrArg List.length hmore
  have hpos := List.length_pos_iff.mpr (String.utf8EncodeChar_ne_nil (c := c))
  have hle := hc.offset_le
  simp only [List.length_append, List.length_drop] at hlen
  simp only [Position.upTo, Position.offset_past, Rune.encode_decode, h.position_eq, slice,
    List.length_drop, List.length_take]
  omega

/-- **Every token is come to** where the one before it ends. A token that has another one behind it
is not the end of the input. -/
theorem exists_at_of_append (h : At input done s) {before after : List Token} {t : Token}
    (hts : s.tokens = before ++ t :: after) (hclean : ∀ u ∈ before, u.kind ≠ .error) :
    ∃ done' s', At input done' s' ∧ s'.next.1 = t ∧
      resume (reach done).offset before = (reach done').offset := by
  induction before generalizing s done with
  | nil =>
      refine ⟨done, s, h, ?_, rfl⟩
      by_cases heof : s.next.1.kind = .eof
      · rw [tokens_of_eof heof] at hts
        exact (List.cons.inj hts).1
      · rw [tokens_of_ne_eof heof] at hts
        exact (List.cons.inj hts).1
  | cons u before ih =>
      rw [List.forall_mem_cons] at hclean
      by_cases heof : s.next.1.kind = .eof
      · rw [tokens_of_eof heof] at hts
        cases before <;> cases (List.cons.inj hts).2
      · rw [tokens_of_ne_eof heof, List.cons_append, List.cons.injEq] at hts
        obtain ⟨rfl, hts⟩ := hts
        rcases next_cases h with ⟨layout, -, -, hnext⟩ | ⟨layout, runes, more, v, -, -, -, hnext⟩ |
          ⟨layout, runes, rest, k, v, hdecode, -, -, -, -, -, hnext⟩
        · rw [hnext] at heof
          exact absurd rfl heof
        · rw [hnext] at hclean
          exact absurd rfl hclean.1
        · rw [hnext] at hts ⊢
          exact ih (s := ⟨rest, reach (done ++ layout ++ runes)⟩) ⟨hdecode, rfl⟩ hts hclean.2

/-- **Longest match.** Every token that is neither a literal nor the end of the input nor a fault is
the longest lexeme at its place, and its kind is the only one that its text is a lexeme of. A token
is a fault for an unexpected character if and only if such a character stands, behind layout, where
the tokens before it end. -/
theorem longest_match (input : Bytes) :
    (∀ t ∈ (ofText input).tokens, t.kind ≠ .eof → t.kind ≠ .error → t.kind ≠ .string →
      t.Longest input) ∧
    ∀ (before after : List Token) (t : Token), (ofText input).tokens = before ++ t :: after →
      (∀ u ∈ before, u.kind ≠ .error) →
      (∀ start : Int, (t.kind = .error ∧ utf8 "unexpected character: " <+: t.value ∧
          t.span.start = start) ↔ ∃ c, Unexpected input (resume 0 before) start c) ∧
        ∀ start c, Unexpected input (resume 0 before) start c →
          t.value = (ScanFault.unexpectedCharacter c).message := by
  constructor
  · intro t ht heof herror hstring
    obtain ⟨ts, s, hgives, rfl, hts⟩ := exists_gives_of_mem ht fun h => absurd h heof
    obtain ⟨front, hinput, hposition, -⟩ := hgives.broken hts
    exact longest_next ⟨hinput, hposition⟩ heof herror hstring
  · intro before after t hts hclean
    have hat : At input [] (ofText input) := ⟨rfl, rfl⟩
    obtain ⟨done, s, h, rfl, hresume⟩ := exists_at_of_append hat hts hclean
    have hstart : resume 0 before = (reach done).offset := hresume
    rw [hstart]
    refine ⟨fun start => ⟨?_, ?_⟩, fun start c hc => (next_of_unexpected h hc).2.1⟩
    · rintro ⟨herror, hwording, rfl⟩
      exact exists_unexpected_of_next h herror hwording
    · rintro ⟨c, hc⟩
      obtain ⟨herror, hvalue, hstart⟩ := next_of_unexpected h hc
      exact ⟨herror, hvalue ▸ List.prefix_append _ _, hstart⟩

/-- A word that begins like a keyword, a number before a point, and operators without blanks. -/
def crowdedSource : Bytes :=
  utf8 "foré=1.x/==#"

/-- The tokens of it that can be scanned. -/
def crowdedTokens : List Token :=
  [⟨.identifier, utf8 "foré", ⟨1, 0, 5⟩⟩, ⟨.punctuator .equals, utf8 "=", ⟨1, 5, 6⟩⟩,
   ⟨.number, utf8 "1", ⟨1, 6, 7⟩⟩, ⟨.punctuator .dot, utf8 ".", ⟨1, 7, 8⟩⟩,
   ⟨.identifier, utf8 "x", ⟨1, 8, 9⟩⟩, ⟨.punctuator .slashEquals, utf8 "/=", ⟨1, 9, 11⟩⟩,
   ⟨.punctuator .equals, utf8 "=", ⟨1, 11, 12⟩⟩]

/-- No token can be made longer, and the character at the end begins none. -/
theorem longest_match_crowdedSource :
    (ofText crowdedSource).tokens = crowdedTokens ++
      ⟨.error, utf8 "unexpected character: '#'", ⟨1, 12, 13⟩⟩ :: [⟨.eof, [], ⟨1, 13, 13⟩⟩] ∧
    (∀ t ∈ crowdedTokens, t.Longest crowdedSource) ∧ ∃ c, Unexpected crowdedSource 12 12 c := by
  have hts : (ofText crowdedSource).tokens = crowdedTokens ++
      ⟨.error, utf8 "unexpected character: '#'", ⟨1, 12, 13⟩⟩ :: [⟨.eof, [], ⟨1, 13, 13⟩⟩] := by
    decide
  have hkinds : ∀ t ∈ crowdedTokens,
      t.kind ≠ .eof ∧ t.kind ≠ .error ∧ t.kind ≠ .string := by decide
  refine ⟨hts, fun t ht => ?_, ?_⟩
  · obtain ⟨heof, herror, hstring⟩ := hkinds t ht
    have hmem : t ∈ (ofText crowdedSource).tokens := hts ▸ List.mem_append_left _ ht
    exact (longest_match crowdedSource).1 t hmem heof herror hstring
  · obtain ⟨hiff, -⟩ := (longest_match crowdedSource).2 _ _ _ hts fun u hu => (hkinds u hu).2.1
    exact (hiff 12).mp ⟨rfl, ⟨utf8 "'#'", rfl⟩, rfl⟩

end Scanner

end ScriptFront

import ScriptFront.Proofs.Scanner.Spelling
import ScriptFront.Token.Literal

/-!
# Scanning Written Symbols

`Lexes text ss rest` says that scanning the text gives the symbols and leaves the rest, with
nothing but blanks between them. It does not mention positions, so texts can be put together piece
by piece (`Lexes.append`), and it is all that a parser sees of a text (`Lexes.reads`).

The text of a spellable symbol is scanned as that symbol **if what follows does not hold on to
it**. There are two conditions on what follows:

* `Loose`: it does not begin with the second half of an operator or of a comment. This is enough
  after an operator or delimiter (`lexes_punct`).
* `Breaks`: it also does not go on with a word or a number. This is enough after everything.
-/

namespace ScriptFront

open Text Scanner

/-! ### Scanning between blanks -/

/-- The text **from its first lexeme on**, where blanks are the only layout. -/
def Scanner.core (text : List Rune) : List Rune :=
  text.dropWhile isBlank

/-- Scanning the text **gives the symbols and leaves the rest**, up to blanks. -/
def Lexes (text : List Rune) : List Symbol → List Rune → Prop
  | [], rest => core text = core rest
  | s :: ss, rest => ∃ r more, core text = r :: more ∧
      (r = .char '/' → more.head? ≠ some (.char '/')) ∧
      (⟨(lexeme r more).kind, (lexeme r more).value, {}⟩ : Token).symbol? = some s ∧
      Lexes (lexeme r more).rest ss rest

namespace Lexes

variable {text text' rest rest' : List Rune} {ss ts : List Symbol}

/-- Blanks in front of a text do not matter. -/
theorem of_core (hcore : core text = core text') (h : Lexes text' ss rest) :
    Lexes text ss rest := by
  cases ss with
  | nil => exact hcore.trans h
  | cons s ss =>
      obtain ⟨r, more, htext, h⟩ := h
      exact ⟨r, more, hcore.trans htext, h⟩

/-- **Texts that are scanned apart can be put together.** -/
theorem append (h : Lexes text ss rest) (h' : Lexes rest ts rest') :
    Lexes text (ss ++ ts) rest' := by
  induction ss generalizing text with
  | nil => exact h'.of_core h
  | cons s ss ih =>
      obtain ⟨r, more, htext, hcomment, hs, h⟩ := h
      exact ⟨r, more, htext, hcomment, hs, ih h⟩

/-- A blank can be put in front. -/
theorem blank {r : Rune} (hr : isBlank r = true) (h : Lexes text ss rest) :
    Lexes (r :: text) ss rest :=
  h.of_core (List.dropWhile_cons_of_pos hr)

/-- One lexeme that is no layout is scanned as its symbol. -/
theorem of_lexeme {r : Rune} {more : List Rune} {s : Symbol} {x : Lexeme}
    (hblank : isBlank r = false) (hcomment : r = .char '/' → more.head? ≠ some (.char '/'))
    (hx : lexeme r more = x) (hs : (⟨x.kind, x.value, {}⟩ : Token).symbol? = some s) :
    Lexes (r :: more) [s] x.rest := by
  subst hx
  exact ⟨r, more, List.dropWhile_cons_of_neg (by simp [hblank]), hcomment, hs, rfl⟩

end Lexes

namespace Scanner

/-- The layout of a text whose first lexeme is no comment is its blanks. -/
theorem splitLayout_of_core {text : List Rune} {r : Rune} {more : List Rune}
    (h : core text = r :: more) (hcomment : r = .char '/' → more.head? ≠ some (.char '/')) :
    (splitLayout false text).2 = r :: more := by
  induction text with
  | nil => cases h
  | cons r' text ih =>
      by_cases hblank : isBlank r' = true
      · rw [core, List.dropWhile_cons_of_pos hblank] at h
        simp only [splitLayout, hblank, if_true]
        exact ih h
      · rw [core, List.dropWhile_cons_of_neg hblank] at h
        cases h
        have hnot : ¬(r = .char '/' ∧ more.head? = some (.char '/')) := fun h => hcomment h.1 h.2
        simp only [splitLayout, if_neg hblank, if_neg hnot]

/-- A text without a core is layout to its end. -/
theorem splitLayout_of_core_nil {text : List Rune} (h : core text = []) :
    (splitLayout false text).2 = [] := by
  induction text with
  | nil => rfl
  | cons r text ih =>
      by_cases hblank : isBlank r = true
      · rw [core, List.dropWhile_cons_of_pos hblank] at h
        simp only [splitLayout, hblank, if_true]
        exact ih h
      · rw [core, List.dropWhile_cons_of_neg hblank] at h
        cases h

/-- Where only blanks are left, the input is at its end. -/
theorem kind_next_of_core {s : Scanner} (h : core s.input = []) : s.next.1.kind = .eof := by
  simp only [next, splitLayout_of_core_nil h]

end Scanner

/-- **A text that is scanned as some symbols is read as those.** -/
theorem Lexes.reads {text rest : List Rune} {ss : List Symbol} (h : Lexes text ss rest)
    (position : Position) :
    ∃ s, (Cursor.start (Scanner.mk text position)).Reads ss (Cursor.start s) ∧
      core s.input = core rest := by
  induction ss generalizing text position with
  | nil => exact ⟨_, rfl, h⟩
  | cons sym ss ih =>
      obtain ⟨r, more, htext, hcomment, hs, h⟩ := h
      obtain ⟨s, hreads, hcore⟩ := ih h
        ((position.past (splitLayout false text).1).past (lexeme r more).runes)
      refine ⟨s, ?_, hcore⟩
      simp only [Cursor.reads_cons, Cursor.step, Cursor.start, TokenSource.next, next,
        splitLayout_of_core htext hcomment]
      exact ⟨hs, hreads⟩

/-! ### What may follow -/

/-- The characters that are the **second half** of an operator or of what begins a comment. -/
def secondHalves : List Char :=
  ['=', '&', '|', '/']

/-- The text does not begin with a second half. -/
def Loose (text : List Rune) : Prop :=
  ∀ c more, text = .char c :: more → c ∉ secondHalves

/-- The text **breaks off** what stands before it: an operator, a word and a number alike. -/
structure Breaks (text : List Rune) : Prop where
  loose : Loose text
  word : text.takeWhile isWordPart = []
  digits : text.takeWhile Scanner.isDigit = []
  fraction : ∀ more, text = .char '.' :: more → more.takeWhile Scanner.isDigit = []

/-- Blanks, and delimiters other than the point: what a dump has after words and numbers. -/
def breakers : List Char :=
  [' ', '\n', '(', ')', ',', ';', '\x7d']

/-- A breaker is ASCII, and it goes on with no operator, word or number. -/
theorem breakers_spec {c : Char} (h : c ∈ breakers) :
    c.toNat < 128 ∧ c ∉ secondHalves ∧ isWordPart (.char c) = false ∧
      Scanner.isDigit (.char c) = false ∧ c ≠ '.' := by
  simp only [breakers, List.mem_cons, List.not_mem_nil, or_false] at h
  rcases h with rfl | rfl | rfl | rfl | rfl | rfl | rfl
  all_goals decide

/-- A breaker breaks off what stands before it, whatever comes after it. -/
theorem breaks_cons {c : Char} (h : c ∈ breakers) (more : List Rune) :
    Breaks (.char c :: more) := by
  obtain ⟨-, hloose, hword, hdigit, hpoint⟩ := breakers_spec h
  refine ⟨?_, List.takeWhile_cons_of_neg (by simp [hword]),
    List.takeWhile_cons_of_neg (by simp [hdigit]), ?_⟩
  · rintro c' more' heq
    cases heq
    exact hloose
  · rintro more' heq
    cases heq
    exact absurd rfl hpoint

/-! ### Words -/

/-- A digit does not begin a word. -/
theorem not_isWordStart_of_isDigit {c : Char} (h : c.isDigit = true) :
    isWordStart (.char c) = false := by
  have hall : ∀ n < 58, 48 ≤ n → isWordStart (.char (Char.ofNat n)) = false := by decide
  have hc := toNat_of_isDigit h
  have hstart := hall c.toNat (by omega) hc.1
  rwa [Char.ofNat_toNat] at hstart

/-- A character that begins a word is none that does not. -/
theorem ne_of_isWordStart {c d : Char} (hc : isWordStart (.char c) = true)
    (hd : isWordStart (.char d) = false) : c ≠ d := by
  rintro rfl
  rw [hc] at hd
  cases hd

namespace Scanner

/-- A digit begins a number. -/
theorem lexeme_of_isDigit {c : Char} (h : c.isDigit = true) (rest : List Rune) :
    lexeme (.char c) rest = number (.char c :: rest) := by
  have hmark : ¬(c = '"' ∨ c = '\'') := by
    rintro (rfl | rfl) <;> cases h
  simp only [lexeme, if_neg hmark, h, if_true]

/-- A letter begins a word. -/
theorem lexeme_of_isWordStart {c : Char} (h : isWordStart (.char c) = true) (rest : List Rune) :
    lexeme (.char c) rest = word (.char c :: rest) := by
  have hmark : ¬(c = '"' ∨ c = '\'') := by
    rintro (rfl | rfl) <;> cases h
  cases hdigit : c.isDigit with
  | true =>
      rw [not_isWordStart_of_isDigit hdigit] at h
      cases h
  | false => simp only [lexeme, if_neg hmark, hdigit, h, if_true, Bool.false_eq_true, if_false]

end Scanner

/-- **A word is scanned as a whole.** -/
theorem lexes_word {bytes rest : Bytes} {s : Symbol} (hword : IsWord bytes)
    (hrest : Breaks (Rune.decode rest))
    (hs : (⟨.ofWord bytes, bytes, {}⟩ : Token).symbol? = some s) :
    Lexes (Rune.decode (bytes ++ rest)) [s] (Rune.decode rest) := by
  obtain ⟨c, cs, rfl, hc, hcs⟩ := hword
  have hparts : ∀ r ∈ (c :: cs).map Rune.char, isWordPart r = true := by
    intro r hr
    obtain ⟨c', hc', rfl⟩ := List.mem_map.mp hr
    rcases List.mem_cons.mp hc' with rfl | hc'
    · exact isWordPart_of_isWordStart hc
    · exact hcs c' hc'
  obtain ⟨htake, hdrop⟩ := span_run hparts hrest.word
  have hlexeme : lexeme (.char c) (cs.map .char ++ Rune.decode rest) =
      .plain (.ofWord (Rune.encode ((c :: cs).map .char))) ((c :: cs).map .char)
        (Rune.decode rest) := by
    rw [lexeme_of_isWordStart hc]
    simp only [word, ← List.cons_append, ← List.map_cons, htake, hdrop]
  rw [Rune.decode_encode_append, List.map_cons, List.cons_append]
  refine Lexes.of_lexeme ?_ ?_ hlexeme hs
  · have hne (d : Char) (hd : isWordStart (.char d) = false) : c ≠ d := ne_of_isWordStart hc hd
    simp [isBlank, hne ' ' rfl, hne '\t' rfl, hne '\r' rfl, hne '\n' rfl]
  · intro h
    cases h
    cases hc

/-- A name is scanned as a name. -/
theorem lexes_name {bytes rest : Bytes} (hname : IsName bytes) (hrest : Breaks (Rune.decode rest)) :
    Lexes (Rune.decode (bytes ++ rest)) [.name bytes] (Rune.decode rest) :=
  lexes_word hname.1 hrest (by rw [hname.2]; rfl)

/-- A keyword is scanned as a keyword. -/
theorem lexes_keyword (k : Keyword) {rest : Bytes} (hrest : Breaks (Rune.decode rest)) :
    Lexes (Rune.decode (k.spelling ++ rest)) [.word k] (Rune.decode rest) :=
  lexes_word k.isWord_spelling hrest (by rw [k.ofWord_spelling]; rfl)

/-! ### Numbers -/

/-- A number without a fraction ends where no digit comes, and no point with one behind it. -/
theorem number_whole {digits rest : List Rune} (hdigits : ∀ r ∈ digits, Scanner.isDigit r = true)
    (hrest : rest.takeWhile Scanner.isDigit = [])
    (hpoint : ∀ more, rest = .char '.' :: more → more.takeWhile Scanner.isDigit = []) :
    number (digits ++ rest) = .plain .number digits rest := by
  obtain ⟨htake, hdrop⟩ := span_run hdigits hrest
  simp only [number, htake, hdrop]
  split
  · next more => rw [hpoint more rfl, if_pos rfl]
  · rfl

/-- A number with a fraction ends where no digit comes. -/
theorem number_fraction {digits more rest : List Rune}
    (hdigits : ∀ r ∈ digits, Scanner.isDigit r = true)
    (hmore : ∀ r ∈ more, Scanner.isDigit r = true) (hne : more ≠ [])
    (hrest : rest.takeWhile Scanner.isDigit = []) :
    number (digits ++ .char '.' :: more ++ rest) =
      .plain .number (digits ++ .char '.' :: more) rest := by
  have hpoint : (.char '.' :: (more ++ rest)).takeWhile Scanner.isDigit = [] :=
    List.takeWhile_cons_of_neg (by decide)
  obtain ⟨htake, hdrop⟩ := span_run hdigits hpoint
  obtain ⟨htake', hdrop'⟩ := span_run hmore hrest
  simp only [List.append_assoc, List.cons_append, number, htake, hdrop, htake', hdrop', if_neg hne]

/-- **The digits of a number are scanned** up to where they are broken off. -/
theorem number_plain {whole fraction : List Char} {rest : List Rune} (hrest : Breaks rest)
    (hw : ∀ c ∈ whole, c.isDigit = true) (hf : ∀ c ∈ fraction, c.isDigit = true) :
    number ((Numeral.plain whole fraction).map .char ++ rest) =
      .plain .number ((Numeral.plain whole fraction).map .char) rest := by
  have hrunes {cs : List Char} (hcs : ∀ c ∈ cs, c.isDigit = true) :
      ∀ r ∈ cs.map Rune.char, Scanner.isDigit r = true := by
    intro r hr
    obtain ⟨c, hc, rfl⟩ := List.mem_map.mp hr
    exact hcs c hc
  rw [Numeral.plain]
  split
  · exact number_whole (hrunes hw) hrest.digits hrest.fraction
  · next hne =>
    have hne' : fraction.map Rune.char ≠ [] := fun h => hne (List.map_eq_nil_iff.mp h)
    rw [List.map_append, List.map_cons]
    exact number_fraction (hrunes hw) (hrunes hf) hne' hrest.digits

/-- Plain digits begin with a digit. -/
theorem Numeral.exists_plain_cons {whole : List Char} (hne : whole ≠ [])
    (hw : ∀ c ∈ whole, c.isDigit = true) (fraction : List Char) :
    ∃ c cs, plain whole fraction = c :: cs ∧ c.isDigit = true := by
  cases whole with
  | nil => exact absurd rfl hne
  | cons c whole =>
      have hc := hw c List.mem_cons_self
      rw [plain]
      split
      · exact ⟨c, whole, rfl, hc⟩
      · exact ⟨c, whole ++ '.' :: fraction, rfl, hc⟩

/-- **A written number is scanned as that number.** -/
theorem lexes_number {x : Binary64} {rest : Bytes} (hx : (Symbol.number x).Spellable)
    (hrest : Breaks (Rune.decode rest)) :
    Lexes (Rune.decode (Expr.numberStyle.write x ++ rest)) [.number x] (Rune.decode rest) := by
  obtain ⟨whole, fraction, hne, hw, hf, hwrite, hread⟩ := Expr.numberStyle_write hx.1 hx.2
  obtain ⟨c, cs, hcs, hc⟩ := Numeral.exists_plain_cons hne hw fraction
  have hnumber := number_plain hrest hw hf
  rw [hwrite, ← encode_map_char (lt_of_mem_plain hw hf), hcs] at hread ⊢
  rw [hcs, List.map_cons, List.cons_append] at hnumber
  rw [Rune.decode_encode_append, List.map_cons, List.cons_append]
  have hother (d : Char) (hd : d.isDigit = false) : c ≠ d := by
    rintro rfl
    rw [hc] at hd
    cases hd
  have hlexeme : lexeme (.char c) (cs.map .char ++ Rune.decode rest) =
      .plain .number ((c :: cs).map .char) (Rune.decode rest) := by
    rw [lexeme_of_isDigit hc, hnumber, List.map_cons]
  refine Lexes.of_lexeme ?_ ?_ hlexeme ?_
  · simp [isBlank, hother ' ' rfl, hother '\t' rfl, hother '\r' rfl, hother '\n' rfl]
  · intro h
    cases h
    cases hc
  · simp only [Token.symbol?, Lexeme.plain, hread, Option.map_some]

/-! ### Strings -/

namespace Literal

/-- How a character is written inside a literal. -/
def escaped (c : Char) : List Char :=
  if c = '\\' then ['\\', '\\']
  else if c = '"' then ['\\', '"']
  else if c = '\n' then ['\\', 'n']
  else if c = '\t' then ['\\', 't']
  else if c = '\r' then ['\\', 'r']
  else [c]

/-- ASCII characters can be told from their bytes. -/
theorem byte_inj {c d : Char} (hc : c.toNat < 128) (hd : d.toNat < 128) :
    byte c = byte d ↔ c = d := by
  constructor
  · intro h
    have hnat := congrArg UInt8.toNat h
    rw [toNat_byte hc, toNat_byte hd] at hnat
    exact Char.toNat_inj.mp hnat
  · rintro rfl
    rfl

/-- Bytes outside ASCII are not escaped. -/
theorem flatMap_escape_of_le {bs : Bytes} (h : ∀ b ∈ bs, 128 ≤ b.toNat) :
    bs.flatMap escape = bs := by
  induction bs with
  | nil => rfl
  | cons b bs ih =>
      have hb := h b List.mem_cons_self
      have hne (c : Char) (hc : c.toNat < 128) : b ≠ byte c := by
        rintro rfl
        rw [toNat_byte hc] at hb
        omega
      have hescape : escape b = [b] := by
        simp only [escape, if_neg (hne '\\' (by decide)), if_neg (hne '"' (by decide)),
          if_neg (hne '\n' (by decide)), if_neg (hne '\t' (by decide)),
          if_neg (hne '\r' (by decide))]
      rw [List.flatMap_cons, hescape, ih fun b' hb' => h b' (List.mem_cons_of_mem _ hb')]
      rfl

/-- Escaping the bytes of a character escapes the character. -/
theorem flatMap_escape (c : Char) :
    (String.utf8EncodeChar c).flatMap escape = Rune.encode ((escaped c).map .char) := by
  by_cases hc : c.toNat < 128
  · have hsame (d : Char) (hd : d.toNat < 128) : byte c = byte d ↔ c = d := byte_inj hc hd
    simp only [utf8EncodeChar_of_lt hc, List.flatMap_cons, List.flatMap_nil, List.append_nil,
      escape, escaped, hsame '\\' (by decide), hsame '"' (by decide), hsame '\n' (by decide),
      hsame '\t' (by decide), hsame '\r' (by decide)]
    repeat' split
    case isFalse => exact (utf8EncodeChar_of_lt hc).symm.trans (List.append_nil _).symm
    all_goals rfl
  · have hne (d : Char) (hd : d.toNat < 128) : c ≠ d := by
      rintro rfl
      exact hc hd
    have hescape := flatMap_escape_of_le fun b => le_of_mem_utf8EncodeChar (c := c) (by omega)
    simp only [hescape, escaped, if_neg (hne '\\' (by decide)), if_neg (hne '"' (by decide)),
      if_neg (hne '\n' (by decide)), if_neg (hne '\t' (by decide)), if_neg (hne '\r' (by decide))]
    exact (List.append_nil _).symm

/-- Escaping the bytes of a text escapes its characters. -/
theorem flatMap_escape_encode (cs : List Char) :
    (Rune.encode (cs.map .char)).flatMap escape =
      Rune.encode ((cs.flatMap escaped).map .char) := by
  induction cs with
  | nil => rfl
  | cons c cs ih =>
      rw [List.map_cons, Rune.encode_cons, List.flatMap_append, ih, List.flatMap_cons,
        List.map_append, Rune.encode_append, Rune.bytes, flatMap_escape]

/-- The canonical literal of a text, in characters. -/
theorem quote_encode (cs : List Char) :
    quote (Rune.encode (cs.map .char)) =
      Rune.encode (('"' :: cs.flatMap escaped ++ ['"']).map .char) := by
  rw [quote, flatMap_escape_encode, List.map_append, List.map_cons, Rune.encode_append]
  rfl

end Literal

namespace Scanner

/-- **The escapes are read back.** -/
theorem denotes_escaped (cs : List Char) :
    Denotes '"' ((cs.flatMap Literal.escaped).map .char) cs := by
  induction cs with
  | nil => exact .nil
  | cons c cs ih =>
      rw [List.flatMap_cons, List.map_append, Literal.escaped]
      repeat' split
      case isFalse hslash hmark _ _ _ => exact .plain hmark hslash ih
      all_goals
        next h =>
          subst h
          exact .escape rfl ih

/-- The mark that opened a string closes it. -/
theorem stringTail_mark (mark : Char) (rest : List Rune) :
    stringTail mark (.char mark :: rest) = ⟨.string, [], [.char mark], rest⟩ := by
  rw [stringTail.eq_def]
  simp only [if_true]

/-- A lexeme is extended at once by what it is extended by in turn. -/
theorem Lexeme.extend_extend (x : Lexeme) (runes runes' : List Rune) (denoted denoted' : Bytes) :
    (x.extend runes' denoted').extend runes denoted =
      x.extend (runes ++ runes') (denoted ++ denoted') := by
  by_cases h : x.kind = .error <;> simp [Lexeme.extend, h]

/-- **The body of a literal is passed over**, whatever becomes of the text behind it. -/
theorem stringTail_append {mark : Char} (hmark : mark ≠ '\\') {body : List Rune}
    {chars : List Char} (h : Denotes mark body chars) (text : List Rune) :
    stringTail mark (body ++ text) =
      (stringTail mark text).extend body (Rune.encode (chars.map .char)) := by
  induction h with
  | nil => simp [Lexeme.extend]
  | plain hne hslash _ ih =>
      rw [List.cons_append, stringTail.eq_def]
      simp only [if_neg hne, if_neg hslash, ih, List.map_cons, Rune.encode_cons, Rune.bytes,
        Lexeme.extend_extend, List.singleton_append]
  | escape hu _ ih =>
      simp only [List.cons_append, stringTail, if_neg hmark.symm, if_true, hu, ih, List.map_cons,
        Rune.encode_cons, Rune.bytes, Lexeme.extend_extend, List.nil_append]

/-- **The body of a string is scanned** to the characters that it denotes, by induction on the
body. -/
theorem stringTail_of_denotes {mark : Char} (hmark : mark ≠ '\\') {body rest : List Rune}
    {chars : List Char} (h : Denotes mark body chars) :
    stringTail mark (body ++ .char mark :: rest) =
      ⟨.string, Rune.encode (chars.map .char), body ++ [.char mark], rest⟩ := by
  rw [stringTail_append hmark h, stringTail_mark]
  simp [Lexeme.extend]

/-- The lexeme of a literal goes on behind what is written for its characters. -/
theorem lexeme_escaped (cs : List Char) (text : List Rune) :
    lexeme (.char '"') ((cs.flatMap Literal.escaped).map .char ++ text) =
      (stringTail '"' text).extend (.char '"' :: (cs.flatMap Literal.escaped).map .char)
        (Rune.encode (cs.map .char)) := by
  simp only [lexeme, true_or, if_true, stringTail_append (by decide) (denotes_escaped cs),
    Lexeme.extend_extend, List.singleton_append, List.nil_append]

end Scanner

/-- **A string literal is scanned as its text**, whatever follows. -/
theorem lexes_text (cs : List Char) (rest : Bytes) :
    Lexes (Rune.decode (Literal.quote (Rune.encode (cs.map .char)) ++ rest))
      [.text (Rune.encode (cs.map .char))] (Rune.decode rest) := by
  have hlexeme : lexeme (.char '"') ((cs.flatMap Literal.escaped).map .char ++
      .char '"' :: Rune.decode rest) =
      ⟨.string, Rune.encode (cs.map .char),
        .char '"' :: ((cs.flatMap Literal.escaped).map .char ++ [.char '"']),
        Rune.decode rest⟩ := by
    rw [lexeme_escaped, stringTail_mark]
    simp [Lexeme.extend]
  rw [Literal.quote_encode, Rune.decode_encode_append, List.map_append, List.append_assoc,
    List.map_cons, List.cons_append]
  refine Lexes.of_lexeme (by decide) ?_ hlexeme rfl
  intro h
  cases h

/-! ### Operators and delimiters -/

namespace Punctuator

/-- The characters of an operator or delimiter. -/
def chars (p : Punctuator) : List Char :=
  p.spelling.map fun b => Char.ofNat b.toNat

/-- The spelling of a punctuation mark consists of its characters. -/
theorem encode_chars (p : Punctuator) : p.spelling = Rune.encode (p.chars.map .char) := by
  cases p <;> rfl

/-- A punctuation mark is known by its spelling. -/
theorem ofSpelling?_spelling (p : Punctuator) : ofSpelling? p.spelling = some p := by
  cases p <;> rfl

/-- The first character begins nothing else. -/
def opens (c : Char) : Bool :=
  !isBlank (.char c) && c ≠ '"' && c ≠ '\'' && !c.isDigit && !isWordStart (.char c)

/-- An operator or delimiter has **one or two characters**. -/
theorem chars_cases (p : Punctuator) :
    ∃ c, opens c = true ∧ (p.chars = [c] ∨ ∃ d ∈ ['=', '&', '|'], p.chars = [c, d]) := by
  cases p <;> first
    | exact ⟨_, by decide, .inl rfl⟩
    | exact ⟨_, by decide, .inr ⟨_, by decide, rfl⟩⟩

end Punctuator

/-- What is known as a punctuation mark are its characters. -/
theorem Punctuator.chars_of_ofSpelling? (cs : List Char) {p : Punctuator}
    (h : ofSpelling? (Rune.encode (cs.map .char)) = some p) : p.chars = cs := by
  apply Rune.encode_char_inj
  rw [← p.encode_chars, ← spelling_of_ofSpelling? h]

namespace Scanner

/-- Where nothing else begins, an operator or delimiter does, the longest that fits. -/
theorem lexeme_of_opens {c : Char} (hc : Punctuator.opens c = true) (text : List Rune) :
    lexeme (.char c) text =
      ((double? c text).or (single? c text)).getD (.fault (.unexpectedCharacter c) [.char c]) := by
  simp only [Punctuator.opens, Bool.and_eq_true, Bool.not_eq_true', decide_eq_true_eq] at hc
  obtain ⟨⟨⟨⟨-, hdouble⟩, hsingle⟩, hdigit⟩, hstart⟩ := hc
  simp only [lexeme, hdouble, hsingle, or_self, if_false, hdigit, hstart, Bool.false_eq_true]

/-- No punctuation mark begins with a blank. -/
theorem not_isBlank_of_opens {c : Char} (hc : Punctuator.opens c = true) :
    isBlank (.char c) = false := by
  simp only [Punctuator.opens, Bool.and_eq_true, Bool.not_eq_true'] at hc
  exact hc.1.1.1.1

/-- What does not begin with a second half does not make an operator longer. -/
theorem double?_eq_none {c : Char} {text : List Rune} (h : Loose text) : double? c text = none := by
  simp only [double?]
  split
  · next d more =>
    rw [Option.map_eq_none_iff]
    cases hp : Punctuator.ofSpelling? (Rune.encode [.char c, .char d]) with
    | none => rfl
    | some p =>
        exfalso
        have hchars := Punctuator.chars_of_ofSpelling? [c, d] hp
        have hd := h d more rfl
        obtain ⟨c', -, hp' | ⟨d', hd', hp'⟩⟩ := p.chars_cases
        · rw [hp'] at hchars
          cases hchars
        · rw [hp'] at hchars
          cases hchars
          exact hd (List.mem_append_left ['/'] hd')
  · rfl

end Scanner

/-- **An operator or delimiter is scanned as such** unless a second half follows it. -/
theorem lexes_punct (p : Punctuator) {rest : Bytes} (hrest : Loose (Rune.decode rest)) :
    Lexes (Rune.decode (p.spelling ++ rest)) [.punct p] (Rune.decode rest) := by
  obtain ⟨c, hc, hp⟩ := p.chars_cases
  have hspelling := p.ofSpelling?_spelling
  have hblank := not_isBlank_of_opens hc
  rw [p.encode_chars] at hspelling ⊢
  rw [Rune.decode_encode_append]
  rcases hp with hp | ⟨d, hd, hp⟩
  · rw [hp] at hspelling ⊢
    have hx : lexeme (.char c) (Rune.decode rest) =
        .plain (.punctuator p) [.char c] (Rune.decode rest) := by
      rw [List.map_cons, List.map_nil] at hspelling
      rw [lexeme_of_opens hc, double?_eq_none hrest, single?, hspelling]
      rfl
    refine Lexes.of_lexeme hblank ?_ hx rfl
    rintro - hhead
    obtain ⟨more, hmore⟩ := List.head?_eq_some_iff.mp hhead
    exact hrest '/' more hmore (by decide)
  · rw [hp] at hspelling ⊢
    have hx : lexeme (.char c) (.char d :: Rune.decode rest) =
        .plain (.punctuator p) [.char c, .char d] (Rune.decode rest) := by
      rw [List.map_cons, List.map_cons, List.map_nil] at hspelling
      rw [lexeme_of_opens hc, double?, hspelling]
      rfl
    refine Lexes.of_lexeme hblank ?_ hx rfl
    rintro - hhead
    cases hhead
    revert hd
    decide

/-- What begins like an operator or delimiter is one. -/
theorem exists_punct_of_lexeme {c : Char} (hc : Punctuator.opens c = true) {text : List Rune}
    {s : Symbol}
    (hs : (⟨(lexeme (.char c) text).kind, (lexeme (.char c) text).value, {}⟩ : Token).symbol? =
      some s) :
    ∃ p : Punctuator, s = .punct p ∧ p.chars.head? = some c := by
  rw [lexeme_of_opens hc] at hs
  cases hdouble : double? c text with
  | some x =>
      simp only [double?] at hdouble
      split at hdouble
      · next d more =>
        obtain ⟨p, hp, rfl⟩ := Option.map_eq_some_iff.mp hdouble
        simp only [double?, hp] at hs
        cases hs
        exact ⟨p, rfl, by rw [Punctuator.chars_of_ofSpelling? [c, d] hp]; rfl⟩
      · cases hdouble
  | none =>
      rw [hdouble] at hs
      cases hsingle : single? c text with
      | some x =>
          rw [hsingle] at hs
          obtain ⟨p, hp, rfl⟩ := Option.map_eq_some_iff.mp hsingle
          cases hs
          exact ⟨p, rfl, by rw [Punctuator.chars_of_ofSpelling? [c] hp]; rfl⟩
      | none =>
          rw [hsingle] at hs
          cases hs

end ScriptFront

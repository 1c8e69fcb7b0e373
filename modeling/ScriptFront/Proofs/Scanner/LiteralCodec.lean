import ScriptFront.Proofs.Scanner.Insertion
import ScriptFront.Proofs.Scanner.Lexing
import ScriptFront.Proofs.Text.Splice

/-!
# Literals are Read Back

**The canonical literal of a text is scanned as a string with that text as its value**, whatever
comes after it, and **the literal of anything that is not a text is a fault**
(`Scanner.next_quote`).

The literal is written byte by byte and read rune by rune. Where the bytes are those of characters,
the two agree character by character (`Literal.flatMap_escape`). Where they are not, it is enough
that the first ill-formed byte stays one: what is written for the bytes behind it keeps the bytes
above ASCII and puts only bytes of ASCII in between (`Literal.first_flatMap_escape`).
-/

namespace ScriptFront

open Text

namespace Text

/-- Runes are all characters, or there is a **first ill-formed byte** among them. -/
theorem Rune.chars_or_invalid (runes : List Rune) :
    (∃ cs : List Char, runes = cs.map .char) ∨
      ∃ (cs : List Char) (b : UInt8) (more : List Rune),
        runes = cs.map .char ++ .invalid b :: more := by
  induction runes with
  | nil => exact .inl ⟨[], rfl⟩
  | cons r runes ih =>
      cases r with
      | invalid b => exact .inr ⟨[], b, runes, rfl⟩
      | char c =>
          rcases ih with ⟨cs, rfl⟩ | ⟨cs, b, more, rfl⟩
          · exact .inl ⟨c :: cs, rfl⟩
          · exact .inr ⟨c :: cs, b, more, rfl⟩

/-- A well-formed text is **made of characters**. -/
theorem exists_chars_of_wellFormed {text : Bytes} (h : wellFormed text = true) :
    ∃ cs : List Char, text = Rune.encode (cs.map .char) := by
  rcases Rune.chars_or_invalid (Rune.decode text) with ⟨cs, hruns⟩ | ⟨cs, b, more, hruns⟩
  · exact ⟨cs, by rw [← hruns, Rune.encode_decode]⟩
  · simp [wellFormed, hruns] at h

/-- A text that is not well-formed has a **first ill-formed byte**, behind characters. -/
theorem exists_invalid_of_not_wellFormed {text : Bytes} (h : wellFormed text = false) :
    ∃ (cs : List Char) (b : UInt8) (more : Bytes),
      text = Rune.encode (cs.map .char) ++ b :: more ∧ (Rune.first b more).1 = .invalid b := by
  rcases Rune.chars_or_invalid (Rune.decode text) with ⟨cs, hruns⟩ | ⟨cs, b, more, hruns⟩
  · simp [wellFormed, hruns] at h
  · have htext : text = Rune.encode (cs.map .char) ++ b :: Rune.encode more := by
      rw [← Rune.encode_decode text, hruns, Rune.encode_append]
      rfl
    refine ⟨cs, b, Rune.encode more, htext, ?_⟩
    rw [htext, Rune.decode_encode_append, Rune.decode_cons] at hruns
    exact (List.cons.inj (List.append_cancel_left hruns)).1

end Text

namespace Literal

/-- What is written for a byte of ASCII is ASCII. -/
theorem escape_ascii {b : UInt8} (hb : b.toNat < 128) (rest : Bytes) :
    ∀ b' ∈ (escape b ++ rest).head?, b'.toNat < 128 := by
  simp only [escape]
  repeat' split
  case isFalse =>
    rintro b' ⟨⟩
    exact hb
  all_goals
    rintro b' ⟨⟩
    decide

/-- **Escapes do not change the rune before them.** The bytes above ASCII at the front are kept, and
behind them there is ASCII in both texts. -/
theorem first_flatMap_escape (b : UInt8) (rest : Bytes) {text : Bytes}
    (htext : ∀ b ∈ text.head?, b.toNat < 128) :
    Rune.first b (rest.flatMap escape ++ text) = Rune.first b rest := by
  let high (b : UInt8) : Bool := 128 ≤ b.toNat
  have hhigh : ∀ b' ∈ rest.takeWhile high, 128 ≤ b'.toNat := fun b' hb' =>
    decide_eq_true_eq.mp (List.all_eq_true.mp List.all_takeWhile b' hb')
  have hlow : ∀ b' ∈ (rest.dropWhile high).head?, b'.toNat < 128 := by
    intro b' hb'
    have hnot := List.head?_dropWhile_not high rest
    rw [Option.mem_def.mp hb'] at hnot
    simpa [high] using hnot
  have hescaped : ∀ b' ∈ ((rest.dropWhile high).flatMap escape ++ text).head?, b'.toNat < 128 := by
    cases hrest : rest.dropWhile high with
    | nil => exact htext
    | cons b₀ rest₀ =>
        rw [List.flatMap_cons, List.append_assoc]
        exact escape_ascii (hlow b₀ (by rw [hrest]; rfl)) _
  calc Rune.first b (rest.flatMap escape ++ text)
      = Rune.first b (rest.takeWhile high ++ ((rest.dropWhile high).flatMap escape ++ text)) := by
        conv => lhs; rw [← List.takeWhile_append_dropWhile (p := high) (l := rest)]
        rw [List.flatMap_append, flatMap_escape_of_le hhigh, List.append_assoc]
    _ = Rune.first b (rest.takeWhile high) := Rune.first_append b _ hescaped
    _ = Rune.first b (rest.takeWhile high ++ rest.dropWhile high) :=
        (Rune.first_append b _ hlow).symm
    _ = Rune.first b rest := by rw [List.takeWhile_append_dropWhile]

end Literal

namespace Scanner

/-- The first token of a text that begins with a mark is its lexeme. -/
theorem next_of_mark {input : Bytes} {text : List Rune}
    (h : Rune.decode input = .char '"' :: text) :
    (ofText input).next.1 =
      ⟨(lexeme (.char '"') text).kind, (lexeme (.char '"') text).value,
        ⟨1, 0, (Rune.encode (lexeme (.char '"') text).runes).length⟩⟩ := by
  have hlayout : splitLayout false (.char '"' :: text) = ([], .char '"' :: text) := by
    refine splitLayout_cons (by decide) ?_
    intro hslash
    cases hslash
  have hstop (runes : List Rune) :
      (({} : Position).past runes).offset = (Rune.encode runes).length := by
    rw [Position.offset_past]
    exact Nat.zero_add _
  simp only [ofText, next, h, hlayout, Position.past_nil, Position.upTo, hstop]
  rfl

/-- **The literal of a text** is scanned as that text. -/
theorem next_quote_encode (cs : List Char) (rest : Bytes) :
    (ofText (Literal.quote (Rune.encode (cs.map .char)) ++ rest)).next.1 =
      ⟨.string, Rune.encode (cs.map .char),
        ⟨1, 0, (Literal.quote (Rune.encode (cs.map .char))).length⟩⟩ := by
  have hdecode : Rune.decode (Literal.quote (Rune.encode (cs.map .char)) ++ rest) =
      .char '"' :: ((cs.flatMap Literal.escaped).map .char ++ .char '"' :: Rune.decode rest) := by
    rw [Literal.quote_encode, Rune.decode_encode_append]
    simp
  rw [next_of_mark hdecode, lexeme_escaped, stringTail_mark, Literal.quote_encode]
  simp [Lexeme.extend]

/-- **The literal of an ill-formed text** is a fault at its first ill-formed byte. -/
theorem next_quote_invalid (cs : List Char) {b : UInt8} {more : Bytes}
    (hb : (Rune.first b more).1 = .invalid b) (rest : Bytes) :
    (ofText (Literal.quote (Rune.encode (cs.map .char) ++ b :: more) ++ rest)).next.1.kind =
        .error ∧
      (ofText (Literal.quote (Rune.encode (cs.map .char) ++ b :: more) ++ rest)).next.1.value =
        ScanFault.invalidEncoding.message := by
  have hhigh : 128 ≤ b.toNat := by
    have hproper := Rune.proper_first b more
    rwa [hb] at hproper
  have hescape : Literal.escape b = [b] := by
    have hflat := Literal.flatMap_escape_of_le (List.forall_mem_singleton.mpr hhigh)
    rwa [List.flatMap_singleton] at hflat
  have hquote : Literal.quote (Rune.encode (cs.map .char) ++ b :: more) ++ rest =
      Rune.encode (('"' :: cs.flatMap Literal.escaped).map .char) ++
        b :: (more.flatMap Literal.escape ++ byte '"' :: rest) := by
    rw [Literal.quote, List.flatMap_append, Literal.flatMap_escape_encode, List.flatMap_cons,
      hescape]
    simp [Rune.bytes, utf8EncodeChar_of_lt]
  have hmark : ∀ b' ∈ (byte '"' :: rest).head?, b'.toNat < 128 := by
    rintro b' ⟨⟩
    decide
  have hfirst := Literal.first_flatMap_escape b more hmark
  have hdecode : Rune.decode (Literal.quote (Rune.encode (cs.map .char) ++ b :: more) ++ rest) =
      .char '"' :: ((cs.flatMap Literal.escaped).map .char ++ .invalid b ::
        Rune.decode ((more.flatMap Literal.escape ++ byte '"' :: rest).drop
          (Rune.first b more).2)) := by
    rw [hquote, Rune.decode_encode_append, Rune.decode_cons, hfirst, hb]
    rfl
  rw [next_of_mark hdecode, lexeme_escaped, stringTail]
  exact ⟨rfl, rfl⟩

/-- **A codec for strings.** For any bytes and whatever comes behind it, their canonical literal is
the first token of the text. It is a string with these bytes as its value if they are well-formed,
and an error that reports the encoding if they are not. -/
theorem next_quote (value rest : Bytes) :
    (wellFormed value = true → (ofText (Literal.quote value ++ rest)).next.1 =
      ⟨.string, value, ⟨1, 0, (Literal.quote value).length⟩⟩) ∧
    (wellFormed value = false → (ofText (Literal.quote value ++ rest)).next.1.kind = .error ∧
      (ofText (Literal.quote value ++ rest)).next.1.value =
        ScanFault.invalidEncoding.message) := by
  constructor
  · intro hvalue
    obtain ⟨cs, rfl⟩ := exists_chars_of_wellFormed hvalue
    exact next_quote_encode cs rest
  · intro hvalue
    obtain ⟨cs, b, more, rfl, hb⟩ := exists_invalid_of_not_wellFormed hvalue
    exact next_quote_invalid cs hb rest

/-- A text with every character that is escaped, before something that looks like its end, and half
of a character. -/
theorem next_quote_escapes :
    (ofText (Literal.quote (utf8 "\\\"\n\t\r'é") ++ utf8 "\" x")).next.1 =
        ⟨.string, utf8 "\\\"\n\t\r'é", ⟨1, 0, 15⟩⟩ ∧
      (ofText (Literal.quote [byte '\n', 0xc3] ++ utf8 "x")).next.1.kind = .error :=
  ⟨(next_quote (utf8 "\\\"\n\t\r'é") (utf8 "\" x")).1 (by decide),
    ((next_quote [byte '\n', 0xc3] (utf8 "x")).2 (by decide)).1⟩

end Scanner

end ScriptFront

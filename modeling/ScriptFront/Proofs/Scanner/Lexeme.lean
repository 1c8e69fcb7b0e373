import ScriptFront.Proofs.Text.Encoding
import ScriptFront.Token.Source

/-!
# What a Lexeme Is

`Scanner.Scans text x` says what the scanner may make of the front of a text: a literal, a number,
a word, a punctuator, or a fault. **Every lexeme is one of these** (`Scanner.lexeme_scans`), and
nothing after that looks into the functions that cut lexemes off.

In each case the runes of the lexeme stand at the front of the text, and unless it is a fault its
rest is what comes after them.
-/

namespace ScriptFront.Scanner

open Text

/-- The **characters that the body of a literal denotes**, rune by rune. -/
inductive Denotes (mark : Char) : List Rune → List Char → Prop
  | nil : Denotes mark [] []
  | plain {c : Char} {body : List Rune} {chars : List Char} : c ≠ mark → c ≠ '\\' →
      Denotes mark body chars → Denotes mark (.char c :: body) (c :: chars)
  | escape {r : Rune} {u : Char} {body : List Rune} {chars : List Char} : unescape? r = some u →
      Denotes mark body chars → Denotes mark (.char '\\' :: r :: body) (u :: chars)

/-- The runes of a **number**: digits, and perhaps a point and more digits. -/
inductive IsNumeral : List Rune → Prop
  | whole {digits : List Rune} : digits ≠ [] → (∀ r ∈ digits, isDigit r = true) →
      IsNumeral digits
  | fraction {digits more : List Rune} : digits ≠ [] → (∀ r ∈ digits, isDigit r = true) →
      more ≠ [] → (∀ r ∈ more, isDigit r = true) → IsNumeral (digits ++ .char '.' :: more)

/-- **What the scanner makes** of the front of a text. -/
inductive Scans : List Rune → Lexeme → Prop
  | fault {runes more : List Rune} (f : ScanFault) : runes ≠ [] →
      Scans (runes ++ more) (.fault f runes)
  | string {mark : Char} {body rest : List Rune} {chars : List Char} :
      mark = '"' ∨ mark = '\'' → Denotes mark body chars →
      Scans (.char mark :: body ++ .char mark :: rest)
        ⟨.string, Rune.encode (chars.map .char), .char mark :: body ++ [.char mark], rest⟩
  | number {runes rest : List Rune} : IsNumeral runes →
      Scans (runes ++ rest) (.plain .number runes rest)
  | word {r : Rune} {runes rest : List Rune} : isWordStart r = true →
      (∀ r' ∈ runes, isWordPart r' = true) →
      Scans (r :: runes ++ rest) (.plain (.ofWord (Rune.encode (r :: runes))) (r :: runes) rest)
  | punctuator {p : Punctuator} {runes rest : List Rune} : runes ≠ [] →
      Rune.encode runes = p.spelling → Scans (runes ++ rest) (.plain (.punctuator p) runes rest)

/-- The text of a scan may be written as an equal one. -/
theorem Scans.of_eq {text text' : List Rune} {x : Lexeme} (h : text = text')
    (hscan : Scans text' x) : Scans text x := by
  rw [h]
  exact hscan

/-! ### Each kind of lexeme -/

/-- A numeral has a digit. -/
theorem IsNumeral.ne_nil {runes : List Rune} (h : IsNumeral runes) : runes ≠ [] := by
  cases h with
  | whole hne _ => exact hne
  | fraction hne => simp

/-- A word is a keyword that it spells, or an identifier. -/
theorem ofWord_cases (word : Bytes) :
    (∃ k, Kind.ofWord word = .keyword k ∧ word = k.spelling) ∨
      Kind.ofWord word = .identifier := by
  rw [Kind.ofWord]
  split
  · next k h =>
    have hfound := List.find?_some h
    exact .inl ⟨k, rfl, (decide_eq_true_eq.mp hfound).symm⟩
  · exact .inr rfl

/-- The rest of a literal is cut off at its closing mark, or it is a fault. -/
theorem stringTail_cases (mark : Char) (text : List Rune) :
    (∃ f runes more, text = runes ++ more ∧ stringTail mark text = .fault f runes) ∨
    (∃ body chars rest, text = body ++ .char mark :: rest ∧ Denotes mark body chars ∧
      stringTail mark text =
        ⟨.string, Rune.encode (chars.map .char), body ++ [.char mark], rest⟩) := by
  fun_induction stringTail mark text with
  | case1 => exact .inl ⟨_, [], [], rfl, rfl⟩
  | case2 b rest => exact .inl ⟨_, [.invalid b], rest, rfl, rfl⟩
  | case3 rest => exact .inr ⟨[], [], rest, rfl, .nil, rfl⟩
  | case4 => exact .inl ⟨_, [.char '\\'], [], rfl, rfl⟩
  | case5 r rest u hu hmark ih =>
      rcases ih with ⟨f, runes, more, rfl, heq⟩ | ⟨body, chars, rest', rfl, hden, heq⟩
      · exact .inl ⟨f, .char '\\' :: r :: runes, more, rfl, by rw [heq]; rfl⟩
      · exact .inr ⟨.char '\\' :: r :: body, u :: chars, rest', rfl, .escape hu hden,
          by rw [heq]; rfl⟩
  | case6 r rest hu hmark => exact .inl ⟨_, [.char '\\', r], rest, rfl, rfl⟩
  | case7 c rest hmark hslash ih =>
      rcases ih with ⟨f, runes, more, rfl, heq⟩ | ⟨body, chars, rest', rfl, hden, heq⟩
      · exact .inl ⟨f, .char c :: runes, more, rfl, by rw [heq]; rfl⟩
      · exact .inr ⟨.char c :: body, c :: chars, rest', rfl, .plain hmark hslash hden,
          by rw [heq]; rfl⟩

/-- A number takes a numeral from the front of the text. -/
theorem number_scans {r : Rune} {rest : List Rune} (h : isDigit r = true) :
    Scans (r :: rest) (number (r :: rest)) := by
  have hdigits : ∀ r' ∈ (r :: rest).takeWhile isDigit, isDigit r' = true :=
    fun r' hr' => List.all_eq_true.mp List.all_takeWhile r' hr'
  have hne : (r :: rest).takeWhile isDigit ≠ [] := by
    rw [List.takeWhile_cons_of_pos h]
    exact List.cons_ne_nil _ _
  have hsplit := (List.takeWhile_append_dropWhile (p := isDigit) (l := r :: rest)).symm
  rw [number]
  split
  · next tail heq =>
    rw [heq] at hsplit
    by_cases hf : tail.takeWhile isDigit = []
    · simp only [hf, if_true]
      exact .of_eq hsplit (.number (.whole hne hdigits))
    · simp only [hf, if_false]
      have hmore : ∀ r' ∈ tail.takeWhile isDigit, isDigit r' = true :=
        fun r' hr' => List.all_eq_true.mp List.all_takeWhile r' hr'
      have htail : (r :: rest).takeWhile isDigit ++ .char '.' :: tail =
          ((r :: rest).takeWhile isDigit ++ .char '.' :: tail.takeWhile isDigit)
            ++ tail.dropWhile isDigit := by
        rw [List.append_assoc, List.cons_append, List.takeWhile_append_dropWhile]
      exact .of_eq (hsplit.trans htail) (.number (.fraction hne hdigits hf hmore))
  · exact .of_eq hsplit (.number (.whole hne hdigits))

/-- A word takes word parts from the front of the text. -/
theorem word_scans {r : Rune} {rest : List Rune} (h : isWordStart r = true) :
    Scans (r :: rest) (word (r :: rest)) := by
  have hpart := isWordPart_of_isWordStart h
  have hparts : ∀ r' ∈ rest.takeWhile isWordPart, isWordPart r' = true :=
    fun r' hr' => List.all_eq_true.mp List.all_takeWhile r' hr'
  have hsplit : r :: rest = r :: rest.takeWhile isWordPart ++ rest.dropWhile isWordPart := by
    rw [List.cons_append, List.takeWhile_append_dropWhile]
  rw [word, List.takeWhile_cons_of_pos hpart, List.dropWhile_cons_of_pos hpart]
  exact .of_eq hsplit (.word h hparts)

/-- What is known as a punctuation mark is its spelling. -/
theorem spelling_of_ofSpelling? {p : Punctuator} {word : Bytes}
    (h : Punctuator.ofSpelling? word = some p) : word = p.spelling := by
  have hfound := List.find?_some h
  exact (decide_eq_true_eq.mp hfound).symm

/-- A punctuation mark of two characters takes these from the front of the text. -/
theorem double?_scans {c : Char} {rest : List Rune} {x : Lexeme} (h : double? c rest = some x) :
    Scans (.char c :: rest) x := by
  simp only [double?] at h
  split at h
  · obtain ⟨p, hp, rfl⟩ := Option.map_eq_some_iff.mp h
    exact .punctuator (List.cons_ne_nil _ _) (spelling_of_ofSpelling? hp)
  · cases h

/-- A punctuation mark of one character takes this from the front of the text. -/
theorem single?_scans {c : Char} {rest : List Rune} {x : Lexeme} (h : single? c rest = some x) :
    Scans (.char c :: rest) x := by
  obtain ⟨p, hp, rfl⟩ := Option.map_eq_some_iff.mp h
  exact .punctuator (List.cons_ne_nil _ _) (spelling_of_ofSpelling? hp)

/-- **What is cut off a text is what the scanner may make of it.** -/
theorem lexeme_scans (r : Rune) (rest : List Rune) : Scans (r :: rest) (lexeme r rest) := by
  simp only [lexeme]
  split
  · next b => exact .fault _ (List.cons_ne_nil (.invalid b) [])
  · next c =>
    split
    · next hmark =>
      rcases stringTail_cases c rest with ⟨f, runes, more, rfl, heq⟩ | ⟨body, chars, rest', rfl,
        hden, heq⟩
      · rw [heq]
        exact .fault f (List.cons_ne_nil (.char c) runes)
      · rw [heq]
        exact .string hmark hden
    · split
      · next hdigit => exact number_scans hdigit
      · split
        · next hstart => exact word_scans hstart
        · cases hd : double? c rest with
          | some x => exact double?_scans hd
          | none =>
              cases hs : single? c rest with
              | some x => exact single?_scans hs
              | none => exact .fault _ (List.cons_ne_nil (.char c) [])

end ScriptFront.Scanner

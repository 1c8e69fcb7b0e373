import ScriptFront.Proofs.Number.ReadBack
import ScriptFront.Proofs.Reading
import ScriptFront.Proofs.Scanner.Lexeme

/-!
# Spellable Symbols

Which symbols have a text: names must be words that are no keywords, strings must be well-formed,
and numbers must be finite and not negative. **Every symbol that the scanner gives is spellable**
(`Scanner.spellable_next`), and so is every symbol that is read from a text
(`Scanner.spellable_of_reads`). In particular the identifiers of a text carry names
(`Scanner.named_start`), which is what the parser relies on.
-/

namespace ScriptFront

open Text Scanner

/-! ### Words and symbols -/

/-- The bytes of a **word**: a letter or underscore, then word parts. -/
def IsWord (bytes : Bytes) : Prop :=
  ∃ (c : Char) (cs : List Char), bytes = Rune.encode ((c :: cs).map .char) ∧
    isWordStart (.char c) = true ∧ ∀ c' ∈ cs, isWordPart (.char c') = true

/-- A **name**: a word that is no keyword. -/
def IsName (bytes : Bytes) : Prop :=
  IsWord bytes ∧ Kind.ofWord bytes = .identifier

/-- The symbols that have a text. -/
def Symbol.Spellable : Symbol → Prop
  | .fixed _ => True
  | .name bytes => IsName bytes
  | .text value => ∃ cs : List Char, value = Rune.encode (cs.map .char)
  | .number x => x.isFinite = true ∧ x.isNegative = false

/-- A word has a character. -/
theorem IsWord.ne_nil {bytes : Bytes} (h : IsWord bytes) : bytes ≠ [] := by
  obtain ⟨c, cs, rfl, -⟩ := h
  simp [Rune.bytes, String.utf8EncodeChar_ne_nil]

/-- A keyword is a word. -/
theorem Keyword.isWord_spelling (k : Keyword) : IsWord k.spelling := by
  have hall (word : String) (c : Char) (cs : List Char) (hw : word.toList = c :: cs)
      (hc : isWordStart (.char c) = true) (hcs : cs.all (fun c => isWordPart (.char c)) = true) :
      IsWord (utf8 word) := by
    refine ⟨c, cs, ?_, hc, List.all_eq_true.mp hcs⟩
    rw [utf8, hw, Rune.encode, List.flatMap_map]
    rfl
  cases k <;> exact hall _ _ _ rfl rfl rfl

/-- A keyword is known by its spelling. -/
theorem Keyword.ofWord_spelling (k : Keyword) : Kind.ofWord k.spelling = .keyword k := by
  cases k <;> rfl

namespace Scanner

/-- Runes that continue a word are characters. -/
theorem exists_chars_of_isWordPart {runes : List Rune}
    (h : ∀ r ∈ runes, isWordPart r = true) : ∃ cs : List Char, runes = cs.map .char := by
  induction runes with
  | nil => exact ⟨[], rfl⟩
  | cons r rs ih =>
      obtain ⟨cs, rfl⟩ := ih fun r' hr' => h r' (List.mem_cons_of_mem _ hr')
      cases r with
      | char c => exact ⟨c :: cs, rfl⟩
      | invalid b => cases h _ List.mem_cons_self

/-- Runes that are digits are characters that are. -/
theorem exists_chars_of_isDigit {runes : List Rune} (h : ∀ r ∈ runes, isDigit r = true) :
    ∃ cs : List Char, runes = cs.map .char ∧ ∀ c ∈ cs, c.isDigit = true := by
  induction runes with
  | nil => exact ⟨[], rfl, nofun⟩
  | cons r rs ih =>
      obtain ⟨cs, rfl, hcs⟩ := ih fun r' hr' => h r' (List.mem_cons_of_mem _ hr')
      cases r with
      | char c =>
          refine ⟨c :: cs, rfl, ?_⟩
          intro c' hc'
          rcases List.mem_cons.mp hc' with rfl | hc'
          · exact h _ List.mem_cons_self
          · exact hcs c' hc'
      | invalid b => cases h _ List.mem_cons_self

/-- The text of characters of ASCII is their bytes. -/
theorem encode_map_char {cs : List Char} (h : ∀ c ∈ cs, c.toNat < 128) :
    Rune.encode (cs.map .char) = cs.map byte := by
  induction cs with
  | nil => rfl
  | cons c cs ih =>
      rw [List.map_cons, Rune.encode_cons, Rune.bytes,
        utf8EncodeChar_of_lt (h c List.mem_cons_self),
        ih fun c' hc' => h c' (List.mem_cons_of_mem _ hc')]
      rfl

/-- The digits of a number and its point are ASCII. -/
theorem lt_of_mem_plain {whole fraction : List Char} (hw : ∀ c ∈ whole, c.isDigit = true)
    (hf : ∀ c ∈ fraction, c.isDigit = true) :
    ∀ c ∈ Numeral.plain whole fraction, c.toNat < 128 := by
  intro c hc
  rcases Numeral.isDigit_or_of_mem_plain hw hf hc with h | rfl
  · have := toNat_of_isDigit h
    omega
  · decide

/-- The runes of a number are plain digits. -/
theorem IsNumeral.exists_plain {runes : List Rune} (h : IsNumeral runes) :
    ∃ whole fraction : List Char, whole ≠ [] ∧ (∀ c ∈ whole, c.isDigit = true) ∧
      (∀ c ∈ fraction, c.isDigit = true) ∧
      runes = (Numeral.plain whole fraction).map .char := by
  cases h with
  | whole hne hd =>
      obtain ⟨cs, rfl, hcs⟩ := exists_chars_of_isDigit hd
      exact ⟨cs, [], fun h => hne (by rw [h]; rfl), hcs, nofun, rfl⟩
  | fraction hne hd hne' hd' =>
      obtain ⟨cs, rfl, hcs⟩ := exists_chars_of_isDigit hd
      obtain ⟨ds, rfl, hds⟩ := exists_chars_of_isDigit hd'
      have hds' : ds ≠ [] := fun h => hne' (by rw [h]; rfl)
      refine ⟨cs, ds, fun h => hne (by rw [h]; rfl), hcs, hds, ?_⟩
      rw [Numeral.plain, if_neg hds', List.map_append, List.map_cons]

/-- A number that was scanned is finite and not negative. -/
theorem IsNumeral.finite {runes : List Rune} (h : IsNumeral runes) {x : Binary64}
    (hx : Numeral.read? (Rune.encode runes) = some x) :
    x.isFinite = true ∧ x.isNegative = false := by
  obtain ⟨whole, fraction, hne, hw, hf, rfl⟩ := h.exists_plain
  rw [encode_map_char (lt_of_mem_plain hw hf), Numeral.read?_plain hne hw hf] at hx
  exact Binary64.finite_of_ofRatio? hx

/-- Runes that make a word have the bytes of one. -/
theorem isWord_of_parts {r : Rune} {runes : List Rune} (hr : isWordStart r = true)
    (hrs : ∀ r' ∈ runes, isWordPart r' = true) : IsWord (Rune.encode (r :: runes)) := by
  obtain ⟨cs, rfl⟩ := exists_chars_of_isWordPart hrs
  cases r with
  | char c =>
      refine ⟨c, cs, rfl, hr, ?_⟩
      intro c' hc'
      exact hrs _ (List.mem_map_of_mem hc')
  | invalid b => cases hr

/-- What a lexeme stands for is spellable. -/
theorem Scans.spellable {text : List Rune} {x : Lexeme} (h : Scans text x) {span : Span}
    {s : Symbol} (hs : (⟨x.kind, x.value, span⟩ : Token).symbol? = some s) : s.Spellable := by
  cases h with
  | fault f hne => cases hs
  | string hmark hden =>
      cases hs
      exact ⟨_, rfl⟩
  | number hnum =>
      obtain ⟨y, hy, rfl⟩ := Option.map_eq_some_iff.mp hs
      exact hnum.finite hy
  | @word r runes rest hstart hparts =>
      simp only [Lexeme.plain, Token.symbol?] at hs
      rcases ofWord_cases (Rune.encode (r :: runes)) with ⟨k, hk, -⟩ | hk
      · rw [hk] at hs
        cases hs
        trivial
      · rw [hk] at hs
        cases hs
        exact ⟨isWord_of_parts hstart hparts, hk⟩
  | punctuator hne hspell =>
      cases hs
      trivial

/-! ### Reading a text -/

/-- **What a token of a text stands for is spellable.** -/
theorem spellable_next {s : Scanner} {sym : Symbol} (h : s.next.1.symbol? = some sym) :
    sym.Spellable := by
  rw [next] at h
  cases htext : (splitLayout false s.input).2 with
  | nil =>
      simp only [htext] at h
      cases h
  | cons r rest =>
      simp only [htext] at h
      exact (lexeme_scans r rest).spellable h

/-- Wherever reading a text leads, the cursor stands at the front of some text. -/
theorem exists_start_of_reads {s : Scanner} {ss : List Symbol} {c' : Cursor Scanner}
    (h : (Cursor.start s).Reads ss c') : ∃ s', c' = Cursor.start s' := by
  induction ss generalizing s with
  | nil => exact ⟨s, (Cursor.reads_nil.mp h).symm⟩
  | cons sym ss ih => exact ih h.2

/-- **Symbols that are read from a text can be spelled.** -/
theorem spellable_of_reads {s : Scanner} {ss : List Symbol} {c' : Cursor Scanner}
    (h : (Cursor.start s).Reads ss c') : ∀ sym ∈ ss, sym.Spellable := by
  induction ss generalizing s with
  | nil => exact nofun
  | cons sym ss ih => exact List.forall_mem_cons.mpr ⟨spellable_next h.1, ih h.2⟩

/-- **The identifiers of a text carry names.** -/
theorem named_start (s : Scanner) : (Cursor.start s).Named := by
  intro ss c' hr hk
  obtain ⟨s', rfl⟩ := exists_start_of_reads hr
  obtain ⟨hword, hname⟩ := spellable_next (s := s') (Parse.symbol?_name hk)
  exact ⟨hword.ne_nil, hname⟩

end Scanner

end ScriptFront

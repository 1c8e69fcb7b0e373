import ScriptFront.Proofs.Scanner.LongestMatch

/-!
# Where a Fault Ends

A fault ends right behind the rune that caused it, and **what it says depends on that rune alone**,
with one exception: an ill-formed byte behind a backslash in a literal is taken for an escape
(`Scanner.encoding_fault_iff`).

`Scanner.Faults` says which runes make up a fault, and what the fault is. All that the wording of a
fault tells about its last rune is read off that judgment (`Scanner.Faults.last`); tokens and
offsets come in only at the end.
-/

namespace ScriptFront

open Text

namespace Scanner

/-! ### The runes of a fault -/

/-- How a literal **breaks off** behind a part of its body. -/
inductive BreaksOff : ScanFault → List Rune → Prop
  | byte (b : UInt8) : BreaksOff .invalidEncoding [.invalid b]
  | missing : BreaksOff .unterminatedString []
  | missingEscape : BreaksOff .unterminatedString [.char '\\']
  | escape {r : Rune} : unescape? r = none → BreaksOff (.unknownEscape r) [.char '\\', r]

/-- The **runes of a fault**, through the one that caused it. -/
inductive Faults : ScanFault → List Rune → Prop
  | byte (b : UInt8) : Faults .invalidEncoding [.invalid b]
  | character (c : Char) : Faults (.unexpectedCharacter c) [.char c]
  | literal {mark : Char} {body tail : List Rune} {chars : List Char} {f : ScanFault} :
      mark = '"' ∨ mark = '\'' → Denotes mark body chars → BreaksOff f tail →
      Faults f (.char mark :: body ++ tail)

/-- The runes are the beginning of a literal and end in a **backslash and the rune after it**. -/
def InEscape (runes : List Rune) : Prop :=
  ∃ (mark : Char) (body : List Rune) (chars : List Char) (r : Rune),
    (mark = '"' ∨ mark = '\'') ∧ Denotes mark body chars ∧
      runes = .char mark :: body ++ [.char '\\', r]

variable {mark : Char} {body : List Rune} {chars : List Char} {f : ScanFault} {r : Rune}

/-- The body of a literal is made of characters. -/
theorem Denotes.exists_char (h : Denotes mark body chars) (hr : r ∈ body) : ∃ c, r = .char c := by
  induction h with
  | nil => cases hr
  | plain _ _ _ ih =>
      rcases List.mem_cons.mp hr with rfl | hr
      · exact ⟨_, rfl⟩
      · exact ih hr
  | @escape r' u _ _ hu _ ih =>
      rcases List.mem_cons.mp hr with rfl | hr
      · exact ⟨_, rfl⟩
      rcases List.mem_cons.mp hr with rfl | hr
      · cases r with
        | char c => exact ⟨c, rfl⟩
        | invalid b => cases hu
      · exact ih hr

/-- A backslash does not stand alone: behind the body of a literal it begins an escape. -/
theorem Denotes.not_append_backslash {chars' : List Char} (h : Denotes mark body chars) :
    ¬Denotes mark (body ++ [.char '\\']) chars' := by
  induction h generalizing chars' with
  | nil =>
      intro h'
      cases h' with
      | plain _ hslash _ => exact hslash rfl
  | @plain _ body _ _ hslash _ ih =>
      rw [List.cons_append]
      generalize body ++ [Rune.char '\\'] = more at ih ⊢
      intro h'
      cases h' with
      | plain _ _ htail => exact ih htail
      | escape _ _ => exact hslash rfl
  | escape _ _ ih =>
      intro h'
      cases h' with
      | plain _ hslash _ => exact hslash rfl
      | escape _ htail => exact ih htail

/-- An ill-formed byte right behind the body of a literal is **not part of an escape**. -/
theorem Denotes.not_inEscape (h : Denotes mark body chars) (b : UInt8) :
    ¬InEscape (.char mark :: body ++ [.invalid b]) := by
  rintro ⟨mark', body', chars', r, -, h', heq⟩
  rw [List.cons_append, List.cons_append, List.cons.injEq, Rune.char.injEq] at heq
  obtain ⟨rfl, heq⟩ := heq
  have hsplit : body ++ [.invalid b] = body' ++ [.char '\\'] ++ [r] := by
    rw [heq, List.append_assoc]
    rfl
  obtain ⟨rfl, -⟩ := List.append_inj' hsplit rfl
  exact h'.not_append_backslash h

/-! ### Every fault -/

/-- The rest of a literal is cut off at its closing mark, or it **breaks off**. -/
theorem stringTail_breaksOff (mark : Char) (text : List Rune)
    (h : (stringTail mark text).kind = .error) :
    ∃ f body chars tail more, text = body ++ tail ++ more ∧ Denotes mark body chars ∧
      BreaksOff f tail ∧ stringTail mark text = .fault f (body ++ tail) := by
  fun_induction stringTail mark text with
  | case1 => exact ⟨_, [], [], [], [], rfl, .nil, .missing, rfl⟩
  | case2 b rest => exact ⟨_, [], [], [.invalid b], rest, rfl, .nil, .byte b, rfl⟩
  | case3 => cases h
  | case4 => exact ⟨_, [], [], [.char '\\'], [], rfl, .nil, .missingEscape, rfl⟩
  | case5 r rest u hu _ ih =>
      obtain ⟨f, body, chars, tail, more, rfl, hden, hbreak, heq⟩ := ih h
      refine ⟨f, .char '\\' :: r :: body, u :: chars, tail, more, rfl, .escape hu hden, hbreak, ?_⟩
      rw [heq]
      rfl
  | case6 r rest hu _ => exact ⟨_, [], [], [.char '\\', r], rest, rfl, .nil, .escape hu, rfl⟩
  | case7 c rest hmark hslash ih =>
      obtain ⟨f, body, chars, tail, more, rfl, hden, hbreak, heq⟩ := ih h
      refine ⟨f, .char c :: body, c :: chars, tail, more, rfl, .plain hmark hslash hden, hbreak, ?_⟩
      rw [heq]
      rfl

/-- **A fault takes the runes of one**, from the front of the text. A character is unexpected only
if it begins no lexeme. -/
theorem lexeme_faults {rest : List Rune} (h : (lexeme r rest).kind = .error) :
    ∃ f runes more, r :: rest = runes ++ more ∧ Faults f runes ∧
      lexeme r rest = .fault f runes := by
  cases r with
  | invalid b => exact ⟨_, [.invalid b], rest, rfl, .byte b, rfl⟩
  | char c =>
      by_cases hmark : c = '"' ∨ c = '\''
      · simp only [lexeme, if_pos hmark] at h ⊢
        obtain ⟨f, body, chars, tail, more, rfl, hden, hbreak, heq⟩ := stringTail_breaksOff c rest h
        refine ⟨f, .char c :: body ++ tail, more, rfl, .literal hmark hden hbreak, ?_⟩
        rw [heq]
        rfl
      · have hbegins : ¬BeginsLexeme c := by
          intro hbegins
          obtain ⟨k, hk⟩ := hbegins.single
          have htakes : Takes [.char c] k (lexeme (.char c) rest) := takes_of_isLexeme hk rfl
          exact htakes.kind_ne_error h
        exact ⟨_, [.char c], rest, rfl, .character c, lexeme_of_not_begins hmark hbegins rest⟩

/-- **What a fault says about its last rune.** Either it is an ill-formed byte that is reported as
such, or a character and something else is reported, or it stands behind a backslash and is reported
as an unknown escape. A literal that is not closed has only its mark and its body, and these are
characters. -/
theorem Faults.last {runes : List Rune} (h : Faults f (runes ++ [r])) :
    ((∃ b, r = .invalid b) ∧ f = .invalidEncoding ∧ ¬InEscape (runes ++ [r])) ∨
      ((∃ c, r = .char c) ∧ f ≠ .invalidEncoding) ∨
      (f = .unknownEscape r ∧ InEscape (runes ++ [r])) := by
  have hlast (front : List Rune) {r' : Rune} (heq : front ++ [r'] = runes ++ [r]) : r' = r :=
    List.singleton_inj.mp (List.append_inj' heq rfl).2
  generalize hall : runes ++ [r] = all at h hlast ⊢
  cases h with
  | byte b =>
      obtain rfl := hlast [] rfl
      refine .inl ⟨⟨b, rfl⟩, rfl, ?_⟩
      rintro ⟨mark, body, chars, r', -, -, heq⟩
      cases heq
  | character c =>
      obtain rfl := hlast [] rfl
      exact .inr (.inl ⟨⟨c, rfl⟩, ScanFault.noConfusion⟩)
  | @literal mark body tail chars f hmark hden hbreak =>
      cases hbreak with
      | byte b =>
          obtain rfl := hlast _ rfl
          exact .inl ⟨⟨b, rfl⟩, rfl, hden.not_inEscape b⟩
      | missing =>
          have hmem : r ∈ .char mark :: body := by
            rw [List.append_nil] at hall
            rw [← hall]
            exact List.mem_append_right _ List.mem_cons_self
          refine .inr (.inl ⟨?_, ScanFault.noConfusion⟩)
          rcases List.mem_cons.mp hmem with rfl | hmem
          · exact ⟨mark, rfl⟩
          · exact hden.exists_char hmem
      | missingEscape =>
          obtain rfl := hlast _ rfl
          exact .inr (.inl ⟨⟨'\\', rfl⟩, ScanFault.noConfusion⟩)
      | @escape r' hr =>
          obtain rfl : r' = r := hlast (.char mark :: body ++ [.char '\\']) (by simp)
          exact .inr (.inr ⟨rfl, mark, body, chars, r', hmark, hden, rfl⟩)

/-- A fault takes a rune. -/
theorem Faults.ne_nil {runes : List Rune} (h : Faults f runes) : runes ≠ [] := by
  cases h with
  | byte b => exact List.cons_ne_nil _ _
  | character c => exact List.cons_ne_nil _ _
  | literal _ _ _ => exact List.cons_ne_nil _ _

end Scanner

/-- The wording tells an ill-formed byte from the other faults. It does so by its first byte, `i`
here and `u` in the other wordings. -/
theorem ScanFault.message_eq_iff {f : ScanFault} :
    f.message = invalidEncoding.message ↔ f = .invalidEncoding := by
  constructor
  · intro h
    have hfirst : f.message.head? = some (byte 'i') := by
      rw [h]
      rfl
    cases f with
    | invalidEncoding => rfl
    | unterminatedString => exact absurd hfirst (by decide)
    | unknownEscape r =>
        have hother : some (byte 'u') = some (byte 'i') := hfirst
        exact absurd hother (by decide)
    | unexpectedCharacter c =>
        have hother : some (byte 'u') = some (byte 'i') := hfirst
        exact absurd hother (by decide)
  · rintro rfl
    rfl

namespace Scanner

/-! ### Faults of a text -/

/-- Reading the text from the left, the rune **ends at the offset**. -/
def EndsAt (input : Bytes) (offset : Int) (r : Rune) : Prop :=
  ∃ before after, Rune.decode input = before ++ r :: after ∧
    ((reach (before ++ [r])).offset : Int) = offset

variable {input : Bytes} {r r' : Rune} {offset : Int}

/-- At most one rune ends at an offset. Of two fronts of the text one goes on to the other, and
between two that have the same length there are no runes. -/
theorem EndsAt.unique (h : EndsAt input offset r) (h' : EndsAt input offset r') : r = r' := by
  obtain ⟨before, after, hinput, hoffset⟩ := h
  obtain ⟨before', after', hinput', hoffset'⟩ := h'
  have hlen : (Rune.encode (before ++ [r])).length = (Rune.encode (before' ++ [r'])).length := by
    rw [← offset_reach, ← offset_reach]
    exact Int.natCast_inj.mp (hoffset.trans hoffset'.symm)
  have hfront : before ++ [r] <+: Rune.decode input := ⟨after, by rw [hinput]; simp⟩
  have hfront' : before' ++ [r'] <+: Rune.decode input := ⟨after', by rw [hinput']; simp⟩
  have hsame {front front' : List Rune} (hle : front <+: front')
      (hbytes : (Rune.encode front).length = (Rune.encode front').length) : front = front' := by
    obtain ⟨more, rfl⟩ := hle
    rw [Rune.encode_append, List.length_append] at hbytes
    have hnil : Rune.encode more = [] := List.length_eq_zero_iff.mp (by omega)
    by_cases hmore : more = []
    · rw [hmore, List.append_nil]
    · exact absurd hnil (encode_ne_nil hmore)
  have hall : before ++ [r] = before' ++ [r'] := by
    rcases List.prefix_or_prefix_of_prefix hfront hfront' with hle | hle
    · exact hsame hle hlen
    · exact (hsame hle hlen.symm).symm
  exact List.singleton_inj.mp (List.append_inj' hall rfl).2

/-- **The text of a fault** is made of its runes, and its span ends where they do. -/
theorem exists_faults {t : Token} (ht : t ∈ (ofText input).tokens) (herror : t.kind = .error) :
    ∃ f front r, Faults f (front ++ [r]) ∧ t.value = f.message ∧ EndsAt input t.span.stop r ∧
      Rune.decode (slice input t.span.start t.span.stop) = front ++ [r] := by
  have heof : t.kind ≠ .eof := by
    rw [herror]
    exact Kind.noConfusion
  obtain ⟨ts, s, hgives, rfl, hts⟩ := exists_gives_of_mem ht fun h => absurd h heof
  obtain ⟨done, hinput, hposition, -⟩ := hgives.broken hts
  obtain ⟨layout, r, rest, hdecode, -, -, hnext⟩ := next_of_at ⟨hinput, hposition⟩ heof
  rw [hnext] at herror ⊢
  obtain ⟨f, runes, more, hfront, hfaults, hlexeme⟩ := lexeme_faults herror
  rw [hlexeme]
  rw [hfront, ← List.append_assoc] at hdecode
  obtain ⟨front, last, rfl⟩ := (List.eq_nil_or_concat' runes).resolve_left hfaults.ne_nil
  refine ⟨f, front, last, hfaults, rfl, ⟨done ++ layout ++ front, more, ?_, ?_⟩, ?_⟩
  · rw [hdecode]
    simp
  · rw [List.append_assoc]
    rfl
  · have hread : Rune.decode (Rune.encode (front ++ [last]) ++ Rune.encode more) =
        front ++ [last] ++ more := by
      obtain ⟨-, hread⟩ := drop_reach ((List.append_assoc _ _ _).symm.trans hdecode.symm).symm
      rwa [Rune.encode_append] at hread
    have hslice := slice_reach hdecode
    exact hslice ▸ (Rune.decode_encode_of_append hread).1

end Scanner

/-- An error token **tells ill-formed bytes apart**: it reports one if and only if it ends in
one. -/
def Token.TellsEncoding (input : Bytes) (t : Token) : Prop :=
  ∀ r, Scanner.EndsAt input t.span.stop r →
    (t.value = ScanFault.invalidEncoding.message ↔ ∃ b, r = .invalid b)

namespace Scanner

variable {input : Bytes}

/-- **Faults of encoding.** One rune of the text ends where an error token does. The token reports
an ill-formed byte if and only if that rune is one and does not stand behind a backslash in a
literal. There it is reported as an unknown escape. -/
theorem encoding_fault_iff {t : Token} (ht : t ∈ (ofText input).tokens) (herror : t.kind = .error) :
    ∃ r, EndsAt input t.span.stop r ∧ (∀ r', EndsAt input t.span.stop r' → r' = r) ∧
      (t.value = ScanFault.invalidEncoding.message ↔
        (∃ b, r = .invalid b) ∧ ¬InEscape (Rune.decode (slice input t.span.start t.span.stop))) ∧
      ((∃ b, r = .invalid b) → InEscape (Rune.decode (slice input t.span.start t.span.stop)) →
        t.value = (ScanFault.unknownEscape r).message) := by
  obtain ⟨f, front, r, hfaults, hvalue, hends, hslice⟩ := exists_faults ht herror
  refine ⟨r, hends, fun r' hr' => hr'.unique hends, ?_⟩
  rw [hvalue, hslice, ScanFault.message_eq_iff]
  rcases hfaults.last with ⟨hbyte, rfl, hescape⟩ | ⟨⟨c, rfl⟩, hne⟩ | ⟨rfl, hescape⟩
  · exact ⟨⟨fun _ => ⟨hbyte, hescape⟩, fun _ => rfl⟩, fun _ h => absurd h hescape⟩
  · refine ⟨⟨fun h => absurd h hne, ?_⟩, ?_⟩
    · rintro ⟨⟨b, hb⟩, -⟩
      cases hb
    · rintro ⟨b, hb⟩
      cases hb
  · refine ⟨⟨?_, fun h => absurd hescape h.2⟩, fun _ _ => rfl⟩
    intro h
    cases h

/-- A literal with an ill-formed byte behind a backslash. -/
def brokenEscape : Bytes :=
  [byte '"', byte '\\', 0xff, byte '"']

/-- The ill-formed byte ends at the third byte of the text. -/
theorem endsAt_brokenEscape : EndsAt brokenEscape 3 (.invalid 0xff) :=
  ⟨[.char '"', .char '\\'], [.char '"'], by decide, by decide⟩

/-- The byte is reported as an unknown escape. -/
theorem encoding_fault_brokenEscape :
    EndsAt brokenEscape 3 (.invalid 0xff) ∧
      (ofText brokenEscape).next.1.value = (ScanFault.unknownEscape (.invalid 0xff)).message := by
  have hmem : (ofText brokenEscape).next.1 ∈ (ofText brokenEscape).tokens := by decide
  obtain ⟨r, -, hunique, -, hescape⟩ := encoding_fault_iff hmem (by decide)
  obtain rfl := hunique _ endsAt_brokenEscape
  exact ⟨endsAt_brokenEscape, hescape ⟨0xff, rfl⟩
    ⟨'"', [], [], .invalid 0xff, .inl rfl, .nil, by decide⟩⟩

/-- **Not every error token tells ill-formed bytes apart.** -/
theorem exists_not_tellsEncoding :
    ¬∀ (input : Bytes) (t : Token), t ∈ (ofText input).tokens → t.kind = .error →
      t.TellsEncoding input := by
  intro h
  have htells := h brokenEscape (ofText brokenEscape).next.1 (by decide) (by decide)
  have hvalue := (htells (.invalid 0xff) endsAt_brokenEscape).mpr ⟨0xff, rfl⟩
  exact absurd hvalue (by decide)

end Scanner

end ScriptFront

import ScriptFront.Proofs.Scanner.Relocation
import ScriptFront.Proofs.Text.Splice

/-!
# Layout makes no Difference

**Layout can be put in front of any token** (`Program.ofText_insert_layout`): blanks, and comments
behind a blank, move the tokens from there on and change nothing else, neither what the tokens are
nor what is parsed from them. The only place where layout cannot be put in is behind a text that
could not be scanned, which takes everything after it with it.

The tokens of the two texts are compared one by one. Before the place of insertion they are the
same, because the first blank breaks off the last of them where it ended anyway
(`Scanner.Gives.broken`); from there on the two scanners have the same text before them and stand at
different positions (`Scanner.next_shift`). `Beside` holds both phases.
-/

namespace ScriptFront

open Text Scanner

/-! ### Layout in bytes and in runes -/

/-- A blank byte is a blank character. -/
theorem exists_char_of_mem_blanks {b : UInt8} (h : b ∈ utf8 " \t\r\n") :
    ∃ c : Char, b = byte c ∧ c.toNat < 128 ∧ isBlank (.char c) = true := by
  have hblanks : utf8 " \t\r\n" = [' ', '\t', '\r', '\n'].map byte := rfl
  rw [hblanks] at h
  obtain ⟨c, hc, rfl⟩ := List.mem_map.mp h
  simp only [List.mem_cons, List.not_mem_nil, or_false] at hc
  rcases hc with rfl | rfl | rfl | rfl
  all_goals exact ⟨_, rfl, by decide, by decide⟩

namespace Layout

/-- A comment and its line feed are decoded apart from what stands around them. -/
theorem decode_comment (body rest : Bytes) :
    Rune.decode (utf8 "//" ++ body ++ byte '\n' :: rest) =
      .char '/' :: .char '/' :: Rune.decode body ++ .char '\n' :: Rune.decode rest := by
  have hascii : ∀ b ∈ (byte '\n' :: rest).head?, b.toNat < 128 := by
    rintro b hb
    cases hb
    decide
  show Rune.decode (byte '/' :: byte '/' :: (body ++ byte '\n' :: rest)) = _
  rw [Rune.decode_byte_cons (by decide), Rune.decode_byte_cons (by decide),
    Rune.decode_append body hascii, Rune.decode_byte_cons (by decide)]
  rfl

/-- What comes behind layout is read by itself. -/
theorem decode_append {w : Bytes} (h : Layout False w) (rest : Bytes) :
    Rune.decode (w ++ rest) = Rune.decode w ++ Rune.decode rest := by
  induction h with
  | nil => rfl
  | blank hb _ ih =>
      obtain ⟨c, rfl, hc, -⟩ := exists_char_of_mem_blanks hb
      rw [List.cons_append, Rune.decode_byte_cons hc, Rune.decode_byte_cons hc, ih,
        List.cons_append]
  | @comment body more _ _ ih =>
      have h := decode_comment body (more ++ rest)
      rw [ih] at h
      rw [List.append_assoc, List.cons_append, h, decode_comment]
      simp
  | last h _ => exact h.elim

/-- A comment lasts until a line feed. -/
theorem passes_body {body : Bytes} (h : byte '\n' ∉ body) :
    Passes true (Rune.decode body) true := by
  have hmem : .char '\n' ∉ Rune.decode body := by
    rw [← Rune.encode_decode body, Rune.mem_encode_iff (fun r => Rune.proper_of_mem_decode)
      (by decide)] at h
    exact h
  generalize Rune.decode body = runes at hmem
  induction runes with
  | nil => exact .nil
  | cons r runes ih =>
      rw [List.mem_cons, not_or] at hmem
      refine .inside ?_
      rw [decide_eq_true (Ne.symm hmem.1)]
      exact ih hmem.2

/-- **Layout is passed** whether the scanner comes to it in a comment or not. -/
theorem passes {w : Bytes} (h : Layout False w) :
    Passes false (Rune.decode w) false ∧ ∃ c, Passes true (Rune.decode w) c := by
  induction h with
  | nil => exact ⟨.nil, true, .nil⟩
  | @blank b rest hb _ ih =>
      obtain ⟨c, rfl, hc, hblank⟩ := exists_char_of_mem_blanks hb
      rw [Rune.decode_byte_cons hc]
      refine ⟨.blank hblank ih.1, ?_⟩
      by_cases hnl : Rune.char c = .char '\n'
      · exact ⟨false, .inside (by simpa [hnl] using ih.1)⟩
      · obtain ⟨c', hpass⟩ := ih.2
        exact ⟨c', .inside (by simpa [hnl] using hpass)⟩
  | @comment body rest hbody _ ih =>
      rw [decode_comment]
      have hline : Passes true (Rune.decode body ++ .char '\n' :: Rune.decode rest) false :=
        (passes_body hbody).append (.inside ih.1)
      exact ⟨.slashes hline, false, .inside (.inside hline)⟩
  | last h _ => exact h.elim

end Layout

/-! ### Two texts side by side -/

/-- Spans that start at `b` or behind it so many lines and bytes further on, and the others where
they are. -/
def Span.shiftFrom (b : Int) (lines bytes : Nat) (s : Span) : Span :=
  if b ≤ s.start then s.shift lines bytes else s

namespace Scanner

/-- **Two scanners side by side**: what the first gives before the offset `b`, the second gives at
the same place, and what it gives from there on, so many lines and bytes further on. -/
inductive Beside (b : Int) (lines bytes : Nat) : Scanner → Scanner → Prop
  | before {s s' : Scanner} : s'.next.1 = s.next.1 → s.next.1.span.start < b →
      Beside b lines bytes s.next.2 s'.next.2 → Beside b lines bytes s s'
  | behind {s s' : Scanner} : b ≤ s.next.1.span.start →
      s'.next = (s.next.1.relocate (.shift lines bytes), s.next.2.shift lines bytes) →
      Beside b lines bytes s s'

/-- A token starts behind the layout in front of it. -/
theorem start_next (s : Scanner) :
    s.next.1.span.start = (s.position.past (splitLayout false s.input).1).offset := by
  cases htext : (splitLayout false s.input).2 with
  | nil => simp only [next, htext, Position.upTo]
  | cons r rest => simp only [next, htext, Position.upTo]

/-- **Positions only go up**, and by at least a byte over a token. -/
theorem next_offsets (s : Scanner) :
    s.position.offset ≤ s.next.1.span.start ∧ s.next.1.span.start ≤ s.next.2.position.offset ∧
      (s.next.1.kind ≠ .eof → s.next.1.span.start < s.next.2.position.offset) := by
  have hstart := Position.offset_past s.position (splitLayout false s.input).1
  cases htext : (splitLayout false s.input).2 with
  | nil =>
      simp only [next, htext, Position.upTo]
      exact ⟨by omega, Int.le_refl _, fun h => absurd rfl h⟩
  | cons r rest =>
      have hstop := Position.offset_past (s.position.past (splitLayout false s.input).1)
        (lexeme r rest).runes
      have hne : (lexeme r rest).runes ≠ [] := by
        rcases (lexeme_scans r rest).cases with ⟨f, runes, _, hne, -, hx⟩ | ⟨hne, -⟩
        · rw [hx]
          exact hne
        · exact hne
      have hpos := List.length_pos_iff.mpr (encode_ne_nil hne)
      simp only [next, htext, Position.upTo]
      exact ⟨by omega, by omega, fun _ => by omega⟩

/-- **Scanners side by side stay so.** -/
theorem follows_beside (b : Int) (lines bytes : Nat) (ts : List Token) :
    Follows (.shiftFrom b lines bytes) (· ∈ ts)
      fun s s' : Scanner => Beside b lines bytes s s' ∧ s.tokens ⊆ ts := by
  constructor
  · rintro s s' ⟨-, hts⟩
    exact hts s.mem_tokens_next
  · rintro s s' ⟨h, -⟩
    show s'.next.1 = { s.next.1 with span := s.next.1.span.shiftFrom b lines bytes }
    cases h with
    | before htoken hlt _ =>
        rw [htoken, Span.shiftFrom, if_neg (by omega)]
    | behind hle hnext =>
        rw [hnext, Span.shiftFrom, if_pos hle]
        rfl
  · rintro s s' ⟨h, hts⟩
    refine ⟨?_, fun t ht => hts (s.tokens_next_subset ht)⟩
    show Beside b lines bytes s.next.2 s'.next.2
    cases h with
    | before _ _ hrest => exact hrest
    | behind hle hnext =>
        have hgo := s.next_offsets.2.1
        have hgo' := s.next.2.next_offsets.1
        rw [hnext]
        exact .behind (by omega) (next_shift lines bytes s.next.2)

/-- Scanners that give the same tokens up to the offset are side by side if they are so from there
on. -/
theorem Gives.beside {b : Int} {lines bytes : Nat} {s s' e e' : Scanner} {ts : List Token}
    (h : s.Gives ts e) (h' : s'.Gives ts e') (hts : ∀ t ∈ ts, t.kind ≠ .error ∧ t.kind ≠ .eof)
    (hb : e.position.offset ≤ b) (hend : Beside b lines bytes e e') :
    Beside b lines bytes s s' := by
  induction ts generalizing s s' with
  | nil =>
      obtain rfl : s = e := h
      obtain rfl : s' = e' := h'
      exact hend
  | cons t ts ih =>
      obtain ⟨rfl, h⟩ := h
      obtain ⟨htoken, h'⟩ := h'
      obtain ⟨hkind, hts⟩ := List.forall_mem_cons.mp hts
      obtain ⟨front, -, hposition, -⟩ := h.broken hts
      have hlt := s.next_offsets.2.2 hkind.2
      have hle := Position.offset_past s.next.2.position front
      rw [← hposition] at hle
      exact .before htoken (by omega) (ih h h' hts)

/-! ### The place of a token -/

/-- **Every token is come to** over tokens that could be scanned, except for the end of the input
after a fault. -/
theorem exists_gives_of_mem {s : Scanner} {t : Token} (ht : t ∈ s.tokens)
    (heof : t.kind = .eof → ∀ u ∈ s.tokens, u.kind ≠ .error) :
    ∃ ts e, s.Gives ts e ∧ e.next.1 = t ∧ ∀ u ∈ ts, u.kind ≠ .error ∧ u.kind ≠ .eof := by
  induction s using tokens_induction with
  | eof s hend =>
      rw [tokens_of_eof hend, List.mem_singleton] at ht
      exact ⟨[], s, rfl, ht.symm, nofun⟩
  | token s hne ih =>
      rw [tokens_of_ne_eof hne] at ht heof
      rcases List.mem_cons.mp ht with rfl | ht
      · exact ⟨[], s, rfl, rfl, nofun⟩
      · have hkind : s.next.1.kind ≠ .error := by
          intro hk
          have hempty : s.next.2.next.1.kind = .eof := by
            rw [next, input_of_error hk]
            rfl
          rw [tokens_of_eof hempty, List.mem_singleton] at ht
          exact heof (by rw [ht, hempty]) _ List.mem_cons_self hk
        obtain ⟨ts, e, hgives, he, hts⟩ :=
          ih ht fun hk u hu => heof hk u (List.mem_cons_of_mem _ hu)
        exact ⟨s.next.1 :: ts, e, ⟨rfl, hgives⟩, he, List.forall_mem_cons.mpr ⟨⟨hkind, hne⟩, hts⟩⟩

/-- **Layout in front of a token** leaves the scanner beside the one it was: the text is divided
where the token starts, and what is put in there only shifts the rest. If the text ends in a
comment, the comment goes on in what is put in at its end. -/
theorem exists_beside {s : Scanner} {t : Token} (ht : t ∈ s.tokens)
    (heof : t.kind = .eof → ∀ u ∈ s.tokens, u.kind ≠ .error) :
    ∃ before behind, s.input = before ++ behind ∧
      t.span.start = (s.position.past before).offset ∧
      ∀ r w, isBlank r = true → Passes false (r :: w) false → (∃ c, Passes true (r :: w) c) →
        (∀ r' ∈ r :: w, r'.Proper) →
        Beside t.span.start ((Rune.encode (r :: w)).count (byte '\n'))
          (Rune.encode (r :: w)).length s ⟨before ++ (r :: w ++ behind), s.position⟩ := by
  obtain ⟨ts, e, hgives, rfl, hts⟩ := exists_gives_of_mem ht heof
  obtain ⟨front, hinput, hposition, hfront⟩ := hgives.broken hts
  obtain ⟨layout, text, c, hrest, hpass, hend, hnext⟩ := e.exists_layout
  have hstart : e.next.1.span.start = (e.position.past layout).offset := by
    rw [hnext, start_next, ← splitLayout_eq_of_nil hend, hend]
    rfl
  refine ⟨front ++ layout, text, ?_, ?_, fun r w hr hw hw' hproper => ?_⟩
  · rw [hinput, hrest, List.append_assoc]
  · rw [hstart, hposition, Position.past_append]
  · have hbroken : Broken e.input (layout ++ (r :: w ++ text)) := by
      rw [hrest]
      exact (Broken.blank hr).append layout
    have hgives' := hfront _ hbroken
    rw [List.append_assoc]
    refine hgives.beside hgives' hts e.next_offsets.1 (.behind (Int.le_refl _) ?_)
    obtain ⟨c', hw'', hsame⟩ : ∃ c', Passes c (r :: w) c' ∧
        splitLayout c' text = splitLayout false text := by
      cases text with
      | nil =>
          cases c with
          | false => exact ⟨false, hw, rfl⟩
          | true =>
              obtain ⟨c', hw'⟩ := hw'
              exact ⟨c', hw', by cases c' <;> rfl⟩
      | cons r' rest =>
          obtain rfl := not_inComment hend
          exact ⟨false, hw, rfl⟩
    calc next ⟨layout ++ (r :: w ++ text), e.position⟩
        = next ⟨text, (e.position.past layout).past (r :: w)⟩ := by
          rw [← List.append_assoc, next_of_passes (hpass.append hw'') hsame, Position.past_append]
      _ = next (Scanner.shift _ _ ⟨text, e.position.past layout⟩) := by
          rw [Position.past_eq_shift _ hproper]
          rfl
      _ = _ := by rw [next_shift, ← hnext]

end Scanner

/-! ### Layout in a source text -/

/-- Layout that begins with a blank can be put in wherever reading the text has got to. -/
theorem Layout.decode_insert {b : UInt8} {w : Bytes} (hb : b ∈ utf8 " \t\r\n")
    (hw : Layout False (b :: w)) {before behind : List Rune}
    (h : Rune.decode (Rune.encode before ++ Rune.encode behind) = before ++ behind) :
    Rune.decode (Rune.encode before ++ b :: w ++ Rune.encode behind) =
      before ++ (Rune.decode (b :: w) ++ behind) := by
  obtain ⟨hbefore, hbehind⟩ := Rune.decode_encode_of_append h
  have hascii : ∀ b' ∈ (b :: w ++ Rune.encode behind).head?, b'.toNat < 128 := by
    obtain ⟨c, rfl, hc, -⟩ := exists_char_of_mem_blanks hb
    rintro b' hb'
    cases hb'
    rwa [toNat_byte hc]
  rw [List.append_assoc, Rune.decode_append _ hascii, hw.decode_append, hbefore, hbehind]

/-- **Layout in front of a token of a text** leaves its scanner beside the one it was. -/
theorem Scanner.beside_insert_layout {source w : Bytes} {t : Token}
    (ht : t ∈ (ofText source).tokens)
    (heof : t.kind = .eof → ∀ u ∈ (ofText source).tokens, u.kind ≠ .error)
    (hw : Layout False w) (hblank : ∃ b ∈ utf8 " \t\r\n", w.head? = some b) :
    Beside t.span.start.toNat (w.count (byte '\n')) w.length (ofText source)
      (ofText (source.take t.span.start.toNat ++ w ++ source.drop t.span.start.toNat)) := by
  obtain ⟨before, behind, hinput, hstart, hbeside⟩ := exists_beside ht heof
  obtain ⟨b, hb, hhead⟩ := hblank
  obtain ⟨w, rfl⟩ := List.head?_eq_some_iff.mp hhead
  have hdecode : Rune.decode source = before ++ behind := hinput
  have hsource : source = Rune.encode before ++ Rune.encode behind := by
    rw [← Rune.encode_append, ← hdecode, Rune.encode_decode]
  have hplace : t.span.start.toNat = (Rune.encode before).length := by
    rw [hstart, Int.toNat_natCast]
    exact offset_reach before
  have htake : source.take t.span.start.toNat = Rune.encode before := by
    rw [hplace, hsource, List.take_left]
  have hdrop : source.drop t.span.start.toNat = Rune.encode behind := by
    rw [hplace, hsource, List.drop_left]
  have hcast : (t.span.start.toNat : Int) = t.span.start := by
    rw [hstart, Int.toNat_natCast]
  have hinsert := hw.decode_insert hb (hsource ▸ hdecode)
  obtain ⟨c, rfl, hc, hc'⟩ := exists_char_of_mem_blanks hb
  have hpasses := hw.passes
  have hproper : ∀ r ∈ Rune.decode (byte c :: w), r.Proper := fun r => Rune.proper_of_mem_decode
  have hbytes : Rune.encode (Rune.decode (byte c :: w)) = byte c :: w := Rune.encode_decode _
  rw [Rune.decode_byte_cons hc] at hinsert hpasses hproper hbytes
  have hside := hbeside _ _ hc' hpasses.1 hpasses.2 hproper
  rw [hbytes] at hside
  rw [htake, hdrop, hcast]
  show Beside _ _ _ _ (Scanner.mk (Rune.decode _) {})
  rw [hinsert]
  exact hside

namespace Program

/-- **Layout makes no difference.** Where layout that begins with a blank is put in front of a token
that is not the end of the input after a fault, the tokens from there on are shifted by its bytes
and its line feeds. The text is parsed to the same program, or it ends in a fault of the same cause
at the same token. -/
theorem ofText_insert_layout {source w : Bytes} {t : Token}
    (ht : t ∈ (Scanner.ofText source).tokens)
    (heof : t.kind = .eof → ∀ u ∈ (Scanner.ofText source).tokens, u.kind ≠ .error)
    (hw : Layout False w) (hblank : ∃ b ∈ utf8 " \t\r\n", w.head? = some b) (setting : Int) :
    let b := t.span.start.toNat
    let source' := source.take b ++ w ++ source.drop b
    let moved := Span.shiftFrom b (w.count (byte '\n')) w.length
    (Scanner.ofText source').tokens = (Scanner.ofText source).tokens.map (Token.relocate moved) ∧
      (∀ p, ofText setting source = .ok p → ofText setting source' = .ok p) ∧
      ∀ f, ofText setting source = .error f →
        ∃ u ∈ (Scanner.ofText source).tokens, f.span = u.span ∧
          ofText setting source' = .error ⟨f.cause, (u.relocate moved).span⟩ := by
  intro b source' moved
  have hfollows := follows_beside b (w.count (byte '\n')) w.length (Scanner.ofText source).tokens
  have hbeside := Scanner.beside_insert_layout ht heof hw hblank
  have hrelated := And.intro hbeside (List.Subset.refl (Scanner.ofText source).tokens)
  obtain ⟨hparse, hfault⟩ := ofTokens_relocate hfollows hrelated setting
  refine ⟨Scanner.tokens_relocate hfollows hrelated, ?_, ?_⟩
  · intro p (hp : ofTokens setting (Scanner.ofText source) = .ok p)
    rw [hp] at hparse
    exact hparse
  · intro f (hf : ofTokens setting (Scanner.ofText source) = .error f)
    obtain ⟨u, hu, hspan⟩ := hfault f hf
    rw [hf] at hparse
    refine ⟨u, hu, hspan, hparse.trans ?_⟩
    show Except.error (f.relocate moved) = .error ⟨f.cause, moved u.span⟩
    rw [← hspan]
    rfl

/-- A number with a point behind it that is no part of it, and an operator without an operand. -/
def pointSource : Bytes :=
  utf8 "1.a = /2"

/-- A comment between the number and the point. The point is still no part of the number, and the
fault of the operator moves to the next line. -/
theorem ofText_insert_layout_pointSource :
    ⟨.punctuator .dot, utf8 ".", ⟨1, 1, 2⟩⟩ ∈ (Scanner.ofText pointSource).tokens ∧
      Layout False (utf8 "\t// é\n") ∧
      ofText 4 pointSource = .error ⟨.expectedExpression, ⟨1, 6, 7⟩⟩ ∧
      ofText 4 (utf8 "1\t// é\n.a = /2") = .error ⟨.expectedExpression, ⟨2, 13, 14⟩⟩ := by
  have hpoint : ⟨.punctuator .dot, utf8 ".", ⟨1, 1, 2⟩⟩ ∈ (Scanner.ofText pointSource).tokens := by
    decide
  have hlayout : Layout False (utf8 "\t// é\n") := by
    show Layout False (byte '\t' :: (utf8 "//" ++ utf8 " é" ++ byte '\n' :: []))
    exact .blank (by decide) (.comment (by decide) .nil)
  have hfault : ofText 4 pointSource = .error ⟨.expectedExpression, ⟨1, 6, 7⟩⟩ := by rfl
  have hinsert := (ofText_insert_layout hpoint nofun hlayout ⟨byte '\t', by decide, rfl⟩ 4).2.2
  obtain ⟨u, -, hspan, hmoved⟩ := hinsert _ hfault
  refine ⟨hpoint, hlayout, hfault, hmoved.trans ?_⟩
  rw [Token.relocate, ← hspan]
  rfl

end Program

end ScriptFront

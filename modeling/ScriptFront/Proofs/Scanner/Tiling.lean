import ScriptFront.Proofs.Scanner.Lexeme

/-!
# Tokens Tile their Text

The tokens of a text and the layout between them **divide it without gaps or overlaps**. The
statement (`Tiles`) is about bytes: spans are ordered, what lies between two of them is blanks and
comments, the line of a token is the number of line feeds before it, and the value of a token is
what its bytes spell.

The scanner works on runes. What connects the two is one invariant of a scanner, `Scanner.At`: the
runes passed so far and the ones to come make up the text, and the position is the one right after
the runes passed. `Scanner.next_cases` says what one token does to it, and the tiling follows by
induction on the tokens.
-/

namespace ScriptFront

open Text

/-! ### Layout and literals in bytes -/

/-- **Layout**: blanks, and comments from two slashes through the end of their line. A comment
without a line feed must be the end of the text. -/
inductive Layout (atEnd : Prop) : Bytes → Prop
  | nil : Layout atEnd []
  | blank {b : UInt8} {rest : Bytes} : b ∈ utf8 " \t\r\n" → Layout atEnd rest →
      Layout atEnd (b :: rest)
  | comment {body rest : Bytes} : byte '\n' ∉ body → Layout atEnd rest →
      Layout atEnd (utf8 "//" ++ body ++ byte '\n' :: rest)
  | last {body : Bytes} : atEnd → byte '\n' ∉ body → Layout atEnd (utf8 "//" ++ body)

namespace Literal

/-- The escapes of a literal: the byte after the backslash, and the byte they stand for. -/
def escapes : List (UInt8 × UInt8) :=
  [(byte 'n', byte '\n'), (byte 't', byte '\t'), (byte 'r', byte '\r'), (byte '\\', byte '\\'),
   (byte '"', byte '"'), (byte '\'', byte '\'')]

/-- The value of the **body of a literal**, byte by byte. -/
inductive Unescapes (mark : UInt8) : Bytes → Bytes → Prop
  | nil : Unescapes mark [] []
  | plain {b : UInt8} {body value : Bytes} : b ≠ mark → b ≠ byte '\\' →
      Unescapes mark body value → Unescapes mark (b :: body) (b :: value)
  | escape {b v : UInt8} {body value : Bytes} : (b, v) ∈ escapes → Unescapes mark body value →
      Unescapes mark (byte '\\' :: b :: body) (v :: value)

/-- **One quoted literal** and its value: a mark, a body without that mark, and the mark. -/
def Quotes (text value : Bytes) : Prop :=
  ∃ mark ∈ [byte '"', byte '\''], ∃ body, text = mark :: body ++ [mark] ∧
    Unescapes mark body value

/-- Bytes that are neither the mark nor a backslash stand for themselves. -/
theorem Unescapes.append {mark : UInt8} {bs body value : Bytes} (hmark : mark ∉ bs)
    (hslash : byte '\\' ∉ bs) (h : Unescapes mark body value) :
    Unescapes mark (bs ++ body) (bs ++ value) := by
  induction bs with
  | nil => exact h
  | cons b bs ih =>
      rw [List.mem_cons, not_or] at hmark hslash
      exact .plain (Ne.symm hmark.1) (Ne.symm hslash.1) (ih hmark.2 hslash.2)

end Literal

/-- What a token of this kind **spells** and what its value says. -/
def Kind.Spells (k : Kind) (text value : Bytes) : Prop :=
  match k with
  | .identifier | .number => value = text
  | .keyword _ | .punctuator _ => value = text ∧ value = k.name
  | .string => Literal.Quotes text value
  | .eof => text = []
  | .error => True
  | .other _ => False

namespace Scanner

/-! ### Lexemes in bytes -/

/-- A rune that may be escaped and what it stands for are ASCII, and one of the escapes. -/
theorem escape_of_unescape? {r : Rune} {u : Char} (h : unescape? r = some u) :
    ∃ b v, r.bytes = [b] ∧ String.utf8EncodeChar u = [v] ∧ (b, v) ∈ Literal.escapes := by
  simp only [unescape?] at h
  split at h <;> cases h <;> exact ⟨_, _, rfl, rfl, by decide⟩

/-- A literal in runes is a literal in bytes. -/
theorem Denotes.unescapes {mark : Char} (hm : mark.toNat < 128) {body : List Rune}
    {chars : List Char} (h : Denotes mark body chars) :
    Literal.Unescapes (byte mark) (Rune.encode body) (Rune.encode (chars.map .char)) := by
  induction h with
  | nil => exact .nil
  | @plain c body chars hmark hslash _ ih =>
      have hproper : (Rune.char c).Proper := trivial
      refine Literal.Unescapes.append ?_ ?_ ih
      · intro hmem
        exact hmark (Rune.char.inj ((Rune.mem_bytes_iff hproper hm).mp hmem))
      · intro hmem
        exact hslash (Rune.char.inj ((Rune.mem_bytes_iff hproper (by decide)).mp hmem))
  | escape hu _ ih =>
      obtain ⟨b, v, hb, hv, hmem⟩ := escape_of_unescape? hu
      rw [Rune.encode_cons, Rune.encode_cons, List.map_cons, Rune.encode_cons, hb, Rune.bytes,
        Rune.bytes, hv]
      exact .escape hmem ih

/-- **A lexeme stands at the front of the text.** It is a fault, or its rest is what follows and
its value is what its bytes spell. -/
theorem Scans.cases {text : List Rune} {x : Lexeme} (h : Scans text x) :
    (∃ f runes more, runes ≠ [] ∧ text = runes ++ more ∧ x = .fault f runes) ∨
      (x.runes ≠ [] ∧ text = x.runes ++ x.rest ∧ x.kind ≠ .error ∧ x.kind ≠ .eof ∧
        x.kind.Spells (Rune.encode x.runes) x.value) := by
  cases h with
  | fault f hne => exact .inl ⟨f, _, _, hne, rfl, rfl⟩
  | @string mark body rest chars hmark hden =>
      have hm : mark.toNat < 128 ∧ byte mark ∈ [byte '"', byte '\''] := by
        rcases hmark with rfl | rfl <;> decide
      refine .inr ⟨List.cons_ne_nil _ _, by simp, Kind.noConfusion, Kind.noConfusion, byte mark,
        hm.2, Rune.encode body, ?_, hden.unescapes hm.1⟩
      simp [Rune.bytes, utf8EncodeChar_of_lt hm.1]
  | number hnum => exact .inr ⟨hnum.ne_nil, rfl, Kind.noConfusion, Kind.noConfusion, rfl⟩
  | @word r runes rest hstart hparts =>
      refine .inr ⟨List.cons_ne_nil _ _, rfl, ?_⟩
      simp only [Lexeme.plain]
      rcases ofWord_cases (Rune.encode (r :: runes)) with ⟨k, hk, hspell⟩ | hk
      · rw [hk]
        exact ⟨Kind.noConfusion, Kind.noConfusion, rfl, hspell⟩
      · rw [hk]
        exact ⟨Kind.noConfusion, Kind.noConfusion, rfl⟩
  | punctuator hne hspell => exact .inr ⟨hne, rfl, Kind.noConfusion, Kind.noConfusion, rfl, hspell⟩

/-! ### Layout -/

/-- Two slashes begin a comment. -/
theorem splitLayout_slashes (text : List Rune) :
    splitLayout false (.char '/' :: .char '/' :: text) =
      (.char '/' :: .char '/' :: (splitLayout true text).1, (splitLayout true text).2) := by
  simp [splitLayout, isBlank]

/-- A comment without a line feed takes the whole text. -/
theorem splitLayout_of_not_mem {text : List Rune} (h : .char '\n' ∉ text) :
    splitLayout true text = (text, []) := by
  induction text with
  | nil => rfl
  | cons r rest ih =>
      rw [List.mem_cons, not_or] at h
      simp only [splitLayout, decide_eq_true (Ne.symm h.1), ih h.2]

/-- A comment runs through the first line feed. -/
theorem splitLayout_of_newline {body rest : List Rune} (h : .char '\n' ∉ body) :
    splitLayout true (body ++ .char '\n' :: rest) =
      (body ++ .char '\n' :: (splitLayout false rest).1, (splitLayout false rest).2) := by
  induction body with
  | nil => rfl
  | cons r body ih =>
      rw [List.mem_cons, not_or] at h
      simp only [List.cons_append, splitLayout, decide_eq_true (Ne.symm h.1), ih h.2]

/-- A blank rune is one of the blank bytes. -/
theorem bytes_of_isBlank {r : Rune} (h : isBlank r = true) :
    ∃ b ∈ utf8 " \t\r\n", r.bytes = [b] := by
  simp only [isBlank, Bool.or_eq_true, decide_eq_true_eq] at h
  rcases h with ((rfl | rfl) | rfl) | rfl
  all_goals exact ⟨_, by decide, rfl⟩

/-- **The layout of a text is layout in bytes.** It can only end in a comment without a line feed
if nothing comes after it. Induction on the length of the text, a whole comment at a time. -/
theorem layout_splitLayout (text : List Rune) (hproper : ∀ r ∈ text, r.Proper) :
    Layout ((splitLayout false text).2 = []) (Rune.encode (splitLayout false text).1) := by
  match text with
  | [] => exact .nil
  | r :: rest =>
    have hrest : ∀ r' ∈ rest, r'.Proper := fun r' hr' => hproper r' (List.mem_cons_of_mem _ hr')
    by_cases hblank : isBlank r = true
    · obtain ⟨b, hb, hbytes⟩ := bytes_of_isBlank hblank
      simp only [splitLayout, hblank, if_true, Rune.encode_cons, hbytes]
      exact .blank hb (layout_splitLayout rest hrest)
    · by_cases hslash : r = .char '/' ∧ rest.head? = some (.char '/')
      · obtain ⟨rfl, hhead⟩ := hslash
        obtain ⟨rest, rfl⟩ := List.head?_eq_some_iff.mp hhead
        have htail : ∀ r' ∈ rest, r'.Proper := fun r' hr' => hrest r' (List.mem_cons_of_mem _ hr')
        rw [splitLayout_slashes]
        by_cases hnl : .char '\n' ∈ rest
        · obtain ⟨body, more, rfl, hbody⟩ := List.eq_append_cons_of_mem hnl
          have hbodyProper : ∀ r' ∈ body, r'.Proper :=
            fun r' hr' => htail r' (List.mem_append_left _ hr')
          have hmore : ∀ r' ∈ more, r'.Proper :=
            fun r' hr' => htail r' (List.mem_append_right _ (List.mem_cons_of_mem _ hr'))
          have hbytes : byte '\n' ∉ Rune.encode body :=
            fun hmem => hbody ((Rune.mem_encode_iff hbodyProper (by decide)).mp hmem)
          have hlayout := Layout.comment hbytes (layout_splitLayout more hmore)
          rw [splitLayout_of_newline hbody]
          have hfeed : String.utf8EncodeChar '\n' = [byte '\n'] := rfl
          simpa [Rune.bytes, utf8, hfeed] using hlayout
        · have hbytes : byte '\n' ∉ Rune.encode rest :=
            fun hmem => hnl ((Rune.mem_encode_iff htail (by decide)).mp hmem)
          rw [splitLayout_of_not_mem hnl]
          exact .last rfl hbytes
      · simp only [splitLayout, hblank, hslash, if_false]
        exact .nil
termination_by text.length

end Scanner

/-- Layout stays layout where a comment at its end is allowed in more cases. -/
theorem Layout.mono {P Q : Prop} (hPQ : P → Q) {bs : Bytes} (h : Layout P bs) : Layout Q bs := by
  induction h with
  | nil => exact .nil
  | blank hb _ ih => exact .blank hb ih
  | comment hbody _ ih => exact .comment hbody ih
  | last hend hbody => exact .last (hPQ hend) hbody

/-! ### Places in a text -/

/-- The bytes of a text from one offset up to another. -/
def slice (text : Bytes) (start stop : Int) : Bytes :=
  (text.take stop.toNat).drop start.toNat

/-- The slice from one part of a text to the next is what stands in between. -/
theorem slice_append (as bs cs : Bytes) :
    slice (as ++ bs ++ cs) as.length (as ++ bs).length = bs := by
  rw [slice, Int.toNat_natCast, Int.toNat_natCast, List.take_left, List.drop_left]

/-- The slice up to the second part of a text is the first. -/
theorem slice_zero_append (as bs : Bytes) : slice (as ++ bs) 0 as.length = as := by
  rw [slice, Int.toNat_natCast, List.take_left]
  rfl

/-- A token **covers** its part of the input: its span lies within it, the line is the one on which
the span starts, and the bytes of the span spell the token. -/
structure Token.Covers (input : Bytes) (t : Token) : Prop where
  start_nonneg : 0 ≤ t.span.start
  start_le_stop : t.span.start ≤ t.span.stop
  start_lt_stop : t.kind ≠ .eof → t.span.start < t.span.stop
  stop_le : t.span.stop ≤ input.length
  line_eq : t.span.line = 1 + ((slice input 0 t.span.start).count (byte '\n') : Nat)
  spells : t.kind.Spells (slice input t.span.start t.span.stop) t.value

/-- Spans in order, with nothing but layout before each of them. -/
def Spaced (input : Bytes) : (offset : Int) → List Token → Prop
  | _, [] => True
  | offset, t :: ts =>
    offset ≤ t.span.start ∧
      Layout (t.span.start = input.length) (slice input offset t.span.start) ∧
      Spaced input t.span.stop ts

/-- **Tokens tile the input** from an offset on. The last one is the end of the input: it lies where
the input ends, or right behind the first text that cannot be scanned. -/
structure Tiles (input : Bytes) (offset : Int) (ts : List Token) : Prop where
  covers : ∀ t ∈ ts, t.Covers input
  spaced : Spaced input offset ts
  ends : ∃ (before : List Token) (last : Token), ts = before ++ [last] ∧ last.kind = .eof ∧
    (∀ t ∈ before, t.kind ≠ .eof) ∧ last.span.start = last.span.stop ∧
    ((∀ t ∈ before, t.kind ≠ .error) → last.span.start = input.length) ∧
    ∀ t ∈ before, t.kind = .error → last.span.start = t.span.stop

namespace Scanner

/-- The position after runes from the start of a text. -/
def reach (runes : List Rune) : Position :=
  ({} : Position).past runes

/-- The offset behind runes is how many bytes they have. -/
theorem offset_reach (runes : List Rune) :
    (reach runes).offset = (Rune.encode runes).length := by
  rw [reach, Position.offset_past]
  exact Nat.zero_add _

variable {input : Bytes} {done layout runes more : List Rune}

/-- Runes in three parts are the bytes of a text in three parts. -/
theorem input_eq_of_decode (h : Rune.decode input = done ++ runes ++ more) :
    input = Rune.encode done ++ Rune.encode runes ++ Rune.encode more := by
  have hall := congrArg Rune.encode h
  rwa [Rune.encode_decode, Rune.encode_append, Rune.encode_append] at hall

/-- Where there are runes there are bytes. -/
theorem encode_ne_nil (h : runes ≠ []) : Rune.encode runes ≠ [] := by
  cases runes with
  | nil => exact absurd rfl h
  | cons r rs =>
      rw [Rune.encode_cons]
      cases r with
      | char c => simp [Rune.bytes, String.utf8EncodeChar_ne_nil]
      | invalid b => simp [Rune.bytes]

/-- Between two places lie the bytes of the runes between them. -/
theorem slice_reach (h : Rune.decode input = done ++ runes ++ more) :
    slice input (reach done).offset (reach (done ++ runes)).offset = Rune.encode runes := by
  rw [offset_reach, offset_reach, Rune.encode_append, input_eq_of_decode h, slice_append]

/-- **A token made of runes at their place covers them.** -/
theorem covers_of_decode {k : Kind} {v : Bytes} (h : Rune.decode input = done ++ runes ++ more)
    (hne : k ≠ .eof → runes ≠ []) (hspells : k.Spells (Rune.encode runes) v) :
    Token.Covers input ⟨k, v, (reach done).upTo (reach (done ++ runes))⟩ := by
  have hproper : ∀ r ∈ done, r.Proper := by
    intro r hr
    have hmem : r ∈ Rune.decode input := by
      rw [h, List.append_assoc]
      exact List.mem_append_left _ hr
    exact Rune.proper_of_mem_decode hmem
  have hinput := input_eq_of_decode h
  have hstart := offset_reach done
  have hstop := offset_reach (done ++ runes)
  rw [Rune.encode_append, List.length_append] at hstop
  have hlen := congrArg List.length hinput
  rw [List.length_append, List.length_append] at hlen
  constructor
  · exact Int.natCast_nonneg _
  · show ((reach done).offset : Int) ≤ (reach (done ++ runes)).offset
    omega
  · intro hk
    have hpos := List.length_pos_iff.mpr (encode_ne_nil (hne hk))
    show ((reach done).offset : Int) < (reach (done ++ runes)).offset
    omega
  · show ((reach (done ++ runes)).offset : Int) ≤ input.length
    omega
  · have hbefore : slice input 0 (reach done).offset = Rune.encode done := by
      rw [hstart, hinput, List.append_assoc, slice_zero_append]
    show ((reach done).line : Int) = 1 + ((slice input 0 (reach done).offset).count _ : Nat)
    rw [hbefore, reach, Position.line_past _ hproper]
    exact Int.natCast_add 1 _
  · show k.Spells (slice input (reach done).offset (reach (done ++ runes)).offset) v
    rw [slice_reach h]
    exact hspells

/-! ### One token -/

/-- The **invariant of a scanner** that has met no fault: the runes passed and those to come make
up the input, and the position is the one after the runes passed. -/
structure At (input : Bytes) (done : List Rune) (s : Scanner) : Prop where
  decode_eq : Rune.decode input = done ++ s.input
  position_eq : s.position = reach done

/-- **What one token does.** After some layout comes the end of the input, a fault, or a token with
the bytes that spell it. -/
theorem next_cases {s : Scanner} (h : At input done s) :
    (∃ layout, Rune.decode input = done ++ layout ∧ Layout True (Rune.encode layout) ∧
      s.next = (⟨.eof, [], (reach (done ++ layout)).upTo (reach (done ++ layout))⟩,
        ⟨[], reach (done ++ layout)⟩)) ∨
    (∃ layout runes more v, Rune.decode input = done ++ layout ++ runes ++ more ∧
      Layout False (Rune.encode layout) ∧ runes ≠ [] ∧
      s.next = (⟨.error, v, (reach (done ++ layout)).upTo (reach (done ++ layout ++ runes))⟩,
        ⟨[], reach (done ++ layout ++ runes)⟩)) ∨
    (∃ layout runes rest k v, Rune.decode input = done ++ layout ++ runes ++ rest ∧
      Layout False (Rune.encode layout) ∧ runes ≠ [] ∧ k ≠ .error ∧ k ≠ .eof ∧
      k.Spells (Rune.encode runes) v ∧
      s.next = (⟨k, v, (reach (done ++ layout)).upTo (reach (done ++ layout ++ runes))⟩,
        ⟨rest, reach (done ++ layout ++ runes)⟩)) := by
  have hproper : ∀ r ∈ s.input, r.Proper := by
    intro r hr
    have hmem : r ∈ Rune.decode input := by
      rw [h.decode_eq]
      exact List.mem_append_right _ hr
    exact Rune.proper_of_mem_decode hmem
  have hlayout := layout_splitLayout s.input hproper
  have hsplit := splitLayout_append false s.input
  have hdecode := h.decode_eq
  have hpast (as bs : List Rune) : (reach as).past bs = reach (as ++ bs) := by
    rw [reach, reach, Position.past_append]
  cases hpair : splitLayout false s.input with
  | mk layout text =>
      rw [hpair] at hlayout hsplit
      rw [← hsplit, ← List.append_assoc] at hdecode
      cases text with
      | nil =>
          rw [List.append_nil] at hdecode
          refine .inl ⟨layout, hdecode, hlayout.mono fun _ => trivial, ?_⟩
          simp only [next, hpair, h.position_eq, hpast]
      | cons r rest =>
          have hgap : Layout False (Rune.encode layout) := hlayout.mono (List.cons_ne_nil r rest)
          rcases (lexeme_scans r rest).cases with ⟨f, runes, more, hne, hfront, hx⟩ | ⟨hne, hfront,
            herror, heof, hspells⟩
          · refine .inr (.inl ⟨layout, runes, more, f.message, ?_, hgap, hne, ?_⟩)
            · rw [hdecode, hfront, List.append_assoc _ runes]
            · simp only [next, hpair, h.position_eq, hpast, hx, Lexeme.fault]
          · refine .inr (.inr ⟨layout, (lexeme r rest).runes, (lexeme r rest).rest,
              (lexeme r rest).kind, (lexeme r rest).value, ?_, hgap, hne, herror, heof, hspells,
              ?_⟩)
            · rw [List.append_assoc _ (lexeme r rest).runes, ← hfront, hdecode]
            · simp only [next, hpair, h.position_eq, hpast]

/-! ### All tokens -/

/-- The end of the input is the last token. -/
theorem drain_of_eof {s : Scanner} (h : s.next.1.kind = .eof) (limit : Nat) :
    (drain limit s).1 = [s.next.1] := by
  cases limit with
  | zero => rfl
  | succ limit => simp [drain, h]

/-- After a token that is not the end of the input the others come. -/
theorem drain_of_ne_eof {s : Scanner} (h : s.next.1.kind ≠ .eof) (limit : Nat) :
    (drain (limit + 1) s).1 = s.next.1 :: (drain limit s.next.2).1 := by
  simp [drain, h]

/-- What lies between two places is layout if its runes are. -/
theorem gap_of_decode {P : Prop} (h : Rune.decode input = done ++ layout ++ more)
    (hlayout : Layout P (Rune.encode layout))
    (hend : P → ((reach (done ++ layout)).offset : Int) = input.length) :
    ((reach done).offset : Int) ≤ (reach (done ++ layout)).offset ∧
      Layout (((reach (done ++ layout)).offset : Int) = input.length)
        (slice input (reach done).offset (reach (done ++ layout)).offset) := by
  constructor
  · rw [offset_reach, offset_reach, Rune.encode_append, List.length_append]
    omega
  · rw [slice_reach h]
    exact hlayout.mono hend

/-- Layout and the end of the input tile the rest of a text. -/
theorem tiles_eof (h : Rune.decode input = done ++ layout)
    (hlayout : Layout True (Rune.encode layout)) :
    Tiles input (reach done).offset
      [⟨.eof, [], (reach (done ++ layout)).upTo (reach (done ++ layout))⟩] := by
  have hend : ((reach (done ++ layout)).offset : Int) = input.length := by
    rw [offset_reach, ← h, Rune.encode_decode]
  have hwhole : Rune.decode input = done ++ layout ++ [] := by
    rw [List.append_nil, h]
  have hplace : Rune.decode input = done ++ layout ++ [] ++ [] := by
    rw [List.append_nil, List.append_nil, h]
  constructor
  · intro t ht
    rw [List.mem_singleton] at ht
    have hcovers := covers_of_decode (k := .eof) (v := []) hplace (absurd rfl) rfl
    rw [List.append_nil] at hcovers
    rw [ht]
    exact hcovers
  · obtain ⟨hle, hgap⟩ := gap_of_decode hwhole hlayout fun _ => hend
    exact ⟨hle, hgap, trivial⟩
  · exact ⟨[], _, rfl, rfl, nofun, rfl, fun _ => hend, nofun⟩

/-- After a fault comes the end of the input, right behind it. -/
theorem tiles_fault {v : Bytes} (h : Rune.decode input = done ++ layout ++ runes ++ more)
    (hlayout : Layout False (Rune.encode layout)) (hne : runes ≠ []) :
    Tiles input (reach done).offset
      [⟨.error, v, (reach (done ++ layout)).upTo (reach (done ++ layout ++ runes))⟩,
       ⟨.eof, [], (reach (done ++ layout ++ runes)).upTo (reach (done ++ layout ++ runes))⟩] := by
  have hfront : Rune.decode input = done ++ layout ++ (runes ++ more) := by
    rw [h, List.append_assoc _ runes]
  have hback : Rune.decode input = done ++ layout ++ runes ++ [] ++ more := by
    rw [List.append_nil, h]
  constructor
  · intro t ht
    rcases List.mem_cons.mp ht with rfl | ht
    · exact covers_of_decode h (fun _ => hne) trivial
    · rw [List.mem_singleton] at ht
      have hcovers := covers_of_decode (k := .eof) (v := []) hback (absurd rfl) rfl
      rw [List.append_nil] at hcovers
      rw [ht]
      exact hcovers
  · obtain ⟨hle, hgap⟩ := gap_of_decode hfront hlayout False.elim
    have hback' := gap_of_decode (P := False) hback .nil False.elim
    rw [List.append_nil] at hback'
    exact ⟨hle, hgap, hback'.1, hback'.2, trivial⟩
  · refine ⟨[_], _, rfl, rfl, ?_, rfl, ?_, ?_⟩
    · intro t ht
      rw [List.mem_singleton] at ht
      rw [ht]
      exact nofun
    · intro hnone
      exact absurd rfl (hnone _ List.mem_cons_self)
    · intro t ht _
      rw [List.mem_singleton] at ht
      rw [ht]
      rfl

/-- A token in front of tokens that tile the rest. -/
theorem tiles_cons {rest : List Rune} {k : Kind} {v : Bytes} {ts : List Token}
    (h : Rune.decode input = done ++ layout ++ runes ++ rest)
    (hlayout : Layout False (Rune.encode layout)) (hne : runes ≠ []) (herror : k ≠ .error)
    (heof : k ≠ .eof) (hspells : k.Spells (Rune.encode runes) v)
    (hts : Tiles input (reach (done ++ layout ++ runes)).offset ts) :
    Tiles input (reach done).offset
      (⟨k, v, (reach (done ++ layout)).upTo (reach (done ++ layout ++ runes))⟩ :: ts) := by
  have hfront : Rune.decode input = done ++ layout ++ (runes ++ rest) := by
    rw [h, List.append_assoc _ runes]
  constructor
  · intro t ht
    rcases List.mem_cons.mp ht with rfl | ht
    · exact covers_of_decode h (fun _ => hne) hspells
    · exact hts.covers t ht
  · obtain ⟨hle, hgap⟩ := gap_of_decode hfront hlayout False.elim
    exact ⟨hle, hgap, hts.spaced⟩
  · obtain ⟨before, last, rfl, hlast, hbefore, hempty, hclean, hfault⟩ := hts.ends
    refine ⟨_ :: before, last, rfl, hlast, ?_, hempty, ?_, ?_⟩
    · intro t ht
      rcases List.mem_cons.mp ht with rfl | ht
      · exact heof
      · exact hbefore t ht
    · intro hnone
      exact hclean fun t ht => hnone t (List.mem_cons_of_mem _ ht)
    · intro t ht hk
      rcases List.mem_cons.mp ht with rfl | ht
      · exact absurd hk herror
      · exact hfault t ht hk

/-- **The tokens that are left tile the rest of the input.** Induction on the bound, which is never
used up: every token takes a rune. -/
theorem tiles_drain {s : Scanner} {limit : Nat} (h : At input done s)
    (hlimit : s.input.length ≤ limit) :
    Tiles input (reach done).offset (drain limit s).1 := by
  induction limit generalizing s done with
  | zero =>
      have hlen := length_input_next s
      rcases next_cases h with ⟨layout, hdecode, hlayout, hnext⟩ | ⟨layout, runes, more, v, -, -, -,
        hnext⟩ | ⟨layout, runes, rest, k, v, -, -, -, -, heof, -, hnext⟩
      · rw [drain_of_eof (by rw [hnext]), hnext]
        exact tiles_eof hdecode hlayout
      · rw [hnext, if_neg nofun] at hlen
        omega
      · rw [hnext, if_neg heof] at hlen
        omega
  | succ limit ih =>
      have hlen := length_input_next s
      rcases next_cases h with ⟨layout, hdecode, hlayout, hnext⟩ | ⟨layout, runes, more, v, hdecode,
        hlayout, hne, hnext⟩ | ⟨layout, runes, rest, k, v, hdecode, hlayout, hne, herror, heof,
        hspells, hnext⟩
      · rw [drain_of_eof (by rw [hnext]), hnext]
        exact tiles_eof hdecode hlayout
      · rw [drain_of_ne_eof (by rw [hnext]; exact nofun), hnext, drain_of_eof rfl]
        exact tiles_fault hdecode hlayout hne
      · rw [drain_of_ne_eof (by rw [hnext]; exact heof), hnext]
        rw [hnext, if_neg heof] at hlen
        have hat : At input (done ++ layout ++ runes) ⟨rest, reach (done ++ layout ++ runes)⟩ :=
          ⟨hdecode, rfl⟩
        exact tiles_cons hdecode hlayout hne herror heof hspells
          (ih hat (by show rest.length ≤ limit; simp only at hlen; omega))

/-- **The tokens of a text tile it.** -/
theorem tiles_tokens (input : Bytes) : Tiles input 0 (Scanner.ofText input).tokens := by
  have hat : At input [] (Scanner.ofText input) := ⟨rfl, rfl⟩
  exact tiles_drain hat (Nat.le_refl _)

end Scanner

end ScriptFront

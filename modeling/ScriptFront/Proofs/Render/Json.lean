import Mathlib.Data.List.Basic
import ScriptFront.Proofs.Number.ReadBack
import ScriptFront.Render.Json

/-!
# JSON has One Reading

**A document can be told from its JSON form** (`Json.value_inj`), provided that its texts are made
of characters and its numbers are finite and not negative (`Document.Clean`). Bytes that are no part
of a character are all written alike, so nothing can be said without the first condition.

* A character that is not written as it is belongs to a short list, and on that list no escape
  begins another (`Json.eq_of_begins`); all others are read as they are.
* A number is written in plain digits, which read back, or in scientific notation, which has the
  digits and the exponent of the shortest decimal (`Json.scientific_inj`).
* A document is told by its first byte and its parts, by an induction in which something follows:
  a text is cut off where it ends by itself, a number where what follows **breaks it off**
  (`Json.Stops`, `Json.legible_value`).
-/

namespace ScriptFront

open Text

/-- A text that is **made of characters**, with no byte left over. -/
def IsText (text : Bytes) : Prop :=
  ∃ cs : List Char, text = Rune.encode (cs.map .char)

namespace Json

/-! ### Strings -/

/-- The characters that are not written as they are. -/
def escaped : List Char :=
  (List.range 0x20).map Char.ofNat ++ ['"', '\\', '<', '>', '&', '\u2028', '\u2029']

/-- A character that is not escaped is written as it is. -/
theorem rune_of_notMem {c : Char} (h : c ∉ escaped) :
    rune (.char c) = String.utf8EncodeChar c := by
  have hcontrol : 0x20 ≤ c.toNat := by
    by_contra hlt
    refine h (List.mem_append_left _ (List.mem_map.mpr ⟨c.toNat, ?_, c.ofNat_toNat⟩))
    exact List.mem_range.mpr (by omega)
  have hletter : controlLetter? c = none := by
    unfold controlLetter?
    split <;> first | omega | rfl
  simp only [escaped, List.mem_append, List.mem_cons, List.not_mem_nil, or_false, not_or] at h
  simp [rune, hletter, isGuarded, h, Nat.not_lt.mpr hcontrol]

/-- **On the list, no escape begins another.** -/
theorem eq_of_begins {c c' : Char} (hc : c ∈ escaped) (hc' : c' ∈ escaped)
    (h : rune (.char c) <+: rune (.char c')) : c = c' := by
  have hall : escaped.all (fun c => escaped.all fun c' =>
      !(rune (.char c)).isPrefixOf (rune (.char c')) || c == c') = true := by
    decide +kernel
  have hpair := List.all_eq_true.mp (List.all_eq_true.mp hall c hc) c' hc'
  rw [List.isPrefixOf_iff_prefix.mpr h] at hpair
  exact eq_of_beq hpair

/-- A character that is escaped is written with a backslash in front. -/
theorem exists_backslash {c : Char} (hc : c ∈ escaped) :
    ∃ text, rune (.char c) = byte '\\' :: text := by
  have hall : escaped.all (fun c => (rune (.char c)).head? == some (byte '\\')) = true := by
    decide +kernel
  exact ⟨_, List.eq_cons_of_mem_head? (eq_of_beq (List.all_eq_true.mp hall c hc))⟩

/-- A character that is written as it is, is **read as it is**. -/
theorem decode_rune_of_notMem {c : Char} (h : c ∉ escaped) (rest : Bytes) :
    Rune.decode (rune (.char c) ++ rest) = .char c :: Rune.decode rest := by
  rw [rune_of_notMem h, Rune.decode_utf8EncodeChar_append]

/-- No character that is written as it is begins like one that is not. -/
theorem rune_ne_of_notMem {c c' : Char} (h : c ∉ escaped) (h' : c' ∈ escaped) (rest rest' : Bytes) :
    rune (.char c) ++ rest ≠ rune (.char c') ++ rest' := by
  intro heq
  obtain ⟨text, htext⟩ := exists_backslash h'
  have hdecode := congrArg Rune.decode heq
  rw [decode_rune_of_notMem h, htext, List.cons_append,
    Rune.decode_byte_cons (by decide)] at hdecode
  have hc : c = '\\' := Rune.char.inj (List.cons.inj hdecode).1
  exact h (hc ▸ by decide)

/-- **A character can be told from what is written for it**, whatever follows. What is written for
one character is never the beginning of what is written for another. -/
theorem rune_append_inj {c c' : Char} {rest rest' : Bytes}
    (h : rune (.char c) ++ rest = rune (.char c') ++ rest') : c = c' ∧ rest = rest' := by
  have hc : c = c' := by
    by_cases hmem : c ∈ escaped <;> by_cases hmem' : c' ∈ escaped
    · rcases List.prefix_or_prefix_of_prefix (List.prefix_append _ rest)
        (h ▸ List.prefix_append _ rest') with hle | hle
      · exact eq_of_begins hmem hmem' hle
      · exact (eq_of_begins hmem' hmem hle).symm
    · exact absurd h.symm (rune_ne_of_notMem hmem' hmem _ _)
    · exact absurd h (rune_ne_of_notMem hmem hmem' _ _)
    · have hdecode := congrArg Rune.decode h
      rw [decode_rune_of_notMem hmem, decode_rune_of_notMem hmem'] at hdecode
      exact Rune.char.inj (List.cons.inj hdecode).1
  subst hc
  exact ⟨rfl, List.append_cancel_left h⟩

/-- No character is written with a quote in front. -/
theorem rune_ne_quote (c : Char) (rest rest' : Bytes) :
    rune (.char c) ++ rest ≠ byte '"' :: rest' := by
  intro h
  by_cases hmem : c ∈ escaped
  · obtain ⟨text, htext⟩ := exists_backslash hmem
    rw [htext, List.cons_append] at h
    exact absurd (List.cons.inj h).1 (by decide)
  · have hdecode := congrArg Rune.decode h
    rw [decode_rune_of_notMem hmem, Rune.decode_byte_cons (by decide)] at hdecode
    have hc : c = '"' := Rune.char.inj (List.cons.inj hdecode).1
    exact hmem (hc ▸ by decide)

/-- Characters can be told from what is written for them up to the closing quote. -/
theorem runes_append_inj {cs cs' : List Char} {rest rest' : Bytes}
    (h : cs.flatMap (fun c => rune (.char c)) ++ byte '"' :: rest =
      cs'.flatMap (fun c => rune (.char c)) ++ byte '"' :: rest') : cs = cs' ∧ rest = rest' := by
  induction cs generalizing cs' with
  | nil =>
      cases cs' with
      | nil => exact ⟨rfl, (List.cons.inj h).2⟩
      | cons c' cs' =>
          rw [List.flatMap_cons, List.append_assoc] at h
          exact absurd h.symm (rune_ne_quote _ _ _)
  | cons c cs ih =>
      rw [List.flatMap_cons, List.append_assoc] at h
      cases cs' with
      | nil => exact absurd h (rune_ne_quote _ _ _)
      | cons c' cs' =>
          rw [List.flatMap_cons, List.append_assoc] at h
          obtain ⟨rfl, htail⟩ := rune_append_inj h
          obtain ⟨rfl, hrest⟩ := ih htail
          exact ⟨rfl, hrest⟩

/-- **A text can be told from its string**, whatever follows. -/
theorem string_append_inj {text text' rest rest' : Bytes} (htext : IsText text)
    (htext' : IsText text') (h : string text ++ rest = string text' ++ rest') :
    text = text' ∧ rest = rest' := by
  obtain ⟨cs, rfl⟩ := htext
  obtain ⟨cs', rfl⟩ := htext'
  simp only [string, Rune.decode_encode_char, List.flatMap_map, List.append_assoc,
    List.cons_append, List.nil_append, List.cons.injEq, true_and] at h
  obtain ⟨rfl, hrest⟩ := runes_append_inj h
  exact ⟨rfl, hrest⟩

/-! ### Numbers -/

/-- A byte of a number. -/
def isNumeric (b : UInt8) : Bool :=
  isDigit b || b ∈ [byte '.', byte 'e', byte '+', byte '-']

/-- Is a number **broken off** before this text? -/
def Stops (rest : Bytes) : Prop :=
  rest.takeWhile isNumeric = []

/-- A byte that is in no number breaks a number off. -/
theorem stops_cons {b : UInt8} (h : isNumeric b = false) (rest : Bytes) : Stops (b :: rest) :=
  List.takeWhile_cons_of_neg (by simp [h])

/-- A digit may be in a number. -/
theorem isNumeric_of_isDigit {b : UInt8} (h : isDigit b = true) : isNumeric b = true := by
  rw [isNumeric, h, Bool.true_or]

/-- The digits in front of the mark, with a point after the first of them if there are more. -/
def mantissa (digits : Bytes) : Bytes :=
  digits.take 1 ++ if digits.length ≤ 1 then [] else byte '.' :: digits.drop 1

/-- The sign of an exponent. -/
def exponentSign (e : Int) : UInt8 :=
  if e < 0 then byte '-' else byte '+'

/-- The form with an exponent, in its parts. -/
theorem scientific_eq (digits : Bytes) (e : Int) :
    numberStyle.scientific digits e =
      mantissa digits ++ byte 'e' :: exponentSign e :: decimal e.natAbs := by
  have hwidth : numberStyle.exponentWidth - (decimal e.natAbs).length = 0 := by
    have hlength : 0 < (decimal e.natAbs).length := by
      rw [decimal, List.length_map]
      exact List.length_pos_iff.mpr Nat.toDigits_ne_nil
    exact Nat.sub_eq_zero_of_le hlength
  rw [NumberStyle.scientific, hwidth]
  simp [mantissa, exponentSign, NumberStyle.zeros]

/-- A mantissa has digits and a point. -/
theorem mem_mantissa {digits : Bytes} {b : UInt8} (h : b ∈ mantissa digits) :
    b ∈ digits ∨ b = byte '.' := by
  rcases List.mem_append.mp h with h | h
  · exact .inl (List.mem_of_mem_take h)
  · split at h
    · cases h
    · rcases List.mem_cons.mp h with h | h
      · exact .inr h
      · exact .inl (List.mem_of_mem_drop h)

/-- The digits can be told from the digits with a point among them. -/
theorem filter_mantissa {digits : Bytes} (h : ∀ b ∈ digits, isDigit b = true) :
    (mantissa digits).filter isDigit = digits := by
  match digits with
  | [] => rfl
  | [b] => simpa [mantissa] using h
  | b :: b' :: rest =>
      have hpoint : isDigit (byte '.') = false := by decide
      rw [List.forall_mem_cons, List.forall_mem_cons] at h
      obtain ⟨hb, hb', hrest⟩ := h
      simpa [mantissa, hpoint, hb, hb'] using hrest

/-- The decimal form of a number has digits only. -/
theorem isDigit_of_mem_decimal {n : Nat} {b : UInt8} (h : b ∈ decimal n) : isDigit b = true :=
  Numeral.forall_mem_map_byte (fun _ => isDigit_of_mem_toDigits) b h

/-- The mark of the exponent is no digit. -/
theorem mark_notMem_of_isDigit {text : Bytes} (h : ∀ b ∈ text, isDigit b = true) :
    byte 'e' ∉ text :=
  fun hmem => absurd (h _ hmem) (by decide)

/-- **A decimal can be told from its scientific notation.** -/
theorem scientific_inj {n n' : Nat} {e e' : Int}
    (h : numberStyle.scientific (decimal n) e = numberStyle.scientific (decimal n') e') :
    n = n' ∧ e = e' := by
  have hdigits (n : Nat) : ∀ b ∈ decimal n, isDigit b = true := fun _ => isDigit_of_mem_decimal
  have hbefore : byte 'e' ∉ mantissa (decimal n) := by
    intro hmem
    rcases mem_mantissa hmem with hmem | hmem
    · exact mark_notMem_of_isDigit (hdigits n) hmem
    · exact absurd hmem (by decide)
  have hafter : byte 'e' ∉ exponentSign e :: decimal e.natAbs := by
    intro hmem
    rcases List.mem_cons.mp hmem with hmem | hmem
    · rw [exponentSign] at hmem
      split at hmem <;> exact absurd hmem (by decide)
    · exact mark_notMem_of_isDigit (hdigits _) hmem
  rw [scientific_eq, scientific_eq, List.append_cons_inj_of_notMem hbefore hafter,
    List.cons.injEq] at h
  obtain ⟨hmantissa, -, hsign, hpower⟩ := h
  have hfilter := congrArg (List.filter isDigit) hmantissa
  rw [filter_mantissa (hdigits n), filter_mantissa (hdigits n')] at hfilter
  have hsize := decimal_inj hpower
  refine ⟨decimal_inj hfilter, ?_⟩
  rw [exponentSign, exponentSign] at hsign
  split at hsign <;> split at hsign
  · omega
  · exact absurd hsign (by decide)
  · exact absurd hsign (by decide)
  · omega

/-- The form with an exponent has the mark of it. -/
theorem mark_mem_scientific (digits : Bytes) (e : Int) :
    byte 'e' ∈ numberStyle.scientific digits e := by
  rw [scientific_eq]
  exact List.mem_append_right _ List.mem_cons_self

section Numbers

variable {x y : Binary64} (hfin : x.isFinite = true) (hpos : x.isNegative = false)
include hfin hpos

/-- The two ways to write a number: **as in source text, or in scientific notation**. -/
theorem write_cases :
    numberStyle.write x = Expr.numberStyle.write x ∨
      numberStyle.write x = numberStyle.scientific (decimal (Decimal.shortest x).digits)
        ((Decimal.shortest x).exponent + (decimal (Decimal.shortest x).digits).length - 1) := by
  have hwrite (style : NumberStyle) : style.write x = style.magnitude x := by
    simp [NumberStyle.write, Binary64.isNaN, hfin, hpos]
  rw [hwrite, hwrite, NumberStyle.magnitude, NumberStyle.magnitude]
  split
  · exact .inl rfl
  · dsimp only
    split
    · exact .inl rfl
    · exact .inr rfl

/-- What is written in plain digits is made of digits and points. -/
theorem mem_plain {b : UInt8} (h : b ∈ Expr.numberStyle.write x) :
    isDigit b = true ∨ b = byte '.' := by
  obtain ⟨whole, fraction, -, hw, hf, hplain, -⟩ := Expr.numberStyle_write hfin hpos
  rw [hplain] at h
  obtain ⟨c, hc, rfl⟩ := List.mem_map.mp h
  rcases Numeral.isDigit_or_of_mem_plain hw hf hc with hdigit | rfl
  · exact .inl (isDigit_byte hdigit)
  · exact .inr rfl

/-- The form without an exponent has no mark of one. -/
theorem mark_notMem_plain : byte 'e' ∉ Expr.numberStyle.write x := by
  intro hmem
  rcases mem_plain hfin hpos hmem with hmem | hmem <;> exact absurd hmem (by decide)

/-- Every number is written with something. -/
theorem write_ne_nil : numberStyle.write x ≠ [] := by
  intro hnil
  rcases write_cases hfin hpos with hw | hw
  · obtain ⟨-, -, -, -, -, -, hread⟩ := Expr.numberStyle_write hfin hpos
    rw [← hw, hnil] at hread
    cases hread
  · have hmark := mark_mem_scientific (decimal (Decimal.shortest x).digits)
      ((Decimal.shortest x).exponent + (decimal (Decimal.shortest x).digits).length - 1)
    rw [← hw, hnil] at hmark
    cases hmark

/-- A number is made of bytes of numbers. -/
theorem isNumeric_of_mem_write {b : UInt8} (h : b ∈ numberStyle.write x) :
    isNumeric b = true := by
  have hpoint : isNumeric (byte '.') = true := by decide
  rcases write_cases hfin hpos with hw | hw <;> rw [hw] at h
  · rcases mem_plain hfin hpos h with h | rfl
    · exact isNumeric_of_isDigit h
    · exact hpoint
  · rw [scientific_eq] at h
    rcases List.mem_append.mp h with h | h
    · rcases mem_mantissa h with h | rfl
      · exact isNumeric_of_isDigit (isDigit_of_mem_decimal h)
      · exact hpoint
    · rcases List.mem_cons.mp h with rfl | h
      · decide
      · rcases List.mem_cons.mp h with rfl | h
        · rw [exponentSign]
          split <;> decide
        · exact isNumeric_of_isDigit (isDigit_of_mem_decimal h)

variable (hfin' : y.isFinite = true) (hpos' : y.isNegative = false)
include hfin' hpos'

/-- **A number can be told from what is written for it.** Plain digits are read back, and so are the
digits and the exponent of the shortest decimal. -/
theorem write_inj (h : numberStyle.write x = numberStyle.write y) : x = y := by
  rcases write_cases hfin hpos with hxw | hxw <;> rcases write_cases hfin' hpos' with hyw | hyw
  · obtain ⟨-, -, -, -, -, -, hread⟩ := Expr.numberStyle_write hfin hpos
    obtain ⟨-, -, -, -, -, -, hread'⟩ := Expr.numberStyle_write hfin' hpos'
    rw [← hxw, h, hyw, hread'] at hread
    exact (Option.some.inj hread).symm
  · refine absurd ?_ (mark_notMem_plain hfin hpos)
    rw [← hxw, h, hyw]
    exact mark_mem_scientific _ _
  · refine absurd ?_ (mark_notMem_plain hfin' hpos')
    rw [← hyw, ← h, hxw]
    exact mark_mem_scientific _ _
  · rw [hxw, hyw] at h
    obtain ⟨hdigits, hexponent⟩ := scientific_inj h
    have hshortest : Decimal.shortest x = Decimal.shortest y := by
      rw [hdigits] at hexponent
      exact Decimal.ext hdigits (by omega)
    have hread := Decimal.toBinary?_shortest hfin hpos
    rw [hshortest, Decimal.toBinary?_shortest hfin' hpos'] at hread
    exact (Option.some.inj hread).symm

/-- A number can be told from what is written for it **before everything that breaks it off**. -/
theorem write_append_inj {rest rest' : Bytes} (hrest : Stops rest) (hrest' : Stops rest')
    (h : numberStyle.write x ++ rest = numberStyle.write y ++ rest') : x = y ∧ rest = rest' := by
  obtain ⟨htake, hdrop⟩ := span_run (fun _ => isNumeric_of_mem_write hfin hpos) hrest
  obtain ⟨htake', hdrop'⟩ := span_run (fun _ => isNumeric_of_mem_write hfin' hpos') hrest'
  rw [h] at htake hdrop
  exact ⟨write_inj hfin hpos hfin' hpos' (htake.symm.trans htake'), hdrop.symm.trans hdrop'⟩

end Numbers

/-! ### Brackets -/

/-- **Can the value be told from its text**, before everything that breaks off a number? It is told
from the values with the property. -/
def Legible {α : Type} (P : α → Prop) (text : α → Bytes) (a : α) : Prop :=
  ∀ {b : α} {rest rest' : Bytes}, P b → Stops rest → Stops rest' →
    text a ++ rest = text b ++ rest' → a = b ∧ rest = rest'

section Brackets

variable {α : Type} {P : α → Prop} {text : α → Bytes} {as bs : List α} {rest rest' : Bytes}

/-- The items after the first, up to the line of the closing bracket. -/
def furtherItems (level : Nat) (text : α → Bytes) (as : List α) (rest : Bytes) : Bytes :=
  (as.map text).flatMap (byte ',' :: newline level ++ ·) ++ byte '\n' :: rest

/-- The items after a number break it off. -/
theorem stops_furtherItems {level : Nat} : Stops (furtherItems level text as rest) := by
  cases as with
  | nil => exact stops_cons (by decide) _
  | cons a as => exact stops_cons (by decide) _

/-- **Items can be told from their text** if each of them can, by induction on the list. -/
theorem furtherItems_inj {level : Nat} (has : ∀ a ∈ as, Legible P text a) (hbs : ∀ b ∈ bs, P b)
    (h : furtherItems level text as rest = furtherItems level text bs rest') :
    as = bs ∧ rest = rest' := by
  induction as generalizing bs with
  | nil =>
      cases bs with
      | nil => exact ⟨rfl, (List.cons.inj h).2⟩
      | cons b bs => exact absurd (List.cons.inj h).1 (by decide)
  | cons a as ih =>
      cases bs with
      | nil => exact absurd (List.cons.inj h).1 (by decide)
      | cons b bs =>
          rw [List.forall_mem_cons] at has hbs
          have hcons (a : α) (as : List α) (rest : Bytes) :
              furtherItems level text (a :: as) rest =
                (byte ',' :: newline level) ++ (text a ++ furtherItems level text as rest) := by
            simp [furtherItems]
          rw [hcons, hcons] at h
          obtain ⟨rfl, htail⟩ := has.1 hbs.1 stops_furtherItems stops_furtherItems
            (List.append_cancel_left h)
          obtain ⟨rfl, hrest⟩ := ih has.2 hbs.2 htail
          exact ⟨rfl, hrest⟩

/-- **A list can be told from its items between brackets.** -/
theorem bracketed_append_inj {opening closing : Char} (hclosing : byte closing ≠ byte '\n')
    {level : Nat} (has : ∀ a ∈ as, Legible P text a) (hbs : ∀ b ∈ bs, P b)
    (h : bracketed opening closing level (as.map text) ++ rest =
      bracketed opening closing level (bs.map text) ++ rest') : as = bs ∧ rest = rest' := by
  have hcons (a : α) (as : List α) (rest : Bytes) :
      bracketed opening closing level ((a :: as).map text) ++ rest =
        (byte opening :: newline (level + 1)) ++ (text a ++ furtherItems (level + 1) text as
          (List.replicate (2 * level) (byte ' ') ++ byte closing :: rest)) := by
    simp [bracketed, join_cons, furtherItems, newline]
  cases as with
  | nil =>
      cases bs with
      | nil => exact ⟨rfl, List.append_cancel_left h⟩
      | cons b bs =>
          rw [hcons] at h
          exact absurd (List.cons.inj (List.cons.inj h).2).1 hclosing
  | cons a as =>
      cases bs with
      | nil =>
          rw [hcons] at h
          exact absurd (List.cons.inj (List.cons.inj h).2).1.symm hclosing
      | cons b bs =>
          rw [List.forall_mem_cons] at has hbs
          rw [hcons, hcons] at h
          obtain ⟨rfl, htail⟩ := has.1 hbs.1 stops_furtherItems stops_furtherItems
            (List.append_cancel_left h)
          obtain ⟨rfl, hrest⟩ := furtherItems_inj has.2 hbs.2 htail
          exact ⟨rfl, (List.cons.inj (List.append_cancel_left hrest)).2⟩

end Brackets

/-! ### Documents -/

/-- The texts of documents are those of each. -/
theorem values_eq_map (level : Nat) (items : List Document) :
    values level items = items.map (value level) := by
  induction items with
  | nil => rfl
  | cons d ds ih => rw [values, ih, List.map_cons]

/-- An entry of a record. -/
def member (level : Nat) (e : Bytes × Document) : Bytes :=
  string e.1 ++ utf8 ": " ++ value level e.2

/-- The texts of entries are those of each. -/
theorem members_eq_map (level : Nat) (entries : List (Bytes × Document)) :
    members level entries = entries.map (member level) := by
  induction entries with
  | nil => rfl
  | cons e es ih => rw [members, ih, List.map_cons, member]

end Json

/-- A document **that has a JSON form it can be told from**: its texts are made of characters, and
its numbers are finite and not negative. -/
inductive Document.Clean : Document → Prop where
  | boolean (value : Bool) : Clean (.boolean value)
  | number {x : Binary64} (hfin : x.isFinite = true) (hpos : x.isNegative = false) :
      Clean (.number x)
  | text {value : Bytes} (htext : IsText value) : Clean (.text value)
  | list {items : List Document} (hitems : ∀ d ∈ items, Clean d) : Clean (.list items)
  | record {entries : List (Bytes × Document)} (hkeys : ∀ e ∈ entries, IsText e.1)
      (hentries : ∀ e ∈ entries, Clean e.2) : Clean (.record entries)

namespace Json

/-- The number of the kind of a document. -/
def shape : Document → Nat
  | .boolean _ => 0
  | .number _ => 1
  | .text _ => 2
  | .list _ => 3
  | .record _ => 4

/-- The number of the kind of document that **begins with this byte**. -/
def shapeOf (b : UInt8) : Nat :=
  if isNumeric b then 1 else if b = byte '"' then 2 else if b = byte '[' then 3
  else if b = byte '\x7b' then 4 else 0

/-- The first byte tells the kind of a document. -/
theorem exists_first {d : Document} (h : d.Clean) (level : Nat) :
    ∃ b rest, value level d = b :: rest ∧ shapeOf b = shape d := by
  cases h with
  | boolean value => cases value <;> exact ⟨_, _, rfl, rfl⟩
  | number hfin hpos =>
      obtain ⟨b, rest, hwrite⟩ := List.exists_cons_of_ne_nil (write_ne_nil hfin hpos)
      refine ⟨b, rest, hwrite, ?_⟩
      rw [shapeOf, isNumeric_of_mem_write hfin hpos (hwrite ▸ List.mem_cons_self)]
      rfl
  | text => exact ⟨_, _, rfl, rfl⟩
  | @list items =>
      rw [value, values_eq_map]
      cases items <;> exact ⟨_, _, rfl, rfl⟩
  | @record entries =>
      rw [value, members_eq_map]
      cases entries <;> exact ⟨_, _, rfl, rfl⟩

/-- **The kind of a document can be told from its text**, by the first byte. -/
theorem shape_eq {d d' : Document} (hd : d.Clean) (hd' : d'.Clean) {level : Nat}
    {rest rest' : Bytes} (h : value level d ++ rest = value level d' ++ rest') :
    shape d = shape d' := by
  obtain ⟨b, text, htext, hshape⟩ := exists_first hd level
  obtain ⟨b', text', htext', hshape'⟩ := exists_first hd' level
  rw [htext, htext'] at h
  rw [← hshape, ← hshape', (List.cons.inj h).1]

/-- An entry can be told from its text if its value can. -/
theorem legible_member {level : Nat} {e : Bytes × Document} (hkey : IsText e.1)
    (h : Legible Document.Clean (value level) e.2) :
    Legible (fun e => IsText e.1 ∧ e.2.Clean) (member level) e := by
  rintro ⟨key', d'⟩ rest rest' ⟨hkey', hd'⟩ hrest hrest' heq
  simp only [member, List.append_assoc] at heq
  obtain ⟨hkeys, htail⟩ := string_append_inj hkey hkey' heq
  obtain ⟨hvalues, hrests⟩ := h hd' hrest hrest' (List.append_cancel_left htail)
  exact ⟨Prod.ext hkeys hvalues, hrests⟩

/-- **A clean document can be told from its JSON form**, before everything that breaks off a number.
Induction on the document. -/
theorem legible_value {d : Document} (h : d.Clean) (level : Nat) :
    Legible Document.Clean (value level) d := by
  induction h generalizing level with
  | boolean v =>
      intro d' rest rest' hd' _ _ heq
      have hshape := shape_eq (.boolean v) hd' heq
      cases hd' with
      | boolean v' =>
          cases v <;> cases v'
          · exact ⟨rfl, List.append_cancel_left heq⟩
          · exact absurd (List.cons.inj heq).1 (by decide)
          · exact absurd (List.cons.inj heq).1 (by decide)
          · exact ⟨rfl, List.append_cancel_left heq⟩
      | _ => cases hshape
  | number hfin hpos =>
      intro d' rest rest' hd' hrest hrest' heq
      have hshape := shape_eq (.number hfin hpos) hd' heq
      cases hd' with
      | number hfin' hpos' =>
          obtain ⟨rfl, hrests⟩ := write_append_inj hfin hpos hfin' hpos' hrest hrest' heq
          exact ⟨rfl, hrests⟩
      | _ => cases hshape
  | text htext =>
      intro d' rest rest' hd' _ _ heq
      have hshape := shape_eq (.text htext) hd' heq
      cases hd' with
      | text htext' =>
          obtain ⟨rfl, hrests⟩ := string_append_inj htext htext' heq
          exact ⟨rfl, hrests⟩
      | _ => cases hshape
  | list hitems ih =>
      intro d' rest rest' hd' _ _ heq
      have hshape := shape_eq (.list hitems) hd' heq
      cases hd' with
      | list hitems' =>
          rw [value, value, values_eq_map, values_eq_map] at heq
          obtain ⟨rfl, hrests⟩ := bracketed_append_inj (by decide)
            (fun d hd => ih d hd (level + 1)) hitems' heq
          exact ⟨rfl, hrests⟩
      | _ => cases hshape
  | record hkeys hentries ih =>
      intro d' rest rest' hd' _ _ heq
      have hshape := shape_eq (.record hkeys hentries) hd' heq
      cases hd' with
      | record hkeys' hentries' =>
          rw [value, value, members_eq_map, members_eq_map] at heq
          obtain ⟨rfl, hrests⟩ := bracketed_append_inj (by decide)
            (fun e he => legible_member (hkeys e he) (ih e he (level + 1)))
            (fun e he => ⟨hkeys' e he, hentries' e he⟩) heq
          exact ⟨rfl, hrests⟩
      | _ => cases hshape

/-! ### What has a JSON form -/

/-- Items have no number that is not finite if none of them has. -/
theorem nonFiniteItem?_eq_none {items : List Document} (h : ∀ d ∈ items, d.nonFinite? = none) :
    Document.nonFiniteItem? items = none := by
  induction items with
  | nil => rfl
  | cons d ds ih =>
      rw [List.forall_mem_cons] at h
      rw [Document.nonFiniteItem?, h.1, ih h.2]
      rfl

/-- Entries have no number that is not finite if none of them has. -/
theorem nonFiniteEntry?_eq_none {entries : List (Bytes × Document)}
    (h : ∀ e ∈ entries, e.2.nonFinite? = none) : Document.nonFiniteEntry? entries = none := by
  induction entries with
  | nil => rfl
  | cons e es ih =>
      rw [List.forall_mem_cons] at h
      rw [Document.nonFiniteEntry?, h.1, ih h.2]
      rfl

/-- Every number in a clean document is finite. -/
theorem nonFinite?_of_clean {d : Document} (h : d.Clean) : d.nonFinite? = none := by
  induction h with
  | boolean | text => rw [Document.nonFinite?]
  | number hfin _ => rw [Document.nonFinite?, if_pos hfin]
  | list _ ih => rw [Document.nonFinite?, nonFiniteItem?_eq_none ih]
  | record _ _ ih => rw [Document.nonFinite?, nonFiniteEntry?_eq_none ih]

/-- **A clean document is rendered.** -/
theorem render_of_clean {d : Document} (h : d.Clean) :
    render d = .ok (value 0 d ++ [byte '\n']) := by
  rw [render, nonFinite?_of_clean h]

/-- **A clean document can be told from its JSON text.** -/
theorem value_inj {d d' : Document} (hd : d.Clean) (hd' : d'.Clean) :
    value 0 d ++ [byte '\n'] = value 0 d' ++ [byte '\n'] ↔ d = d' := by
  refine ⟨?_, fun h => by rw [h]⟩
  intro h
  exact (legible_value hd 0 hd' (stops_cons (by decide) []) (stops_cons (by decide) []) h).1

end Json

end ScriptFront

import ScriptFront.Proofs.Number.ReadBack
import ScriptFront.Token.Basic

/-!
# Texts of Lines

Dumps and lists of tokens are written line by line. A text is **on one line** if it has no line feed
(`OneLine`). Numerals and the names of kinds are, and so is everything that is written between
quotes, whatever it stands for: both ways of quoting have an escape for the line feed
(`Literal.oneLine_quote`, `Quoted.oneLine_text`).

Lines with a line feed behind each **can be told apart again** (`splitAt_lines`), and there are as
many line feeds as lines (`count_lines`).
-/

namespace ScriptFront

open Text

namespace Text

/-! ### Lines in a row -/

/-- A text has at least one part. -/
theorem splitAt_ne_nil (mark : UInt8) (text : Bytes) : splitAt mark text ≠ [] := by
  induction text with
  | nil => exact List.cons_ne_nil _ _
  | cons b rest ih =>
      rw [splitAt]
      split
      · exact List.cons_ne_nil _ _
      · split <;> exact List.cons_ne_nil _ _

/-- The first part goes up to the first mark. -/
theorem splitAt_append {mark : UInt8} {row : Bytes} (h : mark ∉ row) (rest : Bytes) :
    splitAt mark (row ++ mark :: rest) = row :: splitAt mark rest := by
  induction row with
  | nil =>
      obtain ⟨part, parts, hparts⟩ := List.exists_cons_of_ne_nil (splitAt_ne_nil mark rest)
      simp [splitAt, hparts]
  | cons b row ih =>
      rw [List.mem_cons, not_or] at h
      have hb : (b == mark) = false := beq_false_of_ne (Ne.symm h.1)
      rw [List.cons_append, splitAt, ih h.2]
      simp [hb]

/-- **Parts with a mark behind each are told apart by their marks.** Nothing is behind the last
mark. -/
theorem splitAt_lines {mark : UInt8} {rows : List Bytes} (h : ∀ row ∈ rows, mark ∉ row) :
    splitAt mark (rows.flatMap (· ++ [mark])) = rows ++ [[]] := by
  induction rows with
  | nil => rfl
  | cons row rows ih =>
      rw [List.forall_mem_cons] at h
      rw [List.flatMap_cons, List.append_assoc, List.singleton_append, splitAt_append h.1, ih h.2]
      rfl

/-- There are as many marks as lines that end in one. -/
theorem count_lines {mark : UInt8} {rows : List Bytes} (h : ∀ row ∈ rows, mark ∉ row) :
    (rows.flatMap (· ++ [mark])).count mark = rows.length := by
  induction rows with
  | nil => rfl
  | cons row rows ih =>
      rw [List.forall_mem_cons] at h
      rw [List.flatMap_cons, List.count_append, List.count_append, List.count_eq_zero.mpr h.1,
        ih h.2, List.count_singleton_self, List.length_cons]
      omega

end Text

/-! ### Texts on one line -/

/-- A text **on one line**: it has no line feed. -/
def OneLine (text : Bytes) : Prop :=
  byte '\n' ∉ text

/-- Whether a text is on one line can be decided. -/
instance (text : Bytes) : Decidable (OneLine text) :=
  inferInstanceAs (Decidable (_ ∉ _))

section

variable {b : UInt8} {text text' : Bytes}

/-- The empty text is on one line. -/
@[simp] theorem oneLine_nil : OneLine [] :=
  List.not_mem_nil

/-- A text is on one line if its first byte is no line feed and the others are on one. -/
@[simp] theorem oneLine_cons : OneLine (b :: text) ↔ b ≠ byte '\n' ∧ OneLine text := by
  rw [OneLine, List.mem_cons, not_or, ne_comm, OneLine]

/-- Texts together are on one line if both are. -/
@[simp] theorem oneLine_append : OneLine (text ++ text') ↔ OneLine text ∧ OneLine text' := by
  rw [OneLine, List.mem_append, not_or, OneLine, OneLine]

/-- Texts one after the other are on one line if each of them is. -/
@[simp] theorem oneLine_flatMap {α : Type} {as : List α} {f : α → Bytes} :
    OneLine (as.flatMap f) ↔ ∀ a ∈ as, OneLine (f a) := by
  simp [OneLine]

/-- Texts on one line are on one line with a separator between neighbours. -/
theorem oneLine_join {separator : Bytes} (hsep : OneLine separator) {parts : List Bytes}
    (h : ∀ part ∈ parts, OneLine part) : OneLine (join separator parts) := by
  cases parts with
  | nil => exact oneLine_nil
  | cons part parts =>
      rw [List.forall_mem_cons] at h
      rw [join_cons, oneLine_append, oneLine_flatMap]
      exact ⟨h.1, fun part hpart => oneLine_append.mpr ⟨hsep, h.2 part hpart⟩⟩

end

/-! ### Numerals and names -/

/-- A character other than the line feed is on one line. -/
theorem oneLine_char {c : Char} (h : c ≠ '\n') : OneLine (String.utf8EncodeChar c) := by
  intro hmem
  have hfeed := (Rune.mem_bytes_iff (r := .char c) trivial (by decide)).mp hmem
  exact h (Rune.char.inj hfeed)

/-- Digits are on one line. -/
theorem oneLine_digits {cs : List Char} (h : ∀ c ∈ cs, c.isDigit = true) :
    OneLine (cs.map byte) := by
  intro hmem
  obtain ⟨c, hc, heq⟩ := List.mem_map.mp hmem
  exact Numeral.byte_ne_of_isDigit (h c hc) (by decide) (by decide) heq

/-- The decimal form of an integer is on one line. -/
theorem oneLine_integer (n : Int) : OneLine (integer n) := by
  have hdecimal (n : Nat) : OneLine (decimal n) :=
    oneLine_digits fun _ => isDigit_of_mem_toDigits
  cases n with
  | ofNat n => exact hdecimal n
  | negSucc n => exact oneLine_cons.mpr ⟨by decide, hdecimal (n + 1)⟩

/-- A hexadecimal number is on one line. -/
theorem oneLine_hex (width n : Nat) : OneLine (hex width n) := by
  have hdigit : ∀ d < 16, byte (Nat.digitChar d) ≠ byte '\n' := by decide
  induction width generalizing n with
  | zero => exact oneLine_nil
  | succ width ih =>
      rw [hex, oneLine_append, oneLine_cons]
      exact ⟨ih _, hdigit _ (Nat.mod_lt n (by decide)), oneLine_nil⟩

/-- What is shown of a span is on one line. -/
theorem Span.oneLine_text (s : Span) : OneLine s.text := by
  simp +decide [text, oneLine_integer]

/-- The name of a kind is on one line. -/
theorem Kind.oneLine_name (k : Kind) : OneLine k.name := by
  cases k with
  | keyword k => cases k <;> decide
  | punctuator p => cases p <;> decide
  | other n => simp +decide [name, oneLine_integer]
  | _ => decide

/-! ### Quotes -/

/-- **A literal is on one line**, whatever it denotes. -/
theorem Literal.oneLine_quote (value : Bytes) : OneLine (quote value) := by
  have hescape : ∀ b, OneLine (escape b) := by
    intro b
    unfold escape
    repeat' split
    all_goals first | decide | exact oneLine_cons.mpr ⟨‹_›, oneLine_nil⟩
  simp +decide [quote, hescape]

namespace Text.Quoted

/-- The number of a character is on one line. -/
theorem oneLine_numbered (c : Char) : OneLine (numbered c) := by
  unfold numbered
  split
  · simp +decide [oneLine_hex]
  · split <;> simp +decide [oneLine_hex]

/-- A rune between quotes is on one line: the line feed is not printable. -/
theorem oneLine_rune {mark : Char} (hmark : mark ≠ '\n') (r : Rune) : OneLine (rune mark r) := by
  cases r with
  | invalid b => simp +decide [rune, oneLine_hex]
  | char c =>
      rw [rune]
      split
      · next hc =>
        simp only [Bool.or_eq_true, decide_eq_true_eq] at hc
        refine oneLine_cons.mpr ⟨by decide, oneLine_char ?_⟩
        rcases hc with rfl | rfl
        · exact hmark
        · decide
      · split
        · next hprint =>
          refine oneLine_char ?_
          rintro rfl
          cases hprint
        · split
          · next letter hletter =>
            unfold controlLetter? at hletter
            split at hletter <;> cases hletter <;> decide
          · exact oneLine_numbered c

/-- **Quoted text is on one line**, whatever it quotes. -/
theorem oneLine_text (bs : Bytes) : OneLine (text bs) := by
  have hmark : '"' ≠ '\n' := by decide
  simp +decide [text, runes, oneLine_rune hmark]

end Text.Quoted

end ScriptFront

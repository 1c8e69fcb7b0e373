import ScriptFront.Number.Numeral
import ScriptFront.Program.Dump
import ScriptFront.Proofs.Number.Rounding
import ScriptFront.Proofs.Text.Encoding

/-!
# Numbers Read Back

A number token is plain digits, with a point and more digits if it has a fraction
(`Numeral.plain`). Of all the texts that denote a number these are the simplest, and reading one is
rounding the quotient that its digits spell (`Numeral.read?_plain`).

**Every finite number that is not negative is written as such a text, and reads back from it**
(`Expr.numberStyle_write`): the digits are those of the shortest decimal, and positional notation
only moves the point.
-/

namespace ScriptFront

open Text

/-! ### Digits -/

/-- A digit lies between the numbers of `0` and `9`. -/
theorem toNat_of_isDigit {c : Char} (h : c.isDigit = true) : 48 ≤ c.toNat ∧ c.toNat ≤ 57 := by
  simp only [Char.isDigit, Bool.and_eq_true, decide_eq_true_eq, ge_iff_le,
    UInt32.le_iff_toNat_le] at h
  exact h

/-- The byte of a digit has the number of the digit. -/
theorem toNat_byte_of_isDigit {c : Char} (h : c.isDigit = true) : (byte c).toNat = c.toNat := by
  have hc := toNat_of_isDigit h
  exact toNat_byte (by omega)

/-- The byte of a digit is a digit. -/
theorem isDigit_byte {c : Char} (h : c.isDigit = true) : isDigit (byte c) = true := by
  have hc := toNat_of_isDigit h
  have hb := toNat_byte_of_isDigit h
  have h0 : (byte '0').toNat = 48 := rfl
  have h9 : (byte '9').toNat = 57 := rfl
  simp only [isDigit, Bool.and_eq_true, decide_eq_true_eq, UInt8.le_iff_toNat_le]
  omega

/-- A run of elements of a class is cut off where something else comes. -/
theorem span_run {α : Type} {p : α → Bool} {run rest : List α} (hrun : ∀ a ∈ run, p a = true)
    (hrest : rest.takeWhile p = []) :
    (run ++ rest).takeWhile p = run ∧ (run ++ rest).dropWhile p = rest := by
  have hsplit := List.takeWhile_append_dropWhile (p := p) (l := rest)
  rw [hrest, List.nil_append] at hsplit
  rw [List.takeWhile_append_of_pos hrun, List.dropWhile_append_of_pos hrun, hrest, hsplit,
    List.append_nil]
  exact ⟨rfl, rfl⟩

namespace Numeral

/-- **Plain digits**: a whole number, and a point before the digits of a fraction if there are
any. -/
def plain (whole fraction : List Char) : List Char :=
  if fraction = [] then whole else whole ++ '.' :: fraction

/-- A character of plain digits is a digit or the point. -/
theorem isDigit_or_of_mem_plain {whole fraction : List Char} (hw : ∀ c ∈ whole, c.isDigit = true)
    (hf : ∀ c ∈ fraction, c.isDigit = true) {c : Char} (h : c ∈ plain whole fraction) :
    c.isDigit = true ∨ c = '.' := by
  rw [plain] at h
  split at h
  · exact .inl (hw c h)
  · rcases List.mem_append.mp h with h | h
    · exact .inl (hw c h)
    · rcases List.mem_cons.mp h with h | h
      · exact .inr h
      · exact .inl (hf c h)

/-! ### Reading plain digits -/

/-- Bytes of digits have the value that the digits have. -/
theorem value_map_byte {digits : List Char} (h : ∀ c ∈ digits, c.isDigit = true) :
    value (digits.map byte) = Nat.ofDigitChars 10 digits 0 := by
  have hfold (n : Nat) : (digits.map byte).foldl (fun n b => 10 * n + digitValue b) n =
      Nat.ofDigitChars 10 digits n := by
    induction digits generalizing n with
    | nil => rfl
    | cons c cs ih =>
        have hc := toNat_byte_of_isDigit (h c List.mem_cons_self)
        rw [List.map_cons, List.foldl_cons, ih fun c' hc' => h c' (List.mem_cons_of_mem _ hc'),
          Nat.ofDigitChars_cons, digitValue, hc]
        rfl
  exact hfold 0

/-- Without separators there is nothing to fit. -/
theorem separatorsFit_of_forall {isDigit : UInt8 → Bool} {text : Bytes}
    (h : ∀ b ∈ text, isSeparator b = false) {mark : Mark} (hmark : mark ≠ .separator) :
    separatorsFit isDigit mark text = true := by
  induction text generalizing mark with
  | nil => simp [separatorsFit, hmark]
  | cons b rest ih =>
      have hrest : ∀ b ∈ rest, isSeparator b = false :=
        fun b hb => h b (List.mem_cons_of_mem _ hb)
      rw [separatorsFit]
      split
      · exact ih hrest (by decide)
      · rw [h b List.mem_cons_self, if_neg Bool.false_ne_true, ih hrest (by decide)]
        simp [hmark]

/-- No digit and no point separates digits. -/
theorem not_isSeparator {c : Char} (h : c.isDigit = true ∨ c = '.') :
    isSeparator (byte c) = false := by
  rcases h with h | rfl
  · have hc := toNat_of_isDigit h
    have hb := toNat_byte_of_isDigit h
    simp only [isSeparator, decide_eq_false_iff_not]
    intro heq
    rw [heq, show (byte '_').toNat = 95 from rfl] at hb
    omega
  · decide

/-- Bytes of digits are digits. -/
theorem forall_mem_map_byte {digits : List Char} (h : ∀ c ∈ digits, c.isDigit = true) :
    ∀ b ∈ digits.map byte, isDigit b = true := by
  intro b hb
  obtain ⟨c, hc, rfl⟩ := List.mem_map.mp hb
  exact isDigit_byte (h c hc)

/-- Digits are cut off where neither a digit nor a separator comes. -/
theorem span_digits {digits : List Char} (h : ∀ c ∈ digits, c.isDigit = true) {rest : Bytes}
    (hrest : rest.takeWhile (fun b => isDigit b || isSeparator b) = []) :
    (digits.map byte ++ rest).takeWhile (fun b => isDigit b || isSeparator b) = digits.map byte ∧
      (digits.map byte ++ rest).dropWhile (fun b => isDigit b || isSeparator b) = rest := by
  refine span_run ?_ hrest
  intro b hb
  rw [forall_mem_map_byte h b hb, Bool.true_or]

/-- Plain digits are divided at the point. -/
theorem divide?_plain {whole fraction : List Char} (hne : whole ≠ [])
    (hw : ∀ c ∈ whole, c.isDigit = true) (hf : ∀ c ∈ fraction, c.isDigit = true) :
    divide? isDigit 'e' ((plain whole fraction).map byte) =
      some (whole.map byte, fraction.map byte, none) := by
  have hnil : whole.map byte ≠ [] := fun h => hne (List.map_eq_nil_iff.mp h)
  have hwhole := List.filter_eq_self.mpr (forall_mem_map_byte hw)
  have hfraction := List.filter_eq_self.mpr (forall_mem_map_byte hf)
  rw [plain]
  split
  · next h =>
    subst h
    obtain ⟨htake, hdrop⟩ := span_digits hw List.takeWhile_nil
    rw [List.append_nil] at htake hdrop
    simp only [divide?, htake, hdrop, hwhole, List.filter_nil, hnil, decide_false, Bool.false_and,
      Bool.false_eq_true, if_false, exponent?]
    rfl
  · have hpoint : (byte '.' :: fraction.map byte).takeWhile
        (fun b => isDigit b || isSeparator b) = [] := List.takeWhile_cons_of_neg (by decide)
    obtain ⟨htake, hdrop⟩ := span_digits hw hpoint
    obtain ⟨htake', hdrop'⟩ := span_digits hf List.takeWhile_nil
    rw [List.append_nil] at htake' hdrop'
    rw [List.map_append, List.map_cons]
    simp only [divide?, htake, hdrop, if_true, htake', hdrop', hwhole, hfraction, hnil,
      decide_false, Bool.false_and, Bool.false_eq_true, if_false, exponent?]
    rfl

/-- The parts of plain digits are the digits. -/
theorem decimal?_plain {whole fraction : List Char} (hne : whole ≠ [])
    (hw : ∀ c ∈ whole, c.isDigit = true) (hf : ∀ c ∈ fraction, c.isDigit = true) :
    decimal? ((plain whole fraction).map byte) =
      some ⟨whole.map byte, fraction.map byte, 0⟩ := by
  have hfit : separatorsFit isDigit .start ((plain whole fraction).map byte) = true := by
    refine separatorsFit_of_forall ?_ (by decide)
    intro b hb
    obtain ⟨c, hc, rfl⟩ := List.mem_map.mp hb
    exact not_isSeparator (isDigit_or_of_mem_plain hw hf hc)
  rw [decimal?, if_pos hfit, divide?_plain hne hw hf]
  rfl

/-- A digit has another byte than a character that is none. -/
theorem byte_ne_of_isDigit {c c' : Char} (h : c.isDigit = true) (h' : c'.isDigit = false)
    (hlt : c'.toNat < 128) : byte c ≠ byte c' := by
  intro heq
  have hnat := congrArg UInt8.toNat heq
  rw [toNat_byte_of_isDigit h, toNat_byte hlt] at hnat
  rw [Char.toNat_inj.mp hnat, h'] at h
  cases h

/-- Digits and points have no other case. -/
theorem lower_byte {c : Char} (h : c.isDigit = true ∨ c = '.') : lower (byte c) = byte c := by
  rcases h with h | rfl
  · have hc := toNat_of_isDigit h
    have hb := toNat_byte_of_isDigit h
    have hA : (byte 'A').toNat = 65 := rfl
    rw [lower, if_neg]
    simp only [Bool.and_eq_true, decide_eq_true_eq, UInt8.le_iff_toNat_le]
    omega
  · decide

/-- A text without an `x` is read as a decimal. -/
theorem unsigned?_of_forall {text : Bytes} (h : ∀ b ∈ text, lower b ≠ byte 'x') :
    unsigned? text = (decimal? text).bind decimalValue? := by
  simp only [unsigned?]
  split
  · rw [if_neg]
    rintro ⟨-, hx⟩
    exact h _ (List.mem_cons_of_mem _ List.mem_cons_self) hx
  · rfl

/-- **Plain digits denote the number nearest to what they spell.** A text that begins with a digit
has no sign and is none of the words. -/
theorem read?_plain {whole fraction : List Char} (hne : whole ≠ [])
    (hw : ∀ c ∈ whole, c.isDigit = true) (hf : ∀ c ∈ fraction, c.isDigit = true) :
    read? ((plain whole fraction).map byte) =
      Decimal.toBinary? ⟨Nat.ofDigitChars 10 (whole ++ fraction) 0, -fraction.length⟩ := by
  have hmem : ∀ c ∈ plain whole fraction, c.isDigit = true ∨ c = '.' :=
    fun c => isDigit_or_of_mem_plain hw hf
  have hunsigned : unsigned? ((plain whole fraction).map byte) =
      Decimal.toBinary? ⟨Nat.ofDigitChars 10 (whole ++ fraction) 0, -fraction.length⟩ := by
    rw [unsigned?_of_forall, decimal?_plain hne hw hf, Option.bind_some, decimalValue?,
      ← List.map_append, value_map_byte, List.length_map, Int.zero_sub]
    · intro c hc
      rcases List.mem_append.mp hc with hc | hc
      · exact hw c hc
      · exact hf c hc
    · intro b hb
      obtain ⟨c, hc, rfl⟩ := List.mem_map.mp hb
      rw [lower_byte (hmem c hc)]
      rcases hmem c hc with h | rfl
      · exact byte_ne_of_isDigit h (by decide) (by decide)
      · decide
  obtain ⟨c, rest, hplain, hc⟩ : ∃ c rest, plain whole fraction = c :: rest ∧
      c.isDigit = true := by
    obtain ⟨c, cs, rfl⟩ := List.exists_cons_of_ne_nil hne
    rw [plain]
    split
    · exact ⟨c, cs, rfl, hw c List.mem_cons_self⟩
    · exact ⟨c, cs ++ '.' :: fraction, rfl, hw c List.mem_cons_self⟩
  have hword (w : Bytes) (b : UInt8) (hb : byte c ≠ b) :
      (byte c :: rest.map byte).map lower ≠ b :: w := by
    rw [List.map_cons, lower_byte (.inl hc)]
    intro heq
    exact hb (List.cons.inj heq).1
  have hother (c' : Char) (h' : c'.isDigit = false) (hlt : c'.toNat < 128) : byte c ≠ byte c' :=
    byte_ne_of_isDigit hc h' hlt
  have hinf : isInfinity (byte c :: rest.map byte) = false := by
    have h₁ := hword (utf8 "nf") (byte 'i') (hother 'i' (by decide) (by decide))
    have h₂ := hword (utf8 "nfinity") (byte 'i') (hother 'i' (by decide) (by decide))
    rw [isInfinity, Bool.or_eq_false_iff, decide_eq_false_iff_not, decide_eq_false_iff_not]
    exact ⟨h₁, h₂⟩
  have hnan : (byte c :: rest.map byte).map lower ≠ utf8 "nan" :=
    hword (utf8 "an") (byte 'n') (hother 'n' (by decide) (by decide))
  rw [hplain, List.map_cons] at hunsigned ⊢
  rw [read?, if_neg (hother '-' (by decide) (by decide)),
    if_neg (hother '+' (by decide) (by decide)), if_neg hnan, signed?, hinf,
    if_neg Bool.false_ne_true, hunsigned]
  exact Option.map_id'

end Numeral

/-! ### Writing -/

open Numeral

/-- Zeros are digits. -/
theorem isDigit_of_mem_replicate {k : Nat} {c : Char} (h : c ∈ List.replicate k '0') :
    c.isDigit = true := by
  rw [List.eq_of_mem_replicate h]
  rfl

/-- The digits of a number are digits. -/
theorem isDigit_of_mem_toDigits {n : Nat} {c : Char} (h : c ∈ Nat.toDigits 10 n) :
    c.isDigit = true :=
  Nat.isDigit_of_mem_toDigits (by decide) (by decide) h

/-- **The decimal form of a number has its value.** -/
theorem value_decimal (n : Nat) : value (decimal n) = n := by
  rw [decimal, value_map_byte fun _ => isDigit_of_mem_toDigits,
    Nat.ofDigitChars_ten_toDigits]

/-- A natural number can be told from its decimal form. -/
theorem decimal_inj {m n : Nat} (h : decimal m = decimal n) : m = n := by
  rw [← value_decimal m, h, value_decimal]

/-- A number in decimal has no sign. -/
theorem decimal_ne_minus (n : Nat) (text : Bytes) : decimal n ≠ byte '-' :: text := by
  intro h
  have hmem : byte '-' ∈ decimal n := h ▸ List.mem_cons_self
  obtain ⟨c, hc, hbyte⟩ := List.mem_map.mp hmem
  exact byte_ne_of_isDigit (isDigit_of_mem_toDigits hc) (by decide) (by decide) hbyte

/-- An integer can be told from its decimal form. -/
theorem integer_inj {m n : Int} (h : integer m = integer n) : m = n := by
  cases m <;> cases n
  · exact congrArg Int.ofNat (decimal_inj h)
  · exact absurd h (decimal_ne_minus _ _)
  · exact absurd h.symm (decimal_ne_minus _ _)
  · have hsize := decimal_inj (List.cons.inj h).2
    exact congrArg Int.negSucc (by omega)

/-- **Positional notation is plain digits**, and they denote the decimal. -/
theorem NumberStyle.positional_plain (n : Nat) (e : Int) :
    ∃ whole fraction : List Char, whole ≠ [] ∧ (∀ c ∈ whole, c.isDigit = true) ∧
      (∀ c ∈ fraction, c.isDigit = true) ∧
      positional (decimal n) e = (Numeral.plain whole fraction).map byte ∧
      Decimal.toBinary? ⟨Nat.ofDigitChars 10 (whole ++ fraction) 0, -fraction.length⟩ =
        Decimal.toBinary? ⟨n, e⟩ := by
  have hlen : (decimal n).length = (Nat.toDigits 10 n).length := List.length_map _
  cases e with
  | ofNat k =>
      refine ⟨Nat.toDigits 10 n ++ List.replicate k '0', [], ?_, ?_, nofun, ?_, ?_⟩
      · simp [Nat.toDigits_ne_nil]
      · intro c hc
        rcases List.mem_append.mp hc with hc | hc
        · exact isDigit_of_mem_toDigits hc
        · exact isDigit_of_mem_replicate hc
      · simp [Numeral.plain, positional, zeros, decimal]
      · rw [List.append_nil, Nat.ofDigitChars_append, Nat.ofDigitChars_ten_toDigits,
          Nat.ofDigitChars_replicate_zero, Nat.mul_comm]
        show Binary64.ofRatio? (n * 10 ^ k * 1) 1 = Binary64.ofRatio? (n * 10 ^ k) 1
        rw [Nat.mul_one]
  | negSucc k =>
      have hexp : -((k + 1 : Nat) : Int) = Int.negSucc k := rfl
      by_cases hshort : k + 1 < (Nat.toDigits 10 n).length
      · have hdrop : ((Nat.toDigits 10 n).drop ((Nat.toDigits 10 n).length - (k + 1))).length =
            k + 1 := by
          rw [List.length_drop]
          omega
        refine ⟨(Nat.toDigits 10 n).take ((Nat.toDigits 10 n).length - (k + 1)),
          (Nat.toDigits 10 n).drop ((Nat.toDigits 10 n).length - (k + 1)), ?_,
          fun c hc => isDigit_of_mem_toDigits (List.mem_of_mem_take hc),
          fun c hc => isDigit_of_mem_toDigits (List.mem_of_mem_drop hc), ?_, ?_⟩
        · rw [← List.length_pos_iff, List.length_take]
          omega
        · have hne : (Nat.toDigits 10 n).drop ((Nat.toDigits 10 n).length - (k + 1)) ≠ [] := by
            rw [← List.length_pos_iff, hdrop]
            omega
          rw [positional, if_pos (by omega), hlen, Numeral.plain, if_neg hne, List.map_append,
            List.map_cons, List.map_take, List.map_drop, decimal]
        · rw [List.take_append_drop, Nat.ofDigitChars_ten_toDigits, hdrop, hexp]
      · have hlength : (List.replicate (k + 1 - (Nat.toDigits 10 n).length) '0'
            ++ Nat.toDigits 10 n).length = k + 1 := by
          rw [List.length_append, List.length_replicate]
          omega
        refine ⟨['0'], List.replicate (k + 1 - (Nat.toDigits 10 n).length) '0'
          ++ Nat.toDigits 10 n, nofun, fun _ => isDigit_of_mem_replicate (k := 1), ?_, ?_, ?_⟩
        · intro c hc
          rcases List.mem_append.mp hc with hc | hc
          · exact isDigit_of_mem_replicate hc
          · exact isDigit_of_mem_toDigits hc
        · have hne : List.replicate (k + 1 - (Nat.toDigits 10 n).length) '0'
              ++ Nat.toDigits 10 n ≠ [] := by
            simp [Nat.toDigits_ne_nil]
          have hpoint : utf8 "0." = ['0', '.'].map byte := rfl
          rw [positional, if_neg (by omega), hlen, Numeral.plain, if_neg hne, hpoint, zeros,
            decimal]
          simp
        · rw [hlength, hexp]
          have hzero : Nat.ofDigitChars 10 ['0'] 0 = 0 := rfl
          rw [Nat.ofDigitChars_append, hzero, Nat.ofDigitChars_append,
            Nat.ofDigitChars_replicate_zero, Nat.mul_zero, Nat.ofDigitChars_ten_toDigits]

/-- **A finite number that is not negative is written in plain digits and reads back.** -/
theorem Expr.numberStyle_write {x : Binary64} (hfin : x.isFinite = true)
    (hpos : x.isNegative = false) :
    ∃ whole fraction : List Char, whole ≠ [] ∧ (∀ c ∈ whole, c.isDigit = true) ∧
      (∀ c ∈ fraction, c.isDigit = true) ∧
      numberStyle.write x = (plain whole fraction).map byte ∧
      read? (numberStyle.write x) = some x := by
  have hwrite : numberStyle.write x = numberStyle.magnitude x := by
    simp [NumberStyle.write, Binary64.isNaN, hfin, hpos]
  rw [hwrite]
  by_cases hzero : x.isZero = true
  · have hx : x = ⟨0⟩ := by
      simp only [Binary64.isZero, Bool.and_eq_true, decide_eq_true_eq] at hzero
      have hbits := Binary64.bits_eq hpos
      rw [hzero.1, hzero.2, Nat.zero_mul] at hbits
      cases x
      rw [Binary64.mk.injEq, ← UInt64.toNat_inj, hbits]
      rfl
    rw [hx]
    exact ⟨['0'], [], nofun, fun _ => isDigit_of_mem_replicate (k := 1), nofun, rfl, rfl⟩
  · obtain ⟨whole, fraction, hne, hw, hf, heq, hvalue⟩ :=
      NumberStyle.positional_plain (Decimal.shortest x).digits (Decimal.shortest x).exponent
    have hmagnitude : numberStyle.magnitude x =
        NumberStyle.positional (decimal (Decimal.shortest x).digits)
          (Decimal.shortest x).exponent := by
      rw [NumberStyle.magnitude, if_neg hzero]
      rfl
    rw [hmagnitude, heq, read?_plain hne hw hf, hvalue]
    exact ⟨whole, fraction, hne, hw, hf, rfl, Decimal.toBinary?_shortest hfin hpos⟩

end ScriptFront

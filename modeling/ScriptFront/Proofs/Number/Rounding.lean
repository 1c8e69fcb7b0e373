import ScriptFront.Number.Decimal

/-!
# Rounding a Quotient

The number nearest to a quotient depends on **the value of the quotient alone**
(`Binary64.ofRatio?_mul`), and a quotient that is the value of a number is rounded to that number
(`Binary64.ofRatio?_ratio`). Together they say that a decimal with all digits of a number reads back
as the number, and that trailing zeros do not matter (`Decimal.toBinary?_shortest`).

What makes the value alone decide is that the unit of rounding is determined by two inequalities
(`Binary64.IsUnit`): in that unit the quotient has at most fifty-three bits, and no fewer unless the
unit is the least there is.
-/

namespace ScriptFront

namespace Binary64

/-! ### Moving the unit -/

/-- The denominator of a quotient in units is positive. -/
theorem unscale_pos {n d : Nat} (hd : 0 < d) (k : Int) : 0 < (unscale n d k).2 := by
  cases k with
  | ofNat k => exact Nat.mul_pos hd (Nat.pow_pos (by decide))
  | negSucc k => exact hd

/-- A unit twice as large halves the quotient. -/
theorem unscale_succ (n d : Nat) (k : Int) :
    (unscale n d k).1 * (unscale n d (k + 1)).2 =
      2 * ((unscale n d (k + 1)).1 * (unscale n d k).2) := by
  cases k with
  | ofNat k =>
      have hpow : Nat.pow 2 (k + 1) = Nat.pow 2 k * 2 := Nat.pow_succ 2 k
      show n * (d * Nat.pow 2 (k + 1)) = 2 * (n * (d * Nat.pow 2 k))
      rw [hpow]
      ac_rfl
  | negSucc k =>
      cases k with
      | zero =>
          show n * 2 * (d * 1) = 2 * (n * d)
          rw [Nat.mul_one]
          ac_rfl
      | succ k =>
          have hpow : Nat.pow 2 (k + 1 + 1) = Nat.pow 2 (k + 1) * 2 := Nat.pow_succ 2 (k + 1)
          show n * Nat.pow 2 (k + 1 + 1) * d = 2 * (n * Nat.pow 2 (k + 1) * d)
          rw [hpow]
          ac_rfl

/-- A bound on the quotient halves with it. -/
theorem lt_two_mul_iff {n d : Nat} (hd : 0 < d) (k : Int) (m : Nat) :
    (unscale n d k).1 < 2 * m * (unscale n d k).2 ↔
      (unscale n d (k + 1)).1 < m * (unscale n d (k + 1)).2 := by
  have hb := unscale_pos (n := n) hd k
  have hb' := unscale_pos (n := n) hd (k + 1)
  have hcross := unscale_succ n d k
  generalize (unscale n d k).1 = a, (unscale n d k).2 = b, (unscale n d (k + 1)).1 = a',
    (unscale n d (k + 1)).2 = b' at *
  calc a < 2 * m * b
      ↔ a * b' < 2 * m * b * b' := (Nat.mul_lt_mul_right hb').symm
    _ ↔ 2 * b * a' < 2 * b * (m * b') := by
        rw [hcross, show 2 * (a' * b) = 2 * b * a' by ac_rfl,
          show 2 * m * b * b' = 2 * b * (m * b') by ac_rfl]
    _ ↔ a' < m * b' := Nat.mul_lt_mul_left (by omega)

/-- A bound on the quotient stays one in larger units. -/
theorem lt_of_le {n d : Nat} (hd : 0 < d) {k k' : Int} (hk : k ≤ k') {m : Nat}
    (h : (unscale n d k).1 < m * (unscale n d k).2) :
    (unscale n d k').1 < m * (unscale n d k').2 := by
  obtain ⟨j, rfl⟩ : ∃ j : Nat, k' = k + j := ⟨(k' - k).toNat, by omega⟩
  clear hk
  induction j with
  | zero =>
      rw [Int.natCast_zero, Int.add_zero]
      exact h
  | succ j ih =>
      have hle : m * (unscale n d (k + j)).2 ≤ 2 * m * (unscale n d (k + j)).2 :=
        Nat.mul_le_mul_right _ (by omega)
      have hnext := (lt_two_mul_iff hd (k + j) m).mp (Nat.lt_of_lt_of_le ih hle)
      rw [Int.natCast_succ, ← Int.add_assoc]
      exact hnext

/-- The **unit of rounding** of a quotient. -/
structure IsUnit (n d : Nat) (k : Int) : Prop where
  least_le : -1074 ≤ k
  lt_max : (unscale n d k).1 < Nat.pow 2 53 * (unscale n d k).2
  le_or_least : k = -1074 ∨ Nat.pow 2 52 * (unscale n d k).2 ≤ (unscale n d k).1

/-- There is only one unit. -/
theorem IsUnit.unique {n d : Nat} (hd : 0 < d) {k k' : Int} (h : IsUnit n d k)
    (h' : IsUnit n d k') : k = k' := by
  have hnot {k k' : Int} (h : IsUnit n d k) (h' : IsUnit n d k') : ¬k < k' := by
    intro hlt
    have hnext : (unscale n d (k + 1)).1 < Nat.pow 2 52 * (unscale n d (k + 1)).2 :=
      (lt_two_mul_iff hd k (Nat.pow 2 52)).mp h.lt_max
    have hbelow := lt_of_le hd (show k + 1 ≤ k' by omega) hnext
    have hleast := h.least_le
    rcases h'.le_or_least with heq | hle
    · omega
    · omega
  have h₁ := hnot h h'
  have h₂ := hnot h' h
  omega

/-- By the sizes of numerator and denominator the quotient has fifty-three or fifty-four bits in
this unit. -/
theorem unscale_log2 {n d : Nat} (hn : n ≠ 0) (hd : d ≠ 0) {q : Int}
    (hq : (n.log2 : Int) - d.log2 - 53 = q) :
    Nat.pow 2 52 * (unscale n d q).2 ≤ (unscale n d q).1 ∧
      (unscale n d q).1 < Nat.pow 2 54 * (unscale n d q).2 := by
  have hnle : Nat.pow 2 n.log2 ≤ n := Nat.log2_self_le hn
  have hnlt : n < Nat.pow 2 (n.log2 + 1) := Nat.lt_log2_self
  have hdle : Nat.pow 2 d.log2 ≤ d := Nat.log2_self_le hd
  have hdlt : d < Nat.pow 2 (d.log2 + 1) := Nat.lt_log2_self
  have hadd (i j : Nat) : Nat.pow 2 (i + j) = Nat.pow 2 i * Nat.pow 2 j := Nat.pow_add 2 i j
  cases q with
  | ofNat k =>
      have hlog : n.log2 = 52 + (d.log2 + 1) + k := by
        simp only [Int.ofNat_eq_natCast] at hq
        omega
      have hpos : 0 < Nat.pow 2 k := Nat.pow_pos (by decide)
      constructor
      · show Nat.pow 2 52 * (d * Nat.pow 2 k) ≤ n
        calc Nat.pow 2 52 * (d * Nat.pow 2 k)
            = Nat.pow 2 52 * d * Nat.pow 2 k := (Nat.mul_assoc _ _ _).symm
          _ ≤ Nat.pow 2 52 * Nat.pow 2 (d.log2 + 1) * Nat.pow 2 k :=
              Nat.mul_le_mul_right _ (Nat.mul_le_mul_left _ (Nat.le_of_lt hdlt))
          _ = Nat.pow 2 n.log2 := by rw [← hadd, ← hadd, hlog]
          _ ≤ n := hnle
      · show n < Nat.pow 2 54 * (d * Nat.pow 2 k)
        calc n < Nat.pow 2 (n.log2 + 1) := hnlt
          _ = Nat.pow 2 54 * Nat.pow 2 d.log2 * Nat.pow 2 k := by
              rw [← hadd, ← hadd, hlog]
              congr 1
              omega
          _ ≤ Nat.pow 2 54 * d * Nat.pow 2 k :=
              Nat.mul_le_mul_right _ (Nat.mul_le_mul_left _ hdle)
          _ = Nat.pow 2 54 * (d * Nat.pow 2 k) := Nat.mul_assoc _ _ _
  | negSucc k =>
      have hlog : n.log2 + (k + 1) = 52 + (d.log2 + 1) := by
        rw [Int.negSucc_eq] at hq
        omega
      have hpos : 0 < Nat.pow 2 (k + 1) := Nat.pow_pos (by decide)
      constructor
      · show Nat.pow 2 52 * d ≤ n * Nat.pow 2 (k + 1)
        calc Nat.pow 2 52 * d
            ≤ Nat.pow 2 52 * Nat.pow 2 (d.log2 + 1) := Nat.mul_le_mul_left _ (Nat.le_of_lt hdlt)
          _ = Nat.pow 2 n.log2 * Nat.pow 2 (k + 1) := by rw [← hadd, ← hadd, hlog]
          _ ≤ n * Nat.pow 2 (k + 1) := Nat.mul_le_mul_right _ hnle
      · show n * Nat.pow 2 (k + 1) < Nat.pow 2 54 * d
        calc n * Nat.pow 2 (k + 1)
            < Nat.pow 2 (n.log2 + 1) * Nat.pow 2 (k + 1) := (Nat.mul_lt_mul_right hpos).mpr hnlt
          _ = Nat.pow 2 54 * Nat.pow 2 d.log2 := by
              rw [← hadd, ← hadd]
              congr 1
              omega
          _ ≤ Nat.pow 2 54 * d := Nat.mul_le_mul_left _ hdle

/-- The exponent of the unit, from the first guess at it. -/
theorem unitExponent_eq {n d : Nat} {k : Int}
    (hk : max (-1074) ((n.log2 : Int) - d.log2 - 53) = k) :
    unitExponent n d =
      if (unscale n d k).1 / (unscale n d k).2 < Nat.pow 2 53 then k else k + 1 := by
  rw [← hk]
  rfl

/-- **The unit that is computed is the unit of rounding.** -/
theorem isUnit_unitExponent {n d : Nat} (hn : n ≠ 0) (hd : d ≠ 0) :
    IsUnit n d (unitExponent n d) := by
  have hpos : 0 < d := Nat.pos_of_ne_zero hd
  obtain ⟨hle, hlt⟩ := unscale_log2 hn hd rfl
  rw [unitExponent_eq rfl]
  generalize (n.log2 : Int) - d.log2 - 53 = q at *
  have hhalf : (unscale n d (q + 1)).1 < Nat.pow 2 53 * (unscale n d (q + 1)).2 :=
    (lt_two_mul_iff hpos q (Nat.pow 2 53)).mp hlt
  have hdiv (k : Int) : (unscale n d k).1 / (unscale n d k).2 < Nat.pow 2 53 ↔
      (unscale n d k).1 < Nat.pow 2 53 * (unscale n d k).2 :=
    Nat.div_lt_iff_lt_mul (unscale_pos hpos k)
  by_cases hq : -1074 ≤ q
  · rw [Int.max_eq_right hq]
    split
    · next h => exact ⟨hq, (hdiv q).mp h, .inr hle⟩
    · next h =>
      refine ⟨by omega, hhalf, .inr (Nat.le_of_not_lt fun hcontra => h ?_)⟩
      exact (hdiv q).mpr ((lt_two_mul_iff hpos q (Nat.pow 2 52)).mpr hcontra)
  · rw [Int.max_eq_left (by omega)]
    have hleast := lt_of_le hpos (show q + 1 ≤ -1074 by omega) hhalf
    rw [if_pos ((hdiv _).mpr hleast)]
    exact ⟨Int.le_refl _, hleast, .inl rfl⟩

/-! ### The value alone decides -/

/-- A common factor of a quotient is one of the quotient in units. -/
theorem unscale_mul (n d m : Nat) (k : Int) :
    unscale (n * m) (d * m) k = ((unscale n d k).1 * m, (unscale n d k).2 * m) := by
  cases k with
  | ofNat k => exact Prod.ext rfl (Nat.mul_right_comm d m _)
  | negSucc k => exact Prod.ext (Nat.mul_right_comm n m _) rfl

/-- A common factor of a quotient does not change the unit. -/
theorem unitExponent_mul {n d m : Nat} (hn : n ≠ 0) (hd : d ≠ 0) (hm : m ≠ 0) :
    unitExponent (n * m) (d * m) = unitExponent n d := by
  have h := isUnit_unitExponent (Nat.mul_ne_zero hn hm) (Nat.mul_ne_zero hd hm)
  have hpos : 0 < m := Nat.pos_of_ne_zero hm
  refine IsUnit.unique (Nat.pos_of_ne_zero hd) (k := unitExponent (n * m) (d * m)) ?_
    (isUnit_unitExponent hn hd)
  have hmax := h.lt_max
  have hleast := h.le_or_least
  rw [unscale_mul, ← Nat.mul_assoc] at hmax hleast
  refine ⟨h.least_le, (Nat.mul_lt_mul_right hpos).mp hmax, hleast.imp id ?_⟩
  exact fun hle => Nat.le_of_mul_le_mul_right hle hpos

/-- A common factor of a quotient does not change what it is rounded to. -/
theorem roundHalfEven_mul {m : Nat} (hm : 0 < m) (a b : Nat) :
    roundHalfEven (a * m) (b * m) = roundHalfEven a b := by
  have hlt : 2 * (a % b * m) < b * m ↔ 2 * (a % b) < b := by
    rw [← Nat.mul_assoc, Nat.mul_lt_mul_right hm]
  have hgt : b * m < 2 * (a % b * m) ↔ b < 2 * (a % b) := by
    rw [← Nat.mul_assoc, Nat.mul_lt_mul_right hm]
  simp only [roundHalfEven, Nat.mul_div_mul_right a b hm, Nat.mul_mod_mul_right, gt_iff_lt, hlt,
    hgt]

/-- **A quotient in other terms is rounded to the same number.** -/
theorem ofRatio?_mul {d m : Nat} (hd : d ≠ 0) (hm : m ≠ 0) (n : Nat) :
    ofRatio? (n * m) (d * m) = ofRatio? n d := by
  by_cases hn : n = 0
  · rw [hn, Nat.zero_mul, ofRatio?, ofRatio?, if_pos rfl, if_pos rfl]
  · have hunit := unitExponent_mul hn hd hm
    have hround := roundHalfEven_mul (Nat.pos_of_ne_zero hm)
      (unscale n d (unitExponent n d)).1 (unscale n d (unitExponent n d)).2
    simp only [ofRatio?, if_neg hn, if_neg (Nat.mul_ne_zero hn hm), hunit, unscale_mul, hround]

/-- A number that comes of rounding is finite and not negative. -/
theorem finite_of_ofRatio? {n d : Nat} {x : Binary64} (h : ofRatio? n d = some x) :
    x.isFinite = true ∧ x.isNegative = false := by
  have hbits : x.bits.toNat < 2047 * Nat.pow 2 52 := by
    rw [ofRatio?] at h
    split at h
    · cases h
      exact Nat.mul_pos (by decide) (Nat.pow_pos (by decide))
    · dsimp only at h
      split at h
      · next hlt =>
        rw [← Option.some.inj h]
        refine Nat.lt_of_le_of_lt ?_ hlt
        rw [Nat.toUInt64, UInt64.toNat_ofNat']
        exact Nat.mod_le _ _
      · cases h
  have h52 : Nat.pow 2 52 = 4503599627370496 := rfl
  have h11 : Nat.pow 2 11 = 2048 := rfl
  have h63 : Nat.pow 2 63 = 9223372036854775808 := rfl
  constructor
  · simp only [isFinite, exponentField, h52, h11, decide_eq_true_eq]
    omega
  · simp only [isNegative, h63, decide_eq_false_iff_not]
    omega

/-! ### Values of numbers -/

/-- The bits of a number that is not negative are its exponent field and its fraction. -/
theorem bits_eq {x : Binary64} (h : x.isNegative = false) :
    x.bits.toNat = x.exponentField * Nat.pow 2 52 + x.fraction := by
  have h52 : Nat.pow 2 52 = 4503599627370496 := rfl
  have h11 : Nat.pow 2 11 = 2048 := rfl
  have h63 : Nat.pow 2 63 = 9223372036854775808 := rfl
  have hlt : x.bits.toNat < 18446744073709551616 := UInt64.toNat_lt x.bits
  simp only [isNegative, h63, decide_eq_false_iff_not] at h
  simp only [exponentField, fraction, h52, h11]
  omega

/-- In the unit of its own exponent, a number is its significand. -/
theorem unscale_ratio (x : Binary64) :
    ∃ c, 0 < c ∧ x.ratio.2 ≠ 0 ∧ (x.ratio.1 = 0 ↔ x.significand = 0) ∧
      unscale x.ratio.1 x.ratio.2 x.exponent = (x.significand * c, c) := by
  rw [ratio]
  cases h : x.exponent with
  | ofNat e =>
      have hpos : 0 < Nat.pow 2 e := Nat.pow_pos (by decide)
      refine ⟨Nat.pow 2 e, hpos, Nat.one_ne_zero, ?_, Prod.ext rfl (Nat.one_mul _)⟩
      rw [Nat.mul_eq_zero]
      exact or_iff_left (Nat.ne_of_gt hpos)
  | negSucc e =>
      have hpos : 0 < Nat.pow 2 (e + 1) := Nat.pow_pos (by decide)
      exact ⟨Nat.pow 2 (e + 1), hpos, Nat.ne_of_gt hpos, Iff.rfl, rfl⟩

/-- A quotient that is a natural number is rounded to it. -/
theorem roundHalfEven_of_dvd {c : Nat} (hc : 0 < c) (m : Nat) : roundHalfEven (m * c) c = m := by
  have hlt : 2 * (m * c % c) < c := by
    rw [Nat.mul_mod_left]
    exact hc
  simp only [roundHalfEven, if_pos hlt, Nat.mul_div_cancel m hc]

/-- **The value of a number is rounded to that number.** -/
theorem ofRatio?_ratio {x : Binary64} (hfin : x.isFinite = true) (hpos : x.isNegative = false) :
    ofRatio? x.ratio.1 x.ratio.2 = some x := by
  have h52 : Nat.pow 2 52 = 4503599627370496 := rfl
  have h53 : Nat.pow 2 53 = 9007199254740992 := rfl
  have hbits := bits_eq hpos
  have hfield : x.exponentField < 2047 := by simpa [isFinite] using hfin
  have hfraction : x.fraction < Nat.pow 2 52 := Nat.mod_lt _ (Nat.pow_pos (by decide))
  obtain ⟨c, hc, hd, hzero, hunscale⟩ := unscale_ratio x
  have hsig : x.significand < Nat.pow 2 53 := by
    rw [significand]
    split <;> omega
  by_cases hn : x.ratio.1 = 0
  · have hsigZero := hzero.mp hn
    rw [significand] at hsigZero
    have hnil : x.bits.toNat = 0 := by
      rw [hbits]
      split at hsigZero
      · next h => rw [h, hsigZero, Nat.zero_mul]
      · omega
    have hx : (⟨0⟩ : Binary64) = x := by
      cases x
      rw [Binary64.mk.injEq, ← UInt64.toNat_inj, hnil]
      rfl
    rw [ofRatio?, if_pos hn, hx]
  · have hunit : unitExponent x.ratio.1 x.ratio.2 = x.exponent := by
      refine IsUnit.unique (Nat.pos_of_ne_zero hd) (isUnit_unitExponent hn hd) ?_
      refine ⟨?_, ?_, ?_⟩
      · rw [exponent]
        split <;> omega
      · rw [hunscale]
        exact (Nat.mul_lt_mul_right hc).mpr hsig
      · rw [hunscale]
        rw [exponent, significand]
        split
        · exact .inl rfl
        · exact .inr (Nat.mul_le_mul_right c (Nat.le_add_right _ _))
    have hsum : (x.exponent + 1074).toNat * Nat.pow 2 52 + x.significand = x.bits.toNat := by
      rw [hbits, exponent, significand]
      split
      · next h =>
        rw [h]
        rfl
      · next h =>
        have hshift : ((x.exponentField : Int) - 1075 + 1074).toNat + 1 = x.exponentField := by
          omega
        rw [← Nat.add_assoc, ← Nat.succ_mul, Nat.succ_eq_add_one, hshift]
    have hlt : x.bits.toNat < 2047 * Nat.pow 2 52 := by
      rw [hbits, h52]
      omega
    simp only [ofRatio?, if_neg hn, hunit, hunscale, roundHalfEven_of_dvd hc, hsum, if_pos hlt]
    rw [Nat.toUInt64, UInt64.ofNat_toNat]

end Binary64

namespace Decimal

open Binary64

/-- A digit moved into the exponent leaves the number. -/
theorem toBinary?_shift (m : Nat) (e : Int) :
    toBinary? ⟨m, e + 1⟩ = toBinary? ⟨m * 10, e⟩ := by
  have hpow (k : Nat) : Nat.pow 10 (k + 1) = Nat.pow 10 k * 10 := Nat.pow_succ 10 k
  cases e with
  | ofNat k =>
      show ofRatio? (m * Nat.pow 10 (k + 1)) 1 = ofRatio? (m * 10 * Nat.pow 10 k) 1
      rw [hpow, Nat.mul_comm (Nat.pow 10 k) 10, Nat.mul_assoc]
  | negSucc k =>
      cases k with
      | zero =>
          show ofRatio? (m * 1) 1 = ofRatio? (m * 10) (1 * 10)
          rw [ofRatio?_mul (by decide) (by decide), Nat.mul_one]
      | succ k =>
          show ofRatio? m (Nat.pow 10 (k + 1)) = ofRatio? (m * 10) (Nat.pow 10 (k + 1 + 1))
          have hne : Nat.pow 10 (k + 1) ≠ 0 := Nat.ne_of_gt (Nat.pow_pos (by decide))
          rw [hpow (k + 1), ofRatio?_mul hne (by decide)]

/-- Zeros at the end of a decimal do not change the nearest number. -/
theorem toBinary?_trimWithin (limit : Nat) (d : Decimal) :
    (trimWithin limit d).toBinary? = d.toBinary? := by
  induction limit generalizing d with
  | zero => rfl
  | succ limit ih =>
      rw [trimWithin]
      split
      · next h =>
        have hdigits : d.digits / 10 * 10 = d.digits := by omega
        rw [ih, toBinary?_shift, hdigits]
      · rfl

/-- All digits of a number read back as it. -/
theorem toBinary?_exact {x : Binary64} (hfin : x.isFinite = true) (hpos : x.isNegative = false) :
    (exact x).toBinary? = some x := by
  have hratio := ofRatio?_ratio hfin hpos
  rw [Binary64.ratio] at hratio
  rw [exact]
  cases h : x.exponent with
  | ofNat e =>
      rw [h] at hratio
      show ofRatio? (x.significand * Nat.pow 2 e * 1) 1 = some x
      rw [Nat.mul_one]
      exact hratio
  | negSucc e =>
      rw [h] at hratio
      have hten : Nat.pow 10 (e + 1) = Nat.pow 2 (e + 1) * Nat.pow 5 (e + 1) :=
        Nat.mul_pow 2 5 (e + 1)
      show ofRatio? (x.significand * Nat.pow 5 (e + 1)) (Nat.pow 10 (e + 1)) = some x
      have htwo : Nat.pow 2 (e + 1) ≠ 0 := Nat.ne_of_gt (Nat.pow_pos (by decide))
      have hfive : Nat.pow 5 (e + 1) ≠ 0 := Nat.ne_of_gt (Nat.pow_pos (by decide))
      rw [hten, ofRatio?_mul htwo hfive]
      exact hratio

/-- **The shortest decimal reads back as its number**, whether it was found on one of the grids or
has all digits. -/
theorem toBinary?_shortest {x : Binary64} (hfin : x.isFinite = true)
    (hpos : x.isNegative = false) : (shortest x).toBinary? = some x := by
  rw [shortest]
  dsimp only
  rw [toBinary?_trimWithin]
  generalize hfound : List.findSome? _ (List.range 17) = found
  cases found with
  | none => exact toBinary?_exact hfin hpos
  | some c =>
      obtain ⟨k, -, hk⟩ := List.exists_of_findSome?_eq_some hfound
      have hreads := List.find?_some hk
      exact decide_eq_true_eq.mp hreads

end Decimal

end ScriptFront

import Mathlib.Data.Nat.Cast.Field
import Mathlib.Data.Rat.Floor
import DataBinding.State.Snapshot

/-!
# Whole numbers among the doubles

A snapshot writes a whole number without a point, and observing turns it into a double again.
Nothing is lost on the way: **whole numbers of less than 53 bits are doubles** (`toInt?_ofInt`),
since their binary digits, shifted to the left until all 53 are in use, are the mantissa.

The other doubles are those with a fraction.  `Binary64.HasFraction` says it of the rational number
that a finite double is, and `toJson_of_hasFraction` that such a number is written as it is.
-/

set_option autoImplicit false

namespace DataBinding.Binary64

/-! ## Whole numbers are exact -/

theorem roundHalfEven_one (n : Nat) : roundHalfEven n 1 = n := by
  simp [roundHalfEven, Nat.mod_one]

theorem floorLog2_one {n : Nat} (hn : n ≠ 0) : floorLog2 n 1 = n.log2 := by
  have hlog : Nat.log2 1 = 0 := by decide
  simp only [floorLog2, hlog, Nat.cast_zero, sub_zero, Int.toNat_natCast, Int.toNat_neg_natCast,
    Nat.pow_eq, one_mul, pow_zero, mul_one, if_pos (Nat.log2_self_le hn)]

/-- The shift that brings all 53 digits into use. -/
theorem isCanonical_shift {n : Nat} (hn : n ≠ 0) (h : n < 2 ^ 53) :
    IsCanonical (n * 2 ^ (52 - n.log2)) (n.log2 - 52) := by
  have hlog : n.log2 < 53 := (Nat.log2_lt hn).2 h
  have hlow : 2 ^ n.log2 * 2 ^ (52 - n.log2) = 2 ^ 52 := by
    rw [← pow_add]
    congr 1
    omega
  have hhigh : 2 ^ (n.log2 + 1) * 2 ^ (52 - n.log2) = 2 ^ 53 := by
    rw [← pow_add]
    congr 1
    omega
  refine ⟨?_, by omega, by omega, .inl ?_⟩
  · rw [Nat.pow_eq, ← hhigh]
    exact Nat.mul_lt_mul_of_pos_right Nat.lt_log2_self (by positivity)
  · rw [Nat.pow_eq, ← hlow]
    exact Nat.mul_le_mul_right _ (Nat.log2_self_le hn)

theorem ofRatio_one (negative : Bool) {n : Nat} (hn : n ≠ 0) (h : n < 2 ^ 53) :
    ofRatio negative n 1 = .finite negative _ _ (isCanonical_shift hn h) := by
  have hlog : n.log2 < 53 := (Nat.log2_lt hn).2 h
  have hcanonical := isCanonical_shift hn h
  have hmax : max (-1074) ((n.log2 : Int) - 52) = (n.log2 : Int) - 52 := by omega
  have hshift : (-((n.log2 : Int) - 52)).toNat = 52 - n.log2 := by omega
  have hnone : ((n.log2 : Int) - 52).toNat = 0 := by omega
  have hmantissa : n * 2 ^ (52 - n.log2) ≠ 2 ^ 53 := Nat.ne_of_lt hcanonical.1
  simp only [ofRatio, if_neg hn, floorLog2_one hn, hmax, hshift, hnone, Nat.pow_eq,
    pow_zero, mul_one, roundHalfEven_one, if_neg hmantissa, pack, dif_pos hcanonical]

/-- **A whole number of less than 53 bits is a double.** -/
theorem toInt?_ofInt {i : Int} (h : i.natAbs < 2 ^ 53) : (ofInt i).toInt? = some i := by
  by_cases hi : i = 0
  · rw [hi]
    decide +kernel
  · have hn : i.natAbs ≠ 0 := Int.natAbs_ne_zero.2 hi
    have hlog : i.natAbs.log2 < 53 := (Nat.log2_lt hn).2 h
    have hshift : (-((i.natAbs.log2 : Int) - 52)).toNat = 52 - i.natAbs.log2 := by omega
    have hnone : ((i.natAbs.log2 : Int) - 52).toNat = 0 := by omega
    rw [ofInt, ofRatio_one _ hn h]
    simp only [toInt?, hshift, hnone, Nat.pow_eq, pow_zero, mul_one, Nat.mul_mod_left,
      Nat.mul_div_cancel _ (Nat.two_pow_pos _), if_pos]
    congr 1
    simp only [decide_eq_true_eq]
    split <;> omega

/-- Whole numbers that are written without a point come back as they were. -/
theorem toJson_ofInt {i : Int} (h : i.natAbs < wholeLimit) : (ofInt i).toJson = .int i := by
  have hbits : i.natAbs < 2 ^ 53 := Nat.lt_trans h (by decide)
  simp only [toJson, toInt?_ofInt hbits, if_pos h]

/-! ## Fractions -/

/-- The rational number that a finite double is. -/
def toRat? : Binary64 → Option ℚ
  | .finite negative mantissa exponent _ =>
    some ((if negative then -1 else 1) * mantissa * 2 ^ exponent)
  | _ => none

/-- The double is finite, and no whole number. -/
def HasFraction (x : Binary64) : Prop := ∃ q, x.toRat? = some q ∧ Int.fract q ≠ 0

theorem toRat?_of_toInt? {x : Binary64} {i : Int} (h : x.toInt? = some i) :
    x.toRat? = some (i : ℚ) := by
  cases x with
  | nan => cases h
  | infinite s => cases h
  | finite s m e hcanonical =>
    rw [toInt?] at h
    split at h
    · rename_i hdvd
      have hvalue : (m : ℚ) * 2 ^ e = ((m / 2 ^ (-e).toNat * 2 ^ e.toNat : Nat) : ℚ) := by
        rcases Int.le_total 0 e with he | he
        · have hzero : (-e).toNat = 0 := by omega
          have hpow : (2 : ℚ) ^ e = 2 ^ e.toNat := by
            rw [← zpow_natCast, Int.toNat_of_nonneg he]
          rw [hzero, hpow]
          simp
        · have hzero : e.toNat = 0 := by omega
          have hpow : (2 : ℚ) ^ e = (2 ^ (-e).toNat)⁻¹ := by
            rw [← zpow_natCast, Int.toNat_of_nonneg (by omega), zpow_neg, inv_inv]
          have hdvd' : 2 ^ (-e).toNat ∣ m := Nat.dvd_of_mod_eq_zero hdvd
          rw [hzero, hpow, pow_zero, mul_one, Nat.cast_div_charZero hdvd', div_eq_mul_inv,
            Nat.cast_pow, Nat.cast_ofNat]
      cases h
      rw [toRat?, mul_assoc, hvalue]
      cases s with
      | false => simp only [Bool.false_eq_true, if_false, one_mul, Int.cast_natCast, Nat.pow_eq]
      | true => simp only [if_true, neg_one_mul, Int.cast_neg, Int.cast_natCast, Nat.pow_eq]
    · cases h

/-- **A number with a fraction is written as it is.** -/
theorem toJson_of_hasFraction {x : Binary64} (h : x.HasFraction) : x.toJson = .float x := by
  obtain ⟨q, hq, hfract⟩ := h
  have hnone : x.toInt? = none := by
    by_contra hsome
    obtain ⟨i, hi⟩ := Option.ne_none_iff_exists'.1 hsome
    rw [toRat?_of_toInt? hi] at hq
    cases hq
    exact hfract (Int.fract_intCast i)
  cases x with
  | nan => cases hq
  | infinite s => cases hq
  | finite s m e hcanonical => simp only [toJson, hnone]

end DataBinding.Binary64

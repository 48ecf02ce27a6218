import Mathlib.Algebra.Order.Field.Power
import Mathlib.Data.Int.Log
import Mathlib.Data.Rat.Floor
import Mathlib.Tactic.Linarith
import Mathlib.Tactic.Positivity
import Reckoner.Binary64.Nearest

/-!
# Binary64.Nearest — what rounding depends on

The bits next to a quotient depend on the quotient alone and not on how it is written (`nearestBits_congr`): its binary
order is the logarithm of a rational number (`log2Ratio_eq_log`), and rounding a division does not see a common factor.
The size of a double is next to nothing but itself (`nearestBits_ofBits`).
-/
namespace Reckoner
namespace Binary64

/-! ## Quotients -/

theorem two_zpow_eq_div (e : Int) : (2 : ℚ) ^ e = 2 ^ e.toNat / 2 ^ (-e).toNat := by
  rw [← zpow_natCast, ← zpow_natCast, ← zpow_sub₀ two_ne_zero]
  congr 1
  omega

theorem div_lt_two_zpow_iff {num den : Nat} (hd : 0 < den) (e : Int) :
    (num : ℚ) / den < 2 ^ e ↔ num * 2 ^ (-e).toNat < den * 2 ^ e.toNat := by
  have hden : (0 : ℚ) < den := by exact_mod_cast hd
  rw [two_zpow_eq_div, div_lt_div_iff₀ hden (by positivity), mul_comm (_ ^ e.toNat)]
  exact_mod_cast Iff.rfl

theorem log_lt_iff {num den : Nat} (hn : 0 < num) (hd : 0 < den) (e : Int) :
    Int.log 2 ((num : ℚ) / den) < e ↔ num * 2 ^ (-e).toNat < den * 2 ^ e.toNat := by
  rw [← div_lt_two_zpow_iff hd]
  exact (Int.lt_zpow_iff_log_lt one_lt_two (by positivity)).symm

/-- **The binary order of a quotient is its logarithm.** -/
theorem log2Ratio_eq_log {num den : Nat} (hn : 0 < num) (hd : 0 < den) :
    log2Ratio num den = Int.log 2 ((num : ℚ) / den) := by
  have hquotient : (0 : ℚ) < num / den := by positivity
  have hnum : (2 : ℚ) ^ num.log2 ≤ num ∧ (num : ℚ) < 2 ^ (num.log2 + 1) :=
    ⟨by exact_mod_cast Nat.log2_self_le hn.ne', by exact_mod_cast Nat.lt_log2_self⟩
  have hden : (2 : ℚ) ^ den.log2 ≤ den ∧ (den : ℚ) < 2 ^ (den.log2 + 1) :=
    ⟨by exact_mod_cast Nat.log2_self_le hd.ne', by exact_mod_cast Nat.lt_log2_self⟩
  have hlow : (num.log2 - (den.log2 + 1 : Nat) : Int) ≤ Int.log 2 ((num : ℚ) / den) := by
    refine (Int.zpow_le_iff_le_log one_lt_two hquotient).1 ?_
    rw [Nat.cast_ofNat, zpow_sub₀ two_ne_zero, zpow_natCast, zpow_natCast]
    exact div_le_div₀ (by positivity) hnum.1 (by positivity) hden.2.le
  have hhigh : Int.log 2 ((num : ℚ) / den) < ((num.log2 + 1 : Nat) - den.log2 : Int) := by
    refine (Int.lt_zpow_iff_log_lt one_lt_two hquotient).1 ?_
    rw [Nat.cast_ofNat, zpow_sub₀ two_ne_zero, zpow_natCast, zpow_natCast]
    exact div_lt_div₀ hnum.2 hden.1 (by positivity) (by positivity)
  unfold log2Ratio
  simp only [Nat.pow_eq, ← log_lt_iff hn hd]
  split <;> omega

/-! ## A common factor -/

theorem log2Ratio_mul_right {num den k : Nat} (hn : 0 < num) (hd : 0 < den) (hk : 0 < k) :
    log2Ratio (num * k) (den * k) = log2Ratio num den := by
  have hcast : (k : ℚ) ≠ 0 := by exact_mod_cast hk.ne'
  rw [log2Ratio_eq_log (Nat.mul_pos hn hk) (Nat.mul_pos hd hk), log2Ratio_eq_log hn hd, Nat.cast_mul, Nat.cast_mul,
    mul_div_mul_right _ _ hcast]

theorem divideToEven_mul_right (num den : Nat) {k : Nat} (hk : 0 < k) :
    divideToEven (num * k) (den * k) = divideToEven num den := by
  unfold divideToEven
  simp only [Nat.mul_div_mul_right _ _ hk, Nat.mul_mod_mul_right, ← Nat.mul_assoc 2, Nat.mul_lt_mul_right hk]

theorem divideToEven_mul_self (n : Nat) {k : Nat} (hk : 0 < k) : divideToEven (n * k) k = n := by
  unfold divideToEven
  simp only [Nat.mul_div_cancel _ hk, Nat.mul_mod_left, Nat.mul_zero, if_pos hk]

@[simp] theorem nearestBits_zero (den : Nat) : nearestBits 0 den = 0 := if_pos rfl

theorem nearestBits_mul_right {num den k : Nat} (hd : 0 < den) (hk : 0 < k) :
    nearestBits (num * k) (den * k) = nearestBits num den := by
  obtain rfl | hn := Nat.eq_zero_or_pos num
  · rw [Nat.zero_mul, nearestBits_zero, nearestBits_zero]
  · unfold nearestBits
    simp only [log2Ratio_mul_right hn hd hk, Nat.mul_right_comm _ k, divideToEven_mul_right _ _ hk]
    rw [if_neg hn.ne', if_neg (Nat.mul_pos hn hk).ne']

/-- **The bits next to a quotient depend on the quotient alone.** -/
theorem nearestBits_congr {num den num' den' : Nat} (hd : 0 < den) (hd' : 0 < den') (h : num * den' = num' * den) :
    nearestBits num den = nearestBits num' den' := by
  rw [← nearestBits_mul_right hd hd', h, Nat.mul_comm den, nearestBits_mul_right hd' hd]

/-! ## The size of a double -/

theorem nearestBits_le (num den : Nat) : nearestBits num den ≤ infinityBits := by
  unfold nearestBits
  split
  · exact Nat.zero_le _
  · exact Nat.min_le_right _ _

theorem ofBits_mantissa_lt (bits : Nat) : (Magnitude.ofBits bits).mantissa < 2 ^ 53 := by
  unfold Magnitude.ofBits
  simp only [Nat.pow_eq]
  split
  · simp only
    omega
  · simp only
    omega

theorem ofBits_exponent (bits : Nat) : (Magnitude.ofBits bits).exponent = -1074 ∨
    -1074 ≤ (Magnitude.ofBits bits).exponent ∧ 2 ^ 52 ≤ (Magnitude.ofBits bits).mantissa := by
  unfold Magnitude.ofBits
  simp only [Nat.pow_eq]
  split
  · exact .inl rfl
  · exact .inr ⟨by simp only; omega, by simp only; omega⟩

theorem bits_ofBits (bits : Nat) : ((Magnitude.ofBits bits).exponent + 1074).toNat * 2 ^ 52 +
    (Magnitude.ofBits bits).mantissa = bits := by
  unfold Magnitude.ofBits
  simp only [Nat.pow_eq]
  split
  · simp only
    omega
  · simp only
    omega

theorem log2Ratio_two_zpow {m : Nat} (hm : 0 < m) (e : Int) :
    log2Ratio (m * 2 ^ e.toNat) (2 ^ (-e).toNat) = m.log2 + e := by
  have hnum : 0 < m * 2 ^ e.toNat := by positivity
  have hquotient : ((m * 2 ^ e.toNat : Nat) : ℚ) / ((2 ^ (-e).toNat : Nat) : ℚ) = m * 2 ^ e := by
    rw [two_zpow_eq_div, ← mul_div_assoc]
    push_cast
    rfl
  have hpositive : (0 : ℚ) < m * 2 ^ e := by positivity
  have hlow : (m.log2 + e : Int) ≤ Int.log 2 ((m : ℚ) * 2 ^ e) := by
    refine (Int.zpow_le_iff_le_log one_lt_two hpositive).1 ?_
    have hm2 : (2 : ℚ) ^ m.log2 ≤ m := by exact_mod_cast Nat.log2_self_le hm.ne'
    rw [Nat.cast_ofNat, zpow_add₀ two_ne_zero, zpow_natCast]
    exact mul_le_mul_of_nonneg_right hm2 (by positivity)
  have hhigh : Int.log 2 ((m : ℚ) * 2 ^ e) < (m.log2 + 1 : Nat) + e := by
    refine (Int.lt_zpow_iff_log_lt one_lt_two hpositive).1 ?_
    have hm2 : (m : ℚ) < 2 ^ (m.log2 + 1) := by exact_mod_cast Nat.lt_log2_self
    rw [Nat.cast_ofNat, zpow_add₀ two_ne_zero, zpow_natCast]
    exact mul_lt_mul_of_pos_right hm2 (by positivity)
  rw [log2Ratio_eq_log hnum (by positivity), hquotient]
  omega

/-- **The size of a double is next to nothing but itself.** -/
theorem nearestBits_ofBits {bits : Nat} (h : bits < infinityBits) :
    nearestBits ((Magnitude.ofBits bits).mantissa * 2 ^ (Magnitude.ofBits bits).exponent.toNat)
      (2 ^ (-(Magnitude.ofBits bits).exponent).toNat) = bits := by
  have hbits := bits_ofBits bits
  have hlt := ofBits_mantissa_lt bits
  have hexponent := ofBits_exponent bits
  generalize (Magnitude.ofBits bits).mantissa = m at hbits hlt hexponent ⊢
  generalize (Magnitude.ofBits bits).exponent = e at hbits hexponent ⊢
  obtain rfl | hm := Nat.eq_zero_or_pos m
  · rw [Nat.zero_mul, nearestBits_zero]
    omega
  -- the unit of the rounding is the exponent that was read off the bits
  have hunit : max (log2Ratio (m * 2 ^ e.toNat) (2 ^ (-e).toNat) - 52) (-1074) = e := by
    have hhigh : m.log2 < 53 := (Nat.log2_lt hm.ne').2 hlt
    rw [log2Ratio_two_zpow hm]
    obtain rfl | ⟨he, hm52⟩ := hexponent
    · omega
    · have hlow : 52 ≤ m.log2 := (Nat.le_log2 hm.ne').2 hm52
      omega
  have hnum : m * 2 ^ e.toNat ≠ 0 := by positivity
  have hunits : 0 < 2 ^ (-e).toNat * 2 ^ e.toNat := by positivity
  unfold nearestBits
  rw [if_neg hnum, hunit]
  simp only [Nat.pow_eq, Nat.mul_assoc m, Nat.mul_comm (2 ^ e.toNat), divideToEven_mul_self _ hunits]
  rw [hbits, Nat.min_eq_left h.le]

end Binary64
end Reckoner

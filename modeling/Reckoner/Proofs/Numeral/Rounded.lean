import Reckoner.Proofs.Decimal.Rounding
import Reckoner.Proofs.Numeral

/-!
# Numeral.Rounded — how far a result with places is off

The text of a result stands for a number (`rational?`).  It misses the double by half of the last place asked for, and
by no more than the conversion lost before; a whole number is written with all of its digits.  A double of `2 ^ 96` and
more is no number with places, and is written in full.
-/
namespace Reckoner

open Binary64 (isNegative magnitude toRat)

/-- The number that a decimal stands for. -/
def Decimal.toRat (d : Decimal) : ℚ := d.digits * 10 ^ d.exponent

namespace Numeral

/-- **The number that a text stands for**, exactly: digits with at most one point among them, and perhaps a minus. -/
def rational? : List Char → Option ℚ
  | '-' :: unsigned => (Decimal.read? unsigned).map (-·.toRat)
  | unsigned => (Decimal.read? unsigned).map Decimal.toRat

theorem rational?_of_head?_ne {text : List Char} (h : text.head? ≠ some '-') :
    rational? text = (Decimal.read? text).map Decimal.toRat := by
  unfold rational?
  split
  · exact absurd rfl h
  · rfl

theorem read?_toDecimal (f : Decimal.Fixed) :
    (Decimal.read? f.toDecimal.positional).map Decimal.toRat = some f.toRat := by
  rw [Decimal.read?_positional]
  simp [Decimal.Fixed.toDecimal, Decimal.toRat, Decimal.Fixed.toRat, div_eq_mul_inv]

/-- **The text of a number with places stands for it**, with the sign in front. -/
theorem rational?_fixedChars (negative : Bool) (f : Decimal.Fixed) :
    rational? (fixedChars negative f) = some ((if negative then -1 else 1) * f.toRat) := by
  unfold fixedChars
  by_cases hzero : f.digits = 0
  · have hread : rational? ['0'] = some 0 := by
      have hdigit : Decimal.read? ['0'] = some ⟨0, 0⟩ := rfl
      rw [rational?_of_head?_ne (by decide), hdigit]
      simp [Decimal.toRat]
    rw [if_pos hzero, hread, Decimal.Fixed.toRat, hzero]
    simp
  · have hread := read?_toDecimal f
    rw [if_neg hzero]
    cases negative with
    | false => simpa [rational?_of_head?_ne (Decimal.head?_positional_ne _)] using hread
    | true =>
      rcases Option.map_eq_some_iff.1 hread with ⟨d, hd, hvalue⟩
      simp [rational?, hd, hvalue]

section Finite

variable {x : Float} (h : x.isFinite = true) (places : Nat)
include h

theorem fixed?_eq_none_iff : fixed? x = none ↔ 2 ^ 96 ≤ |toRat x| := by
  rw [fixed?_of_isFinite h, Binary64.abs_toRat h]
  exact Decimal.Fixed.ofMagnitude?_eq_none_iff (Binary64.mantissa_lt x)

omit h in
theorem shownTo_of_fixed? {f : Decimal.Fixed} (hf : fixed? x = some f) :
    shownTo places x = .ofList (fixedChars (isNegative x) (f.round places).trim) := by
  rw [shownTo, hf]

omit h in
theorem rational?_shownTo {f : Decimal.Fixed} (hf : fixed? x = some f) :
    rational? (shownTo places x).toList = some ((if isNegative x then -1 else 1) * (f.round places).toRat) := by
  rw [shownTo_of_fixed? places hf, String.toList_ofList, rational?_fixedChars, Decimal.Fixed.toRat_trim]

theorem abs_sub_toRat_le {f : Decimal.Fixed} (hf : fixed? x = some f) :
    |(if isNegative x then -1 else 1) * (f.round places).toRat - toRat x| ≤
      1 / 10 ^ places / 2 + 1 / 10 ^ 28 + |toRat x| / 2 ^ 49 := by
  rw [fixed?_of_isFinite h] at hf
  have hconversion := Decimal.Fixed.abs_ofMagnitude?_sub_le (Binary64.le_exponent x) hf
  have hround := Decimal.Fixed.abs_round_sub_le f places
  have hsign : |(if isNegative x then -1 else 1 : ℚ)| = 1 := by cases isNegative x <;> simp
  rw [Binary64.abs_toRat h, Binary64.toRat_eq h, ← mul_sub, abs_mul, hsign, one_mul, add_assoc]
  exact (abs_sub_le _ _ _).trans (add_le_add hround hconversion)

/-! ## Whole numbers -/

theorem toRat_magnitude_of_intCast {i : ℤ} (hi : toRat x = i) : (magnitude x).toRat = i.natAbs := by
  rw [← Binary64.abs_toRat h, hi, Nat.cast_natAbs, Int.cast_abs]

theorem fixed?_of_intCast {i : ℤ} (hi : toRat x = i) (hlt : |toRat x| < 2 ^ 96) : fixed? x = some ⟨i.natAbs, 0⟩ := by
  have hsize := toRat_magnitude_of_intCast h hi
  rw [Binary64.abs_toRat h, hsize] at hlt
  have hcapacity : i.natAbs < Decimal.Fixed.capacity := by
    unfold Decimal.Fixed.capacity
    exact_mod_cast hlt
  rw [fixed?_of_isFinite h, Decimal.Fixed.ofMagnitude?_of_natCast hcapacity hsize]

theorem isNegative_of_intCast {i : ℤ} (hi : toRat x = i) (hne : i ≠ 0) : isNegative x = decide (i < 0) := by
  have hvalue := Binary64.toRat_eq h
  have hnonneg := (magnitude x).toRat_nonneg
  rw [hi] at hvalue
  cases hsign : isNegative x with
  | true =>
    have hle : (i : ℚ) ≤ 0 := by
      rw [hvalue, hsign]
      simpa using hnonneg
    have hle : i ≤ 0 := by exact_mod_cast hle
    exact (decide_eq_true (by omega)).symm
  | false =>
    have hle : (0 : ℚ) ≤ i := by
      rw [hvalue, hsign]
      simpa using hnonneg
    have hle : 0 ≤ i := by exact_mod_cast hle
    exact (decide_eq_false (by omega)).symm

/-- **A whole number that fits is written with all of its digits.** -/
theorem shownTo_of_intCast {i : ℤ} (hi : toRat x = i) (hlt : |toRat x| < 2 ^ 96) : shownTo places x = toString i := by
  have hdigits : (Decimal.Fixed.toDecimal ⟨i.natAbs, 0⟩).positional = Nat.toDigits 10 i.natAbs := by
    simp [Decimal.Fixed.toDecimal, Decimal.positional]
  have htrim : (Decimal.Fixed.mk i.natAbs 0).trim = ⟨i.natAbs, 0⟩ := rfl
  rw [shownTo_of_fixed? places (fixed?_of_intCast h hi hlt), Decimal.Fixed.round_whole, htrim, fixedChars]
  by_cases hzero : i = 0
  · subst hzero
    rfl
  · rw [if_neg (Int.natAbs_ne_zero.2 hzero), isNegative_of_intCast h hi hzero, hdigits]
    rcases i with n | n
    · rw [decide_eq_false (by simp), if_neg Bool.false_ne_true]
      rfl
    · rw [decide_eq_true (Int.negSucc_lt_zero n), if_pos rfl, String.ofList_append]
      rfl

end Finite

/-- **A result with places is accurate**: the number that its text stands for misses the double by half of the last
place asked for, by a unit in the last place there can be and by a share of the double; whole numbers are shown exactly,
and what is too large for a number with places is shown in full. -/
theorem display_accurate (places : Nat) {x : Float} (h : x.isFinite = true) :
    (|toRat x| < 2 ^ 96 →
      ∃ p, rational? (display (some places) x).toList = some p ∧
        |p - toRat x| ≤ 1 / 10 ^ places / 2 + 1 / 10 ^ 28 + |toRat x| / 2 ^ 49 ∧
        ∀ i : ℤ, toRat x = i → p = i ∧ display (some places) x = toString i) ∧
    (2 ^ 96 ≤ |toRat x| → display (some places) x = display none x) := by
  constructor
  · intro hlt
    rcases Option.ne_none_iff_exists'.1 (mt (fixed?_eq_none_iff h).1 (not_le.2 hlt)) with ⟨f, hf⟩
    refine ⟨_, rational?_shownTo places hf, abs_sub_toRat_le h places hf, fun i hi => ⟨?_, ?_⟩⟩
    · cases hf.symm.trans (fixed?_of_intCast h hi hlt)
      have hvalue := Binary64.toRat_eq h
      rw [toRat_magnitude_of_intCast h hi, hi] at hvalue
      rw [Decimal.Fixed.round_whole, hvalue, Decimal.Fixed.toRat, pow_zero, div_one]
    · exact shownTo_of_intCast h places hi hlt
  · intro hle
    have hpos : 0 < |toRat x| := lt_of_lt_of_le (by norm_num) hle
    have hne := Binary64.magnitudeBits_ne_zero h hpos.ne'
    have hnone := (fixed?_eq_none_iff h).2 hle
    rw [display, display, shownTo, hnone, shown, unsignedZero_of_magnitudeBits_ne_zero hne]

/-- A double half way between two whole numbers, shown without places. -/
theorem display_accurate_half : (2.5 : Float).isFinite = true ∧ toRat 2.5 = 5 / 2 ∧
    ∃ p, rational? (display (some 0) 2.5).toList = some p ∧ |p - 5 / 2| ≤ 1 / 2 + 1 / 10 ^ 28 + 5 / 2 / 2 ^ 49 := by
  have hfinite : (2.5 : Float).isFinite = true := by decide +kernel
  have hvalue : toRat 2.5 = 5 / 2 := by decide +kernel
  rcases (display_accurate 0 hfinite).1 (by rw [hvalue]; norm_num [abs_of_pos]) with ⟨p, hread, hdistance, _⟩
  rw [hvalue] at hdistance
  refine ⟨hfinite, hvalue, p, hread, ?_⟩
  simpa [abs_of_pos] using hdistance

end Numeral
end Reckoner

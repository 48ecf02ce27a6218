import Reckoner.Proofs.Binary64.Power

/-!
# Binary64.Reciprocal — one divided by a double

The reciprocal of a finite double is a number, perhaps an infinite one (`isNaN_reciprocal`).  That of a double beyond
one lies between zero and one, however it is rounded, so it is never whole (`reciprocal_of_one_lt`,
`isInteger_reciprocal`); those of one and minus one are themselves.
-/
namespace Reckoner
namespace Binary64

open Float.Model (Format UnpackedFloat totalExponent)
open Float.Model.UnpackedFloat

/-! ## Packed numbers -/

theorem isNaN_unpack_packComponents {e : BitVec 11} (s : Sign) (m : BitVec 52) (h : e ≠ -1#11) :
    (UnpackedFloat.unpack .binary64 (packComponents .binary64 s e m)).isNaN = false := by
  rcases unpack_cases s e m with ⟨hfull, _⟩ | ⟨hfull, _⟩ | ⟨_, _, hunpack⟩ | ⟨_, _, hunpack⟩
  · exact absurd hfull h
  · exact absurd hfull h
  · rw [hunpack]
    rfl
  · rw [hunpack]
    rfl

/-- **A number is packed to the word of a number.** -/
theorem isNaN_unpack_pack {u : UnpackedFloat} (h : u.isNaN = false) :
    (UnpackedFloat.unpack .binary64 (UnpackedFloat.pack .binary64 u)).isNaN = false := by
  cases u with
  | notANumber => cases h
  | infinity s => cases s <;> rfl
  | zero s => cases s <;> rfl
  | finite s m e hm =>
    unfold UnpackedFloat.pack
    dsimp only
    split
    · cases s <;> rfl
    · rename_i hfits
      split
      · refine isNaN_unpack_packComponents s _ fun hfull => hfits ?_
        have hexponent := congrArg BitVec.toNat hfull
        rw [BitVec.toNat_ofNat] at hexponent
        have hall : (-1#11).toNat = 2047 := rfl
        omega
      · exact isNaN_unpack_packComponents s _ (by decide)

/-- **The word of a size below one**, if its mantissa has at most fifty-three bits. -/
theorem exists_packComponents_of_lt_one (s : Sign) {m : Nat} {e : Int} (h : 0 < m) (hm : m < 2 ^ 53) (hlow : -1074 ≤ e)
    (hhigh : e ≤ -53) : ∃ (E : BitVec 11) (M : BitVec 52),
      UnpackedFloat.pack .binary64 (.finite s m e h) = packComponents .binary64 s E M ∧
        0 < E.toNat * 2 ^ 52 + M.toNat ∧ E.toNat < 1023 := by
  have hbias : (Format.binary64.exponentBias : Int) = 1023 := rfl
  have hwidth : Format.binary64.mantissaBits = 53 := rfl
  have hlog : m.log2 < 53 := (Nat.log2_lt h.ne').2 hm
  unfold UnpackedFloat.pack
  dsimp only
  rw [hbias, hwidth, if_neg (by omega)]
  split
  · refine ⟨_, _, rfl, ?_⟩
    rw [BitVec.toNat_ofNat]
    omega
  · have hsubnormal : m < 2 ^ 52 := (Nat.log2_lt h.ne').1 (by omega)
    refine ⟨_, _, rfl, ?_⟩
    have hmantissa : (BitVec.ofNat 52 m).toNat = m := by rw [BitVec.toNat_ofNat, Nat.mod_eq_of_lt hsubnormal]
    exact ⟨by rw [hmantissa]; exact Nat.lt_of_lt_of_le h (Nat.le_add_left _ _), by decide⟩

/-! ## Rounding -/

theorem mantissa_shiftRight : ∀ (k : Nat) (m : ExtendedMantissa), (m >>> k).mantissa = m.mantissa / 2 ^ k
  | 0, m => by
    rw [Nat.pow_zero, Nat.div_one]
    rfl
  | k + 1, m => by
    have hstep : (m >>> (k + 1)).mantissa = (m >>> k).mantissa / 2 := rfl
    rw [hstep, mantissa_shiftRight k, Nat.div_div_eq_div_mul, ← Nat.pow_succ]

theorem mantissa_ofMantissaAndAccuracy (m : Nat) (a : Accuracy) :
    (ExtendedMantissa.ofMantissaAndAccuracy m a).mantissa = m := by
  unfold ExtendedMantissa.ofMantissaAndAccuracy
  split <;> rfl

theorem roundedMantissa_le (m : ExtendedMantissa) :
    m.mantissa ≤ m.roundedMantissa ∧ m.roundedMantissa ≤ m.mantissa + 1 := by
  unfold ExtendedMantissa.roundedMantissa Accuracy.roundToNearestEven
  split <;> omega

/-- **What rounding drops** is what a mantissa has beyond fifty-three bits. -/
theorem exists_shiftToTargetExponent (m : Nat) {e : Int} (a : Accuracy) (he : -1074 ≤ e) :
    ∃ q : ExtendedMantissa, q.mantissa = m / 2 ^ (m.log2 - 52) ∧
      shiftToTargetExponent .binary64 m e a = (q, e + (m.log2 - 52 : Nat)) := by
  have hmin : Format.binary64.minExponent = -1074 := rfl
  have hbits : Format.binary64.mantissaBits = 53 := rfl
  have hshift : (Format.binary64.targetExponent (totalExponent m e) - e).toNat = m.log2 - 52 := by
    unfold Format.targetExponent totalExponent
    rw [hmin, hbits]
    omega
  unfold shiftToTargetExponent shiftToExponent
  dsimp only
  rw [hshift]
  exact ⟨_, by rw [mantissa_shiftRight, mantissa_ofMantissaAndAccuracy], rfl⟩

/-- What is left of a mantissa has at most fifty-three bits, and something is left of it. -/
theorem shifted_bounds {m : Nat} (hm : 0 < m) : 0 < m / 2 ^ (m.log2 - 52) ∧ m / 2 ^ (m.log2 - 52) < 2 ^ 53 := by
  have hpow : 0 < 2 ^ (m.log2 - 52) := by positivity
  constructor
  · refine Nat.div_pos ?_ hpow
    exact Nat.le_trans (Nat.pow_le_pow_right Nat.two_pos (Nat.sub_le _ _)) (Nat.log2_self_le hm.ne')
  · refine (Nat.div_lt_iff_lt_mul hpow).2 (Nat.lt_of_lt_of_le (Nat.lt_log2_self (n := m)) ?_)
    rw [← Nat.pow_add]
    exact Nat.pow_le_pow_right Nat.two_pos (by omega)

/-- **A mantissa is rounded to fifty-three bits.**  If it has room for the unit that rounding may add, it is not shifted
further than that unit. -/
theorem exists_roundWithAccuracy {m k : Nat} {e : Int} (s : Sign) (a : Accuracy) (hm : 0 < m) (he : -1074 ≤ e)
    (hlt : m + 2 ^ k < 2 ^ (53 + k)) : ∃ (q j : Nat) (h : 0 < q),
      roundWithAccuracy .binary64 s m e a = .finite s q (e + j) h ∧ q < 2 ^ 53 ∧ j ≤ k := by
  obtain ⟨first, hfirst, hshift⟩ := exists_shiftToTargetExponent m a he
  obtain ⟨hle, hge⟩ := roundedMantissa_le first
  generalize hj : m.log2 - 52 = j at hfirst hshift
  have hbounds := shifted_bounds hm
  rw [hj, ← hfirst] at hbounds
  generalize hr : first.roundedMantissa = r at hle hge
  have hrpos : 0 < r := by omega
  obtain ⟨second, hsecond, hshift'⟩ := exists_shiftToTargetExponent r (e := e + j) .exact (by omega)
  obtain ⟨hpos, hlt'⟩ := shifted_bounds hrpos
  rw [← hsecond] at hpos hlt'
  have hround : roundWithAccuracy .binary64 s m e a = .finite s second.mantissa (e + j + (r.log2 - 52 : Nat)) hpos := by
    unfold roundWithAccuracy
    rw [hshift]
    dsimp only
    rw [hr, hshift']
    exact dif_neg hpos.ne'
  refine ⟨second.mantissa, j + (r.log2 - 52), hpos, by rw [hround, Int.natCast_add, Int.add_assoc], hlt', ?_⟩
  have hjk : j ≤ k := by
    have hlog : m.log2 < 53 + k := (Nat.log2_lt hm.ne').2 (Nat.lt_of_le_of_lt (Nat.le_add_right _ _) hlt)
    omega
  -- before the shift, the unit that rounding may add is a power of two that there is room for
  have hroom : r * 2 ^ j < 2 ^ (53 + k) := by
    calc r * 2 ^ j ≤ (m / 2 ^ j + 1) * 2 ^ j := Nat.mul_le_mul_right _ (by rw [← hfirst]; exact hge)
      _ = m / 2 ^ j * 2 ^ j + 2 ^ j := Nat.succ_mul _ _
      _ ≤ m + 2 ^ k := Nat.add_le_add (Nat.div_mul_le_self _ _) (Nat.pow_le_pow_right Nat.two_pos hjk)
      _ < 2 ^ (53 + k) := hlt
  have hlog : r.log2 < 53 + k - j := by
    refine (Nat.log2_lt hrpos.ne').2 (Nat.lt_of_mul_lt_mul_right (a := 2 ^ j) ?_)
    rwa [← Nat.pow_add, Nat.sub_add_cancel (by omega)]
  omega

/-! ## Reciprocals -/

variable {x : Float}

theorem isNaN_roundWithAccuracy (s : Sign) (m : Nat) (e : Int) (a : Accuracy) :
    (roundWithAccuracy .binary64 s m e a).isNaN = false := by
  unfold roundWithAccuracy
  generalize shiftToTargetExponent .binary64 m e a = first
  dsimp only
  generalize shiftToTargetExponent .binary64 first.1.roundedMantissa first.2 .exact = second
  by_cases h : second.1.mantissa = 0
  · rw [dif_pos h]
    rfl
  · rw [dif_neg h]
    rfl

/-- **The reciprocal of a finite double is a number.** -/
theorem isNaN_reciprocal (hx : x.isFinite = true) : (1 / x).isNaN = false := by
  have hdiv : (1 / x).isNaN = (UnpackedFloat.unpack .binary64 (UnpackedFloat.pack .binary64
      (UnpackedFloat.div .binary64 (1 : Float).toModel.unpack x.toModel.unpack))).isNaN := rfl
  obtain ⟨_, hone⟩ := unpack_one
  rw [hdiv, hone]
  refine isNaN_unpack_pack ?_
  by_cases hne : magnitudeBits x = 0
  · obtain ⟨s, hunpack⟩ := exists_unpack_eq_zero hne
    rw [hunpack]
    rfl
  · obtain ⟨_, hunpack⟩ := exists_unpack_eq_finite ((isFinite_iff x).1 hx) hne
    rw [hunpack]
    exact isNaN_roundWithAccuracy _ _ _ _

/-- The word of one. -/
def oneBits : Nat := 1023 * 2 ^ 52

theorem Magnitude.toRat_le_one {m : Magnitude} {k : Nat} (hm : m.mantissa ≤ 2 ^ k) (he : m.exponent ≤ -k) :
    m.toRat ≤ 1 := by
  have hmantissa : (m.mantissa : ℚ) ≤ 2 ^ k := by exact_mod_cast hm
  calc m.toRat ≤ 2 ^ k * 2 ^ (-k : Int) :=
        mul_le_mul hmantissa (zpow_le_zpow_right₀ one_le_two he) (by positivity) (by positivity)
    _ = 1 := by rw [zpow_neg, zpow_natCast, mul_inv_cancel₀ (by positivity)]

theorem toRat_ofBits_le {bits : Nat} (h : bits ≤ oneBits) : (Magnitude.ofBits bits).toRat ≤ 1 := by
  unfold oneBits at h
  unfold Magnitude.ofBits
  simp only [Nat.pow_eq]
  split
  · exact Magnitude.toRat_le_one (k := 52) (by dsimp only; omega) (by dsimp only; omega)
  · obtain hlt | heq := Nat.lt_or_eq_of_le h
    · exact Magnitude.toRat_le_one (k := 53) (by dsimp only; omega) (by dsimp only; omega)
    · exact Magnitude.toRat_le_one (k := 52) (by dsimp only; omega) (by dsimp only; omega)

/-- **What is beyond one has a word beyond one's.** -/
theorem lt_magnitudeBits (hx : x.isFinite = true) (h : 1 < |toRat x|) : oneBits < magnitudeBits x := by
  by_contra hle
  rw [abs_toRat hx] at h
  exact absurd (toRat_ofBits_le (Nat.not_lt.1 hle)) (not_le.2 h)

/-- The size of what is beyond one has a full mantissa. -/
theorem magnitude_bounds (hx : x.isFinite = true) (h : 1 < |toRat x|) :
    (2 ^ 52 ≤ (magnitude x).mantissa ∧ (magnitude x).mantissa < 2 ^ 53) ∧
      ((magnitude x).exponent = -52 ∧ 2 ^ 52 < (magnitude x).mantissa ∨
        -51 ≤ (magnitude x).exponent ∧ (magnitude x).exponent ≤ 971) := by
  have hlow := lt_magnitudeBits hx h
  have hhigh := (isFinite_iff x).1 hx
  unfold oneBits at hlow
  unfold infinityBits at hhigh
  unfold magnitude Magnitude.ofBits
  simp only [Nat.pow_eq]
  rw [if_neg (by omega)]
  dsimp only
  omega

/-- **The quotient of one by a size beyond one**, cut off where the mantissa is full: even if it is rounded up, it stays
below one. -/
theorem exists_divCore {m : Nat} {e : Int} (hlow : 2 ^ 52 ≤ m) (hhigh : m < 2 ^ 53)
    (h : e = -52 ∧ 2 ^ 52 < m ∨ -51 ≤ e ∧ e ≤ 971) : ∃ (q k : Nat) (t : Int) (a : Accuracy),
      divCore .binary64 (2 ^ 52) (-52) m e = (q, t, a) ∧ 0 < q ∧ q + 2 ^ k < 2 ^ (53 + k) ∧ -1074 ≤ t ∧ t + k ≤ -53 := by
  have htarget : min (-52 - e) (Format.binary64.targetExponent (totalExponent (2 ^ 52) (-52) - totalExponent m e)) =
      max (-105 - e) (-1074) := by
    have hmin : Format.binary64.minExponent = -1074 := rfl
    have hbits : Format.binary64.mantissaBits = 53 := rfl
    have hlog : m.log2 = 52 := (Nat.log2_eq_iff (by omega)).2 ⟨hlow, hhigh⟩
    have hlogOne : (2 ^ 52).log2 = 52 := by decide +kernel
    unfold totalExponent Format.targetExponent
    rw [hmin, hbits, hlog, hlogOne]
    omega
  unfold divCore
  dsimp only
  rw [htarget, Nat.shiftLeft_eq, ← Nat.pow_add]
  generalize hshift : (-52 - e - max (-105 - e) (-1074)).toNat = shift
  have hpos : 0 < 2 ^ (52 + shift) / m :=
    Nat.div_pos (Nat.le_trans hhigh.le (Nat.pow_le_pow_right Nat.two_pos (by omega))) (by omega)
  obtain ⟨he, hm⟩ | hfar := h
  · obtain rfl : shift = 53 := by omega
    have hlt : 2 ^ (52 + 53) / m < 2 ^ 53 - 1 := (Nat.div_lt_iff_lt_mul (by omega)).2 (by omega)
    exact ⟨_, 0, _, _, rfl, hpos, by omega, by omega, by omega⟩
  · have hle : 2 ^ (52 + shift) / m ≤ 2 ^ 53 := by
      calc 2 ^ (52 + shift) / m ≤ 2 ^ (52 + 53) / 2 ^ 52 :=
            Nat.div_le_div (Nat.pow_le_pow_right Nat.two_pos (by omega)) hlow (by decide)
        _ = 2 ^ 53 := by rw [Nat.pow_div (by decide) Nat.two_pos]
    exact ⟨_, 1, _, _, rfl, hpos, by omega, by omega, by omega⟩

/-- **The reciprocal of what is beyond one is between zero and one.** -/
theorem reciprocal_of_one_lt (hx : x.isFinite = true) (h : 1 < |toRat x|) :
    0 < magnitudeBits (1 / x) ∧ magnitudeBits (1 / x) < oneBits := by
  have hne : magnitudeBits x ≠ 0 := Nat.ne_of_gt (Nat.lt_of_le_of_lt (Nat.zero_le _) (lt_magnitudeBits hx h))
  obtain ⟨_, hone⟩ := unpack_one
  obtain ⟨_, hunpack⟩ := exists_unpack_eq_finite ((isFinite_iff x).1 hx) hne
  generalize (if isNegative x then Sign.negative else Sign.positive) = s at hunpack
  obtain ⟨⟨hlow, hhigh⟩, hexponent⟩ := magnitude_bounds hx h
  obtain ⟨q, k, t, a, hcore, hq, hroom, ht, htk⟩ := exists_divCore hlow hhigh hexponent
  obtain ⟨r, j, hr, hround, hr53, hj⟩ := exists_roundWithAccuracy (.positive / s) a hq ht hroom
  have hquotient : UnpackedFloat.div .binary64 (1 : Float).toModel.unpack x.toModel.unpack =
      .finite (.positive / s) r (t + j) hr := by
    rw [hone, hunpack]
    unfold UnpackedFloat.div
    dsimp only
    rw [hcore]
    exact hround
  obtain ⟨E, M, hpack, hpos, hlt⟩ := exists_packComponents_of_lt_one (.positive / s) hr hr53 (e := t + j) (by omega)
    (by omega)
  have hdiv : (1 / x).toBits.toBitVec = UnpackedFloat.pack .binary64
      (UnpackedFloat.div .binary64 (1 : Float).toModel.unpack x.toModel.unpack) := rfl
  rw [hquotient, hpack] at hdiv
  have hM : M.toNat < 2 ^ 52 := M.isLt
  rw [(parts hdiv).1]
  unfold oneBits
  exact ⟨hpos, by omega⟩

theorem toNat?_ofBits {bits : Nat} (hpos : 0 < bits) (hlt : bits < oneBits) : (Magnitude.ofBits bits).toNat? = none := by
  have hmantissa : 0 < (Magnitude.ofBits bits).mantissa ∧ (Magnitude.ofBits bits).mantissa < 2 ^ 53 ∧
      (Magnitude.ofBits bits).exponent ≤ -53 := by
    unfold oneBits at hlt
    unfold Magnitude.ofBits
    simp only [Nat.pow_eq]
    split
    · dsimp only
      omega
    · dsimp only
      omega
  obtain ⟨hpos, hlt, hexponent⟩ := hmantissa
  have hunit : (Magnitude.ofBits bits).mantissa < 2 ^ (-(Magnitude.ofBits bits).exponent).toNat :=
    Nat.lt_of_lt_of_le hlt (Nat.pow_le_pow_right Nat.two_pos (by omega))
  unfold Magnitude.toNat?
  dsimp only
  rw [Nat.pow_eq, Nat.mod_eq_of_lt hunit, if_neg hpos.ne']

/-- **The reciprocal of what is beyond one is finite and no whole number.** -/
theorem isInteger_reciprocal (hx : x.isFinite = true) (h : 1 < |toRat x|) :
    (1 / x).isFinite = true ∧ isInteger (1 / x) = false := by
  obtain ⟨hpos, hlt⟩ := reciprocal_of_one_lt hx h
  refine ⟨(isFinite_iff _).2 (Nat.lt_trans hlt (by decide)), ?_⟩
  rw [isInteger, magnitude, toNat?_ofBits hpos hlt]
  rfl

/-- **Words of one size are one word.** -/
theorem ofBits_inj {a b : Nat} (ha : a < infinityBits) (hb : b < infinityBits)
    (h : (Magnitude.ofBits a).toRat = (Magnitude.ofBits b).toRat) : a = b := by
  rw [← nearestBits_ofBits ha, ← nearestBits_ofBits hb]
  refine nearestBits_congr (by positivity) (by positivity) ?_
  unfold Magnitude.toRat at h
  rw [two_zpow_eq_div, two_zpow_eq_div, ← mul_div_assoc, ← mul_div_assoc, div_eq_div_iff (by positivity) (by positivity)]
    at h
  exact_mod_cast h

theorem toRat_oneBits : (Magnitude.ofBits oneBits).toRat = 1 := by
  have hone : Magnitude.ofBits oneBits = ⟨2 ^ 52, -52⟩ := by decide
  rw [hone, Magnitude.toRat]
  norm_num

/-- **The reciprocals of one and minus one are whole numbers.** -/
theorem isInteger_reciprocal_of_abs_eq_one (hx : x.isFinite = true) (h : |toRat x| = 1) :
    (1 / x).isFinite = true ∧ isInteger (1 / x) = true := by
  have hsize : magnitudeBits x = oneBits :=
    ofBits_inj ((isFinite_iff x).1 hx) (by decide) ((abs_toRat hx).symm.trans (h.trans toRat_oneBits.symm))
  cases hnegative : isNegative x with
  | false =>
    obtain rfl : x = 1 := eq_of_magnitudeBits hnegative hsize
    decide +kernel
  | true =>
    obtain rfl : x = -1 := eq_of_magnitudeBits hnegative hsize
    decide +kernel

end Binary64
end Reckoner

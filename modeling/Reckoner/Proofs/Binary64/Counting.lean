import Reckoner.Proofs.Binary64.Nearest
import Reckoner.Proofs.Binary64.Word

/-!
# Binary64.Counting — whole numbers one by one

Up to `2 ^ 53` the double next to a whole number is that number (`isWhole_whole`), and one more than it is the next one
(`whole_add_one`): the sum has a mantissa that is too long, but all that rounding drops of it is zeros (`round_exact`).
-/
namespace Reckoner
namespace Binary64

open Float.Model (Format UnpackedFloat totalExponent)
open Float.Model.UnpackedFloat

/-- The double next to a whole number. -/
def whole (n : Nat) : Float := nearest n 1

theorem whole_zero : whole 0 = 0 := by decide +kernel

/-- A double that is a whole number, with the sign of a count. -/
structure IsWhole (x : Float) (n : Nat) : Prop where
  isFinite : x.isFinite = true
  isNegative : isNegative x = false
  toNat? : (magnitude x).toNat? = some n

/-! ## The words of whole numbers -/

theorem ofBits_normal {exponent m : Nat} (hlow : 2 ^ 52 ≤ m) (hhigh : m < 2 ^ 53) :
    Magnitude.ofBits (exponent * 2 ^ 52 + m) = ⟨m, (exponent : Int) - 1074⟩ := by
  unfold Magnitude.ofBits
  simp only [Nat.pow_eq]
  rw [if_neg (by omega)]
  congr 1
  · omega
  · omega

section

variable {n : Nat}

theorem log2_le (hlt : n < 2 ^ 53) : n.log2 ≤ 52 := by
  obtain rfl | hn := Nat.eq_zero_or_pos n
  · decide
  · exact Nat.le_of_lt_succ ((Nat.log2_lt hn.ne').2 hlt)

/-- The mantissa of a whole number has its first one in the highest place. -/
theorem mantissa_bounds (hn : 0 < n) (hlt : n < 2 ^ 53) :
    2 ^ 52 ≤ n * 2 ^ (52 - n.log2) ∧ n * 2 ^ (52 - n.log2) < 2 ^ 53 := by
  have hlog := log2_le hlt
  have hlow : 2 ^ n.log2 * 2 ^ (52 - n.log2) = 2 ^ 52 := by rw [← Nat.pow_add, Nat.add_sub_of_le hlog]
  have hhigh : 2 ^ (n.log2 + 1) * 2 ^ (52 - n.log2) = 2 ^ 53 := by
    rw [← Nat.pow_add]
    congr 1
    omega
  constructor
  · rw [← hlow]
    exact Nat.mul_le_mul_right _ (Nat.log2_self_le hn.ne')
  · rw [← hhigh]
    exact Nat.mul_lt_mul_of_pos_right Nat.lt_log2_self (by positivity)

theorem nearestBits_whole (hn : 0 < n) (hlt : n < 2 ^ 53) :
    nearestBits n 1 = (n.log2 + 1022) * 2 ^ 52 + n * 2 ^ (52 - n.log2) := by
  obtain ⟨hlow, hhigh⟩ := mantissa_bounds hn hlt
  have hlog := log2_le hlt
  have hfinite : (n.log2 + 1022) * 2 ^ 52 + n * 2 ^ (52 - n.log2) < infinityBits := by
    unfold infinityBits
    omega
  have hbits := nearestBits_ofBits hfinite
  rw [ofBits_normal hlow hhigh] at hbits
  have hup : (((n.log2 + 1022 : Nat) : Int) - 1074).toNat = 0 := by omega
  have hdown : (-(((n.log2 + 1022 : Nat) : Int) - 1074)).toNat = 52 - n.log2 := by omega
  dsimp only at hbits
  rw [hup, hdown, Nat.pow_zero, Nat.mul_one] at hbits
  rw [← hbits]
  exact nearestBits_congr Nat.one_pos (by positivity) (Nat.mul_one _).symm

theorem magnitude_whole (hn : 0 < n) (hlt : n < 2 ^ 53) :
    magnitude (whole n) = ⟨n * 2 ^ (52 - n.log2), (n.log2 : Int) - 52⟩ := by
  obtain ⟨hlow, hhigh⟩ := mantissa_bounds hn hlt
  have hexponent : ((n.log2 + 1022 : Nat) : Int) - 1074 = n.log2 - 52 := by omega
  rw [magnitude, whole, nearest, magnitudeBits_ofBits (nearestBits_le n 1), nearestBits_whole hn hlt,
    ofBits_normal hlow hhigh, hexponent]

theorem magnitudeBits_whole_lt (hlt : n < 2 ^ 53) : magnitudeBits (whole n) < infinityBits := by
  rw [whole, nearest, magnitudeBits_ofBits (nearestBits_le n 1)]
  obtain rfl | hn := Nat.eq_zero_or_pos n
  · decide
  · obtain ⟨hlow, hhigh⟩ := mantissa_bounds hn hlt
    have hlog := log2_le hlt
    rw [nearestBits_whole hn hlt]
    unfold infinityBits
    omega

theorem isNegative_whole (n : Nat) : isNegative (whole n) = false := isNegative_ofBits (nearestBits_le n 1)

/-- **The double next to a whole number is that number**, up to `2 ^ 53`. -/
theorem isWhole_whole (hle : n ≤ 2 ^ 53) : IsWhole (whole n) n := by
  obtain rfl | hlt := Nat.eq_or_lt_of_le hle
  · constructor <;> decide +kernel
  · refine ⟨(isFinite_iff _).2 (magnitudeBits_whole_lt hlt), isNegative_whole n, ?_⟩
    obtain rfl | hn := Nat.eq_zero_or_pos n
    · decide +kernel
    · have hlog := log2_le hlt
      have hup : ((n.log2 : Int) - 52).toNat = 0 := by omega
      rw [magnitude_whole hn hlt]
      simp [Magnitude.toNat?, hup]

theorem unpack_whole (hn : 0 < n) (hlt : n < 2 ^ 53) : ∃ h, (whole n).toModel.unpack =
    .finite .positive (n * 2 ^ (52 - n.log2)) ((n.log2 : Int) - 52) h := by
  have hne : magnitudeBits (whole n) ≠ 0 := by
    obtain ⟨hlow, _⟩ := mantissa_bounds hn hlt
    rw [whole, nearest, magnitudeBits_ofBits (nearestBits_le n 1), nearestBits_whole hn hlt]
    omega
  have hunpack := exists_unpack_eq_finite (magnitudeBits_whole_lt hlt) hne
  rwa [isNegative_whole, magnitude_whole hn hlt] at hunpack

end

/-! ## Sums of whole numbers -/

/-- **Zeros are dropped without a trace.** -/
theorem shiftRight_exact : ∀ k q : Nat, (⟨q * 2 ^ k, false, false⟩ : ExtendedMantissa) >>> k = ⟨q, false, false⟩
  | 0, q => by
    rw [Nat.pow_zero, Nat.mul_one]
    rfl
  | k + 1, q => by
    have hstep : (⟨q * 2 ^ (k + 1), false, false⟩ : ExtendedMantissa) >>> (k + 1) =
        ((⟨q * 2 * 2 ^ k, false, false⟩ : ExtendedMantissa) >>> k).shiftRightOne := by
      rw [Nat.mul_assoc, ← Nat.pow_succ']
      rfl
    rw [hstep, shiftRight_exact k (q * 2)]
    simp [ExtendedMantissa.shiftRightOne]

section

variable {q : Nat} {e : Int} (k : Nat) (hlow : 2 ^ 52 ≤ q) (hhigh : q < 2 ^ 53) (he : -1074 ≤ e)
include hlow hhigh he

theorem targetExponent_mul_two_pow : Format.binary64.targetExponent (totalExponent (q * 2 ^ k) e) = e + k := by
  have hlog : (q * 2 ^ k).log2 = 52 + k := by
    refine (Nat.log2_eq_iff (by positivity)).2 ⟨?_, ?_⟩
    · rw [Nat.pow_add]
      exact Nat.mul_le_mul_right _ hlow
    · rw [Nat.add_right_comm, Nat.pow_add]
      exact Nat.mul_lt_mul_of_pos_right hhigh (by positivity)
  have hmin : Format.binary64.minExponent = -1074 := rfl
  have hbits : Format.binary64.mantissaBits = 53 := rfl
  unfold Format.targetExponent totalExponent
  rw [hmin, hbits, hlog]
  omega

theorem shiftToTargetExponent_exact :
    shiftToTargetExponent .binary64 (q * 2 ^ k) e .exact = (⟨q, false, false⟩, e + k) := by
  have hshift : (e + k - e).toNat = k := by omega
  unfold shiftToTargetExponent shiftToExponent
  simp only [targetExponent_mul_two_pow k hlow hhigh he, hshift]
  exact congrArg (·, e + (k : Int)) (shiftRight_exact k q)

/-- **All that rounding drops is zeros.** -/
theorem round_exact : ∃ h, UnpackedFloat.round .binary64 .positive (q * 2 ^ k) e = .finite .positive q (e + k) h := by
  have hfirst := shiftToTargetExponent_exact k hlow hhigh he
  have hsecond := shiftToTargetExponent_exact 0 hlow hhigh (e := e + k) (by omega)
  rw [Nat.pow_zero, Nat.mul_one, Nat.cast_zero, Int.add_zero] at hsecond
  have hdecrease : decreaseExponent (q * 2 ^ k) e (e + k) = (q * 2 ^ k, e) := by
    unfold decreaseExponent
    simp
  have hrounded : ExtendedMantissa.roundedMantissa ⟨q, false, false⟩ = q := rfl
  have hq : q ≠ 0 := by omega
  refine ⟨Nat.pos_of_ne_zero hq, ?_⟩
  unfold UnpackedFloat.round roundWithAccuracy
  dsimp only
  rw [targetExponent_mul_two_pow k hlow hhigh he, hdecrease]
  dsimp only
  rw [hfirst]
  dsimp only
  rw [hrounded, hsecond]
  exact dif_neg hq

end

theorem normalize_positive {m : Nat} (hm : 0 < m) (e : Int) (s : Sign) :
    UnpackedFloat.normalize .binary64 (m : Int) e s = UnpackedFloat.round .binary64 .positive m e := by
  have hcompare : compare (m : Int) 0 = .gt := Int.compare_eq_gt.2 (by omega)
  unfold UnpackedFloat.normalize
  rw [hcompare]
  rfl

/-- The sum of two sizes, counted in the smaller unit. -/
theorem add_positive {m m' : Nat} {e e' : Int} {h : 0 < m} {h' : 0 < m'} (hle : e' ≤ e) :
    UnpackedFloat.add .binary64 (.finite .positive m e h) (.finite .positive m' e' h') =
      UnpackedFloat.round .binary64 .positive (m * 2 ^ (e - e').toNat + m') e' := by
  have hmin : min e e' = e' := by omega
  have hzero : (e' - e').toNat = 0 := by omega
  have hsum : Sign.positive.apply (m <<< (e - e').toNat : Nat) + Sign.positive.apply (m' <<< 0 : Nat) =
      ((m * 2 ^ (e - e').toNat + m' : Nat) : Int) := by
    rw [Nat.shiftLeft_eq, Nat.shiftLeft_zero]
    simp [Sign.apply]
  unfold UnpackedFloat.add decreaseExponent
  simp only [hmin, hzero, hsum]
  exact normalize_positive (by omega) e' .positive

/-- **One more than a whole number is the next one.** -/
theorem whole_add_one {n : Nat} (hlt : n < 2 ^ 53) : whole n + 1 = whole (n + 1) := by
  obtain hlast | hnext := Nat.eq_or_lt_of_le (Nat.succ_le_of_lt hlt)
  · obtain rfl : n = 2 ^ 53 - 1 := by omega
    decide +kernel
  obtain rfl | hn := Nat.eq_zero_or_pos n
  · decide +kernel
  have hlog := log2_le hlt
  have hlog' := log2_le hnext
  obtain ⟨hx, hunpack⟩ := unpack_whole hn hlt
  obtain ⟨hone, hunpackOne⟩ : ∃ h, (1 : Float).toModel.unpack = .finite .positive (2 ^ 52) (-52) h := ⟨by decide, rfl⟩
  obtain ⟨hy, hunpack'⟩ := unpack_whole (Nat.succ_pos n) hnext
  -- in units of the one's last place the sum is the mantissa of `n + 1` with zeros behind it
  have hsum : UnpackedFloat.add .binary64 (whole n).toModel.unpack (1 : Float).toModel.unpack =
      (whole (n + 1)).toModel.unpack := by
    obtain ⟨hlow, hhigh⟩ := mantissa_bounds (Nat.succ_pos n) hnext
    have hexponent : (-52 : Int) + (n + 1).log2 = (n + 1).log2 - 52 := by omega
    have hexact := round_exact (e := -52) (n + 1).log2 hlow hhigh (by omega)
    rw [hexponent] at hexact
    obtain ⟨h, hround⟩ := hexact
    have hshift : ((n.log2 : Int) - 52 - -52).toNat = n.log2 := by omega
    have hleft : n * 2 ^ (52 - n.log2) * 2 ^ n.log2 = n * 2 ^ 52 := by
      rw [Nat.mul_assoc, ← Nat.pow_add, Nat.sub_add_cancel hlog]
    have hright : (n + 1) * 2 ^ (52 - (n + 1).log2) * 2 ^ (n + 1).log2 = n * 2 ^ 52 + 2 ^ 52 := by
      rw [Nat.mul_assoc, ← Nat.pow_add, Nat.sub_add_cancel hlog', Nat.succ_mul]
    rw [hunpack, hunpackOne, hunpack', add_positive (by omega), hshift, hleft, ← hright, hround]
  have hbits : (whole n + 1).toBits.toBitVec = UnpackedFloat.pack .binary64
      (UnpackedFloat.add .binary64 (whole n).toModel.unpack (1 : Float).toModel.unpack) := rfl
  refine eq_of_toBits (UInt64.toBitVec_inj.1 ?_)
  rw [hbits, hsum]
  exact pack_unpack (whole (n + 1)).toModel.valid

end Binary64
end Reckoner

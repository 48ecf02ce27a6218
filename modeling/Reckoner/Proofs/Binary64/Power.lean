import Reckoner.Binary64.Power
import Reckoner.Proofs.Binary64.Value

/-!
# Binary64.Power — where a power is no number

A finite double is read as a whole number exactly if the number it stands for is one (`isInteger_iff`).  What a power is
falls into six cases (`power_cases`).  A power of a finite base is NaN exactly if the base is negative and the exponent is
finite and no whole number (`isNaN_power_iff`): neither the infinite powers, nor those of the zeros, nor what is left to
the platform are NaN.
-/
namespace Reckoner
namespace Binary64

open Float.Model (UnpackedFloat)

variable {x y : Float}

/-! ## Whole numbers -/

theorem Magnitude.toNat?_isSome_iff (m : Magnitude) : m.toNat?.isSome = true ↔ ∃ n : ℕ, m.toRat = n := by
  have hsplit : m.toRat = m.mantissa * 2 ^ m.exponent.toNat / 2 ^ (-m.exponent).toNat := by
    rw [Magnitude.toRat, two_zpow_eq_div, mul_div_assoc]
  have hisSome : m.toNat?.isSome = true ↔ m.mantissa % 2 ^ (-m.exponent).toNat = 0 := by
    unfold Magnitude.toNat?
    simp only [Nat.pow_eq]
    split
    · rename_i h
      exact iff_of_true rfl h
    · rename_i h
      exact iff_of_false Bool.false_ne_true h
  have hunit : (2 : ℚ) ^ (-m.exponent).toNat ≠ 0 := by positivity
  rw [hisSome, hsplit]
  constructor
  · intro h
    obtain ⟨k, hk⟩ := Nat.dvd_of_mod_eq_zero h
    refine ⟨k * 2 ^ m.exponent.toNat, ?_⟩
    rw [hk, div_eq_iff hunit]
    push_cast
    ring
  · rintro ⟨n, hn⟩
    rw [div_eq_iff hunit] at hn
    have hnat : m.mantissa * 2 ^ m.exponent.toNat = n * 2 ^ (-m.exponent).toNat := by exact_mod_cast hn
    obtain hle | hlt := le_or_gt 0 m.exponent
    · rw [Int.toNat_of_nonpos (by omega), Nat.pow_zero]
      exact Nat.mod_one _
    · rw [Int.toNat_of_nonpos hlt.le, Nat.pow_zero, Nat.mul_one] at hnat
      rw [hnat]
      exact Nat.mul_mod_left _ _

/-- **A double is read as a whole number exactly if it stands for one.** -/
theorem isInteger_iff (hx : x.isFinite = true) : isInteger x = true ↔ ∃ n : ℤ, toRat x = n := by
  rw [isInteger, Magnitude.toNat?_isSome_iff, toRat_eq hx]
  constructor
  · rintro ⟨n, hn⟩
    rw [hn]
    split
    · exact ⟨-n, by push_cast; ring⟩
    · exact ⟨n, by push_cast; ring⟩
  · rintro ⟨n, hn⟩
    refine ⟨n.natAbs, ?_⟩
    rw [← abs_of_nonneg (magnitude x).toRat_nonneg, Nat.cast_natAbs, Int.cast_abs, ← hn, abs_mul]
    split <;> simp

theorem toRat_neg_iff (hx : x.isFinite = true) : toRat x < 0 ↔ isNegative x = true ∧ magnitudeBits x ≠ 0 := by
  have hnonneg := (magnitude x).toRat_nonneg
  have hsize := abs_toRat hx
  rw [toRat_eq hx] at hsize ⊢
  constructor
  · intro h
    have hnegative : isNegative x = true := by
      by_contra hpositive
      rw [if_neg hpositive] at h
      linarith
    refine ⟨hnegative, fun hzero => ?_⟩
    rw [magnitude_of_magnitudeBits_eq_zero hzero, Magnitude.toRat] at h
    simp at h
  · rintro ⟨hnegative, hne⟩
    have hpositive : 0 < (magnitude x).mantissa := by
      obtain ⟨h, _⟩ := exists_unpack_eq_finite ((isFinite_iff x).1 hx) hne
      exact h
    have hlt : 0 < (magnitude x).toRat := by
      unfold Magnitude.toRat
      positivity
    rw [if_pos hnegative]
    linarith

/-! ## Powers -/

theorem isNaN_negateIf (negative : Bool) (x : Float) : (negateIf negative x).isNaN = x.isNaN := by
  unfold negateIf
  split
  · exact isNaN_neg x
  · rfl

theorem isNaN_infinitePower (size : Float) (negative : Bool) : (infinitePower size negative).isNaN = false := by
  unfold infinitePower
  split
  · rfl
  · split
    · rfl
    · decide +kernel

/-- What is not below zero is a number. -/
theorem isNaN_of_nonneg (h : 0 ≤ x) : x.isNaN = false := by
  have hle : UnpackedFloat.le (0 : Float).toModel.unpack x.toModel.unpack = true := of_decide_eq_true h
  have hisNaN : x.isNaN = x.toModel.unpack.isNaN := rfl
  rw [hisNaN]
  cases hx : x.toModel.unpack with
  | notANumber =>
    rw [hx] at hle
    cases hle
  | infinity _ | zero _ | finite _ _ _ _ => rfl

theorem isNaN_positivePower (base exponent : Float) : (positivePower base exponent).isNaN = false := by
  unfold positivePower
  dsimp only
  split
  · exact isNaN_of_nonneg ‹_›
  · rfl

theorem isInteger_of_beq_zero (h : (x == 0) = true) : isInteger x = true := by
  rw [beq_zero_iff] at h
  rw [isInteger, magnitude_of_magnitudeBits_eq_zero h]
  decide +kernel

theorem unpack_one : ∃ h, (1 : Float).toModel.unpack = .finite .positive (2 ^ 52) (-52) h := ⟨by decide, rfl⟩

theorem isNegative_of_beq_one (hx : x.isFinite = true) (h : (x == 1) = true) : isNegative x = false := by
  have hbeq : (x == 1) = (x.toModel.unpack.compare (1 : Float).toModel.unpack == some .eq) := rfl
  obtain ⟨_, hone⟩ := unpack_one
  rw [hbeq, hone] at h
  by_cases hne : magnitudeBits x = 0
  · obtain ⟨s, hunpack⟩ := exists_unpack_eq_zero hne
    rw [hunpack] at h
    cases h
  · obtain ⟨_, hunpack⟩ := exists_unpack_eq_finite ((isFinite_iff x).1 hx) hne
    rw [hunpack] at h
    cases hnegative : isNegative x with
    | false => rfl
    | true =>
      rw [hnegative] at h
      cases h

/-- **The cases of a power**, in the order in which they are told apart. -/
inductive PowerCase (x y : Float) : Float → Prop where
  | unit (h : (y == 0) = true ∨ (x == 1) = true) : PowerCase x y 1
  | undefined (hunit : ¬((y == 0) = true ∨ (x == 1) = true)) (h : x.isNaN = true ∨ y.isNaN = true) :
    PowerCase x y notANumber
  | infinite (hunit : ¬((y == 0) = true ∨ (x == 1) = true)) (hx : x.isNaN = false) (hy : y.isInf = true) :
    PowerCase x y (infinitePower x.abs (isNegative y))
  /-- A power of a zero or of an infinity. -/
  | extreme (hunit : ¬((y == 0) = true ∨ (x == 1) = true)) (hy : y.isFinite = true)
    (h : (x == 0) = true ∨ x.isInf = true) :
    PowerCase x y (negateIf (isNegative x && isOddInteger y) (if (x == 0) != isNegative y then 0 else infinity))
  | unreal (hx : x.isFinite = true) (hne : ¬(x == 0) = true) (hy : y.isFinite = true) (hnegative : isNegative x = true)
    (hwhole : isInteger y = false) : PowerCase x y notANumber
  | real (hx : x.isFinite = true) (hy : y.isFinite = true) (h : isNegative x = true → isInteger y = true) :
    PowerCase x y (negateIf (isNegative x && isOddInteger y) (positivePower x.abs y))

theorem power_cases (x y : Float) : PowerCase x y (power x y) := by
  unfold power
  split
  · rename_i hunit
    exact .unit (Bool.or_eq_true_iff.1 hunit)
  · rename_i hunit
    rw [Bool.or_eq_true_iff] at hunit
    split
    · rename_i hnan
      exact .undefined hunit (Bool.or_eq_true_iff.1 hnan)
    · rename_i hnan
      obtain ⟨hxNaN, hyNaN⟩ := Bool.or_eq_false_iff.1 (Bool.eq_false_iff.2 hnan)
      split
      · rename_i hinf
        exact .infinite hunit hxNaN hinf
      · rename_i hinf
        have hy : y.isFinite = true := by rw [isFinite_eq, hyNaN, Bool.eq_false_iff.2 hinf]; rfl
        split
        · rename_i hextreme
          exact .extreme hunit hy (Bool.or_eq_true_iff.1 hextreme)
        · rename_i hextreme
          rw [Bool.or_eq_true_iff, not_or] at hextreme
          have hx : x.isFinite = true := by rw [isFinite_eq, hxNaN, Bool.eq_false_iff.2 hextreme.2]; rfl
          split
          · rename_i hunreal
            rw [Bool.and_eq_true, Bool.not_eq_true'] at hunreal
            exact .unreal hx hextreme.1 hy hunreal.1 hunreal.2
          · rename_i hreal
            rw [Bool.and_eq_true, not_and, Bool.not_eq_true', Bool.not_eq_false] at hreal
            exact .real hx hy hreal

/-- **Where a power is no number**: the base is negative, and the exponent is finite and no whole number. -/
theorem isNaN_power_iff (hx : x.isFinite = true) (hy : y.isNaN = false) :
    (power x y).isNaN = true ↔ toRat x < 0 ∧ y.isFinite = true ∧ ¬∃ n : ℤ, toRat y = n := by
  have hcase := power_cases x y
  rw [toRat_neg_iff hx]
  generalize power x y = p at hcase ⊢
  cases hcase with
  | unit hunit =>
    refine iff_of_false (by decide +kernel) ?_
    rintro ⟨⟨hnegative, _⟩, hfinite, hwhole⟩
    obtain hzero | hone := hunit
    · exact hwhole ((isInteger_iff hfinite).1 (isInteger_of_beq_zero hzero))
    · rw [isNegative_of_beq_one hx hone] at hnegative
      cases hnegative
  | undefined _ hnan =>
    rw [isNaN_of_isFinite hx, hy] at hnan
    obtain hnan | hnan := hnan <;> cases hnan
  | infinite _ _ hinf =>
    rw [isNaN_infinitePower]
    refine iff_of_false Bool.false_ne_true fun ⟨_, hfinite, _⟩ => ?_
    rw [isInf_of_isFinite hfinite] at hinf
    cases hinf
  | extreme _ _ hextreme =>
    rw [isInf_of_isFinite hx] at hextreme
    have hzero := hextreme.resolve_right Bool.false_ne_true
    rw [isNaN_negateIf]
    refine iff_of_false ?_ fun ⟨⟨_, hne⟩, _⟩ => hne ((beq_zero_iff x).1 hzero)
    split <;> decide +kernel
  | unreal _ hne hfinite hnegative hwhole =>
    have hnot : ¬∃ n : ℤ, toRat y = n := by
      rw [← isInteger_iff hfinite, hwhole]
      exact Bool.false_ne_true
    exact iff_of_true (by decide +kernel) ⟨⟨hnegative, fun hzero => hne ((beq_zero_iff x).2 hzero)⟩, hfinite, hnot⟩
  | real _ hfinite hreal =>
    rw [isNaN_negateIf, isNaN_positivePower, ← isInteger_iff hfinite]
    exact iff_of_false Bool.false_ne_true fun ⟨⟨hnegative, _⟩, _, hwhole⟩ => hwhole (hreal hnegative)

end Binary64
end Reckoner

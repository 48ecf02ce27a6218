import Mathlib.Algebra.Order.Field.Power
import Mathlib.Data.Rat.Cast.Order
import Mathlib.Tactic.Positivity
import Reckoner.Proofs.Binary64.Nearest
import Reckoner.Proofs.Binary64.Word
/-!
# Binary64.Value — the number behind a double

A finite double stands for a rational number (`toRat`): the one that the float model unpacks it to, which is the size
read off its bits with the sign in front (`toRat_eq`).  A double with the other sign has the same size
(`magnitudeBits_neg`).
-/
namespace Reckoner
namespace Binary64

open Float.Model (Format UnpackedFloat)
open Float.Model.UnpackedFloat (packComponents Sign)

/-- **The number that a finite double stands for**; zero for what stands for none. -/
def toRat (x : Float) : ℚ :=
  match x.toModel.unpack with
  | .finite s mantissa exponent _ => s.apply mantissa * 2 ^ exponent
  | _ => 0

def Magnitude.toRat (m : Magnitude) : ℚ := m.mantissa * 2 ^ m.exponent

theorem Magnitude.toRat_nonneg (m : Magnitude) : 0 ≤ m.toRat := by
  unfold Magnitude.toRat
  positivity

variable {x : Float}

theorem magnitude_of_magnitudeBits_eq_zero (h : magnitudeBits x = 0) : magnitude x = ⟨0, -1074⟩ := by
  rw [magnitude, h]
  rfl

theorem toRat_eq (h : x.isFinite = true) : toRat x = (if isNegative x then -1 else 1) * (magnitude x).toRat := by
  by_cases hne : magnitudeBits x = 0
  · rcases exists_unpack_eq_zero hne with ⟨s, hunpack⟩
    rw [toRat, hunpack, Magnitude.toRat, magnitude_of_magnitudeBits_eq_zero hne]
    simp
  · rcases exists_unpack_eq_finite ((isFinite_iff x).1 h) hne with ⟨_, hunpack⟩
    rw [toRat, hunpack, Magnitude.toRat]
    cases isNegative x <;> simp [Sign.apply]

theorem abs_toRat (h : x.isFinite = true) : |toRat x| = (magnitude x).toRat := by
  rw [toRat_eq h, abs_mul, abs_of_nonneg (magnitude x).toRat_nonneg]
  cases isNegative x <;> simp

theorem magnitudeBits_ne_zero (h : x.isFinite = true) (hne : |toRat x| ≠ 0) : magnitudeBits x ≠ 0 := by
  intro hzero
  rw [abs_toRat h, magnitude_of_magnitudeBits_eq_zero hzero, Magnitude.toRat] at hne
  simp at hne

theorem mantissa_lt (x : Float) : (magnitude x).mantissa < 2 ^ 53 := ofBits_mantissa_lt (magnitudeBits x)

theorem le_exponent (x : Float) : -1074 ≤ (magnitude x).exponent := by
  rcases ofBits_exponent (magnitudeBits x) with h | h
  · exact h.ge
  · exact h.1

/-! ## The other sign -/

section Parts

variable {s : Sign} {e : BitVec 11} {m : BitVec 52} (h : x.toBits.toBitVec = packComponents .binary64 s e m)
include h

theorem unpack_parts : x.toModel.unpack = UnpackedFloat.unpack .binary64 (packComponents .binary64 s e m) :=
  congrArg (UnpackedFloat.unpack .binary64) h

theorem isNaN_parts : x.isNaN = (e == -1#11 && m != 0#52) := by
  have hisNaN : x.isNaN = x.toModel.unpack.isNaN := rfl
  rw [hisNaN, unpack_parts h]
  rcases unpack_cases s e m with ⟨rfl, hm, hunpack⟩ | ⟨rfl, rfl, hunpack⟩ | ⟨rfl, rfl, hunpack⟩ |
    ⟨hfinite, _, hunpack⟩
  · rw [hunpack, bne_iff_ne.2 hm]
    rfl
  · rw [hunpack]
    rfl
  · rw [hunpack]
    rfl
  · have hfull : e ≠ -1#11 := by
      rintro rfl
      exact hfinite rfl
    rw [hunpack, beq_eq_false_iff_ne.2 hfull]
    rfl

theorem toBits_neg (hnan : x.isNaN = false) : (-x).toBits.toBitVec = packComponents .binary64 (-s) e m := by
  have hneg : (-x).toBits.toBitVec = UnpackedFloat.pack .binary64 (UnpackedFloat.neg x.toModel.unpack) := rfl
  rw [isNaN_parts h] at hnan
  rw [hneg, unpack_parts h]
  rcases unpack_cases s e m with ⟨rfl, hm, _⟩ | ⟨rfl, rfl, hunpack⟩ | ⟨rfl, rfl, hunpack⟩ |
    ⟨hfinite, hpositive, hunpack⟩
  · rw [bne_iff_ne.2 hm] at hnan
    cases hnan
  · rw [hunpack]
    rfl
  · rw [hunpack]
    rfl
  · rw [hunpack]
    exact pack_finite hfinite hpositive

end Parts

theorem magnitudeBits_neg (h : x.isNaN = false) : magnitudeBits (-x) = magnitudeBits x := by
  rcases exists_parts x with ⟨s, e, m, hparts, hmagnitude, _⟩
  rw [hmagnitude]
  exact (parts (toBits_neg hparts h)).1

theorem isNegative_neg (h : x.isNaN = false) : isNegative (-x) = !isNegative x := by
  rcases exists_parts x with ⟨s, e, m, hparts, _, hsign⟩
  rw [hsign, (parts (toBits_neg hparts h)).2]
  cases s <;> rfl

theorem isFinite_neg (h : x.isNaN = false) : (-x).isFinite = x.isFinite := by
  rw [Bool.eq_iff_iff, isFinite_iff, isFinite_iff, magnitudeBits_neg h]

theorem isNaN_neg (x : Float) : (-x).isNaN = x.isNaN := by
  cases hnan : x.isNaN with
  | true =>
    have hunpack : x.toModel.unpack = .notANumber := by
      have hisNaN : x.toModel.unpack.isNaN = true := hnan
      cases hx : x.toModel.unpack <;> rw [hx] at hisNaN <;> first | rfl | cases hisNaN
    have hneg : (-x).isNaN = (UnpackedFloat.unpack .binary64 (UnpackedFloat.pack .binary64
      (UnpackedFloat.neg x.toModel.unpack))).isNaN := rfl
    rw [hneg, hunpack]
    decide
  | false =>
    rcases exists_parts x with ⟨s, e, m, hparts, _⟩
    rw [isNaN_parts (toBits_neg hparts hnan), ← isNaN_parts hparts, hnan]

end Binary64
end Reckoner

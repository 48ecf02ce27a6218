import Reckoner.Numeral
import Reckoner.Proofs.Binary64.Word
import Reckoner.Proofs.Decimal.ReadBack

/-!
# Numeral — what the text of a number reads as

The digits of a finite double read as its size (`read?_digits`), and a numeral, which has no sign, never reads as a
negative number (`isNegative_of_read?`).  So a finite double that is not negative is read back from its own text, and a
negative one from a minus and the text of its size.
-/
namespace Reckoner
namespace Numeral

open Binary64 (isNegative magnitudeBits)

variable {x : Float}

theorem nonFinite?_eq_none (h : x.isFinite = true) : nonFinite? x = none := by
  unfold nonFinite?
  rw [Binary64.isNaN_of_isFinite h, Binary64.isInf_of_isFinite h]
  rfl

theorem fixed?_of_isFinite (h : x.isFinite = true) :
    fixed? x = Decimal.Fixed.ofMagnitude? (Binary64.magnitude x) := if_pos h

theorem shownTo_of_not_isFinite (places : Nat) (h : x.isFinite = false) : shownTo places x = plain x := by
  rw [shownTo, fixed?, h, if_neg Bool.false_ne_true]

theorem plainChars_of_isFinite (h : x.isFinite = true) : plainChars x = sign x ++ (digits .up x).positional := by
  rw [plainChars, nonFinite?_eq_none h, Option.getD_none]

theorem plainChars_of_not_isFinite (h : x.isFinite = false) :
    plainChars x ∈ ["NaN".toList, "-inf".toList, "inf".toList] := by
  unfold plainChars nonFinite?
  cases hnan : x.isNaN with
  | true => exact List.mem_cons_self
  | false =>
    rw [Binary64.isInf_of_not_isFinite hnan h]
    cases isNegative x with
    | true => exact List.mem_cons_of_mem _ List.mem_cons_self
    | false => exact List.mem_cons_of_mem _ (List.mem_cons_of_mem _ List.mem_cons_self)

theorem nearestBits_digits (tie : Tie) (h : x.isFinite = true) : (digits tie x).nearestBits = magnitudeBits x := by
  have hsize : magnitudeBits x < Binary64.infinityBits := (Binary64.isFinite_iff x).1 h
  rw [digits, Decimal.nearestBits_shortest, Binary64.magnitude, Decimal.nearestBits_ofMagnitude hsize]

/-- **The digits of a double read as its size.** -/
theorem read?_digits (tie : Tie) (h : x.isFinite = true) :
    read? (digits tie x).positional = some (Float.ofBits (.ofNat (magnitudeBits x))) := by
  have hfloat : (digits tie x).toFloat = Float.ofBits (.ofNat (digits tie x).nearestBits) := rfl
  rw [read?, Decimal.toFloat_of_read?_positional, hfloat, nearestBits_digits tie h]

theorem exists_bits_of_read? {text : List Char} (h : read? text = some x) :
    ∃ bits, bits ≤ Binary64.infinityBits ∧ Float.ofBits (.ofNat bits) = x := by
  obtain ⟨d, _, rfl⟩ := Option.map_eq_some_iff.1 h
  exact ⟨d.nearestBits, Binary64.nearestBits_le _ _, rfl⟩

/-- **A numeral is never negative.** -/
theorem isNegative_of_read? {text : List Char} (h : read? text = some x) : isNegative x = false := by
  obtain ⟨bits, hle, rfl⟩ := exists_bits_of_read? h
  exact Binary64.isNegative_ofBits hle

/-! ## Results -/

theorem unsignedZero_of_magnitudeBits_ne_zero (h : magnitudeBits x ≠ 0) : unsignedZero x = x := by
  rw [unsignedZero, if_neg (mt (Binary64.beq_zero_iff x).1 h)]

theorem unsignedZero_of_magnitudeBits_eq_zero (h : magnitudeBits x = 0) : unsignedZero x = 0 := by
  rw [unsignedZero, if_pos ((Binary64.beq_zero_iff x).2 h)]

/-- **Only negative zero is shown as something else.** -/
theorem unsignedZero_eq (x : Float) : unsignedZero x = if x = -0 then 0 else x := by
  by_cases hsize : magnitudeBits x = 0
  · rw [unsignedZero_of_magnitudeBits_eq_zero hsize]
    cases hsign : isNegative x with
    | true =>
      have hnegative : x = -0 := Binary64.eq_of_magnitudeBits hsign hsize
      rw [if_pos hnegative]
    | false =>
      have hpositive : x = 0 := Binary64.eq_of_magnitudeBits hsign hsize
      rw [hpositive]
      rfl
  · rw [unsignedZero_of_magnitudeBits_ne_zero hsize, if_neg]
    rintro rfl
    exact hsize (by decide)

end Numeral
end Reckoner

import Reckoner.Proofs.Answer
import Reckoner.Proofs.Flat.Fold
import Reckoner.Proofs.Line.Written

/-!
# Result — a result typed in again

What is shown for a finite double is a line whose value is that double, on any calculator (`Calculator.evaluate_shown`).
A number that is not negative is a single token and its own value; a negative one is a minus and its size, which is
taken from zero, and zero minus a size is exact.
-/
namespace Reckoner

open Binary64 (isNegative magnitudeBits)

namespace Flat

variable (checks : Bool) {operator sign : Operator} {x y : Float}

theorem value_number (h : x.isFinite = true) : value checks [.number x] = .ok x := by
  have hlength : [Token.number x].length ≤ 1 := Nat.le_refl 1
  rw [value_of_length_le_one hlength, final, h, Bool.not_true, Bool.and_false]
  rfl

/-- **Two numbers and an operator between them** are joined in one step, if the result is finite. -/
theorem value_joined (h : (operator.apply x y).isFinite = true) :
    value checks [.number x, .op operator, .number y] = .ok (operator.apply x y) := by
  have hposition : nextPosition? [.number x, .op operator, .number y] = some 1 := by
    cases operator <;> rfl
  have hstep : nextStep [.number x, .op operator, .number y] = .ok ⟨1, operator, x, y⟩ :=
    @nextStep_append [] [] x y operator hposition
  have haccepted : (if checks then Step.refusal? ⟨1, operator, x, y⟩ else none) = none := by
    cases checks with
    | false => rfl
    | true => exact if_pos h
  have hadvance : advance checks [.number x, .op operator, .number y] = .ok [.number (operator.apply x y)] := by
    unfold advance
    simp only [hstep, haccepted]
    exact run_append [] [] x y operator
  have hlength : 1 < [Token.number x, .op operator, .number y].length := by simp
  rw [value_of_one_lt_length hlength, hadvance]
  exact value_number checks h

theorem evaluate_number (h : x.isFinite = true) : evaluate checks [.number x] = .ok x := by
  have hcanonical : canonical [.number x] = .ok [.number x] := rfl
  rw [evaluate, hcanonical]
  exact value_number checks h

/-- **A sign in front of a number joins it to zero.** -/
theorem evaluate_signed (hsign : sign.isSign = true) (h : (sign.apply 0 y).isFinite = true) :
    evaluate checks [.op sign, .number y] = .ok (sign.apply 0 y) := by
  have hcanonical : canonical [.op sign, .number y] = .ok [.number 0, .op sign, .number y] := by
    cases sign <;> first | rfl | cases hsign
  rw [evaluate, hcanonical]
  exact value_joined checks h

end Flat

namespace Calculator

/-- A line without brackets and references comes to what its tokens come to. -/
theorem outcome_of_flat {c : Calculator} {line : String} {ts : List Token}
    (h : Line.read? c.settings.rootSymbol line.toList = some ts) (hne : ts ≠ []) (hflat : Group.Bracketless ts)
    (hanswer : .answer ∉ ts) : c.outcome line = Flat.evaluate c.settings.domainChecks ts := by
  rw [outcome_of_read? h hne, Token.bindAnswer_eq_self hanswer, Group.resolve_bracketless _ hflat]

theorem outcome_plain (c : Calculator) {x : Float} (h : x.isFinite = true) (hzero : x ≠ -0) :
    c.outcome (Numeral.plain x) = .ok x := by
  have hchars : (Numeral.plain x).toList = Numeral.plainChars x := String.toList_ofList
  cases hsign : isNegative x with
  | false =>
    have hread := Line.read?_plainChars c.settings.rootSymbol h hsign
    rw [← hchars] at hread
    rw [outcome_of_flat hread (by simp) (by simp [Group.Bracketless, Token.isBracket]) (by simp)]
    exact Flat.evaluate_number _ h
  | true =>
    have hsize : magnitudeBits x ≠ 0 := fun hsize => hzero (Binary64.eq_of_magnitudeBits hsign hsize)
    have hvalue : Operator.subtract.apply 0 (Float.ofBits (.ofNat (magnitudeBits x))) = x :=
      Binary64.zero_sub_ofBits h hsize hsign
    have hread := Line.read?_plainChars_of_isNegative c.settings.rootSymbol h hsign
    rw [← hchars] at hread
    rw [outcome_of_flat hread (by simp) (by simp [Group.Bracketless, Token.isBracket]) (by simp),
      Flat.evaluate_signed _ rfl (by rw [hvalue]; exact h), hvalue]

/-- **A result that is shown can be typed in again**, on any calculator: the line has a value, and it is the double
that was shown, bit for bit, except that negative zero has become zero. -/
theorem evaluate_shown (c : Calculator) {x : Float} (h : x.isFinite = true) :
    (c.evaluate (Numeral.shown x)).1 = .ok (if x = -0 then 0 else x) := by
  have hshown : Numeral.shown x = Numeral.plain (if x = -0 then 0 else x) := by
    rw [Numeral.shown, Numeral.unsignedZero_eq]
  show c.outcome _ = _
  rw [hshown]
  split
  · exact outcome_plain c rfl (by decide)
  · exact outcome_plain c h ‹_›

/-- The negative subnormal next to zero, on a calculator with another symbol and something to remember. -/
theorem evaluate_shown_subnormal :
    let c : Calculator := ⟨⟨'~', true⟩, 7⟩
    (Float.ofBits 0x8000000000000001).isFinite = true ∧
      (c.evaluate (Numeral.shown (Float.ofBits 0x8000000000000001))).1 = .ok (Float.ofBits 0x8000000000000001) := by
  intro c
  have hfinite : (Float.ofBits 0x8000000000000001).isFinite = true := by decide
  have hne : Float.ofBits 0x8000000000000001 ≠ -0 := by decide
  refine ⟨hfinite, ?_⟩
  rw [evaluate_shown c hfinite, if_neg hne]

end Calculator
end Reckoner

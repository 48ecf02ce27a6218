import Mathlib.Algebra.Group.Int.Even
import Reckoner.Proofs.Binary64.Reciprocal
import Reckoner.Proofs.Precedence

/-!
# Roots — when a root of a negative number is reported

A root is computed as the power with the reciprocal of its degree, so a root of a negative number is reported if this
reciprocal is no whole number.  Beyond one it never is, and so a root of odd degree is reported along with those of even
degree although it is real; only the degrees one and minus one are spared (`Calculator.evaluate_rootOfNegative_iff`).
-/
namespace Reckoner

open Binary64

namespace Binary64

variable {x y : Float}

/-- **Degrees with a reciprocal that is no whole number**: among them is every odd one beyond one. -/
theorem not_whole_reciprocal_iff (hx : x.isFinite = true) :
    ((1 / x).isFinite = true ∧ ¬∃ n : ℤ, toRat (1 / x) = n) ↔
      ((¬∃ n : ℤ, Odd n ∧ toRat x = n) ∧ (1 / x).isFinite = true ∧ ¬∃ n : ℤ, toRat (1 / x) = n) ∨
        ∃ n : ℤ, Odd n ∧ toRat x = n ∧ 3 ≤ |n| := by
  constructor
  · rintro ⟨hfinite, hwhole⟩
    by_cases hodd : ∃ n : ℤ, Odd n ∧ toRat x = n
    · obtain ⟨n, hn, hxn⟩ := hodd
      refine .inr ⟨n, hn, hxn, ?_⟩
      by_contra hlt
      have hone : |n| = 1 := by
        obtain ⟨k, rfl⟩ := hn
        rw [Int.abs_eq_natAbs] at hlt ⊢
        omega
      have habs : |toRat x| = 1 := by
        rw [hxn]
        exact_mod_cast hone
      obtain ⟨_, hinteger⟩ := isInteger_reciprocal_of_abs_eq_one hx habs
      exact hwhole ((isInteger_iff hfinite).1 hinteger)
    · exact .inl ⟨hodd, hfinite, hwhole⟩
  · rintro (⟨_, hfinite, hwhole⟩ | ⟨n, _, hxn, hn⟩)
    · exact ⟨hfinite, hwhole⟩
    · have habs : 1 < |toRat x| := by
        rw [hxn]
        exact_mod_cast lt_of_lt_of_le (by norm_num) hn
      obtain ⟨hfinite, hinteger⟩ := isInteger_reciprocal hx habs
      refine ⟨hfinite, fun hwhole => ?_⟩
      rw [(isInteger_iff hfinite).2 hwhole] at hinteger
      cases hinteger

/-- **Where a root is no number.** -/
theorem isNaN_root_iff (hx : x.isFinite = true) (hy : y.isFinite = true) : (root x y).isNaN = true ↔ toRat y < 0 ∧
    (((¬∃ n : ℤ, Odd n ∧ toRat x = n) ∧ (1 / x).isFinite = true ∧ ¬∃ n : ℤ, toRat (1 / x) = n) ∨
      ∃ n : ℤ, Odd n ∧ toRat x = n ∧ 3 ≤ |n|) := by
  rw [← not_whole_reciprocal_iff hx]
  exact isNaN_power_iff hy (isNaN_reciprocal hx)

end Binary64

namespace Event

theorem hasNoRealResult_iff (s : Flat.Step) : (step s).hasNoRealResult = true ↔
    (s.x.isFinite = true ∧ s.y.isFinite = true) ∧ s.operator.isExponential = true ∧ s.result.isNaN = true := by
  unfold hasNoRealResult
  simp only [Bool.and_eq_true]
  tauto

/-- **What a value without a real result is refused with.** -/
theorem refusal?_of_hasNoRealResult {s : Flat.Step} (h : (step s).hasNoRealResult = true) :
    (step s).refusal? = some (.noRealResult s.x s.operator s.y) := by
  obtain ⟨_, _, hnan⟩ := (hasNoRealResult_iff s).1 h
  have hfinite : s.result.isFinite = false := by rw [isFinite_eq, hnan]; rfl
  show s.refusal? = _
  unfold Flat.Step.refusal?
  rw [hfinite, if_neg Bool.false_ne_true]
  exact if_pos h

/-- **The words of a refusal name the step.** -/
theorem eq_of_refusal? {s : Flat.Step} {x y : Float} {operator : Operator}
    (h : (step s).refusal? = some (.noRealResult x operator y)) : s.x = x ∧ s.operator = operator ∧ s.y = y := by
  replace h : s.refusal? = some (.noRealResult x operator y) := h
  unfold Flat.Step.refusal? at h
  split at h
  · cases h
  · split at h
    · cases h
      exact ⟨rfl, rfl, rfl⟩
    · split at h <;> cases h

end Event

namespace Flat

/-- **A step of which it is reported that it has no real result.** -/
theorem Step.hasNoRealResult_iff (s : Step) : (Event.step s).hasNoRealResult = true ↔
    (s.x.isFinite = true ∧ s.y.isFinite = true) ∧
      (s.operator = .power ∧ toRat s.x < 0 ∧ (¬∃ n : ℤ, toRat s.y = n) ∨
        s.operator = .root ∧ toRat s.y < 0 ∧
          (((¬∃ n : ℤ, Odd n ∧ toRat s.x = n) ∧ (1 / s.x).isFinite = true ∧ ¬∃ n : ℤ, toRat (1 / s.x) = n) ∨
            ∃ n : ℤ, Odd n ∧ toRat s.x = n ∧ 3 ≤ |n|)) := by
  rcases s with ⟨position, operator, x, y⟩
  rw [Event.hasNoRealResult_iff]
  refine and_congr_right fun ⟨hx, hy⟩ => ?_
  cases operator with
  | power =>
    have hpower : (power x y).isNaN = true ↔ toRat x < 0 ∧ y.isFinite = true ∧ ¬∃ n : ℤ, toRat y = n :=
      isNaN_power_iff hx (isNaN_of_isFinite hy)
    simp only [result, Operator.apply, hpower, hy]
    simp [Operator.isExponential, Operator.rank]
  | root =>
    simp only [result, Operator.apply, isNaN_root_iff hx hy]
    simp [Operator.isExponential, Operator.rank]
  | add | subtract | multiply | divide => simp [Operator.isExponential, Operator.rank]

end Flat

namespace Calculator

/-- **When a root of a negative number is reported**: for the first value that is not finite, if it is the result of a
step on finite numbers that raises a negative number to a power that is not whole; or that takes a root of a negative
number whose degree has a reciprocal that is not whole.  Such degrees are all odd whole numbers beyond one, though an odd
root of a negative number is real. -/
theorem evaluate_rootOfNegative_iff (c : Calculator) (line : String) (f : Failure)
    (hchecks : c.settings.domainChecks = true) :
    ((c.evaluate line).1 = .error f ∧ f.kind = .rootOfNegative) ↔
      ∃ s : Flat.Step, (c.traced line).firstNonFinite? = some (.step s) ∧ f = .noRealResult s.x s.operator s.y ∧
        (s.x.isFinite = true ∧ s.y.isFinite = true) ∧
          (s.operator = .power ∧ toRat s.x < 0 ∧ (¬∃ n : ℤ, toRat s.y = n) ∨
            s.operator = .root ∧ toRat s.y < 0 ∧
              (((¬∃ n : ℤ, Odd n ∧ toRat s.x = n) ∧ (1 / s.x).isFinite = true ∧ ¬∃ n : ℤ, toRat (1 / s.x) = n) ∨
                ∃ n : ℤ, Odd n ∧ toRat s.x = n ∧ 3 ≤ |n|)) := by
  have houtcome : (c.evaluate line).1 = (c.traced line).under true := by
    rw [← hchecks]
    exact outcome_eq_under c line
  constructor
  · rintro ⟨herror, hkind⟩
    obtain ⟨_, hsyntax, _⟩ | ⟨e, hfirst, hrefusal⟩ := outcome_error_cases herror
    · rw [hkind] at hsyntax
      cases hsyntax
    · have hnoReal : e.hasNoRealResult = true := by
        by_contra hnot
        rw [Event.kind_of_refusal hrefusal, if_neg hnot] at hkind
        cases hkind
      cases e with
      | value v => cases hnoReal
      | step s =>
        rw [Event.refusal?_of_hasNoRealResult hnoReal] at hrefusal
        cases hrefusal
        exact ⟨s, hfirst, rfl, (Flat.Step.hasNoRealResult_iff s).1 hnoReal⟩
  · rintro ⟨s, hfirst, rfl, hstep⟩
    obtain ⟨g, hg, hrefusal⟩ := Traced.under_true_of_firstNonFinite hfirst
    rw [Event.refusal?_of_hasNoRealResult ((Flat.Step.hasNoRealResult_iff s).2 hstep)] at hrefusal
    cases hrefusal
    exact ⟨houtcome.trans hg, rfl⟩

/-- A half power of minus eight, and its cube root. -/
theorem evaluate_rootOfNegative_eight :
    let c := new {}
    c.settings.domainChecks = true ∧ (c.evaluate "(0-8)^0.5").1 = .error (.noRealResult (-8) .power 0.5) ∧
      (∃ s : Flat.Step, s.x = -8 ∧ s.operator = .power ∧ toRat s.x < 0 ∧ ¬∃ n : ℤ, toRat s.y = n) ∧
      (c.evaluate "3v-8").1 = .error (.noRealResult 3 .root (-8)) ∧
      ∃ s : Flat.Step, s.operator = .root ∧ toRat s.y < 0 ∧ ∃ n : ℤ, Odd n ∧ toRat s.x = n ∧ 3 ≤ |n| := by
  intro c
  have hpower : (c.evaluate "(0-8)^0.5").1 = .error (.noRealResult (-8) .power 0.5) := by decide +kernel
  have hroot : (c.evaluate "3v-8").1 = .error (.noRealResult 3 .root (-8)) := by decide +kernel
  obtain ⟨s, _, hs, _, hpowered⟩ := (evaluate_rootOfNegative_iff c "(0-8)^0.5" _ rfl).1 ⟨hpower, rfl⟩
  obtain ⟨t, _, ht, _, hrooted⟩ := (evaluate_rootOfNegative_iff c "3v-8" _ rfl).1 ⟨hroot, rfl⟩
  obtain ⟨hbase, hop, _⟩ := Failure.noRealResult.inj hs
  obtain ⟨hdegree, hop', _⟩ := Failure.noRealResult.inj ht
  rw [← hop] at hpowered
  rw [← hop'] at hrooted
  have hodd : ∃ n : ℤ, Odd n ∧ toRat t.x = n := ⟨3, by decide, by rw [← hdegree]; decide +kernel⟩
  obtain ⟨_, hx, hy⟩ | ⟨hop, _⟩ := hpowered
  · obtain ⟨hop', _⟩ | ⟨_, hradicand, ⟨hnot, _⟩ | hbeyond⟩ := hrooted
    · cases hop'
    · exact absurd hodd hnot
    · exact ⟨rfl, hpower, ⟨s, hbase.symm, hop.symm, hx, hy⟩, hroot, t, hop'.symm, hradicand, hbeyond⟩
  · cases hop

/-- **The cube root of minus eight is reported although it is minus two.** -/
theorem evaluate_odd_root :
    ¬∀ (c : Calculator) (line : String) (f : Failure), c.settings.domainChecks = true →
      (c.evaluate line).1 = .error f → f.kind = .rootOfNegative →
      ∃ s : Flat.Step, (c.traced line).firstNonFinite? = some (.step s) ∧
        (s.operator = .power ∧ toRat s.x < 0 ∧ (¬∃ n : ℤ, toRat s.y = n) ∨
          s.operator = .root ∧ toRat s.y < 0 ∧ ¬∃ n : ℤ, Odd n ∧ toRat s.x = n) := by
  intro h
  have hroot : (evaluate (new {}) "3v-8").1 = .error (.noRealResult 3 .root (-8)) := by decide +kernel
  obtain ⟨s, hfirst, hstep⟩ := h (new {}) "3v-8" _ rfl hroot rfl
  obtain ⟨g, hg, hrefusal⟩ := Traced.under_true_of_firstNonFinite hfirst
  have houtcome : (evaluate (new {}) "3v-8").1 = (traced (new {}) "3v-8").under true := outcome_eq_under _ _
  rw [houtcome, hg] at hroot
  cases hroot
  obtain ⟨hdegree, hop, _⟩ := Event.eq_of_refusal? hrefusal
  obtain ⟨hpower, _⟩ | ⟨_, _, hodd⟩ := hstep
  · rw [hop] at hpower
    cases hpower
  · exact hodd ⟨3, by decide, by rw [hdegree]; decide +kernel⟩

end Calculator
end Reckoner

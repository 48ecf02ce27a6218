import Reckoner.Proofs.Decimal.Rounding
import Reckoner.Proofs.Numeral

/-!
# Numeral.Canonical — the one spelling of a result with places

A result with places is spelt in one way only: no zero in front of its whole part that could be left out, none at the
end of its fraction, no sign on a zero and no exponent (`Spelling.IsCanonical`).  Both ways to get there, rounding
to the places asked for and writing in full what is too large, go through one number with places that depends on the
size of the double alone (`printed`).  So the double with the other sign has the same text but for the minus.
-/
namespace Reckoner

namespace Decimal

theorem getLast?_toDigits (n : Nat) : (Nat.toDigits 10 n).getLast? = some (n % 10).digitChar := by
  rcases Nat.lt_or_ge n 10 with hlt | hle
  · rw [Nat.toDigits_of_lt_base hlt, Nat.mod_eq_of_lt hlt]
    rfl
  · rw [Nat.toDigits_of_base_le (by decide) hle, List.getLast?_concat]

theorem getLast?_leftpad_toDigits (n places : Nat) :
    ((Nat.toDigits 10 n).leftpad places '0').getLast? = some (n % 10).digitChar := by
  rw [List.leftpad, List.getLast?_append, getLast?_toDigits]
  rfl

/-- A whole part has a zero in front only if it is nothing but that zero. -/
theorem toDigits_eq_of_head? {n : Nat} (h : (Nat.toDigits 10 n).head? = some '0') : Nat.toDigits 10 n = ['0'] := by
  by_cases hzero : n = 0
  · rw [hzero]
    rfl
  · exact absurd h (head?_toDigits_ne n hzero)

theorem positional_ne_zero {d : Decimal} (h : d.digits ≠ 0) : d.positional ≠ ['0'] := by
  intro hzero
  have hread := read?_positional d
  have hdigit : read? ['0'] = some ⟨0, 0⟩ := rfl
  rw [hzero, hdigit, Option.some_inj, Decimal.mk.injEq] at hread
  exact (Nat.mul_ne_zero h (Nat.pow_pos (by decide)).ne') hread.1.symm

namespace Fixed

/-- At most so many places, and no zero at their end. -/
def IsTrimmed (f : Fixed) (places : Nat) : Prop := f.scale ≤ places ∧ (f.digits % 10 = 0 → f.scale = 0)

theorem isTrimmed_trimZeros : ∀ scale digits : Nat, (trimZeros digits scale).IsTrimmed scale
  | 0, digits => ⟨le_rfl, fun _ => rfl⟩
  | scale + 1, digits => by
    rw [trimZeros]
    by_cases hzero : digits % 10 = 0
    · rw [if_pos hzero]
      rcases isTrimmed_trimZeros scale (digits / 10) with ⟨hle, hlast⟩
      exact ⟨Nat.le_succ_of_le hle, hlast⟩
    · rw [if_neg hzero]
      exact ⟨le_rfl, fun h => absurd h hzero⟩

theorem scale_round_le (f : Fixed) (places : Nat) : (f.round places).scale ≤ places := by
  unfold round
  by_cases h : f.scale ≤ places
  · rw [if_pos h]
    exact h
  · rw [if_neg h]

theorem isTrimmed_round (f : Fixed) (places : Nat) : (f.round places).trim.IsTrimmed places := by
  rcases isTrimmed_trimZeros (f.round places).scale (f.round places).digits with ⟨hle, hlast⟩
  exact ⟨hle.trans (scale_round_le f places), hlast⟩

/-- The digits of the places, zeros in front of them included. -/
def fraction (f : Fixed) : List Char :=
  if f.scale = 0 then [] else (Nat.toDigits 10 (f.digits % 10 ^ f.scale)).leftpad f.scale '0'

theorem fraction_of_ne {f : Fixed} (h : f.scale ≠ 0) :
    f.fraction = (Nat.toDigits 10 (f.digits % 10 ^ f.scale)).leftpad f.scale '0' := if_neg h

theorem length_fraction (f : Fixed) : f.fraction.length = f.scale := by
  by_cases h : f.scale = 0
  · rw [fraction, if_pos h, h]
    rfl
  · rw [fraction_of_ne h]
    exact length_leftpad_toDigits (Nat.mod_lt f.digits (Nat.pow_pos (by decide))) h

theorem fraction_eq_nil_iff {f : Fixed} : f.fraction = [] ↔ f.scale = 0 := by
  rw [← List.length_eq_zero_iff, length_fraction]

theorem isDigit_of_mem_fraction {f : Fixed} {c : Char} (h : c ∈ f.fraction) : c.isDigit = true := by
  by_cases hscale : f.scale = 0
  · rw [fraction_eq_nil_iff.2 hscale] at h
    cases h
  · rw [fraction_of_ne hscale] at h
    exact isDigit_of_mem_leftpad h

theorem getLast?_fraction_ne {f : Fixed} (h : f.digits % 10 = 0 → f.scale = 0) : f.fraction.getLast? ≠ some '0' := by
  by_cases hscale : f.scale = 0
  · rw [fraction_eq_nil_iff.2 hscale]
    decide
  · have hdigit : f.digits % 10 ^ f.scale % 10 = f.digits % 10 := Nat.mod_mod_of_dvd _ (dvd_pow_self 10 hscale)
    rw [fraction_of_ne hscale, getLast?_leftpad_toDigits, hdigit, Ne, Option.some_inj]
    exact digitChar_ne_zero _ (Nat.mod_lt _ (by decide)) (mt h hscale)

theorem positional_toDecimal (f : Fixed) : f.toDecimal.positional =
    Nat.toDigits 10 (f.digits / 10 ^ f.scale) ++ if f.fraction = [] then [] else '.' :: f.fraction := by
  have hplaces : (- -(f.scale : Int)).toNat = f.scale := by omega
  have hwhole : (-(f.scale : Int)).toNat = 0 := by omega
  unfold toDecimal positional
  simp only [hplaces, hwhole, Nat.pow_eq, Nat.pow_zero, Nat.mul_one, fraction_eq_nil_iff]
  by_cases h : f.scale = 0
  · rw [if_pos h, if_pos h, List.append_nil]
  · rw [if_neg h, if_neg h, fraction_of_ne h]

end Fixed

/-! ## The shortest digits of a whole number -/

theorem exponent_trim_nonneg {d : Decimal} (h : 0 ≤ d.exponent) : 0 ≤ d.trim.exponent := by
  fun_induction trim d with
  | case1 d hzero => exact le_rfl
  | case2 d hne hlast ih => exact ih (Int.le_add_one h)
  | case3 d hne hlast => exact h

theorem exponent_of_onGrid? {tie : Tie} {bits cut : Nat} {exact d : Decimal}
    (h : onGrid? tie bits exact cut = some d) : d.exponent = exact.exponent + cut := by
  unfold onGrid? at h
  simp only at h
  split at h <;> cases h <;> rfl

theorem exponent_firstHit_nonneg (tie : Tie) (bits : Nat) {exact : Decimal} (h : 0 ≤ exact.exponent) :
    ∀ cut, 0 ≤ (firstHit tie bits exact cut).exponent
  | 0 => h
  | cut + 1 => by
    rw [firstHit]
    cases hgrid : onGrid? tie bits exact (cut + 1) with
    | none => exact exponent_firstHit_nonneg tie bits h cut
    | some d =>
      have hexponent := exponent_of_onGrid? hgrid
      rw [Option.getD_some]
      omega

theorem exponent_shortest_nonneg (tie : Tie) {exact : Decimal} (h : 0 ≤ exact.exponent) :
    0 ≤ (exact.shortest tie).exponent :=
  exponent_trim_nonneg (exponent_firstHit_nonneg tie _ h _)

end Decimal

namespace Numeral

open Binary64 (isNegative magnitude magnitudeBits)

/-! ## Spellings -/

/-- The parts of a number as it is written: a sign, a whole part, and behind a point a fraction, if there is one. -/
structure Spelling where
  negative : Bool
  whole : List Char
  fraction : List Char

namespace Spelling

def text (s : Spelling) : List Char :=
  (if s.negative then ['-'] else []) ++ s.whole ++ if s.fraction = [] then [] else '.' :: s.fraction

/-- **A spelling with nothing to leave out.** -/
structure IsCanonical (s : Spelling) (places : Nat) : Prop where
  whole_ne_nil : s.whole ≠ []
  isDigit : ∀ c ∈ s.whole ++ s.fraction, c.isDigit = true
  /-- A zero in front is the whole part. -/
  whole_eq : s.whole.head? = some '0' → s.whole = ['0']
  length_le : s.fraction.length ≤ places
  getLast?_ne : s.fraction.getLast? ≠ some '0'
  text_ne : s.text ≠ ['-', '0']

end Spelling

theorem signed_positional_ne (negative : Bool) {d : Decimal} (h : d.digits ≠ 0) :
    (if negative then ['-'] else []) ++ d.positional ≠ ['-', '0'] := by
  intro htext
  cases negative with
  | false =>
    have hhead := d.head?_positional_ne
    rw [if_neg Bool.false_ne_true, List.nil_append] at htext
    rw [htext] at hhead
    exact hhead rfl
  | true =>
    rw [if_pos rfl, List.singleton_append, List.cons_inj_right] at htext
    exact Decimal.positional_ne_zero h htext

/-- **A number without a zero at the end of its places has a canonical text.** -/
theorem exists_spelling (negative : Bool) {f : Decimal.Fixed} {places : Nat} (hf : f.IsTrimmed places) :
    ∃ s : Spelling, s.IsCanonical places ∧ s.text = fixedChars negative f := by
  by_cases hzero : f.digits = 0
  · refine ⟨⟨false, ['0'], []⟩, ⟨by decide, List.forall_mem_singleton.2 rfl, fun _ => rfl, Nat.zero_le _,
      by decide, by decide⟩, ?_⟩
    rw [fixedChars, if_pos hzero]
    rfl
  · have htext : Spelling.text ⟨negative, Nat.toDigits 10 (f.digits / 10 ^ f.scale), f.fraction⟩ =
        (if negative then ['-'] else []) ++ f.toDecimal.positional := by
      rw [Decimal.Fixed.positional_toDecimal, ← List.append_assoc]
      rfl
    rw [fixedChars, if_neg hzero]
    refine ⟨⟨negative, Nat.toDigits 10 (f.digits / 10 ^ f.scale), f.fraction⟩, ?_, htext⟩
    constructor
    case whole_ne_nil => exact Nat.toDigits_ne_nil
    case isDigit =>
      refine List.forall_mem_append.2 ⟨fun c hc => ?_, fun c hc => Decimal.Fixed.isDigit_of_mem_fraction hc⟩
      exact Decimal.isDigit_of_mem_toDigits hc
    case whole_eq => exact Decimal.toDigits_eq_of_head?
    case length_le => exact f.length_fraction.trans_le hf.1
    case getLast?_ne => exact Decimal.Fixed.getLast?_fraction_ne hf.2
    case text_ne =>
      rw [htext]
      exact signed_positional_ne negative hzero

/-! ## The printed number -/

/-- **The number that is printed for a size**: rounded to the places asked for, or its shortest digits as a whole
number. -/
def printed (places : Nat) (m : Binary64.Magnitude) : Decimal.Fixed :=
  match Decimal.Fixed.ofMagnitude? m with
  | some f => (f.round places).trim
  | none =>
    let shortest := (Decimal.ofMagnitude m).shortest .up
    ⟨shortest.digits * 10 ^ shortest.exponent.toNat, 0⟩

theorem isTrimmed_printed (places : Nat) (m : Binary64.Magnitude) : (printed places m).IsTrimmed places := by
  unfold printed
  split
  · exact Decimal.Fixed.isTrimmed_round _ _
  · exact ⟨Nat.zero_le _, fun _ => rfl⟩

theorem exponent_nonneg {m : Binary64.Magnitude} (h : Decimal.Fixed.ofMagnitude? m = none) : 0 ≤ m.exponent := by
  by_contra hneg
  rw [Decimal.Fixed.ofMagnitude?_of_neg (not_le.1 hneg)] at h
  cases h

theorem positional_whole {d : Decimal} (h : 0 ≤ d.exponent) :
    (Decimal.Fixed.toDecimal ⟨d.digits * 10 ^ d.exponent.toNat, 0⟩).positional = d.positional := by
  have hplaces : (-d.exponent).toNat = 0 := by omega
  simp [Decimal.positional, Decimal.Fixed.toDecimal, hplaces]

/-- **What does not fit a number with places is a whole number**, and is written as one. -/
theorem plain_of_not_fits {x : Float} (h : x.isFinite = true)
    (hnone : Decimal.Fixed.ofMagnitude? (magnitude x) = none) :
    plain x = .ofList (fixedChars (isNegative x)
      ⟨(digits .up x).digits * 10 ^ (digits .up x).exponent.toNat, 0⟩) := by
  have hexponent := exponent_nonneg hnone
  have hshortest : 0 ≤ (digits .up x).exponent :=
    Decimal.exponent_shortest_nonneg .up (le_min hexponent le_rfl)
  have hdigits : (digits .up x).digits ≠ 0 := by
    intro hzero
    have hbits := nearestBits_digits .up h
    rw [Decimal.nearestBits_of_digits_eq_zero hzero] at hbits
    rw [Binary64.magnitude_of_magnitudeBits_eq_zero hbits.symm] at hexponent
    exact absurd hexponent (by decide)
  have hunits : (digits .up x).digits * 10 ^ (digits .up x).exponent.toNat ≠ 0 :=
    Nat.mul_ne_zero hdigits (Nat.pow_pos (by decide)).ne'
  rw [plain, plainChars_of_isFinite h, fixedChars, if_neg hunits, positional_whole hshortest, sign]

theorem shownTo_of_isFinite (places : Nat) {x : Float} (h : x.isFinite = true) :
    shownTo places x = .ofList (fixedChars (isNegative x) (printed places (magnitude x))) := by
  unfold shownTo printed
  rw [fixed?_of_isFinite h]
  cases hconversion : Decimal.Fixed.ofMagnitude? (magnitude x) with
  | some f => rfl
  | none => exact plain_of_not_fits h hconversion

/-! ## The other sign -/

theorem fixedChars_eq_zero_iff {negative : Bool} {f : Decimal.Fixed} :
    fixedChars negative f = ['0'] ↔ f.digits = 0 := by
  by_cases hzero : f.digits = 0
  · simp [fixedChars, hzero]
  · have hpositional := Decimal.positional_ne_zero (d := f.toDecimal) hzero
    rw [fixedChars, if_neg hzero]
    cases negative <;> simp [hzero, hpositional]

theorem ofList_fixedChars_true {f : Decimal.Fixed} (h : f.digits ≠ 0) :
    String.ofList (fixedChars true f) = "-" ++ String.ofList (fixedChars false f) := by
  rw [fixedChars, fixedChars, if_neg h, if_neg h, if_pos rfl, String.ofList_append]
  rfl

theorem shownTo_of_isNaN (places : Nat) {x : Float} (h : x.isNaN = true) : shownTo places x = "NaN" := by
  have hfinite : x.isFinite = false := by rw [Binary64.isFinite_eq, h, Bool.not_true, Bool.false_and]
  rw [shownTo_of_not_isFinite places hfinite, plain, plainChars, nonFinite?, if_pos h]
  rfl

theorem shownTo_of_isInf (places : Nat) {x : Float} (hnan : x.isNaN = false) (h : x.isInf = true) :
    shownTo places x = if isNegative x then "-inf" else "inf" := by
  have hfinite : x.isFinite = false := by rw [Binary64.isFinite_eq, h, Bool.not_true, Bool.and_false]
  rw [shownTo_of_not_isFinite places hfinite, plain, plainChars, nonFinite?, hnan, if_neg Bool.false_ne_true, if_pos h]
  cases isNegative x <;> rfl

theorem ofList_fixedChars_eq_zero_iff {negative : Bool} {f : Decimal.Fixed} :
    String.ofList (fixedChars negative f) = "0" ↔ f.digits = 0 := by
  rw [← @fixedChars_eq_zero_iff negative, ← String.toList_inj, String.toList_ofList]
  rfl

theorem shownTo_neg_of_isFinite (places : Nat) {x : Float} (h : x.isFinite = true) :
    shownTo places (-x) = .ofList (fixedChars (!isNegative x) (printed places (magnitude x))) := by
  have hnan := Binary64.isNaN_of_isFinite h
  have hmagnitude : magnitude (-x) = magnitude x := by rw [magnitude, magnitude, Binary64.magnitudeBits_neg hnan]
  rw [shownTo_of_isFinite places ((Binary64.isFinite_neg hnan).trans h), Binary64.isNegative_neg hnan, hmagnitude]

/-- **The other sign changes the minus and nothing else.** -/
theorem shownTo_neg (places : Nat) (x : Float) :
    if x.isNaN ∨ shownTo places x = "0" then shownTo places (-x) = shownTo places x
    else if isNegative x then shownTo places x = "-" ++ shownTo places (-x)
    else shownTo places (-x) = "-" ++ shownTo places x := by
  cases hnan : x.isNaN with
  | true =>
    have hnan' := (Binary64.isNaN_neg x).trans hnan
    rw [if_pos (.inl rfl), shownTo_of_isNaN places hnan, shownTo_of_isNaN places hnan']
  | false =>
    cases hfinite : x.isFinite with
    | false =>
      have hinf := Binary64.isInf_of_not_isFinite hnan hfinite
      have hnan' := (Binary64.isNaN_neg x).trans hnan
      have hinf' := Binary64.isInf_of_not_isFinite hnan' ((Binary64.isFinite_neg hnan).trans hfinite)
      rw [shownTo_of_isInf places hnan hinf, shownTo_of_isInf places hnan' hinf', Binary64.isNegative_neg hnan]
      cases isNegative x <;> decide
    | true =>
      rw [shownTo_of_isFinite places hfinite, shownTo_neg_of_isFinite places hfinite]
      generalize printed places (magnitude x) = f
      by_cases hzero : f.digits = 0
      · rw [if_pos (.inr (ofList_fixedChars_eq_zero_iff.2 hzero)), fixedChars, fixedChars, if_pos hzero, if_pos hzero]
      · have htext : ¬(false = true ∨ String.ofList (fixedChars (isNegative x) f) = "0") := by
          rintro (h | h)
          · cases h
          · exact hzero (ofList_fixedChars_eq_zero_iff.1 h)
        rw [if_neg htext]
        cases isNegative x with
        | true => exact ofList_fixedChars_true hzero
        | false => exact ofList_fixedChars_true hzero

/-- **A result with places is spelt in one way only**, whatever the double and however many places; and the double with
the other sign has the same text but for the minus. -/
theorem display_canonical (places : Nat) (x : Float) :
    (if x.isNaN then display (some places) x = "NaN"
      else if x.isInf then display (some places) x = if isNegative x then "-inf" else "inf"
      else ∃ s : Spelling, s.IsCanonical places ∧ display (some places) x = .ofList s.text) ∧
    if x.isNaN ∨ display (some places) x = "0" then display (some places) (-x) = display (some places) x
    else if isNegative x then display (some places) x = "-" ++ display (some places) (-x)
    else display (some places) (-x) = "-" ++ display (some places) x := by
  refine ⟨?_, shownTo_neg places x⟩
  by_cases hnan : x.isNaN = true
  · rw [if_pos hnan]
    exact shownTo_of_isNaN places hnan
  rw [Bool.not_eq_true] at hnan
  rw [hnan, if_neg Bool.false_ne_true]
  by_cases hinf : x.isInf = true
  · rw [if_pos hinf]
    exact shownTo_of_isInf places hnan hinf
  rw [Bool.not_eq_true] at hinf
  rw [hinf, if_neg Bool.false_ne_true]
  have hfinite : x.isFinite = true := by rw [Binary64.isFinite_eq, hnan, hinf]; rfl
  rcases exists_spelling (isNegative x) (isTrimmed_printed places (magnitude x)) with ⟨s, hs, htext⟩
  refine ⟨s, hs, ?_⟩
  rw [htext]
  exact shownTo_of_isFinite places hfinite

end Numeral
end Reckoner

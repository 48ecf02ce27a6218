import Mathlib.Algebra.Order.Field.Basic
import Mathlib.Algebra.Order.Ring.Pow
import Mathlib.Data.Rat.Cast.Order
import Mathlib.Tactic.FieldSimp
import Mathlib.Tactic.GCongr
import Mathlib.Tactic.Linarith
import Mathlib.Tactic.NormNum
import Mathlib.Tactic.Positivity
import Mathlib.Tactic.Ring
import Reckoner.Decimal.Fixed
import Reckoner.Proofs.Binary64.Value

/-!
# Decimal.Rounding — what a number with places misses

Each step that makes a number with places out of a double loses a little: a halving that drops a bit (`toRat_halve`), a
place given up because the scale is too long (`abs_limitScale_sub_le`) or the digits are too many
(`abs_limitDigits_sub_le`), and at last the places that nobody asked for (`abs_round_sub_le`).  Added up, the losses of
the conversion stay below a unit in the last place there can be and a small share of the number
(`abs_ofMagnitude?_sub_le`), and whole numbers lose nothing (`ofMagnitude?_of_natCast`).
-/
namespace Reckoner
namespace Decimal
namespace Fixed

/-- The number that digits with places stand for. -/
def toRat (f : Fixed) : ℚ := f.digits / 10 ^ f.scale

theorem toRat_nonneg (f : Fixed) : 0 ≤ f.toRat := by
  unfold toRat
  positivity

/-! ## Halving -/

/-- What one halving may lose, as a share of the number. -/
def halvingLoss : ℚ := 5 / 2 ^ 96

theorem toRat_halve_eq {f : Fixed} (h : f.digits % 2 = 0 ∨ 5 * f.digits < capacity) :
    f.halve.toRat = f.toRat / 2 := by
  by_cases heven : f.digits % 2 = 0
  · have hdigits : (f.digits : ℚ) = 2 * (f.digits / 2 : Nat) := by
      exact_mod_cast (Nat.mul_div_cancel' (Nat.dvd_of_mod_eq_zero heven)).symm
    rw [halve, if_pos heven, toRat, toRat, hdigits]
    ring
  · rw [halve, if_neg heven, if_pos (h.resolve_left heven), toRat, toRat, pow_succ]
    push_cast
    field_simp
    ring

theorem toRat_halve (f : Fixed) :
    f.halve.toRat ≤ f.toRat / 2 ∧ (1 - halvingLoss) * (f.toRat / 2) ≤ f.halve.toRat := by
  have hnonneg := f.toRat_nonneg
  by_cases hexact : f.digits % 2 = 0 ∨ 5 * f.digits < capacity
  · have hloss : 0 ≤ halvingLoss * (f.toRat / 2) := by
      unfold halvingLoss
      positivity
    rw [toRat_halve_eq hexact]
    constructor <;> linarith
  · rcases not_or.1 hexact with ⟨hodd, hlarge⟩
    have hdigits : (f.digits : ℚ) = 2 * (f.digits / 2 : Nat) + 1 := by
      have hdivision : f.digits = 2 * (f.digits / 2) + 1 := by omega
      exact_mod_cast hdivision
    -- a bit is dropped only from digits that have no room for another, so it is a small share of them
    have hshare : 1 ≤ 5 / 2 ^ 96 * (f.digits : ℚ) := by
      have hcapacity : (2 : ℚ) ^ 96 ≤ 5 * f.digits := by
        unfold capacity at hlarge
        exact_mod_cast Nat.not_lt.1 hlarge
      rw [div_mul_eq_mul_div, le_div_iff₀ (by positivity)]
      linarith
    rw [halve, if_neg hodd, if_neg hlarge]
    unfold toRat halvingLoss
    dsimp only
    rw [div_right_comm, mul_div_assoc']
    constructor
    · gcongr
      linarith
    · gcongr
      linarith

theorem toRat_halves : ∀ (k : Nat) (f : Fixed),
    (f.halves k).toRat ≤ f.toRat / 2 ^ k ∧ (1 - halvingLoss) ^ k * (f.toRat / 2 ^ k) ≤ (f.halves k).toRat
  | 0, f => by simp [halves]
  | k + 1, f => by
    have hshare : 0 ≤ 1 - halvingLoss := by norm_num [halvingLoss]
    rcases toRat_halve f with ⟨hupper, hlower⟩
    rcases toRat_halves k f.halve with ⟨ihupper, ihlower⟩
    rw [halves]
    constructor
    · calc (f.halve.halves k).toRat ≤ f.halve.toRat / 2 ^ k := ihupper
        _ ≤ f.toRat / 2 / 2 ^ k := by gcongr
        _ = f.toRat / 2 ^ (k + 1) := by rw [pow_succ', div_div]
    · calc (1 - halvingLoss) ^ (k + 1) * (f.toRat / 2 ^ (k + 1))
          = (1 - halvingLoss) ^ k * ((1 - halvingLoss) * (f.toRat / 2) / 2 ^ k) := by ring
        _ ≤ (1 - halvingLoss) ^ k * (f.halve.toRat / 2 ^ k) := by gcongr
        _ ≤ (f.halve.halves k).toRat := ihlower

/-- **Halving again and again loses no more than its share each time.** -/
theorem abs_halves_sub_le (f : Fixed) (k : Nat) :
    |(f.halves k).toRat - f.toRat / 2 ^ k| ≤ k * halvingLoss * (f.toRat / 2 ^ k) := by
  rcases toRat_halves k f with ⟨hupper, hlower⟩
  have hbernoulli : 1 + k * -halvingLoss ≤ (1 + -halvingLoss) ^ k :=
    one_add_mul_le_pow (by norm_num [halvingLoss]) k
  have hnonneg : 0 ≤ f.toRat / 2 ^ k := div_nonneg f.toRat_nonneg (by positivity)
  have hshare := mul_le_mul_of_nonneg_right hbernoulli hnonneg
  rw [abs_of_nonpos (by linarith)]
  rw [← sub_eq_add_neg] at hshare
  linarith

/-! ## Giving up digits -/

/-- The nearest whole number, a half going up, is off by half a unit at most. -/
theorem abs_divide_sub_le (d : Nat) {unit : Nat} (hunit : 0 < unit) :
    |(((2 * d + unit) / (2 * unit) : Nat) : ℚ) - d / unit| ≤ 1 / 2 := by
  have hdivision := Nat.div_add_mod (2 * d + unit) (2 * unit)
  have hrest := Nat.mod_lt (2 * d + unit) (by omega : 0 < 2 * unit)
  generalize (2 * d + unit) / (2 * unit) = q at *
  generalize (2 * d + unit) % (2 * unit) = r at *
  have hq : (q : ℚ) - d / unit = (unit - r) / (2 * unit) := by
    have hcast : (2 * unit * q + r : ℚ) = 2 * d + unit := by exact_mod_cast hdivision
    field_simp
    linarith
  have hlow : (0 : ℚ) ≤ r := by positivity
  have hhigh : (r : ℚ) ≤ 2 * unit := by exact_mod_cast hrest.le
  have hpos : (0 : ℚ) < 2 * unit := by positivity
  rw [hq, abs_le, le_div_iff₀ hpos, div_le_iff₀ hpos]
  constructor <;> linarith

/-- **Cutting off digits behind the last place kept**, a half rounded up, misses by half of that place. -/
theorem abs_cut_sub_le (d places cut : Nat) :
    |toRat ⟨(2 * d + 10 ^ cut) / (2 * 10 ^ cut), places⟩ - toRat ⟨d, places + cut⟩| ≤ 1 / 10 ^ places / 2 := by
  have hhalf := @abs_divide_sub_le d (10 ^ cut) (by positivity)
  have hpow : (0 : ℚ) < 10 ^ places := by positivity
  have hfactor : toRat ⟨(2 * d + 10 ^ cut) / (2 * 10 ^ cut), places⟩ - toRat ⟨d, places + cut⟩ =
      ((((2 * d + 10 ^ cut) / (2 * 10 ^ cut) : Nat) : ℚ) - d / (10 ^ cut : Nat)) / 10 ^ places := by
    rw [toRat, toRat, pow_add]
    push_cast
    field_simp
  rw [hfactor, abs_div, abs_of_pos hpow, div_right_comm]
  gcongr

theorem abs_tenth_sub_le (d scale : Nat) :
    |toRat ⟨(d + 5) / 10, scale⟩ - toRat ⟨d, scale + 1⟩| ≤ 5 / 10 ^ (scale + 1) := by
  have htenth : (d + 5) / 10 = (2 * d + 10 ^ 1) / (2 * 10 ^ 1) := by omega
  have hhalf : (1 : ℚ) / 10 ^ scale / 2 = 5 / 10 ^ (scale + 1) := by
    rw [pow_succ]
    field_simp
    norm_num
  rw [htenth, ← hhalf]
  exact abs_cut_sub_le d scale 1

/-- What cutting the scale may change. -/
def scaleLoss : ℚ := 24 / 25 / 10 ^ 28

theorem limitScale_of_le {scale : Nat} (d : Nat) (h : scale ≤ maxScale) : limitScale d scale = ⟨d, scale⟩ := by
  cases scale with
  | zero => rfl
  | succ scale => rw [limitScale, if_pos h]

/-- Every place given up adds to the loss, and each of them a tenth of the one before. -/
theorem abs_limitScale_sub_le_of_le : ∀ (j d : Nat),
    |(limitScale d (maxScale + j)).toRat - toRat ⟨d, maxScale + j⟩| ≤ scaleLoss - 5 / 9 / 10 ^ (maxScale + j)
  | 0, d => by
    rw [Nat.add_zero, limitScale_of_le d le_rfl]
    norm_num [toRat, maxScale, scaleLoss]
  | j + 1, d => by
    have hbig : (10 : ℚ) ^ 28 ≤ 10 ^ (maxScale + j) := pow_le_pow_right₀ (by norm_num) (Nat.le_add_right _ _)
    rw [← Nat.add_assoc, limitScale, if_neg (by omega)]
    by_cases hnone : d / 10 = 0
    · -- the number is given up as a whole, and with it less than ten units
      have hdigits : (d : ℚ) ≤ 9 := by
        have hlt : d ≤ 9 := by omega
        exact_mod_cast hlt
      have hzero : toRat ⟨0, 0⟩ = 0 := by simp [toRat]
      rw [if_pos hnone, hzero, zero_sub, abs_neg, abs_of_nonneg (toRat_nonneg _), le_sub_iff_add_le, toRat, ← add_div]
      calc ((d : ℚ) + 5 / 9) / 10 ^ (maxScale + j + 1)
          ≤ (9 + 5 / 9) / (10 ^ 28 * 10) := by rw [pow_succ]; gcongr
        _ ≤ scaleLoss := by norm_num [scaleLoss]
    · have hstep := abs_tenth_sub_le d (maxScale + j)
      have ih := abs_limitScale_sub_le_of_le j ((d + 5) / 10)
      rw [if_neg hnone]
      calc |(limitScale ((d + 5) / 10) (maxScale + j)).toRat - toRat ⟨d, maxScale + j + 1⟩|
          ≤ scaleLoss - 5 / 9 / 10 ^ (maxScale + j) + 5 / 10 ^ (maxScale + j + 1) :=
            (abs_sub_le _ _ _).trans (add_le_add ih hstep)
        _ = scaleLoss - 5 / 9 / 10 ^ (maxScale + j + 1) := by
          rw [pow_succ]
          field_simp
          ring

theorem abs_limitScale_sub_le (d scale : Nat) : |(limitScale d scale).toRat - toRat ⟨d, scale⟩| ≤ scaleLoss := by
  rcases Nat.le_total scale maxScale with h | h
  · rw [limitScale_of_le d h]
    norm_num [toRat, scaleLoss]
  · obtain ⟨j, rfl⟩ := Nat.exists_eq_add_of_le h
    have hloss := abs_limitScale_sub_le_of_le j d
    have hpos : (0 : ℚ) ≤ 5 / 9 / 10 ^ (maxScale + j) := by positivity
    linarith

/-- What cutting the digits may change, as a share of the number. -/
def digitsLoss : ℚ := 6 / 2 ^ 52

theorem limitDigits_of_lt {d : Nat} (scale : Nat) (h : d < precise) : limitDigits d scale = ⟨d, scale⟩ := by
  cases scale with
  | zero => rfl
  | succ scale => rw [limitDigits, if_pos h]

section LimitDigits

variable {d : Nat} (h : precise ≤ 10 * d)
include h

theorem spare_le : 3 / 5 ≤ digitsLoss * d := by
  have hdigits : (2 : ℚ) ^ 52 ≤ 10 * d := by
    unfold precise at h
    exact_mod_cast h
  rw [digitsLoss, div_mul_eq_mul_div, le_div_iff₀ (by positivity)]
  linarith

theorem spare_nonneg (scale : Nat) : 0 ≤ (digitsLoss * d - 3 / 5) / 10 ^ scale :=
  div_nonneg (sub_nonneg.2 (spare_le h)) (by positivity)

end LimitDigits

/-- What is left of the loss after one more digit pays for that digit. -/
theorem tenth_le (d : Nat) : digitsLoss * (10 * ((d + 5) / 10 : Nat)) - 1 ≤ digitsLoss * d - 3 / 5 := by
  have htenth : (10 * ((d + 5) / 10 : Nat) : ℚ) ≤ d + 5 := by exact_mod_cast Nat.mul_div_le (d + 5) 10
  calc digitsLoss * (10 * ((d + 5) / 10 : Nat)) - 1
      ≤ digitsLoss * (d + 5) - 1 := by
        unfold digitsLoss
        gcongr
    _ ≤ digitsLoss * d - 3 / 5 := by
      unfold digitsLoss
      linarith

/-- The units that the digits count grow tenfold with each digit given up, so that the last one costs most. -/
theorem abs_limitDigits_sub_le_of_le : ∀ scale d : Nat, precise ≤ 10 * d →
    |(limitDigits d scale).toRat - toRat ⟨d, scale⟩| ≤ (digitsLoss * d - 3 / 5) / 10 ^ scale
  | 0, d, h => by
    rw [limitDigits, sub_self, abs_zero]
    exact spare_nonneg h 0
  | scale + 1, d, h => by
    by_cases hfew : d < precise
    · rw [limitDigits, if_pos hfew, sub_self, abs_zero]
      exact spare_nonneg h (scale + 1)
    · have hprecise : precise = 4503599627370496 := rfl
      have hstep := abs_tenth_sub_le d scale
      have hrest := abs_limitDigits_sub_le_of_le scale ((d + 5) / 10) (by omega)
      rw [limitDigits, if_neg hfew]
      calc |(limitDigits ((d + 5) / 10) scale).toRat - toRat ⟨d, scale + 1⟩|
          ≤ (digitsLoss * ((d + 5) / 10 : Nat) - 3 / 5) / 10 ^ scale + 5 / 10 ^ (scale + 1) :=
            (abs_sub_le _ _ _).trans (add_le_add hrest hstep)
        _ = (digitsLoss * (10 * ((d + 5) / 10 : Nat)) - 1) / 10 ^ (scale + 1) := by
          rw [pow_succ]
          field_simp
          ring
        _ ≤ (digitsLoss * d - 3 / 5) / 10 ^ (scale + 1) :=
          div_le_div_of_nonneg_right (tenth_le d) (by positivity)

theorem abs_limitDigits_sub_le (d scale : Nat) :
    |(limitDigits d scale).toRat - toRat ⟨d, scale⟩| ≤ digitsLoss * toRat ⟨d, scale⟩ := by
  by_cases h : precise ≤ 10 * d
  · refine (abs_limitDigits_sub_le_of_le scale d h).trans ?_
    rw [toRat, mul_div_assoc']
    gcongr
    linarith
  · rw [limitDigits_of_lt scale (by omega)]
    unfold toRat digitsLoss
    rw [sub_self, abs_zero]
    positivity

/-! ## Zeros at the end, and places asked for -/

theorem toRat_trimZeros : ∀ scale d : Nat, (trimZeros d scale).toRat = toRat ⟨d, scale⟩
  | 0, d => rfl
  | scale + 1, d => by
    rw [trimZeros]
    by_cases hzero : d % 10 = 0
    · have hdigits : (d : ℚ) = 10 * (d / 10 : Nat) := by
        exact_mod_cast (Nat.mul_div_cancel' (Nat.dvd_of_mod_eq_zero hzero)).symm
      rw [if_pos hzero, toRat_trimZeros scale (d / 10), toRat, toRat, hdigits, pow_succ']
      field_simp
    · rw [if_neg hzero]

theorem toRat_trim (f : Fixed) : f.trim.toRat = f.toRat := toRat_trimZeros f.scale f.digits

theorem abs_round_sub_le (f : Fixed) (places : Nat) : |(f.round places).toRat - f.toRat| ≤ 1 / 10 ^ places / 2 := by
  unfold round
  by_cases h : f.scale ≤ places
  · rw [if_pos h, sub_self, abs_zero]
    positivity
  · have hscale : places + (f.scale - places) = f.scale := by omega
    have hcut := abs_cut_sub_le f.digits places (f.scale - places)
    rw [hscale] at hcut
    rw [if_neg h]
    exact hcut

theorem round_whole (n places : Nat) : (Fixed.mk n 0).round places = ⟨n, 0⟩ := if_pos (Nat.zero_le places)

/-! ## A double as a number with places -/

section Magnitude

variable {m : Binary64.Magnitude} {f : Fixed}

theorem toRat_of_nonneg (h : 0 ≤ m.exponent) : m.toRat = (m.mantissa * 2 ^ m.exponent.toNat : Nat) := by
  have hexponent : m.exponent = (m.exponent.toNat : Int) := by omega
  rw [Binary64.Magnitude.toRat]
  conv_lhs => rw [hexponent, zpow_natCast]
  push_cast
  rfl

theorem toRat_of_neg (h : m.exponent < 0) : m.toRat = toRat ⟨m.mantissa, 0⟩ / 2 ^ (-m.exponent).toNat := by
  have hexponent : m.exponent = -((-m.exponent).toNat : Int) := by omega
  rw [Binary64.Magnitude.toRat, toRat]
  conv_lhs => rw [hexponent, zpow_neg, zpow_natCast]
  rw [pow_zero, div_one, div_eq_mul_inv]

theorem ofMagnitude?_of_nonneg (h : 0 ≤ m.exponent) :
    ofMagnitude? m = if m.mantissa * 2 ^ m.exponent.toNat < capacity
      then some ⟨m.mantissa * 2 ^ m.exponent.toNat, 0⟩ else none := if_pos h

/-- What is left of a number once its scale and its digits fit. -/
def limited (f : Fixed) : Fixed :=
  limitDigits (limitScale f.digits f.scale).digits (limitScale f.digits f.scale).scale

theorem ofMagnitude?_of_neg (h : m.exponent < 0) :
    ofMagnitude? m = some ((Fixed.mk m.mantissa 0).halves (-m.exponent).toNat).limited.trim := if_neg (Int.not_le.2 h)

theorem abs_limited_sub_le (f : Fixed) :
    |f.limited.toRat - f.toRat| ≤ digitsLoss * (f.toRat + scaleLoss) + scaleLoss := by
  have hscale := abs_limitScale_sub_le f.digits f.scale
  have hdigits := abs_limitDigits_sub_le (limitScale f.digits f.scale).digits (limitScale f.digits f.scale).scale
  have hupper : (limitScale f.digits f.scale).toRat ≤ f.toRat + scaleLoss := by
    have hdistance := (abs_le.1 hscale).2
    linarith!
  calc |f.limited.toRat - f.toRat|
      ≤ digitsLoss * (limitScale f.digits f.scale).toRat + scaleLoss :=
        (abs_sub_le _ _ _).trans (add_le_add hdigits hscale)
    _ ≤ digitsLoss * (f.toRat + scaleLoss) + scaleLoss := by
      unfold digitsLoss
      gcongr

/-- **All that the conversion changes**: a unit behind the last place there can be, and a share of the number. -/
theorem abs_ofMagnitude?_sub_le (hlow : -1074 ≤ m.exponent) (h : ofMagnitude? m = some f) :
    |f.toRat - m.toRat| ≤ 1 / 10 ^ 28 + m.toRat / 2 ^ 49 := by
  have hnonneg := m.toRat_nonneg
  by_cases hwhole : 0 ≤ m.exponent
  · rw [ofMagnitude?_of_nonneg hwhole] at h
    split at h
    · cases h
      rw [toRat_of_nonneg hwhole, toRat, pow_zero, div_one, sub_self, abs_zero]
      positivity
    · cases h
  · have hnegative : m.exponent < 0 := by omega
    have hcount : ((-m.exponent).toNat : ℚ) ≤ 1074 := by
      have hle : (-m.exponent).toNat ≤ 1074 := by omega
      exact_mod_cast hle
    have hhalves := abs_halves_sub_le ⟨m.mantissa, 0⟩ (-m.exponent).toNat
    have hupper := (toRat_halves (-m.exponent).toNat ⟨m.mantissa, 0⟩).1
    rw [← toRat_of_neg hnegative] at hhalves hupper
    have hlimited := abs_limited_sub_le ((Fixed.mk m.mantissa 0).halves (-m.exponent).toNat)
    rw [ofMagnitude?_of_neg hnegative] at h
    cases h
    rw [toRat_trim]
    calc |((Fixed.mk m.mantissa 0).halves (-m.exponent).toNat).limited.toRat - m.toRat|
        ≤ digitsLoss * (((Fixed.mk m.mantissa 0).halves (-m.exponent).toNat).toRat + scaleLoss) + scaleLoss +
            (-m.exponent).toNat * halvingLoss * m.toRat := (abs_sub_le _ _ _).trans (add_le_add hlimited hhalves)
      _ ≤ digitsLoss * (m.toRat + scaleLoss) + scaleLoss + 1074 * halvingLoss * m.toRat := by
        unfold digitsLoss halvingLoss
        gcongr
      _ ≤ 1 / 10 ^ 28 + m.toRat / 2 ^ 49 := by
        unfold digitsLoss halvingLoss scaleLoss
        linarith

/-- **A number converts unless it is too large.** -/
theorem ofMagnitude?_eq_none_iff (hm : m.mantissa < 2 ^ 53) : ofMagnitude? m = none ↔ 2 ^ 96 ≤ m.toRat := by
  by_cases hwhole : 0 ≤ m.exponent
  · rw [ofMagnitude?_of_nonneg hwhole, toRat_of_nonneg hwhole, ite_eq_right_iff]
    have hcast : (2 : ℚ) ^ 96 = (capacity : Nat) := by norm_num [capacity]
    rw [hcast, Nat.cast_le, ← Nat.not_lt]
    simp
  · have hnegative : m.exponent < 0 := by omega
    rw [ofMagnitude?_of_neg hnegative, toRat_of_neg hnegative]
    refine iff_of_false (Option.some_ne_none _) (not_le.2 ?_)
    have hmantissa : (m.mantissa : ℚ) < 2 ^ 53 := by exact_mod_cast hm
    calc toRat ⟨m.mantissa, 0⟩ / 2 ^ (-m.exponent).toNat
        ≤ toRat ⟨m.mantissa, 0⟩ := div_le_self (toRat_nonneg _) (one_le_pow₀ (by norm_num))
      _ < 2 ^ 53 := by simpa [toRat] using hmantissa
      _ ≤ 2 ^ 96 := by norm_num

/-- A whole number is halved without a trace as often as it is even. -/
theorem halves_exact (n : Nat) : ∀ k : Nat, (Fixed.mk (n * 2 ^ k) 0).halves k = ⟨n, 0⟩
  | 0 => by simp [halves]
  | k + 1 => by
    have hhalf : (Fixed.mk (n * 2 ^ (k + 1)) 0).halve = ⟨n * 2 ^ k, 0⟩ := by
      have hdigits : n * 2 ^ (k + 1) = 2 * (n * 2 ^ k) := by ring
      rw [halve, hdigits, if_pos (Nat.mul_mod_right 2 _), Nat.mul_div_cancel_left _ (by decide)]
    rw [halves, hhalf, halves_exact n k]

/-- **Whole numbers convert as they are.** -/
theorem ofMagnitude?_of_natCast {n : Nat} (hn : n < capacity) (h : m.toRat = n) : ofMagnitude? m = some ⟨n, 0⟩ := by
  by_cases hwhole : 0 ≤ m.exponent
  · rw [toRat_of_nonneg hwhole, Nat.cast_inj] at h
    rw [ofMagnitude?_of_nonneg hwhole, h, if_pos hn]
  · have hnegative : m.exponent < 0 := by omega
    have hmantissa : m.mantissa = n * 2 ^ (-m.exponent).toNat := by
      rw [toRat_of_neg hnegative, div_eq_iff (by positivity), toRat, pow_zero, div_one] at h
      exact_mod_cast h
    rw [ofMagnitude?_of_neg hnegative, hmantissa, halves_exact]
    rfl

end Magnitude

end Fixed
end Decimal
end Reckoner

import Reckoner.Proofs.Binary64.Power

/-!
# Binary64.Infinity — where an infinity is lost

A sum, a difference or a product with an infinite operand is not finite.  A quotient is if only the divisor is infinite
(`isFinite_div_iff`); a power is if its exponent is zero, its base is one, or it neither grows without bound nor is
undefined (`isFinite_power_iff`).
-/
namespace Reckoner
namespace Binary64

open Float.Model (Format UnpackedFloat)

variable {x y : Float}

/-! ## Infinities -/

theorem exists_eq_infinity {u : UnpackedFloat} (h : u.isInf = true) : ∃ s, u = .infinity s := by
  cases u with
  | infinity s => exact ⟨s, rfl⟩
  | notANumber | zero _ | finite _ _ _ _ => cases h

/-- **A double is NaN, infinite or finite**, and only one of the three. -/
theorem isInf_eq (x : Float) : x.isInf = (!x.isNaN && !x.isFinite) := by
  have hall : ∀ u : UnpackedFloat, u.isInf = (!u.isNaN && !u.isFinite) := by
    intro u
    cases u <;> rfl
  exact hall x.toModel.unpack

theorem isInf_neg (x : Float) : (-x).isInf = x.isInf := by
  rw [isInf_eq, isInf_eq, isNaN_neg]
  cases hnan : x.isNaN with
  | true => rfl
  | false => rw [isFinite_neg hnan]

theorem isFinite_of_isInf (h : x.isInf = true) : x.isFinite = false := by
  rw [isFinite_eq, h, Bool.not_true, Bool.and_false]

theorem isNaN_of_isInf (h : x.isInf = true) : x.isNaN = false := by
  rw [isInf_eq, Bool.and_eq_true, Bool.not_eq_true'] at h
  exact h.1

/-! ## Sums, products and quotients -/

theorem isFinite_pack {u : UnpackedFloat} (h : u.isFinite = false) :
    (UnpackedFloat.unpack .binary64 (UnpackedFloat.pack .binary64 u)).isFinite = false := by
  cases u with
  | infinity s => cases s <;> rfl
  | notANumber => rfl
  | zero _ | finite _ _ _ _ => cases h

/-- **An operation that keeps an infinity on either side** is not finite if an operand is infinite. -/
theorem isFinite_of_infinities {f : UnpackedFloat → UnpackedFloat → UnpackedFloat}
    (hleft : ∀ s v, (f (.infinity s) v).isFinite = false) (hright : ∀ u s, (f u (.infinity s)).isFinite = false)
    {u v : UnpackedFloat} (h : u.isInf = true ∨ v.isInf = true) : (f u v).isFinite = false := by
  obtain h | h := h
  · obtain ⟨s, rfl⟩ := exists_eq_infinity h
    exact hleft s v
  · obtain ⟨s, rfl⟩ := exists_eq_infinity h
    exact hright u s

section Arithmetic

variable (h : x.isInf = true ∨ y.isInf = true)
include h

theorem isFinite_add : (x + y).isFinite = false := by
  refine isFinite_pack (isFinite_of_infinities (fun s v => ?_) (fun u s => ?_) h)
  · cases v with
    | infinity t => cases s <;> cases t <;> rfl
    | notANumber | zero _ | finite _ _ _ _ => rfl
  · cases u with
    | infinity t => cases s <;> cases t <;> rfl
    | notANumber | zero _ | finite _ _ _ _ => rfl

theorem isFinite_sub : (x - y).isFinite = false := by
  refine isFinite_pack (isFinite_of_infinities (fun s v => ?_) (fun u s => ?_) h)
  · cases v with
    | infinity t => cases s <;> cases t <;> rfl
    | notANumber | zero _ | finite _ _ _ _ => rfl
  · cases u with
    | infinity t => cases s <;> cases t <;> rfl
    | notANumber | zero _ | finite _ _ _ _ => rfl

theorem isFinite_mul : (x * y).isFinite = false := by
  refine isFinite_pack (isFinite_of_infinities (fun s v => ?_) (fun u s => ?_) h)
  · cases v <;> rfl
  · cases u <;> rfl

end Arithmetic

theorem isFinite_unpacked_div {u : UnpackedFloat} (v : UnpackedFloat) (h : u.isFinite = false) :
    (UnpackedFloat.div .binary64 u v).isFinite = false := by
  cases u with
  | infinity s => cases v <;> rfl
  | notANumber => cases v <;> rfl
  | zero _ | finite _ _ _ _ => cases h

theorem exists_unpacked_div_eq_zero {u v : UnpackedFloat} (hu : u.isFinite = true) (hv : v.isInf = true) :
    ∃ s, UnpackedFloat.div .binary64 u v = .zero s := by
  obtain ⟨t, rfl⟩ := exists_eq_infinity hv
  cases u with
  | infinity _ | notANumber => cases hu
  | zero s => exact ⟨s / t, rfl⟩
  | finite s m e hm => exact ⟨s / t, rfl⟩

/-- **A finite number divided by an infinite one is zero.** -/
theorem exists_unpack_div_eq_zero (hx : x.isFinite = true) (hy : y.isInf = true) :
    ∃ s, (x / y).toModel.unpack = .zero s := by
  have hdiv : (x / y).toModel.unpack = UnpackedFloat.unpack .binary64 (UnpackedFloat.pack .binary64
      (UnpackedFloat.div .binary64 x.toModel.unpack y.toModel.unpack)) := rfl
  obtain ⟨s, hzero⟩ := exists_unpacked_div_eq_zero hx hy
  rw [hdiv, hzero]
  exact ⟨s, by cases s <;> rfl⟩

theorem isFinite_div_iff (h : x.isInf = true ∨ y.isInf = true) :
    (x / y).isFinite = true ↔ x.isFinite = true ∧ y.isInf = true := by
  cases hx : x.isFinite with
  | false =>
    have hdiv : (x / y).isFinite = false := isFinite_pack (isFinite_unpacked_div _ hx)
    simp [hdiv]
  | true =>
    have hy : y.isInf = true := by
      refine h.resolve_left fun hinf => ?_
      rw [isFinite_of_isInf hinf] at hx
      cases hx
    obtain ⟨s, hzero⟩ := exists_unpack_div_eq_zero hx hy
    have hdiv : (x / y).isFinite = (x / y).toModel.unpack.isFinite := rfl
    rw [hdiv, hzero]
    exact iff_of_true rfl ⟨rfl, hy⟩

/-- **The reciprocal of an infinity is zero.** -/
theorem reciprocal_of_isInf (h : x.isInf = true) : (1 / x == 0) = true := by
  obtain ⟨s, hzero⟩ := exists_unpack_div_eq_zero (x := 1) (by decide +kernel) h
  have hbeq : (1 / x == 0) = ((1 / x).toModel.unpack.compare (0 : Float).toModel.unpack == some .eq) := rfl
  rw [hbeq, hzero]
  rfl

/-! ## Powers -/

/-- **A power that is finite although its base or its exponent is not.** -/
inductive Settles (x y : Float) : Prop where
  | zeroth (hy : (y == 0) = true)
  | one (hx : (x == 1) = true)
  /-- An infinite exponent keeps a base of size one, and makes vanish what it does not make grow. -/
  | infinite (hx : x.isNaN = false) (hy : y.isInf = true)
    (h : (x.abs == 1) = true ∨ decide (x.abs < 1) ≠ isNegative y)
  /-- A negative exponent makes an infinite base vanish. -/
  | vanishing (hx : x.isInf = true) (hy : y.isFinite = true) (h : isNegative y = true)

theorem isFinite_negateIf (negative : Bool) (hx : x.isNaN = false) : (negateIf negative x).isFinite = x.isFinite := by
  unfold negateIf
  split
  · exact isFinite_neg hx
  · rfl

theorem isFinite_infinitePower (size : Float) (negative : Bool) : (infinitePower size negative).isFinite = true ↔
    (size == 1) = true ∨ decide (size < 1) ≠ negative := by
  unfold infinitePower
  split
  · rename_i hone
    exact iff_of_true (by decide +kernel) (.inl hone)
  · rename_i hone
    split
    · rename_i h
      exact iff_of_true (by decide +kernel) (.inr (bne_iff_ne.1 h))
    · rename_i h
      refine iff_of_false (by decide +kernel) ?_
      rintro (h1 | h1)
      · exact hone h1
      · exact h (bne_iff_ne.2 h1)

theorem beq_zero_of_isInf (h : x.isInf = true) : (x == 0) = false := by
  refine Bool.eq_false_iff.2 fun hzero => ?_
  have hfinite : x.isFinite = true := (isFinite_iff x).2 (by rw [(beq_zero_iff x).1 hzero]; decide)
  rw [isFinite_of_isInf h] at hfinite
  cases hfinite

/-- **Where a power with an infinity is finite.** -/
theorem isFinite_power_iff (h : x.isInf = true ∨ y.isInf = true) : (power x y).isFinite = true ↔ Settles x y := by
  have hcase := power_cases x y
  generalize power x y = p at hcase ⊢
  cases hcase with
  | unit hunit => exact iff_of_true (by decide +kernel) (hunit.elim .zeroth .one)
  | undefined hunit hnan =>
    refine iff_of_false (by decide +kernel) fun hsettles => ?_
    cases hsettles with
    | zeroth hy => exact hunit (.inl hy)
    | one hx => exact hunit (.inr hx)
    | infinite hx hy =>
      rw [hx, isNaN_of_isInf hy] at hnan
      obtain hnan | hnan := hnan <;> cases hnan
    | vanishing hx hy =>
      rw [isNaN_of_isInf hx, isNaN_of_isFinite hy] at hnan
      obtain hnan | hnan := hnan <;> cases hnan
  | infinite hunit hx hinf =>
    rw [isFinite_infinitePower]
    refine ⟨fun hfinite => .infinite hx hinf hfinite, fun hsettles => ?_⟩
    cases hsettles with
    | zeroth hy => exact absurd (.inl hy) hunit
    | one hx => exact absurd (.inr hx) hunit
    | infinite _ _ hfinite => exact hfinite
    | vanishing _ hy =>
      rw [isInf_of_isFinite hy] at hinf
      cases hinf
  | extreme hunit hy _ =>
    have hinf : y.isInf = false := isInf_of_isFinite hy
    have hx : x.isInf = true := h.resolve_right (by rw [hinf]; exact Bool.false_ne_true)
    rw [beq_zero_of_isInf hx, Bool.false_bne]
    cases hnegative : isNegative y with
    | true =>
      rw [if_pos rfl, isFinite_negateIf _ (by decide +kernel)]
      exact iff_of_true (by decide +kernel) (.vanishing hx hy hnegative)
    | false =>
      rw [if_neg Bool.false_ne_true, isFinite_negateIf _ (by decide +kernel)]
      refine iff_of_false (by decide +kernel) fun hsettles => ?_
      cases hsettles with
      | zeroth hy => exact hunit (.inl hy)
      | one hx => exact hunit (.inr hx)
      | infinite _ hy =>
        rw [hinf] at hy
        cases hy
      | vanishing _ _ hneg =>
        rw [hnegative] at hneg
        cases hneg
  | unreal hx _ hy | real hx hy =>
    rw [isInf_of_isFinite hx, isInf_of_isFinite hy] at h
    obtain h | h := h <;> cases h

theorem isFinite_root_iff (h : x.isInf = true ∨ y.isInf = true) :
    (root x y).isFinite = true ↔ Settles y (1 / x) := by
  unfold root
  obtain hx | hy := h
  · have hzero := reciprocal_of_isInf hx
    have hone : power y (1 / x) = 1 := by
      unfold power
      rw [hzero, Bool.true_or, if_pos rfl]
    rw [hone]
    exact iff_of_true (by decide +kernel) (.zeroth hzero)
  · exact isFinite_power_iff (.inl hy)

end Binary64
end Reckoner

import Mathlib.Algebra.Group.Nat.Defs
import Reckoner.Binary64.Nearest

/-!
# Binary64.Word — doubles and their words

The word of a double is a sign, eleven bits of exponent and fifty-two of fraction.  A word that is no odd NaN survives
being unpacked and packed again (`pack_unpack`), so a double is its word (`eq_of_toBits`, `toBits_ofBits`) and what is
said about doubles can be said about two numbers: the word without its sign bit (`magnitudeBits`) and the sign.  A
finite word unpacks to the size that is read off it (`unpack_finite`), and zero minus a size is the size with the other
sign (`zero_sub_ofBits`), without any rounding.
-/
namespace Reckoner
namespace Binary64

open Float.Model (Format UnpackedFloat)
open Float.Model.UnpackedFloat

/-! ## The parts of a word -/

theorem toNat_packComponents (s : Sign) (e : BitVec 11) (m : BitVec 52) :
    (packComponents .binary64 s e m).toNat = s.toBitVec.toNat * 2 ^ 63 + e.toNat * 2 ^ 52 + m.toNat := by
  have happend : (packComponents .binary64 s e m).toNat = (s.toBitVec ++ e ++ m).toNat := rfl
  rw [happend, BitVec.toNat_append, BitVec.toNat_append, ← Nat.shiftLeft_add_eq_or_of_lt m.isLt,
    ← Nat.shiftLeft_add_eq_or_of_lt e.isLt, Nat.shiftLeft_eq, Nat.shiftLeft_eq]
  omega

theorem exists_packComponents (b : BitVec 64) :
    ∃ (s : Sign) (e : BitVec 11) (m : BitVec 52), packComponents .binary64 s e m = b := by
  have hb := b.isLt
  refine ⟨if b.toNat < 2 ^ 63 then .positive else .negative, .ofNat 11 (b.toNat / 2 ^ 52), .ofNat 52 b.toNat, ?_⟩
  apply BitVec.eq_of_toNat_eq
  rw [toNat_packComponents, BitVec.toNat_ofNat, BitVec.toNat_ofNat]
  split <;> simp only [Sign.toBitVec] <;> simp <;> omega

theorem unpackSign_packComponents (s : Sign) (e : BitVec 11) (m : BitVec 52) :
    Sign.ofBitVec (unpackSign (packComponents .binary64 s e m)) = s := by
  have he := e.isLt
  have hm := m.isLt
  have hbit : (unpackSign (packComponents .binary64 s e m)).toNat =
      (packComponents .binary64 s e m).toNat / 2 ^ 63 % 2 := by
    show (BitVec.extractLsb 63 63 _).toNat = _
    rw [BitVec.extractLsb_toNat, Nat.shiftRight_eq_div_pow]
  have hsign : unpackSign (packComponents .binary64 s e m) = s.toBitVec := by
    apply BitVec.eq_of_toNat_eq
    rw [hbit, toNat_packComponents]
    cases s <;> simp [Sign.toBitVec] <;> omega
  rw [hsign]
  cases s <;> rfl

theorem unpack_zero (s : Sign) : UnpackedFloat.unpack .binary64 (packComponents .binary64 s 0#11 0#52) = .zero s := by
  cases s <;> rfl

theorem unpack_full (s : Sign) (m : BitVec 52) :
    UnpackedFloat.unpack .binary64 (packComponents .binary64 s (-1#11) m) =
      if m = 0#52 then .infinity s else .notANumber := by
  unfold UnpackedFloat.unpack
  dsimp only
  rw [unpackExponent_packComponents, if_pos rfl, unpackMantissa_packComponents, unpackSign_packComponents]

theorem finite_congr {s s' : Sign} {m m' : Nat} {e e' : Int} {h : 0 < m} (hs : s = s') (hm : m = m') (he : e = e') :
    ∃ h', UnpackedFloat.finite s m e h = .finite s' m' e' h' := by
  subst hs hm he
  exact ⟨h, rfl⟩

section Finite

variable {s : Sign} {e : BitVec 11} {m : BitVec 52}

theorem ofBits_of_exponent_zero (h : e.toNat = 0) :
    Magnitude.ofBits (e.toNat * 2 ^ 52 + m.toNat) = ⟨m.toNat, -1074⟩ := by
  have hm : m.toNat < 2 ^ 52 := m.isLt
  unfold Magnitude.ofBits
  rw [Nat.pow_eq, h, Nat.zero_mul, Nat.zero_add, if_pos (Nat.div_eq_of_lt hm)]

theorem ofBits_of_exponent_ne_zero (h : e.toNat ≠ 0) :
    Magnitude.ofBits (e.toNat * 2 ^ 52 + m.toNat) = ⟨2 ^ 52 + m.toNat, e.toNat - 1075⟩ := by
  have hm : m.toNat < 2 ^ 52 := m.isLt
  have hexponent : (e.toNat * 2 ^ 52 + m.toNat) / 2 ^ 52 = e.toNat := by omega
  have hfraction : (e.toNat * 2 ^ 52 + m.toNat) % 2 ^ 52 = m.toNat := by omega
  unfold Magnitude.ofBits
  rw [Nat.pow_eq, hexponent, hfraction, if_neg h]

/-- **A finite word unpacks to the size that is read off it.** -/
theorem unpack_finite (hfinite : e.toNat ≠ 2047) (hne : e.toNat * 2 ^ 52 + m.toNat ≠ 0) :
    ∃ h, UnpackedFloat.unpack .binary64 (packComponents .binary64 s e m) =
      .finite s (Magnitude.ofBits (e.toNat * 2 ^ 52 + m.toNat)).mantissa
        (Magnitude.ofBits (e.toNat * 2 ^ 52 + m.toNat)).exponent h := by
  have hbias : (Format.binary64.exponentBias : Int) = 1023 := rfl
  have hexponent : unpackExponent (packComponents .binary64 s e m) = e := unpackExponent_packComponents
  have hmantissa : unpackMantissa (packComponents .binary64 s e m) = m := unpackMantissa_packComponents
  have hfull : e ≠ -1#11 := fun he => hfinite (by rw [he]; rfl)
  unfold UnpackedFloat.unpack
  dsimp only
  rw [hexponent, if_neg hfull]
  by_cases hzero : e.toNat = 0
  · have hfraction : unpackMantissa (packComponents .binary64 s e m) ≠ 0#52 := by
      rw [hmantissa]
      exact fun hm => hne (by rw [hzero, hm]; rfl)
    rw [if_pos (BitVec.eq_of_toNat_eq hzero), dif_neg hfraction, ofBits_of_exponent_zero hzero]
    refine finite_congr (unpackSign_packComponents s e m) (congrArg _ hmantissa) ?_
    dsimp only
    omega
  · have hnormal : e ≠ 0#11 := fun he => hzero (by rw [he]; rfl)
    rw [if_neg hnormal, ofBits_of_exponent_ne_zero hzero]
    refine finite_congr (unpackSign_packComponents s e m) ?_ ?_
    · rw [hmantissa, BitVec.toNat_append, ← Nat.shiftLeft_add_eq_or_of_lt m.isLt]
      rfl
    · dsimp only
      omega

theorem pack_finite (hfinite : e.toNat ≠ 2047)
    (h : 0 < (Magnitude.ofBits (e.toNat * 2 ^ 52 + m.toNat)).mantissa) :
    UnpackedFloat.pack .binary64 (.finite s (Magnitude.ofBits (e.toNat * 2 ^ 52 + m.toNat)).mantissa
        (Magnitude.ofBits (e.toNat * 2 ^ 52 + m.toNat)).exponent h) = packComponents .binary64 s e m := by
  have he : e.toNat < 2 ^ 11 := e.isLt
  have hm : m.toNat < 2 ^ 52 := m.isLt
  have hbias : (Format.binary64.exponentBias : Int) = 1023 := rfl
  have hwidth : Format.binary64.mantissaBits = 53 := rfl
  unfold UnpackedFloat.pack
  dsimp only
  by_cases hzero : e.toNat = 0
  · rw [ofBits_of_exponent_zero hzero] at h ⊢
    have hlog : m.toNat.log2 < 52 := (Nat.log2_lt (Nat.ne_of_gt h)).2 hm
    have hexponent : e = 0#11 := BitVec.eq_of_toNat_eq hzero
    dsimp only
    rw [hbias, if_neg (by omega), if_neg (by omega), hexponent, BitVec.ofNat_toNat, BitVec.setWidth_eq]
  · rw [ofBits_of_exponent_ne_zero hzero]
    -- the leading one stands in the place that the fraction leaves free
    have hlow : 52 ≤ (2 ^ 52 + m.toNat).log2 := (Nat.le_log2 (by omega)).2 (Nat.le_add_right _ _)
    have hhigh : (2 ^ 52 + m.toNat).log2 < 53 := (Nat.log2_lt (by omega)).2 (by omega)
    have hbiased : ((e.toNat : Int) - 1075 + 1023 + (Format.binary64.mantissaBitsWithoutImplicit : Nat)).toNat =
        e.toNat := by
      dsimp only
      omega
    rw [hbias, hbiased, if_neg (by omega), if_pos (by dsimp only; omega), BitVec.ofNat_toNat,
      BitVec.setWidth_eq]
    congr 1
    apply BitVec.eq_of_toNat_eq
    rw [BitVec.toNat_ofNat]
    dsimp only
    omega

end Finite

/-- **What a word unpacks to**, by its exponent and its fraction. -/
theorem unpack_cases (s : Sign) (e : BitVec 11) (m : BitVec 52) :
    (e = -1#11 ∧ m ≠ 0#52 ∧ UnpackedFloat.unpack .binary64 (packComponents .binary64 s e m) = .notANumber) ∨
    (e = -1#11 ∧ m = 0#52 ∧ UnpackedFloat.unpack .binary64 (packComponents .binary64 s e m) = .infinity s) ∨
    (e = 0#11 ∧ m = 0#52 ∧ UnpackedFloat.unpack .binary64 (packComponents .binary64 s e m) = .zero s) ∨
    e.toNat ≠ 2047 ∧ ∃ h, UnpackedFloat.unpack .binary64 (packComponents .binary64 s e m) =
      .finite s (Magnitude.ofBits (e.toNat * 2 ^ 52 + m.toNat)).mantissa
        (Magnitude.ofBits (e.toNat * 2 ^ 52 + m.toNat)).exponent h := by
  by_cases hfull : e = -1#11
  · subst hfull
    rw [unpack_full]
    by_cases hm : m = 0#52
    · exact .inr (.inl ⟨rfl, hm, if_pos hm⟩)
    · exact .inl ⟨rfl, hm, if_neg hm⟩
  · have hfinite : e.toNat ≠ 2047 := fun he => hfull (BitVec.eq_of_toNat_eq he)
    by_cases hne : e.toNat * 2 ^ 52 + m.toNat = 0
    · have he : e = 0#11 := BitVec.eq_of_toNat_eq (by simp; omega)
      have hm : m = 0#52 := BitVec.eq_of_toNat_eq (by simp; omega)
      rw [he, hm]
      exact .inr (.inr (.inl ⟨rfl, rfl, unpack_zero s⟩))
    · exact .inr (.inr (.inr ⟨hfinite, unpack_finite hfinite hne⟩))

/-- **Unpacking and packing a word gives it back**, unless it is a NaN that no double has. -/
theorem pack_unpack {b : BitVec 64} (h : Format.binary64.Valid b) :
    UnpackedFloat.pack .binary64 (UnpackedFloat.unpack .binary64 b) = b := by
  obtain ⟨s, e, m, rfl⟩ := exists_packComponents b
  rcases unpack_cases s e m with ⟨rfl, hm, hunpack⟩ | ⟨rfl, rfl, hunpack⟩ | ⟨rfl, rfl, hunpack⟩ |
    ⟨hfinite, hpositive, hunpack⟩
  · rw [hunpack]
    exact (h.eq_packedNaN unpackExponent_packComponents (by rw [unpackMantissa_packComponents]; exact hm)).symm
  · rw [hunpack]
    rfl
  · rw [hunpack]
    rfl
  · rw [hunpack, pack_finite hfinite hpositive]

/-! ## Doubles -/

/-- **A double is its word.** -/
theorem eq_of_toBits {x y : Float} (h : x.toBits = y.toBits) : x = y := by
  obtain ⟨⟨a, ha⟩⟩ := x
  obtain ⟨⟨b, hb⟩⟩ := y
  cases h
  rfl

theorem toBits_eq_magnitudeBits (x : Float) :
    x.toBits.toNat = (if isNegative x then 2 ^ 63 else 0) + magnitudeBits x := by
  have hx := x.toBits.toNat_lt
  unfold isNegative magnitudeBits
  simp only [Nat.pow_eq, decide_eq_true_eq]
  split <;> omega

/-- **Sign and size determine a double.** -/
theorem eq_of_magnitudeBits {x y : Float} (hsign : isNegative x = isNegative y)
    (hsize : magnitudeBits x = magnitudeBits y) : x = y := by
  refine eq_of_toBits (UInt64.toNat_inj.1 ?_)
  rw [toBits_eq_magnitudeBits x, toBits_eq_magnitudeBits y, hsign, hsize]

theorem parts {x : Float} {s : Sign} {e : BitVec 11} {m : BitVec 52}
    (h : x.toBits.toBitVec = packComponents .binary64 s e m) :
    magnitudeBits x = e.toNat * 2 ^ 52 + m.toNat ∧ isNegative x = (s == .negative) := by
  have he := e.isLt
  have hm := m.isLt
  have hword : x.toBits.toNat = s.toBitVec.toNat * 2 ^ 63 + e.toNat * 2 ^ 52 + m.toNat := by
    rw [← toNat_packComponents, ← h]
    rfl
  unfold magnitudeBits isNegative
  rw [hword, Nat.pow_eq]
  cases s with
  | positive =>
    have hsign : Sign.positive.toBitVec.toNat = 0 := rfl
    rw [hsign]
    exact ⟨by omega, decide_eq_false (by omega)⟩
  | negative =>
    have hsign : Sign.negative.toBitVec.toNat = 1 := rfl
    rw [hsign]
    exact ⟨by omega, decide_eq_true (by omega)⟩

theorem exists_parts (x : Float) : ∃ (s : Sign) (e : BitVec 11) (m : BitVec 52),
    x.toBits.toBitVec = packComponents .binary64 s e m ∧
      magnitudeBits x = e.toNat * 2 ^ 52 + m.toNat ∧ isNegative x = (s == .negative) := by
  obtain ⟨s, e, m, hparts⟩ := exists_packComponents x.toBits.toBitVec
  exact ⟨s, e, m, hparts.symm, parts hparts.symm⟩

theorem valid_of_le {b : BitVec 64} (h : b.toNat ≤ infinityBits) : Format.binary64.Valid b := by
  refine ⟨fun he hm => ?_⟩
  obtain ⟨s, e, m, rfl⟩ := exists_packComponents b
  rw [unpackExponent_packComponents] at he
  rw [unpackMantissa_packComponents] at hm
  have hzero : m.toNat = 0 := by
    rw [toNat_packComponents, he] at h
    have hfull : (-1#11).toNat = 2047 := rfl
    rw [hfull] at h
    unfold infinityBits at h
    omega
  exact absurd (BitVec.eq_of_toNat_eq hzero) hm

/-- **A word up to infinity's is the word of its double.** -/
theorem toBits_ofBits {n : Nat} (h : n ≤ infinityBits) : (Float.ofBits (.ofNat n)).toBits.toNat = n := by
  have hlt : n < 2 ^ 64 := Nat.lt_of_le_of_lt h (by decide)
  have hword : (UInt64.ofNat n).toBitVec.toNat = n := by
    rw [UInt64.toNat_toBitVec, UInt64.toNat_ofNat_of_lt' hlt]
  have hpack : (Float.ofBits (.ofNat n)).toBits.toBitVec = (UInt64.ofNat n).toBitVec :=
    pack_unpack (valid_of_le (by rw [hword]; exact h))
  rw [← UInt64.toNat_toBitVec, hpack, hword]

theorem magnitudeBits_ofBits {n : Nat} (h : n ≤ infinityBits) : magnitudeBits (Float.ofBits (.ofNat n)) = n := by
  rw [magnitudeBits, toBits_ofBits h]
  exact Nat.mod_eq_of_lt (Nat.lt_of_le_of_lt h (by decide))

theorem isNegative_ofBits {n : Nat} (h : n ≤ infinityBits) : isNegative (Float.ofBits (.ofNat n)) = false := by
  rw [isNegative, toBits_ofBits h]
  exact decide_eq_false (Nat.not_le.2 (Nat.lt_of_le_of_lt h (by decide)))

/-- **A double unpacks to its sign and its size**, as long as it is finite and no zero. -/
theorem exists_unpack_eq_finite {x : Float} (hsize : magnitudeBits x < infinityBits) (hne : magnitudeBits x ≠ 0) :
    ∃ h, x.toModel.unpack = .finite (if isNegative x then .negative else .positive) (magnitude x).mantissa
      (magnitude x).exponent h := by
  obtain ⟨s, e, m, hparts, hmagnitude, hsign⟩ := exists_parts x
  have hunpack : x.toModel.unpack = UnpackedFloat.unpack .binary64 x.toBits.toBitVec := rfl
  have hfinite : e.toNat ≠ 2047 := by
    unfold infinityBits at hsize
    omega
  have hs : (if isNegative x then Sign.negative else Sign.positive) = s := by
    rw [hsign]
    cases s <;> rfl
  unfold magnitude
  rw [hs, hunpack, hparts, hmagnitude]
  exact unpack_finite hfinite (by rwa [← hmagnitude])

theorem exists_unpack_eq_zero {x : Float} (h : magnitudeBits x = 0) : ∃ s, x.toModel.unpack = .zero s := by
  obtain ⟨s, e, m, hparts, hmagnitude, _⟩ := exists_parts x
  have hunpack : x.toModel.unpack = UnpackedFloat.unpack .binary64 x.toBits.toBitVec := rfl
  rw [h] at hmagnitude
  have he : e = 0#11 := BitVec.eq_of_toNat_eq (by simp; omega)
  have hm : m = 0#52 := BitVec.eq_of_toNat_eq (by simp; omega)
  rw [hunpack, hparts, he, hm, unpack_zero]
  exact ⟨s, rfl⟩

theorem unpack_of_le {x : Float} (h : infinityBits ≤ magnitudeBits x) :
    (∃ s, x.toModel.unpack = .infinity s) ∨ x.toModel.unpack = .notANumber := by
  obtain ⟨s, e, m, hparts, hmagnitude, _⟩ := exists_parts x
  have hunpack : x.toModel.unpack = UnpackedFloat.unpack .binary64 x.toBits.toBitVec := rfl
  have he : e = -1#11 := by
    have hlt : e.toNat < 2 ^ 11 := e.isLt
    have hm : m.toNat < 2 ^ 52 := m.isLt
    have hfull : (-1#11).toNat = 2047 := rfl
    unfold infinityBits at h
    exact BitVec.eq_of_toNat_eq (by omega)
  rw [hunpack, hparts, he, unpack_full]
  split
  · exact .inl ⟨s, rfl⟩
  · exact .inr rfl

/-- **A double is finite exactly when its size is below infinity's.** -/
theorem isFinite_iff (x : Float) : x.isFinite = true ↔ magnitudeBits x < infinityBits := by
  have hfinite : x.isFinite = x.toModel.unpack.isFinite := rfl
  rw [hfinite]
  obtain hlt | hle := Nat.lt_or_ge (magnitudeBits x) infinityBits
  · refine iff_of_true ?_ hlt
    by_cases hne : magnitudeBits x = 0
    · obtain ⟨_, hunpack⟩ := exists_unpack_eq_zero hne
      rw [hunpack]
      rfl
    · obtain ⟨_, hunpack⟩ := exists_unpack_eq_finite hlt hne
      rw [hunpack]
      rfl
  · refine iff_of_false ?_ (Nat.not_lt.2 hle)
    obtain ⟨_, hunpack⟩ | hunpack := unpack_of_le hle <;> rw [hunpack] <;> exact Bool.false_ne_true

theorem isFinite_eq (x : Float) : x.isFinite = (!x.isNaN && !x.isInf) := by
  have hall : ∀ u : UnpackedFloat, u.isFinite = (!u.isNaN && !u.isInf) := by
    intro u
    cases u <;> rfl
  exact hall x.toModel.unpack

theorem isInf_of_not_isFinite {x : Float} (hnan : x.isNaN = false) (h : x.isFinite = false) : x.isInf = true := by
  rw [isFinite_eq, hnan, Bool.not_false, Bool.true_and, Bool.not_eq_false'] at h
  exact h

theorem isNaN_of_isFinite {x : Float} (h : x.isFinite = true) : x.isNaN = false := by
  rw [isFinite_eq, Bool.and_eq_true, Bool.not_eq_true'] at h
  exact h.1

theorem isInf_of_isFinite {x : Float} (h : x.isFinite = true) : x.isInf = false := by
  rw [isFinite_eq, Bool.and_eq_true, Bool.not_eq_true', Bool.not_eq_true'] at h
  exact h.2

/-- **Only the zeros compare equal to zero.** -/
theorem beq_zero_iff (x : Float) : (x == 0) = true ↔ magnitudeBits x = 0 := by
  have hzero : (0 : Float).toModel.unpack = .zero .positive := rfl
  have hbeq : (x == 0) = (x.toModel.unpack.compare (0 : Float).toModel.unpack == some .eq) := rfl
  rw [hbeq, hzero]
  by_cases hne : magnitudeBits x = 0
  · refine iff_of_true ?_ hne
    obtain ⟨_, hunpack⟩ := exists_unpack_eq_zero hne
    rw [hunpack]
    rfl
  · refine iff_of_false ?_ hne
    obtain hlt | hle := Nat.lt_or_ge (magnitudeBits x) infinityBits
    · obtain ⟨_, hunpack⟩ := exists_unpack_eq_finite hlt hne
      rw [hunpack]
      cases isNegative x <;> exact Bool.false_ne_true
    · obtain ⟨s, hunpack⟩ | hunpack := unpack_of_le hle
      · rw [hunpack]
        cases s <;> exact Bool.false_ne_true
      · rw [hunpack]
        exact Bool.false_ne_true

theorem ofBits_magnitudeBits {x : Float} (hfinite : x.isFinite = true) (h : isNegative x = false) :
    Float.ofBits (.ofNat (magnitudeBits x)) = x := by
  have hle : magnitudeBits x ≤ infinityBits := Nat.le_of_lt ((isFinite_iff x).1 hfinite)
  exact eq_of_magnitudeBits (by rw [isNegative_ofBits hle, h]) (magnitudeBits_ofBits hle)

/-- **The size of a double**, as a double, unpacks to the same mantissa and exponent. -/
theorem exists_unpack_size {x : Float} (hfinite : x.isFinite = true) (hne : magnitudeBits x ≠ 0) :
    ∃ h, (Float.ofBits (.ofNat (magnitudeBits x))).toModel.unpack =
      .finite .positive (magnitude x).mantissa (magnitude x).exponent h := by
  have hlt : magnitudeBits x < infinityBits := (isFinite_iff x).1 hfinite
  have hsize := magnitudeBits_ofBits (Nat.le_of_lt hlt)
  have hsign := isNegative_ofBits (Nat.le_of_lt hlt)
  generalize Float.ofBits (.ofNat (magnitudeBits x)) = y at hsize hsign ⊢
  have hmagnitude : magnitude y = magnitude x := by rw [magnitude, hsize, magnitude]
  have hunpack := exists_unpack_eq_finite (x := y) (by rw [hsize]; exact hlt) (by rw [hsize]; exact hne)
  rwa [hmagnitude, hsign] at hunpack

/-- **Zero minus a size is the size with the other sign.** -/
theorem zero_sub_ofBits {x : Float} (hfinite : x.isFinite = true) (hne : magnitudeBits x ≠ 0)
    (h : isNegative x = true) : 0 - Float.ofBits (.ofNat (magnitudeBits x)) = x := by
  obtain ⟨_, hunpack⟩ := exists_unpack_eq_finite ((isFinite_iff x).1 hfinite) hne
  obtain ⟨_, hsize⟩ := exists_unpack_size hfinite hne
  generalize Float.ofBits (.ofNat (magnitudeBits x)) = y at hsize ⊢
  have hsub : UnpackedFloat.sub .binary64 (0 : Float).toModel.unpack y.toModel.unpack = x.toModel.unpack := by
    have hzero : (0 : Float).toModel.unpack = .zero .positive := rfl
    rw [hzero, hsize, hunpack, h]
    rfl
  have hbits : (0 - y).toBits.toBitVec = UnpackedFloat.pack .binary64
      (UnpackedFloat.sub .binary64 (0 : Float).toModel.unpack y.toModel.unpack) := rfl
  refine eq_of_toBits (UInt64.toBitVec_inj.1 ?_)
  rw [hbits, hsub]
  exact pack_unpack x.toModel.valid

/-- **The size with a minus in front**, for zero too. -/
theorem neg_ofBits {x : Float} (hfinite : x.isFinite = true) (h : isNegative x = true) :
    -Float.ofBits (.ofNat (magnitudeBits x)) = x := by
  by_cases hne : magnitudeBits x = 0
  · have hzero : x = -0 := eq_of_magnitudeBits h hne
    rw [hzero]
    decide
  obtain ⟨_, hunpack⟩ := exists_unpack_eq_finite ((isFinite_iff x).1 hfinite) hne
  obtain ⟨_, hsize⟩ := exists_unpack_size hfinite hne
  generalize Float.ofBits (.ofNat (magnitudeBits x)) = y at hsize ⊢
  have hneg : UnpackedFloat.neg y.toModel.unpack = x.toModel.unpack := by
    rw [hsize, hunpack, h]
    rfl
  have hbits : (-y).toBits.toBitVec = UnpackedFloat.pack .binary64 (UnpackedFloat.neg y.toModel.unpack) := rfl
  refine eq_of_toBits (UInt64.toBitVec_inj.1 ?_)
  rw [hbits, hneg]
  exact pack_unpack x.toModel.valid

end Binary64
end Reckoner

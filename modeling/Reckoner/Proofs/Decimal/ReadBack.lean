import Mathlib.Data.List.TakeWhile
import Mathlib.Tactic.Ring
import Reckoner.Decimal.Shortest
import Reckoner.Proofs.Binary64.Nearest

/-!
# Decimal.ReadBack — digits that read as the double they were made for

The exact decimal of a double reads as that double (`nearestBits_ofMagnitude`).  Every neighbour that the search for
fewer digits settles on was tried, and dropping zeros changes no quotient, so the shortest decimal does too
(`nearestBits_shortest`).  A decimal that is written out in full is read as the same quotient (`read?_positional`).
-/
namespace Reckoner
namespace Decimal

/-! ## What the digits read as -/

theorem nearestBits_of_digits_eq_zero {d : Decimal} (h : d.digits = 0) : d.nearestBits = 0 := by
  unfold nearestBits ratio
  rw [h, Nat.zero_mul, Binary64.nearestBits_zero]

theorem nearestBits_mul_ten (n : Nat) (e : Int) : nearestBits ⟨n * 10, e⟩ = nearestBits ⟨n, e + 1⟩ := by
  unfold nearestBits ratio
  simp only [Nat.pow_eq]
  refine Binary64.nearestBits_congr (by positivity) (by positivity) ?_
  obtain he | he := lt_or_ge e 0
  · have hplaces : (-e).toNat = (-(e + 1)).toNat + 1 := by omega
    have hwhole : (e + 1).toNat = 0 := by omega
    rw [hplaces, hwhole, Int.toNat_of_nonpos he.le, pow_succ]
    ring
  · have hwhole : (e + 1).toNat = e.toNat + 1 := by omega
    have hplaces : (-e).toNat = 0 := by omega
    have hplaces' : (-(e + 1)).toNat = 0 := by omega
    rw [hwhole, hplaces, hplaces', pow_succ]
    ring

/-- **Zeros at the end of the digits may go.** -/
theorem nearestBits_trim (d : Decimal) : d.trim.nearestBits = d.nearestBits := by
  fun_induction trim d with
  | case1 d hzero => rw [nearestBits_of_digits_eq_zero hzero, nearestBits_of_digits_eq_zero rfl]
  | case2 d hne hlast ih =>
    rw [ih, ← nearestBits_mul_ten, Nat.div_mul_cancel (Nat.dvd_of_mod_eq_zero hlast)]
  | case3 d hne hlast => rfl

theorem nearestBits_of_onGrid? {tie : Tie} {bits cut : Nat} {exact d : Decimal}
    (h : onGrid? tie bits exact cut = some d) : d.nearestBits = bits := by
  unfold onGrid? at h
  simp only at h
  split at h
  · rename_i hbelow habove
    cases h
    cases exact.roundsUp tie cut
    · exact beq_iff_eq.1 hbelow
    · exact beq_iff_eq.1 habove
  · rename_i hbelow habove
    cases h
    exact beq_iff_eq.1 hbelow
  · rename_i hbelow habove
    cases h
    exact beq_iff_eq.1 habove
  · cases h

theorem nearestBits_firstHit (tie : Tie) {bits : Nat} {exact : Decimal} (h : exact.nearestBits = bits) :
    ∀ cut, (firstHit tie bits exact cut).nearestBits = bits
  | 0 => h
  | cut + 1 => by
    rw [firstHit]
    cases hgrid : onGrid? tie bits exact (cut + 1) with
    | none => exact nearestBits_firstHit tie h cut
    | some d => exact nearestBits_of_onGrid? hgrid

/-- **The shortest decimal reads as the same double.** -/
theorem nearestBits_shortest (tie : Tie) (exact : Decimal) :
    (exact.shortest tie).nearestBits = exact.nearestBits := by
  rw [shortest, nearestBits_trim, nearestBits_firstHit tie rfl]

/-- **The size of a double, digit for digit, reads as that double.** -/
theorem nearestBits_ofMagnitude {bits : Nat} (h : bits < Binary64.infinityBits) :
    (ofMagnitude (.ofBits bits)).nearestBits = bits := by
  have hbits := Binary64.nearestBits_ofBits h
  generalize Binary64.Magnitude.ofBits bits = m at hbits ⊢
  have hwhole : (min m.exponent 0).toNat = 0 := by omega
  have hplaces : (-min m.exponent 0).toNat = (-m.exponent).toNat := by omega
  have hten : 10 ^ (-m.exponent).toNat = 2 ^ (-m.exponent).toNat * 5 ^ (-m.exponent).toNat := by
    rw [← Nat.mul_pow]
  unfold nearestBits ratio ofMagnitude
  simp only [Nat.pow_eq]
  rw [hwhole, hplaces, Nat.pow_zero, Nat.mul_one, hten, Binary64.nearestBits_mul_right (by positivity) (by positivity),
    hbits]

/-! ## What the text reads as -/

section Text

variable {c : Char} {n places : Nat}

theorem isDigit_of_mem_toDigits (h : c ∈ Nat.toDigits 10 n) : c.isDigit = true :=
  Nat.isDigit_of_mem_toDigits (by decide) (by decide) h

theorem digitChar_ne_zero : ∀ d < 10, d ≠ 0 → d.digitChar ≠ '0' := by decide

theorem head?_toDigits_ne (n : Nat) (hn : n ≠ 0) : (Nat.toDigits 10 n).head? ≠ some '0' := by
  obtain hlt | hle := Nat.lt_or_ge n 10
  · simpa [Nat.toDigits_of_lt_base hlt] using digitChar_ne_zero n hlt hn
  · have ih := head?_toDigits_ne (n / 10) (by omega)
    rw [Nat.toDigits_of_base_le (by decide) hle]
    cases hdigits : Nat.toDigits 10 (n / 10) with
    | nil => exact absurd hdigits Nat.toDigits_ne_nil
    | cons c digits => simpa [hdigits] using ih
termination_by n
decreasing_by omega

theorem isDigit_of_mem_leftpad (h : c ∈ (Nat.toDigits 10 n).leftpad places '0') : c.isDigit = true := by
  unfold List.leftpad at h
  obtain h | h := List.mem_append.1 h
  · rw [List.eq_of_mem_replicate h]
    rfl
  · exact isDigit_of_mem_toDigits h

theorem length_leftpad_toDigits (h : n < 10 ^ places) (hplaces : places ≠ 0) :
    ((Nat.toDigits 10 n).leftpad places '0').length = places := by
  rw [List.length_leftpad]
  exact Nat.max_eq_left ((Nat.length_toDigits_le_iff (by decide) (Nat.pos_of_ne_zero hplaces)).2 h)

theorem ofDigitChars_leftpad (init : Nat) (h : n < 10 ^ places) (hplaces : places ≠ 0) :
    Nat.ofDigitChars 10 ((Nat.toDigits 10 n).leftpad places '0') init = 10 ^ places * init + n := by
  have hvalue : Nat.ofDigitChars 10 ((Nat.toDigits 10 n).leftpad places '0') 0 = n := by
    rw [List.leftpad, Nat.ofDigitChars_append, Nat.ofDigitChars_replicate_zero, Nat.mul_zero,
      Nat.ofDigitChars_ten_toDigits]
  rw [Nat.ofDigitChars_eq_ofDigitChars_zero, length_leftpad_toDigits h hplaces, hvalue]

/-- The digits on both sides of a point are those of the whole. -/
theorem ofDigitChars_append_leftpad (units : Nat) (hplaces : places ≠ 0) :
    Nat.ofDigitChars 10 (Nat.toDigits 10 (units / 10 ^ places) ++
      (Nat.toDigits 10 (units % 10 ^ places)).leftpad places '0') 0 = units := by
  have hrest : units % 10 ^ places < 10 ^ places := Nat.mod_lt _ (by positivity)
  rw [Nat.ofDigitChars_append, Nat.ofDigitChars_ten_toDigits, ofDigitChars_leftpad _ hrest hplaces, Nat.div_add_mod]

end Text

/-- **What stands in a decimal that is written out**: digits, and at most one point. -/
theorem isDigit_or_of_mem_positional {d : Decimal} {c : Char} (h : c ∈ d.positional) : c.isDigit = true ∨ c = '.' := by
  unfold positional at h
  simp only at h
  split at h
  · exact .inl (isDigit_of_mem_toDigits h)
  · obtain h | h := List.mem_append.1 h
    · exact .inl (isDigit_of_mem_toDigits h)
    · obtain h | h := List.mem_cons.1 h
      · exact .inr h
      · exact .inl (isDigit_of_mem_leftpad h)

theorem head?_positional_ne (d : Decimal) : d.positional.head? ≠ some '-' := by
  intro hhead
  rcases isDigit_or_of_mem_positional (List.mem_of_mem_head? hhead) with h | h <;> cases h

theorem positional_ne_nil (d : Decimal) : d.positional ≠ [] := by
  unfold positional
  simp only
  split
  · exact Nat.toDigits_ne_nil
  · exact List.append_ne_nil_of_left_ne_nil Nat.toDigits_ne_nil _

theorem ne_point_of_isDigit {c : Char} (h : c.isDigit = true) : (c != '.') = true := by
  rw [bne_iff_ne]
  rintro rfl
  cases h

section Read

variable {whole fraction : List Char}

theorem read?_whole (hwhole : ∀ c ∈ whole, c.isDigit = true) (hne : whole ≠ []) :
    read? whole = some ⟨Nat.ofDigitChars 10 whole 0, 0⟩ := by
  have hpoint : ∀ c ∈ whole, (c != '.') = true := fun c hc => ne_point_of_isDigit (hwhole c hc)
  have htake : whole.takeWhile (· != '.') = whole := List.takeWhile_eq_self_iff.2 hpoint
  have hdrop : whole.dropWhile (· != '.') = [] := List.dropWhile_eq_nil_iff.2 hpoint
  have hall : whole.all Char.isDigit = true := List.all_eq_true.2 hwhole
  have hempty : whole.isEmpty = false := List.isEmpty_eq_false_iff.2 hne
  unfold read?
  simp only [htake, hdrop, List.drop_nil, List.append_nil, hall, hempty]
  rfl

theorem read?_point (hwhole : ∀ c ∈ whole, c.isDigit = true) (hfraction : ∀ c ∈ fraction, c.isDigit = true)
    (hne : whole ≠ []) : read? (whole ++ '.' :: fraction) =
      some ⟨Nat.ofDigitChars 10 (whole ++ fraction) 0, -(fraction.length : Int)⟩ := by
  have hpoint : ∀ c ∈ whole, (c != '.') = true := fun c hc => ne_point_of_isDigit (hwhole c hc)
  have htake : (whole ++ '.' :: fraction).takeWhile (· != '.') = whole := by
    rw [List.takeWhile_append_of_pos hpoint, List.takeWhile_cons_of_neg (by decide), List.append_nil]
  have hdrop : (whole ++ '.' :: fraction).dropWhile (· != '.') = '.' :: fraction := by
    rw [List.dropWhile_append_of_pos hpoint, List.dropWhile_cons_of_neg (by decide)]
  have hall : (whole ++ fraction).all Char.isDigit = true :=
    List.all_eq_true.2 (List.forall_mem_append.2 ⟨hwhole, hfraction⟩)
  have hempty : (whole ++ fraction).isEmpty = false :=
    List.isEmpty_eq_false_iff.2 (List.append_ne_nil_of_left_ne_nil hne fraction)
  unfold read?
  simp only [htake, hdrop, List.drop_succ_cons, List.drop_zero, hall, hempty]
  rfl

end Read

/-- **A decimal written out is read as the same quotient.** -/
theorem read?_positional (d : Decimal) :
    read? d.positional = some ⟨d.digits * 10 ^ d.exponent.toNat, -((-d.exponent).toNat : Int)⟩ := by
  unfold positional
  simp only [Nat.pow_eq]
  generalize d.digits * 10 ^ d.exponent.toNat = units
  generalize (-d.exponent).toNat = places
  by_cases hplaces : places = 0
  · rw [if_pos hplaces, hplaces, read?_whole (fun c hc => isDigit_of_mem_toDigits hc) Nat.toDigits_ne_nil,
      Nat.ofDigitChars_ten_toDigits, Nat.pow_zero, Nat.div_one]
    rfl
  · have hrest : units % 10 ^ places < 10 ^ places := Nat.mod_lt _ (by positivity)
    rw [if_neg hplaces, read?_point (fun c hc => isDigit_of_mem_toDigits hc) (fun c hc => isDigit_of_mem_leftpad hc)
      Nat.toDigits_ne_nil, ofDigitChars_append_leftpad units hplaces, length_leftpad_toDigits hrest hplaces]

/-- **The text of a decimal reads as the double that the decimal does.** -/
theorem toFloat_of_read?_positional (d : Decimal) : (read? d.positional).map toFloat = some d.toFloat := by
  have hwhole : (-((-d.exponent).toNat : Int)).toNat = 0 := by omega
  have hplaces : (- -((-d.exponent).toNat : Int)).toNat = (-d.exponent).toNat := by omega
  rw [read?_positional]
  unfold toFloat ratio
  simp only [Option.map_some, hwhole, hplaces, Nat.pow_eq, Nat.pow_zero, Nat.mul_one]

end Decimal
end Reckoner

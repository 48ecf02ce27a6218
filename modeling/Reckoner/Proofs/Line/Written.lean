import Reckoner.Proofs.Line.Parts
import Reckoner.Proofs.Numeral
import Reckoner.Settings

/-!
# Line.Written — written tokens read again

The digits of a finite double are a single run of characters that numbers are written with, so its text is one number,
behind a minus if it is negative (`read?_plainChars`, `read?_plainChars_of_isNegative`).  A text without such characters
falls apart into single ones (`read?_symbols`).  Symbols that settings accept are what keeps this so: the root prefix is
read as itself, and a space as nothing.
-/
namespace Reckoner
namespace Line

open Binary64 (isNegative magnitudeBits)

variable {root : Char} {x : Float}

/-! ## Numbers -/

theorem isNumeric_of_mem_positional {d : Decimal} {c : Char} (h : c ∈ d.positional) : isNumeric c = true := by
  obtain hdigit | rfl := Decimal.isDigit_or_of_mem_positional h
  · simp only [isNumeric, hdigit, Bool.true_or]
  · rfl

/-- Nothing in a decimal that is written out is a comma. -/
theorem map_pointed_positional (d : Decimal) : d.positional.map pointed = d.positional := by
  refine (List.map_congr_left fun c hc => ?_).trans (List.map_id _)
  refine if_neg ?_
  rintro hcomma
  obtain rfl := beq_iff_eq.1 hcomma
  obtain hdigit | hpoint := Decimal.isDigit_or_of_mem_positional hc
  · cases hdigit
  · cases hpoint

/-- **The digits of a double are one number on a line**, its size. -/
theorem read?_digits (root : Char) (tie : Tie) (h : x.isFinite = true) :
    read? root (Numeral.digits tie x).positional = some [.number (Float.ofBits (.ofNat (magnitudeBits x)))] := by
  have hvalue := Numeral.read?_digits tie h
  have hmap := map_pointed_positional (Numeral.digits tie x)
  have hnumeric : ∀ c ∈ (Numeral.digits tie x).positional, isNumeric c = true :=
    fun c hc => isNumeric_of_mem_positional hc
  have hne := Decimal.positional_ne_nil (Numeral.digits tie x)
  generalize (Numeral.digits tie x).positional = text at hvalue hmap hnumeric hne ⊢
  cases text with
  | nil => exact absurd rfl hne
  | cons c cs => exact read?_run hnumeric (by rw [hmap, hvalue])

theorem read?_plainChars (root : Char) (h : x.isFinite = true) (hsign : isNegative x = false) :
    read? root (Numeral.plainChars x) = some [.number x] := by
  rw [Numeral.plainChars_of_isFinite h, Numeral.sign, hsign]
  exact (read?_digits root .up h).trans (by rw [Binary64.ofBits_magnitudeBits h hsign])

theorem read?_plainChars_of_isNegative (root : Char) (h : x.isFinite = true) (hsign : isNegative x = true) :
    read? root (Numeral.plainChars x) =
      some [.op .subtract, .number (Float.ofBits (.ofNat (magnitudeBits x)))] := by
  rw [Numeral.plainChars_of_isFinite h, Numeral.sign, hsign, if_pos rfl, List.singleton_append,
    read?_symbol_cons rfl rfl, read?_digits root .up h]
  rfl

/-! ## Characters -/

/-- **Characters that no number is written with are read one by one.** -/
theorem read?_symbols {cs : List Char} (h : ∀ c ∈ cs, isNumeric c = false) :
    read? root cs = some (cs.filterMap (symbol? root)) := by
  induction cs with
  | nil => exact read?_nil root
  | cons c cs ih =>
    obtain ⟨hc, hcs⟩ := List.forall_mem_cons.1 h
    rw [read?_cons hc, ih hcs]
    cases hsymbol : symbol? root c with
    | none =>
      rw [List.filterMap_cons_none hsymbol]
      rfl
    | some t =>
      rw [List.filterMap_cons_some hsymbol]
      rfl

theorem read?_symbol {c : Char} {t : Token} (hc : isNumeric c = false) (ht : symbol? root c = some t) :
    read? root [c] = some [t] := by
  rw [read?_symbol_cons hc ht, read?_nil]
  rfl

theorem symbol?_symbol (operator : Operator) : symbol? root operator.symbol = some (.op operator) := by
  cases operator <;> rfl

theorem isNumeric_symbol (operator : Operator) : isNumeric operator.symbol = false := by
  cases operator <;> rfl

section Valid

variable {s : Settings}

theorem rootSymbol_of_isValid (h : s.isValid = true) : s.rootSymbol.isDigit = false ∧
    Text.isBlank s.rootSymbol = false ∧ s.rootSymbol ∉ Settings.reserved := by
  unfold Settings.isValid Settings.isReserved at h
  simpa [and_assoc] using h

theorem isNumeric_rootSymbol (h : s.isValid = true) : isNumeric s.rootSymbol = false := by
  obtain ⟨hdigit, _, hreserved⟩ := rootSymbol_of_isValid h
  have hpoint : s.rootSymbol ≠ '.' := fun hc => hreserved (by rw [hc]; decide)
  have hcomma : s.rootSymbol ≠ ',' := fun hc => hreserved (by rw [hc]; decide)
  simp [isNumeric, hdigit, hpoint, hcomma]

/-- **The chosen symbol is read as the root prefix**, because no other token is written that way. -/
theorem symbol?_rootSymbol (h : s.isValid = true) : symbol? s.rootSymbol s.rootSymbol = some .squareRoot := by
  obtain ⟨_, _, hreserved⟩ := rootSymbol_of_isValid h
  generalize s.rootSymbol = root at hreserved ⊢
  unfold symbol?
  split
  all_goals first | exact absurd (by decide) hreserved | exact if_pos (beq_self_eq_true _)

/-- **A space is passed over**, because it cannot be chosen as a symbol. -/
theorem symbol?_space (h : s.isValid = true) : symbol? s.rootSymbol ' ' = none := by
  obtain ⟨_, hblank, _⟩ := rootSymbol_of_isValid h
  refine if_neg fun hc => ?_
  rw [← beq_iff_eq.1 hc] at hblank
  cases hblank

end Valid

end Line
end Reckoner

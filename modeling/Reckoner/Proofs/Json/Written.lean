import Reckoner.Proofs.Json.Text
import Reckoner.Proofs.Printed
import Reckoner.Proofs.Runs

/-!
# Json.Written — what a record writes, read again

A string between quotes is scanned as that string (`scans_quoted`), the number of a record as a decimal that reads as
the double it was written for (`exists_number?_of_result?`), and an object from what its members are scanned as
(`scans_object`).
-/
namespace Reckoner
namespace Json

/-! ## Strings -/

theorem unit?_append {digits : List Char} {n : Nat} (h : unit? digits = some (n, [])) (rest : List Char) :
    unit? (digits ++ rest) = some (n, rest) := by
  unfold unit? at h
  split at h
  · split at h
    · rename_i ha hb hc hd
      cases h
      simp [unit?, ha, hb, hc, hd]
    · cases h
  · cases h

theorem unit?_control : ∀ n < 0x20, unit? ((Nat.toDigits 16 n).leftpad 4 '0') = some (n, []) := by decide +kernel

theorem unicode?_control {c : Char} (h : c.toNat < 0x20) (rest : List Char) :
    unicode? ((Nat.toDigits 16 c.toNat).leftpad 4 '0' ++ rest) = some (c, rest) := by
  have hhigh : isHighSurrogate c.toNat = false := by simp [isHighSurrogate]; omega
  have hlow : isLowSurrogate c.toNat = false := by simp [isLowSurrogate]; omega
  unfold unicode?
  simp only [unit?_append (unit?_control c.toNat h), hhigh, hlow, Bool.false_eq_true, if_false, Char.ofNat_toNat]

/-- **An escaped character is read as the character.** -/
theorem character?_escape (c : Char) (rest : List Char) : character? (Text.escape c ++ rest) = some (c, rest) := by
  unfold Text.escape
  by_cases hquote : c = '"'
  · subst hquote
    rfl
  by_cases hbackslash : c = '\\'
  · subst hbackslash
    rfl
  rw [if_neg hquote, if_neg hbackslash]
  by_cases hcontrol : c.toNat < 0x20
  · rw [if_pos hcontrol]
    unfold Text.controlEscape
    split <;> first | rfl | exact unicode?_control hcontrol rest
  · rw [if_neg hcontrol]
    unfold character?
    split <;> simp_all

/-- No escaped character looks like the end of its string. -/
theorem head?_escape (c : Char) (rest : List Char) : (Text.escape c ++ rest).head? ≠ some '"' := by
  unfold Text.escape
  by_cases hquote : c = '"'
  · simp [hquote]
  by_cases hbackslash : c = '\\'
  · simp [hbackslash]
  by_cases hcontrol : c.toNat < 0x20
  · have hhead : ∀ n < 0x20, (Text.controlEscape (Char.ofNat n)).head? = some '\\' := by decide +kernel
    have hc := hhead c.toNat hcontrol
    rw [Char.ofNat_toNat] at hc
    simp [hquote, hbackslash, hcontrol, hc]
  · simp [hquote, hbackslash, hcontrol]

/-- **What was put between quotes is read up to its quote.** -/
theorem string?_flatMap_escape (behind : List Char) : ∀ text : List Char,
    string? (text.flatMap Text.escape ++ '"' :: behind) = some (text, behind)
  | [] => by rw [string?]; rfl
  | c :: text => by
    rw [List.flatMap_cons, List.append_assoc, string?_of_character? (head?_escape c _) (character?_escape c _),
      string?_flatMap_escape behind text, Option.map_some]

/-! ## Numbers -/

theorem natural?_toDigits (n : Nat) : natural? (Nat.toDigits 10 n) = some n := by
  have hall : (Nat.toDigits 10 n).all Char.isDigit = true :=
    List.all_eq_true.2 fun c hc => Decimal.isDigit_of_mem_toDigits hc
  have hempty : (Nat.toDigits 10 n).isEmpty = false := List.isEmpty_eq_false_iff.2 Nat.toDigits_ne_nil
  simp [natural?, hall, hempty, Nat.ofDigitChars_ten_toDigits]

theorem isWhole_toDigits (n : Nat) : isWhole (Nat.toDigits 10 n) = true := by
  by_cases hn : n = 0
  · rw [hn]
    rfl
  · have hhead := Decimal.head?_toDigits_ne n hn
    unfold isWhole
    cases hdigits : Nat.toDigits 10 n with
    | nil => exact absurd hdigits Nat.toDigits_ne_nil
    | cons c digits =>
      rw [hdigits] at hhead
      have hc : c ≠ '0' := by simpa using hhead
      simp [hc]

theorem exponent?_scientific (power : Int) :
    exponent? ('e' :: (if power < 0 then '-' else '+') :: Nat.toDigits 10 power.natAbs) = some power := by
  by_cases hpower : power < 0
  · rw [if_pos hpower]
    simp only [exponent?, natural?_toDigits, Option.map_some, Option.some.injEq]
    omega
  · rw [if_neg hpower]
    simp only [exponent?, natural?_toDigits, Option.map_some, Option.some.injEq]
    omega

section Digits

variable {whole fraction tail : List Char} {e : Int}

theorem unsigned?_whole (hdigits : ∀ c ∈ whole, c.isDigit = true) (hwhole : isWhole whole = true)
    (htail : ∀ c ∈ tail.head?, c.isDigit = false ∧ c ≠ '.') (he : exponent? tail = some e) :
    unsigned? (whole ++ tail) = some ⟨Nat.ofDigitChars 10 whole 0, e⟩ := by
  obtain ⟨htake, hdrop⟩ := takeWhile_run hdigits fun c hc => (htail c hc).1
  unfold unsigned?
  simp only [htake, hdrop, hwhole, if_true]
  split
  · rename_i rest
    exact absurd rfl (htail '.' rfl).2
  · rw [he]
    rfl

theorem unsigned?_point (hdigits : ∀ c ∈ whole, c.isDigit = true) (hwhole : isWhole whole = true)
    (hfraction : ∀ c ∈ fraction, c.isDigit = true) (hne : fraction ≠ [])
    (htail : ∀ c ∈ tail.head?, c.isDigit = false) (he : exponent? tail = some e) :
    unsigned? (whole ++ '.' :: (fraction ++ tail)) =
      some ⟨Nat.ofDigitChars 10 (whole ++ fraction) 0, e - fraction.length⟩ := by
  obtain ⟨htake, hdrop⟩ := @takeWhile_run _ _ whole ('.' :: (fraction ++ tail)) hdigits (by simp)
  obtain ⟨htake', hdrop'⟩ := takeWhile_run hfraction htail
  have hempty : fraction.isEmpty = false := List.isEmpty_eq_false_iff.2 hne
  unfold unsigned?
  simp [htake, hdrop, htake', hdrop', hwhole, hempty, he]

end Digits

theorem unsigned?_scientific (d : Decimal) : unsigned? (Numeral.scientific d) = some d := by
  have hdigits : ∀ c ∈ Nat.toDigits 10 d.digits, c.isDigit = true := fun c hc => Decimal.isDigit_of_mem_toDigits hc
  have hvalue : Nat.ofDigitChars 10 (Nat.toDigits 10 d.digits) 0 = d.digits := Nat.ofDigitChars_ten_toDigits
  have hwhole := isWhole_toDigits d.digits
  have horder : Numeral.order d = (Nat.toDigits 10 d.digits).length - 1 + d.exponent := rfl
  have hexponent := exponent?_scientific (Numeral.order d)
  unfold Numeral.scientific
  dsimp only
  generalize Nat.toDigits 10 d.digits = written at hdigits hvalue hwhole horder ⊢
  split
  · rename_i first second rest
    obtain ⟨hfirst, hrest⟩ := List.forall_mem_cons.1 hdigits
    have hread := @unsigned?_point [first] (second :: rest) _ _ (List.forall_mem_singleton.2 hfirst) rfl hrest
      (List.cons_ne_nil _ _) (by simp) hexponent
    have hexact : Numeral.order d - ((second :: rest).length : Nat) = d.exponent := by
      rw [horder]
      simp only [List.length_cons]
      omega
    rw [List.singleton_append, List.singleton_append, hvalue, hexact] at hread
    exact hread
  · rename_i hshort
    have hread := unsigned?_whole hdigits hwhole (by simp) hexponent
    have hlength : written.length = 1 := by
      rcases written with _ | ⟨c, _ | ⟨c', cs⟩⟩
      · cases hwhole
      · rfl
      · exact absurd rfl (hshort c c' cs)
    have hexact : Numeral.order d = d.exponent := by
      rw [horder, hlength]
      omega
    rw [hvalue] at hread
    rw [hread, hexact]

theorem unsigned?_positional_point (d : Decimal) (h : 0 ≤ d.exponent) :
    unsigned? (d.positional ++ ['.', '0']) = some ⟨d.digits * 10 ^ d.exponent.toNat * 10, -1⟩ := by
  have hplaces : (-d.exponent).toNat = 0 := by omega
  unfold Decimal.positional
  simp only [hplaces, Nat.pow_eq, if_true, Nat.pow_zero, Nat.div_one]
  generalize d.digits * 10 ^ d.exponent.toNat = units
  have hread := @unsigned?_point (Nat.toDigits 10 units) ['0'] [] 0
    (fun c hc => Decimal.isDigit_of_mem_toDigits hc) (isWhole_toDigits units) (List.forall_mem_singleton.2 rfl) (by simp)
    (by simp) rfl
  have hvalue : Nat.ofDigitChars 10 ['0'] units = units * 10 := by simp [Nat.ofDigitChars, Nat.mul_comm]
  rw [Nat.ofDigitChars_append, Nat.ofDigitChars_ten_toDigits, hvalue] at hread
  exact hread

theorem unsigned?_positional (d : Decimal) (h : d.exponent < 0) : unsigned? d.positional = some d := by
  have hplaces : (-d.exponent).toNat ≠ 0 := by omega
  have hwhole : d.exponent.toNat = 0 := by omega
  have hexact : 0 - ((-d.exponent).toNat : Int) = d.exponent := by omega
  unfold Decimal.positional
  simp only [hwhole, Nat.pow_eq, Nat.pow_zero, Nat.mul_one, if_neg hplaces]
  generalize (-d.exponent).toNat = places at hplaces hexact
  have hlength : ((Nat.toDigits 10 (d.digits % 10 ^ places)).leftpad places '0').length = places :=
    Decimal.length_leftpad_toDigits (Nat.mod_lt _ (Nat.pow_pos (by decide))) hplaces
  have hne : (Nat.toDigits 10 (d.digits % 10 ^ places)).leftpad places '0' ≠ [] :=
    List.ne_nil_of_length_pos (by rw [hlength]; exact Nat.pos_of_ne_zero hplaces)
  have hread := @unsigned?_point (Nat.toDigits 10 (d.digits / 10 ^ places)) _ [] 0
    (fun c hc => Decimal.isDigit_of_mem_toDigits hc) (isWhole_toDigits _)
    (fun c hc => Decimal.isDigit_of_mem_leftpad hc) hne (by simp) rfl
  rw [List.append_nil, Decimal.ofDigitChars_append_leftpad d.digits hplaces, hlength, hexact] at hread
  exact hread

/-- **The digits of a number are read as the same quotient.** -/
theorem unsigned?_resultChars (d : Decimal) :
    ∃ d', unsigned? (Numeral.resultChars d) = some d' ∧ d'.nearestBits = d.nearestBits := by
  unfold Numeral.resultChars
  split
  · split
    · rename_i hwhole
      refine ⟨_, unsigned?_positional_point d hwhole, ?_⟩
      have hplaces : (-d.exponent).toNat = 0 := by omega
      rw [Decimal.nearestBits_mul_ten]
      unfold Decimal.nearestBits Decimal.ratio
      simp [hplaces]
    · rename_i hfraction
      exact ⟨d, unsigned?_positional d (by omega), rfl⟩
  · exact ⟨d, unsigned?_scientific d, rfl⟩

/-- **The number of a record is read as the double it was written for.** -/
theorem exists_number?_of_result? {x : Float} {written : List Char} (h : Numeral.result? x = some written) :
    ∃ negative size, number? written = some (.number negative size) ∧ (Json.number negative size).toFloat? = some x := by
  unfold Numeral.result? at h
  split at h
  · rename_i hfinite
    cases h
    obtain ⟨size, hread, hbits⟩ := unsigned?_resultChars (Numeral.digits .toEven x)
    have hfloat : size.toFloat = Float.ofBits (.ofNat (Binary64.magnitudeBits x)) := by
      rw [← Numeral.nearestBits_digits .toEven hfinite, ← hbits]
      rfl
    unfold number? Numeral.sign
    cases hsign : Binary64.isNegative x with
    | true =>
      refine ⟨true, size, by simp [hread], ?_⟩
      simp [toFloat?, hfloat, Binary64.neg_ofBits hfinite hsign]
    | false =>
      have hhead : (Numeral.resultChars (Numeral.digits .toEven x)).head? ≠ some '-' := by
        generalize Numeral.resultChars (Numeral.digits .toEven x) = written at hread
        rcases written with _ | ⟨c, rest⟩
        · simp
        · rintro hc
          cases hc
          cases hread
      refine ⟨false, size, by simp [hhead, hread], ?_⟩
      simp [toFloat?, hfloat, Binary64.ofBits_magnitudeBits hfinite hsign]
  · cases h

/-! ## Lexemes -/

/-- What stands behind a run, so that the run ends there. -/
def Stops (rest : List Char) : Prop := ∀ c ∈ rest.head?, isBare c = false

/-- **What is written is scanned as these lexemes**, whatever stands behind. -/
def Scans (written : List Char) (ls : List Lexeme) : Prop :=
  ∀ rest, Stops rest → scan? (written ++ rest) = (scan? rest).map (ls ++ ·)

theorem Scans.scan? {written : List Char} {ls : List Lexeme} (h : Scans written ls) : scan? written = some ls := by
  have hscan := h [] (by simp [Stops])
  rw [List.append_nil] at hscan
  rw [hscan, Json.scan?, Option.map_some, List.append_nil]

theorem scans_quoted (text : List Char) : Scans (Text.quoted text) [.string (.ofList text)] := by
  intro rest _
  rw [Text.quoted, List.cons_append, List.append_assoc, List.singleton_append,
    scan?_quote (string?_flatMap_escape rest text)]
  rfl

theorem isSpace_of_isBare {c : Char} (h : isBare c = true) :
    isSpace c = false ∧ c ≠ '"' ∧ punctuation? c = none := by
  simpa [isBare, and_assoc] using h

theorem scans_bare {run : List Char} {l : Lexeme} (hrun : ∀ c ∈ run, isBare c = true) (hl : bare? run = some l) :
    Scans run [l] := by
  intro rest hrest
  cases run with
  | nil => cases hl
  | cons c run =>
    obtain ⟨hc, hrun⟩ := List.forall_mem_cons.1 hrun
    obtain ⟨hspace, hquote, hpunctuation⟩ := isSpace_of_isBare hc
    obtain ⟨htake, hdrop⟩ := takeWhile_run hrun hrest
    rw [List.cons_append, Json.scan?, if_neg (by simp [hspace]), if_neg hquote]
    simp only [hpunctuation, htake, hdrop, hl]
    rfl

theorem scans_nil : Scans [] [] := by
  intro rest _
  cases h : Json.scan? rest <;> simp [h]

/-- **Punctuation ends what stands before it.** -/
theorem Scans.append_cons {c : Char} {l : Lexeme} {front back : List Char} {ls ls' : List Lexeme}
    (hfront : Scans front ls) (hc : punctuation? c = some l) (hback : Scans back ls') :
    Scans (front ++ c :: back) (ls ++ l :: ls') := by
  intro rest hrest
  have hbare : isBare c = false := by simp [isBare, hc]
  have hspace : isSpace c = false ∧ c ≠ '"' := by
    unfold punctuation? at hc
    split at hc <;> first | decide | cases hc
  rw [List.append_assoc, hfront _ (by simpa [Stops] using hbare), List.cons_append, Json.scan?,
    if_neg (by simp [hspace]), if_neg hspace.2]
  simp only [hc]
  rw [hback rest hrest]
  cases h : Json.scan? rest <;> simp

structure Member where
  key : String
  written : List Char
  value : Json

def Member.text (m : Member) : List Char := Record.member m.key m.written

def Member.pair (m : Member) : String × Json := (m.key, m.value)

theorem scans_member {m : Member} (h : Scans m.written m.value.lexemes) :
    Scans m.text (.string m.key :: .colon :: m.value.lexemes) := by
  have hkey := scans_quoted m.key.toList
  rw [String.ofList_toList] at hkey
  exact hkey.append_cons rfl h

theorem scans_members : ∀ (m : Member) (ms : List Member), (∀ m' ∈ m :: ms, Scans m'.written m'.value.lexemes) →
    Scans ([','].intercalate ((m :: ms).map Member.text) ++ ['\x7d'])
      (.string m.key :: .colon :: (m.value.lexemes ++ memberLexemes (ms.map Member.pair) ++ [.closeObject]))
  | m, [], h => by
    have hm := scans_member (h m List.mem_cons_self)
    simpa [memberLexemes] using hm.append_cons (c := '\x7d') rfl scans_nil
  | m, m' :: ms, h => by
    have hm := scans_member (h m List.mem_cons_self)
    have ih := scans_members m' ms fun m'' hm'' => h m'' (List.mem_cons_of_mem m hm'')
    simpa [memberLexemes, Member.pair] using hm.append_cons (c := ',') rfl ih

theorem scan?_object (m : Member) (ms : List Member) (h : ∀ m' ∈ m :: ms, Scans m'.written m'.value.lexemes) :
    scan? (Record.object ((m :: ms).map Member.text)) = some (Json.object ((m :: ms).map Member.pair)).lexemes := by
  have hobject := scans_nil.append_cons (c := '\x7b') rfl (scans_members m ms h)
  exact hobject.scan?

end Json
end Reckoner

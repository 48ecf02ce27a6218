import Reckoner.Record
import Reckoner.Proofs.Line.Written

/-!
# Printed — no control characters in numbers and records

Numbers are written with digits, signs, points and letters, and quotes escape whatever stands below a space.  So the
text of a record is one line of printed characters, whatever it is a record of (`Record.printed_text`).
-/
namespace Reckoner

namespace Text

def Printed (cs : List Char) : Prop := ∀ c ∈ cs, 0x20 ≤ c.toNat

variable {c : Char} {cs ds : List Char}

@[simp] theorem printed_nil : Printed [] := by simp [Printed]

@[simp] theorem printed_cons : Printed (c :: cs) ↔ 0x20 ≤ c.toNat ∧ Printed cs := List.forall_mem_cons

@[simp] theorem printed_append : Printed (cs ++ ds) ↔ Printed cs ∧ Printed ds := List.forall_mem_append

theorem Printed.lineFeed_not_mem (h : Printed cs) : '\n' ∉ cs := fun hmem => absurd (h '\n' hmem) (by decide)

theorem printed_of_isDigit (h : ∀ c ∈ cs, c.isDigit = true) : Printed cs := by
  intro c hc
  have hdigit := Char.isDigit_iff_toNat.1 (h c hc)
  exact Nat.le_trans (by decide) hdigit.1

/-- **Quotes escape the control characters.** -/
theorem printed_escape (c : Char) : Printed (escape c) := by
  unfold escape
  by_cases hquote : c = '"'
  · simp [hquote]
  by_cases hbackslash : c = '\\'
  · simp [hbackslash]
  by_cases hcontrol : c.toNat < 0x20
  · have hescape : ∀ n < 0x20, (controlEscape (Char.ofNat n)).all fun c => 0x20 ≤ c.toNat := by decide +kernel
    have hc := hescape c.toNat hcontrol
    rw [Char.ofNat_toNat] at hc
    simpa [hquote, hbackslash, hcontrol, Printed] using hc
  · have hc : 0x20 ≤ c.toNat := Nat.le_of_not_lt hcontrol
    simp [hquote, hbackslash, hcontrol, hc]

theorem printed_quoted (text : List Char) : Printed (quoted text) := by
  have hescaped : Printed (text.flatMap escape) := by
    intro c hc
    obtain ⟨d, _, hd⟩ := List.mem_flatMap.1 hc
    exact printed_escape d c hd
  simp [quoted, hescaped]

end Text

open Text (Printed)

/-! ## Numbers -/

theorem printed_toDigits (n : Nat) : Printed (Nat.toDigits 10 n) :=
  Text.printed_of_isDigit fun _ hc => Decimal.isDigit_of_mem_toDigits hc

theorem Decimal.printed_positional (d : Decimal) : Printed d.positional := by
  intro c hc
  obtain h | rfl := isDigit_or_of_mem_positional hc
  · exact Text.printed_of_isDigit (List.forall_mem_singleton.2 h) c List.mem_cons_self
  · decide

namespace Numeral

theorem printed_sign (x : Float) : Printed (sign x) := by
  unfold sign
  split <;> simp

theorem printed_plainChars (x : Float) : Printed (plainChars x) := by
  cases h : x.isFinite with
  | true => simp [plainChars_of_isFinite h, printed_sign, Decimal.printed_positional]
  | false =>
    have hwords : ∀ word ∈ ["NaN".toList, "-inf".toList, "inf".toList], Printed word := by simp
    exact hwords _ (plainChars_of_not_isFinite h)

theorem printed_plain (x : Float) : Printed (plain x).toList := by
  simp [plain, printed_plainChars]

theorem printed_fixedChars (negative : Bool) (f : Decimal.Fixed) : Printed (fixedChars negative f) := by
  unfold fixedChars
  split
  · simp
  · cases negative <;> simp [Decimal.printed_positional]

theorem printed_display (places : Option Nat) (x : Float) : Printed (display places x).toList := by
  cases places with
  | none => exact printed_plain _
  | some n =>
    unfold display shownTo
    cases fixed? x with
    | none => exact printed_plain x
    | some f => simp [printed_fixedChars]

/-- **What the number of a record is written with**: digits and a few marks. -/
def Marked (cs : List Char) : Prop := ∀ c ∈ cs, c.isDigit = true ∨ c ∈ ['-', '+', '.', 'e']

theorem marked_cons {c : Char} {cs : List Char} :
    Marked (c :: cs) ↔ (c.isDigit = true ∨ c ∈ ['-', '+', '.', 'e']) ∧ Marked cs := List.forall_mem_cons

theorem marked_append {cs ds : List Char} : Marked (cs ++ ds) ↔ Marked cs ∧ Marked ds := List.forall_mem_append

theorem marked_toDigits (n : Nat) : Marked (Nat.toDigits 10 n) := fun _ hc => .inl (Decimal.isDigit_of_mem_toDigits hc)

theorem marked_positional (d : Decimal) : Marked d.positional := by
  intro c hc
  obtain h | rfl := Decimal.isDigit_or_of_mem_positional hc
  · exact .inl h
  · simp

theorem marked_scientific (d : Decimal) : Marked (scientific d) := by
  have hdigits := marked_toDigits d.digits
  have hpower := marked_toDigits (order d).natAbs
  unfold scientific
  dsimp only
  generalize Nat.toDigits 10 d.digits = written at hdigits ⊢
  refine marked_append.2 ⟨?_, marked_cons.2 ⟨by simp, marked_cons.2 ⟨by split <;> simp, hpower⟩⟩⟩
  split
  · simp only [marked_cons] at hdigits ⊢
    exact ⟨hdigits.1, by simp, hdigits.2⟩
  · exact hdigits

theorem marked_resultChars (d : Decimal) : Marked (resultChars d) := by
  unfold resultChars
  split
  · split
    · exact marked_append.2 ⟨marked_positional d, by simp [Marked]⟩
    · exact marked_positional d
  · exact marked_scientific d

theorem marked_of_result? {x : Float} {cs : List Char} (h : result? x = some cs) : Marked cs := by
  unfold result? sign at h
  split at h
  · cases h
    refine marked_append.2 ⟨?_, marked_resultChars _⟩
    split <;> simp [Marked]
  · cases h

theorem Marked.printed {cs : List Char} (h : Marked cs) : Printed cs := by
  intro c hc
  obtain hdigit | hmark := h c hc
  · exact Text.printed_of_isDigit (List.forall_mem_singleton.2 hdigit) c List.mem_cons_self
  · simp only [List.mem_cons, List.not_mem_nil, or_false] at hmark
    rcases hmark with rfl | rfl | rfl | rfl <;> decide

end Numeral

/-! ## Records -/

namespace Record

theorem printed_member (key : String) {written : List Char} (h : Printed written) : Printed (member key written) := by
  simp [member, Text.printed_quoted, h]

theorem printed_object {members : List (List Char)} (h : ∀ m ∈ members, Printed m) : Printed (object members) := by
  have hjoined : Printed ([','].intercalate members) := by
    induction members with
    | nil => simp
    | cons m members ih =>
      obtain ⟨hm, hmembers⟩ := List.forall_mem_cons.1 h
      cases members with
      | nil => simpa using hm
      | cons m' members => simp [hm, ih hmembers]
  simp [object, hjoined]

theorem printed_number (x : Float) : Printed (number x) := by
  unfold number
  cases h : Numeral.result? x with
  | none => simp
  | some cs => exact (Numeral.marked_of_result? h).printed

/-- **No record has a control character in it.** -/
theorem printed_text (r : Record) : Printed r.text.toList := by
  rw [text, String.toList_ofList]
  cases r with
  | value input x display =>
    refine printed_object ?_
    simp [printed_member, string, Text.printed_quoted, printed_number]
  | failure input kind detail =>
    refine printed_object ?_
    simp [printed_member, string, Text.printed_quoted]

end Record
end Reckoner

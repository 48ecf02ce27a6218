import Reckoner.Proofs.Flat.Signs
import Reckoner.Proofs.Outcome

/-!
# Flat.Idempotent — a canonical form is its own canonical form

A list with its operators between other tokens and without root prefixes passes through unchanged
(`canonical_of_spaced`): no root to spell out, no two signs to merge, no zero to supply, no sign behind an operator.
Canonical forms are just these lists (`canonical_eq_self_iff`), whatever else stands in them.
-/
namespace Reckoner
namespace Flat

/-! ## What each pass leaves as it is -/

theorem spellRoots_eq_self {ts : List Token} (h : .squareRoot ∉ ts) : spellRoots ts = ts := by
  induction ts with
  | nil => rfl
  | cons t ts ih =>
    rw [List.mem_cons, not_or] at h
    have hspelt : spellRoots (t :: ts) = spelt t ++ spellRoots ts := rfl
    rw [hspelt, ih h.2]
    cases t with
    | squareRoot => exact absurd rfl h.1
    | _ => rfl

theorem signlessHead_of_spaced {ts : List Token} (h : spaced true ts = true) : SignlessHead ts := by
  obtain ⟨t, back, rfl, ht, -⟩ := exists_head_of_spaced h
  cases t with
  | op operator => cases ht
  | _ => exact signlessHead_cons.2 rfl

theorem mergeSigns_of_spaced : ∀ (ts : List Token) (awaiting : Bool), spaced awaiting ts = true → mergeSigns ts = ts
  | [], _, _ => rfl
  | .op operator :: ts, awaiting, h => by
    rw [spaced_op, Bool.and_eq_true] at h
    have ih := mergeSigns_of_spaced ts true h.2
    by_cases hsign : operator.isSign = true
    · rw [mergeSigns, if_pos hsign, ih, consSign_of_signlessHead (signlessHead_of_spaced h.2)]
    · rw [mergeSigns, if_neg hsign, ih]
  | .number _ :: ts, _, h | .squareRoot :: ts, _, h | .opening :: ts, _, h | .closing :: ts, _, h | .answer :: ts, _, h =>
    congrArg _ (mergeSigns_of_spaced ts false h)

theorem supplyZero_cons {t : Token} (ht : t.isOperator = false) (ts : List Token) :
    supplyZero (t :: ts) = .ok (t :: ts) := by
  cases t with
  | op operator => cases ht
  | _ => rfl

theorem attachSigns_of_spaced : ∀ (ts : List Token) (awaiting : Bool), spaced awaiting ts = true →
    attachSigns awaiting ts = ts
  | [], _, _ => by rw [attachSigns]
  | t :: ts, awaiting, h => by
    by_cases ht : t.isOperator = true
    · rw [spaced, if_pos ht, Bool.and_eq_true] at h
      obtain rfl : awaiting = false := by simpa using h.1
      rw [attachSigns_false_cons, ht, attachSigns_of_spaced ts true h.2]
    · rw [Bool.not_eq_true] at ht
      rw [spaced_cons ht] at h
      rw [attachSigns_cons ht, attachSigns_of_spaced ts false h]

/-! ## Canonical forms -/

theorem canonical_of_spaced {ts : List Token} (hspaced : spaced true ts = true) (hroot : .squareRoot ∉ ts) :
    canonical ts = .ok ts := by
  obtain ⟨t, back, rfl, ht, hback⟩ := exists_head_of_spaced hspaced
  have hpassed : supplyZero (mergeSigns (spellRoots (t :: back))) = .ok (t :: back) := by
    rw [spellRoots_eq_self hroot, mergeSigns_of_spaced _ true hspaced, supplyZero_cons ht]
  exact canonical_eq_ok_iff.2 ⟨t, back, hpassed, ht, by rw [attachSigns_of_spaced back false hback], hspaced⟩

theorem squareRoot_not_mem_canonical {ts out : List Token} (h : canonical ts = .ok out) : .squareRoot ∉ out := by
  intro hmem
  rcases mem_canonical h hmem with hfoldable | ⟨-, hne⟩
  · cases hfoldable
  · exact hne rfl

/-- **Which lists are their own canonical form**: operators stand between other tokens, and no root prefix anywhere. -/
theorem canonical_eq_self_iff {ts : List Token} : canonical ts = .ok ts ↔ spaced true ts = true ∧ .squareRoot ∉ ts :=
  ⟨fun h => ⟨canonical_spaced h, squareRoot_not_mem_canonical h⟩, fun h => canonical_of_spaced h.1 h.2⟩

/-- **A canonical form is its own canonical form**, whatever it is the form of. -/
theorem canonical_idempotent {ts out : List Token} (h : canonical ts = .ok out) : canonical out = .ok out :=
  canonical_eq_self_iff.2 ⟨canonical_spaced h, squareRoot_not_mem_canonical h⟩

/-- Values side by side, brackets that do not match, a reference, and a number that is none. -/
theorem canonical_idempotent_mixed :
    let ts : List Token := [.op .subtract, .op .subtract, .closing, .squareRoot, .op .subtract, .number (0 / 0),
      .answer, .opening, .op .multiply, .op .subtract, .number 3]
    let out : List Token := [.number 0, .op .add, .closing, .number 2, .op .root, .number (-(0 / 0)), .answer,
      .opening, .op .multiply, .number (-3)]
    canonical ts = .ok out ∧ canonical out = .ok out := by
  intro ts out
  have h : canonical ts = .ok out := by decide +kernel
  exact ⟨h, canonical_idempotent h⟩

end Flat
end Reckoner

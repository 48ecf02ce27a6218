import Reckoner.Proofs.Flat.Fold
import Reckoner.Proofs.Grammar
import Reckoner.Proofs.Group.Brackets

/-!
# Flat.Acceptance — which bracket-free expressions have a value

No pass towards the canonical form changes what the recognizer says, and in what the last pass keeps numbers and
operators take turns exactly if the recognizer accepts.  So a bracket-free expression has an unchecked value exactly
when it is recognized (`evaluate_judged`).
-/
namespace Reckoner
namespace Flat

open Grammar (recognizes ReadAlike)

/-! ## The passes -/

theorem spellRoots_alike : ∀ ts : List Token, ReadAlike (spellRoots ts) ts
  | [] => ReadAlike.refl []
  | t :: rest => by
    have ih := (spellRoots_alike rest).cons t
    cases t with
    | squareRoot => exact fun depth awaiting => ih depth awaiting
    | _ => exact ih

theorem isSign_signProduct (a b : Operator) : (signProduct a b).isSign = true := by
  unfold signProduct
  split <;> rfl

/-- Where a sign may stand any number of them may. -/
theorem consSign_alike {sign : Operator} (hsign : sign.isSign = true) (ts : List Token) :
    ReadAlike (consSign sign ts) (.op sign :: ts) := by
  unfold consSign
  split
  · split
    · rename_i next rest hnext
      intro depth awaiting
      simp only [recognizes, isSign_signProduct, hsign, hnext, Bool.or_true, Bool.true_and]
    · exact ReadAlike.refl _
  · exact ReadAlike.refl _

theorem mergeSigns_alike (ts : List Token) : ReadAlike (mergeSigns ts) ts := by
  fun_induction mergeSigns ts with
  | case1 => exact ReadAlike.refl []
  | case2 operator rest hsign ih => exact (consSign_alike hsign _).trans (ih.cons _)
  | case3 operator rest hsign ih => exact ih.cons _
  | case4 t rest hne ih => exact ih.cons t

/-- A zero in front of a leading sign is read like the sign alone; any other operator that leads is refused. -/
theorem supplyZero_judged (ts : List Token) (depth : Nat) :
    match supplyZero ts with
    | .ok led => recognizes depth true led = recognizes depth true ts
    | .error _ => recognizes depth true ts = false := by
  cases ts with
  | nil => rfl
  | cons t rest =>
    cases t with
    | op operator =>
      unfold supplyZero
      cases hsign : operator.isSign with
      | true => simp [recognizes, hsign]
      | false => simp [recognizes, hsign]
    | _ => rfl

theorem led_alike (ts : List Token) :
    match supplyZero (mergeSigns (spellRoots ts)) with
    | .ok led => recognizes 0 true led = recognizes 0 true ts
    | .error _ => recognizes 0 true ts = false := by
  rw [← ((mergeSigns_alike _).trans (spellRoots_alike ts)) 0 true]
  exact supplyZero_judged _ 0

/-- **Once signs are attached, numbers and operators take turns exactly where the recognizer accepted.** -/
theorem alternates_attachSigns (awaiting : Bool) (ts : List Token) (h : Foldable ts) :
    alternates awaiting (attachSigns awaiting ts) = recognizes 0 awaiting ts := by
  fun_induction attachSigns awaiting ts with
  | case1 awaiting => cases awaiting <;> rfl
  | case2 rest ih => exact ih (foldable_cons.1 h).2
  | case3 value rest ih => exact ih (foldable_cons.1 (foldable_cons.1 h).2).2
  | case4 rest hne ih => exact ih (foldable_cons.1 h).2
  | case5 awaiting t rest hplus hminus hnumber ih =>
    obtain ⟨ht, hrest⟩ := foldable_cons.1 h
    have ih := ih hrest
    cases t with
    | number value => exact congrArg (awaiting && ·) ih
    | op operator =>
      cases awaiting with
      | false => simpa [alternates, recognizes, Token.isOperator, Token.operator?] using ih
      | true =>
        -- an operator kept where a number is awaited is no sign, and refused on both sides
        have hsign : operator.isSign = false := by
          cases operator with
          | add => exact absurd rfl (hplus rfl)
          | subtract => exact absurd rfl (hnumber rfl)
          | _ => rfl
        simp [alternates, recognizes, hsign]
    | _ => cases ht

theorem alternates_attachSigns_cons {t : Token} {rest : List Token} (ht : t.isOperator = false)
    (h : Foldable (t :: rest)) : alternates true (t :: attachSigns false rest) = recognizes 0 true (t :: rest) := by
  obtain ⟨hfoldable, hrest⟩ := foldable_cons.1 h
  obtain ⟨value, rfl⟩ := exists_number hfoldable ht
  rw [alternates, recognizes, alternates_attachSigns false rest hrest]

/-! ## The canonical form and its value -/

theorem foldable_spellRoots {ts : List Token} (hbrackets : Group.Bracketless ts) (hanswer : .answer ∉ ts) :
    Foldable (spellRoots ts) := by
  intro t ht
  obtain h | ⟨hmem, hroot⟩ := mem_spellRoots ht
  · exact h
  · have hbracket := hbrackets t hmem
    cases t with
    | number value => rfl
    | op operator => rfl
    | squareRoot => exact absurd rfl hroot
    | answer => exact absurd hmem hanswer
    | _ => cases hbracket

theorem Within.foldable {ts out : List Token} (h : Within ts out) (hts : Foldable ts) : Foldable out :=
  fun t ht => (h t ht).elim id (hts t)

/-- What the passes leave to the last one of an expression without brackets and references: numbers and operators, and
they alternate exactly if the expression is recognized. -/
theorem led_judged {ts : List Token} {t : Token} {rest : List Token} (hbrackets : Group.Bracketless ts)
    (hanswer : .answer ∉ ts) (hled : supplyZero (mergeSigns (spellRoots ts)) = .ok (t :: rest))
    (ht : t.isOperator = false) :
    Foldable (t :: attachSigns false rest) ∧
      alternates true (t :: attachSigns false rest) = recognizes 0 true ts := by
  have hfoldable : Foldable (t :: rest) :=
    ((within_mergeSigns _).trans (within_supplyZero hled)).foldable (foldable_spellRoots hbrackets hanswer)
  have halike := led_alike ts
  rw [hled] at halike
  constructor
  · rw [← attachSigns_cons ht]
    exact (within_attachSigns false _).foldable hfoldable
  · rw [alternates_attachSigns_cons ht hfoldable]
    exact halike

/-- **What is recognized has a canonical form.** -/
theorem exists_canonical {ts : List Token} (hbrackets : Group.Bracketless ts) (hanswer : .answer ∉ ts)
    (h : recognizes 0 true ts = true) : ∃ out, canonical ts = .ok out := by
  have halike := led_alike ts
  cases hled : supplyZero (mergeSigns (spellRoots ts)) with
  | error f =>
    rw [hled] at halike
    rw [h] at halike
    cases halike
  | ok led =>
    rw [hled] at halike
    obtain rfl | ⟨t, rest, rfl, ht⟩ := supplyZero_head hled
    · rw [h] at halike
      cases halike
    · have halternates := (led_judged hbrackets hanswer hled ht).2
      rw [h] at halternates
      exact ⟨_, canonical_eq_ok_iff.2 ⟨t, rest, hled, ht, rfl, spaced_of_alternates _ _ halternates⟩⟩

/-- **A bracket-free expression has an unchecked value exactly when it is recognized**, and is a syntax error
otherwise. -/
theorem evaluate_judged {ts : List Token} (hbrackets : Group.Bracketless ts) (hanswer : .answer ∉ ts) :
    Outcome.Judged (recognizes 0 true ts) (evaluate false ts) := by
  unfold evaluate
  cases hcanonical : canonical ts with
  | ok out =>
    obtain ⟨t, rest, hled, ht, rfl, hspaced⟩ := canonical_eq_ok_iff.1 hcanonical
    obtain ⟨hfoldable, halternates⟩ := led_judged hbrackets hanswer hled ht
    rw [← halternates]
    exact value_judged _ hfoldable hspaced
  | error f =>
    refine Outcome.judged_error ?_ (kind_of_canonical hcanonical)
    refine Bool.eq_false_iff.2 fun h => ?_
    obtain ⟨out, hout⟩ := exists_canonical hbrackets hanswer h
    rw [hout] at hcanonical
    cases hcanonical

end Flat
end Reckoner

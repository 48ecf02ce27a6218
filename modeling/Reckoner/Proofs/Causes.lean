import Reckoner.Proofs.Checks

/-!
# Causes — what can be wrong with a line

Some failures only guard evaluation against lists that it never comes to (`Failure.isGap`).  A canonical expression
that is folded on the way to the value of a line is spaced and holds numbers and operators alone (`Folded.foldable`),
so of folding itself only two failures are left: a missing operator (`Flat.eq_missingOperator_of_kind`), and a value
that is not finite.  Evaluation adds brackets that do not match and operators in the wrong place, and no gap is ever
reported (`Calculator.evaluate_causes`).
-/
namespace Reckoner

namespace Failure

/-- A cause that stands for a list which evaluation never comes to. -/
def isGap : Failure → Bool
  | noOperatorAt _ | unboundAnswer | missingOperand _ | notValue _ | outOfRange .. => true
  | _ => false

theorem isGap_of_isMisplaced {f : Failure} (h : f.isMisplaced = true) : f.isGap = false := by
  cases f <;> first | rfl | cases h

theorem isGap_of_isUnreadable {f : Failure} (h : f.isUnreadable = true) : f.isGap = false := by
  cases f <;> first | rfl | cases h

/-! ## Wordings -/

theorem getLast?_append_of_some {s t : String} {c : Char} (h : t.toList.getLast? = some c) :
    (s ++ t).toList.getLast? = some c := by
  rw [String.toList_append, List.getLast?_append, h]
  rfl

theorem exists_getLast?_toString (n : Nat) : ∃ c, (toString n).toList.getLast? = some c ∧ c.isDigit = true := by
  have hdigits : (toString n).toList = Nat.toDigits 10 n := by simp
  rw [hdigits]
  cases hlast : (Nat.toDigits 10 n).getLast? with
  | none => exact absurd (List.getLast?_eq_none_iff.1 hlast) Nat.toDigits_ne_nil
  | some c => exact ⟨c, rfl, Nat.isDigit_of_mem_toDigits (by decide) (by decide) (List.mem_of_getLast? hlast)⟩

/-- The characters that the wording of a cause can end in. -/
def endsIn : Failure → Char → Bool
  | malformedNumber .. | noOperatorAt _ | outOfRange .. => Char.isDigit
  | unboundAnswer | missingOperand _ => (· == 'd')
  | notValue _ => (· == 'e')
  | _ => fun c => !c.isDigit && c != 'd' && c != 'e'

theorem exists_endsIn (f : Failure) : ∃ c, f.detail.toList.getLast? = some c ∧ f.endsIn c = true := by
  cases f with
  | malformedNumber literal position =>
    obtain ⟨c, hc, hdigit⟩ := exists_getLast?_toString position
    exact ⟨c, getLast?_append_of_some hc, hdigit⟩
  | noOperatorAt position =>
    obtain ⟨c, hc, hdigit⟩ := exists_getLast?_toString position
    exact ⟨c, getLast?_append_of_some hc, hdigit⟩
  | outOfRange start stop =>
    obtain ⟨c, hc, hdigit⟩ := exists_getLast?_toString stop
    exact ⟨c, getLast?_append_of_some hc, hdigit⟩
  | noTokens | emptyExpression | unopenedBracket | unclosedBracket | unboundAnswer => exact ⟨_, rfl, rfl⟩
  | _ => exact ⟨_, getLast?_append_of_some rfl, rfl⟩

theorem head?_append_of_some {s t : String} {c : Char} (h : s.toList.head? = some c) :
    (s ++ t).toList.head? = some c := by
  rw [String.toList_append, List.head?_append, h]
  rfl

/-- **A gap is worded like nothing else.** -/
theorem detail_ne_of_isGap {f gap : Failure} (hf : f.isGap = false) (hgap : gap.isGap = true) :
    f.detail ≠ gap.detail := by
  intro h
  obtain ⟨c, hc, hends⟩ := f.exists_endsIn
  obtain ⟨d, hd, hends'⟩ := gap.exists_endsIn
  rw [h, hd] at hc
  cases hc
  cases f with
  | noOperatorAt _ | unboundAnswer | missingOperand _ | notValue _ | outOfRange _ _ => cases hf
  -- of all other causes only a malformed number is worded with a position at the end, and it begins otherwise
  | malformedNumber literal position =>
    have hm : (malformedNumber literal position).detail.toList.head? = some 'm' :=
      head?_append_of_some (head?_append_of_some (head?_append_of_some rfl))
    have hdigit : c.isDigit = true := hends
    rw [h] at hm
    cases gap with
    | noOperatorAt position =>
      have hn : (noOperatorAt position).detail.toList.head? = some 'n' := head?_append_of_some rfl
      cases hn.symm.trans hm
    | outOfRange start stop =>
      have hn : (outOfRange start stop).detail.toList.head? = some 'n' :=
        head?_append_of_some (head?_append_of_some (head?_append_of_some rfl))
      cases hn.symm.trans hm
    | unboundAnswer | missingOperand _ | notValue _ =>
      obtain rfl := beq_iff_eq.1 hends'
      cases hdigit
    | _ => cases hgap
  | _ =>
    have hother : (!c.isDigit && c != 'd' && c != 'e') = true := hends
    cases gap with
    | noOperatorAt _ | outOfRange _ _ =>
      have hdigit : c.isDigit = true := hends'
      simp [hdigit] at hother
    | unboundAnswer | missingOperand _ | notValue _ =>
      obtain rfl := beq_iff_eq.1 hends'
      cases hother
    | _ => cases hgap

end Failure

/-! ## Parts of a line -/

theorem Event.isGap_of_refusal {e : Event} {f : Failure} (h : e.refusal? = some f) : f.isGap = false := by
  cases e with
  | step s =>
    replace h : s.refusal? = some f := h
    unfold Flat.Step.refusal? at h
    split at h
    · cases h
    · split at h
      · cases h
        rfl
      · split at h <;> cases h <;> rfl
  | value v =>
    replace h : (if v.isFinite then none else some (Failure.valueNotFinite v)) = some f := h
    split at h <;> cases h
    rfl

namespace Flat

/-- **A canonical expression without references is spaced and made of numbers and operators.** -/
theorem foldable_of_canonical {ts out : List Token} (hbrackets : Group.Bracketless ts) (hanswer : .answer ∉ ts)
    (h : canonical ts = .ok out) : Foldable out ∧ spaced true out = true := by
  obtain ⟨t, rest, hled, ht, rfl, hspaced⟩ := canonical_eq_ok_iff.1 h
  exact ⟨(led_judged hbrackets hanswer hled ht).1, hspaced⟩

theorem isGap_of_evaluate {ts : List Token} {f : Failure} (hbrackets : Group.Bracketless ts) (hanswer : .answer ∉ ts)
    (h : evaluate false ts = .error f) : f.isGap = false := by
  unfold evaluate at h
  split at h
  · rename_i g hcanonical
    cases h
    exact Failure.isGap_of_isMisplaced (isMisplaced_of_canonical hcanonical)
  · rename_i out hcanonical
    obtain ⟨hfoldable, hspaced⟩ := foldable_of_canonical hbrackets hanswer hcanonical
    obtain ⟨us, rfl⟩ := eq_missingOperator_of_value hfoldable hspaced h
    rfl

end Flat

namespace Group

theorem isGap_of_resolve {f : Failure} (ts : List Token) :
    .answer ∉ ts → resolve false ts = .error f → f.isGap = false := by
  induction ts using resolve_induction with
  | none ts hts =>
    intro hanswer h
    rw [resolve_bracketless false hts] at h
    exact Flat.isGap_of_evaluate hts hanswer h
  | group pre inside post hpre hinside ih =>
    intro hanswer h
    obtain ⟨hanswerInside, hanswerAround⟩ := answer_not_mem_group hanswer
    rw [resolve_group false post hpre hinside] at h
    cases hvalue : Flat.evaluate false inside with
    | error g =>
      rw [hvalue] at h
      cases h
      exact Flat.isGap_of_evaluate hinside hanswerInside hvalue
    | ok value =>
      rw [hvalue] at h
      exact ih value (hanswerAround value) h
  | unopened pre post hpre =>
    intro _ h
    rw [resolve_unopened false post hpre] at h
    cases h
    rfl
  | unclosed pre post hpre hpost =>
    intro _ h
    rw [resolve_unclosed false hpre hpost] at h
    cases h
    rfl

/-- **The canonical expressions that are folded** while a list is resolved: that of the group that closes first, those
of the list it leaves behind, and in the end that of the list without brackets. -/
inductive Folded (checks : Bool) : List Token → List Token → Prop where
  | whole {ts out : List Token} (hnone : innermost ts = .ok none) (hout : Flat.canonical ts = .ok out) :
    Folded checks ts out
  | group {ts inside out : List Token} {start stop : Nat} (hgroup : innermost ts = .ok (some (start, stop)))
    (hinside : Token.between? ts start stop = some inside) (hout : Flat.canonical inside = .ok out) :
    Folded checks ts out
  | later {ts shorter out : List Token} {start stop : Nat} (hgroup : innermost ts = .ok (some (start, stop)))
    (hshorter : collapse checks ts start stop = .ok shorter) (hout : Folded checks shorter out) : Folded checks ts out

variable {checks : Bool} {ts : List Token}

/-- **Only spaced lists of numbers and operators are ever folded.** -/
theorem Folded.foldable {out : List Token} (h : Folded checks ts out) (hanswer : .answer ∉ ts) :
    Flat.Foldable out ∧ Flat.spaced true out = true := by
  induction h with
  | whole hnone hout => exact Flat.foldable_of_canonical (bracketless_of_innermost hnone) hanswer hout
  | group hgroup hinside hout =>
    obtain ⟨pre, inside, post, rfl, hbracketless, rfl, rfl⟩ := exists_group_of_innermost hgroup
    rw [between?_group] at hinside
    cases hinside
    exact Flat.foldable_of_canonical hbracketless (answer_not_mem_group hanswer).1 hout
  | later hgroup hshorter _ ih =>
    obtain ⟨pre, inside, post, rfl, hbracketless, rfl, rfl⟩ := exists_group_of_innermost hgroup
    rw [collapse_group] at hshorter
    cases hvalue : Flat.evaluate checks inside with
    | error f =>
      rw [hvalue] at hshorter
      cases hshorter
    | ok value =>
      rw [hvalue] at hshorter
      cases hshorter
      exact ih ((answer_not_mem_group hanswer).2 value)

end Group

namespace Flat

/-- **A syntax error of folding is a missing operator**, with checks or without. -/
theorem eq_missingOperator_of_kind {checks : Bool} {ts : List Token} {f : Failure} (hfoldable : Foldable ts)
    (hspaced : spaced true ts = true) (h : value checks ts = .error f) (hkind : f.kind = .syntaxError) :
    ∃ us, f = .missingOperator us := by
  have hunchecked : value false ts = (tracedValue ts).outcome := value_eq_under false ts
  cases checks with
  | false => exact eq_missingOperator_of_value hfoldable hspaced h
  | true =>
    rw [value_eq_under true] at h
    obtain houtcome | ⟨e, _, hrefusal⟩ := Traced.outcome_or_refusal_of_under_true h
    · exact eq_missingOperator_of_value hfoldable hspaced (hunchecked.trans houtcome)
    · rw [Event.kind_of_refusal hrefusal] at hkind
      split at hkind <;> cases hkind

end Flat

/-! ## Lines -/

namespace Calculator

/-- The evaluation of a line, traced: it goes on whatever values come up. -/
def traced (c : Calculator) (line : String) : Traced Float :=
  match Line.tokens c.settings.rootSymbol line with
  | .error f => .lift (.error f)
  | .ok ts => Group.traced (Token.bindAnswer c.lastAnswer ts)

theorem outcome_eq_under (c : Calculator) (line : String) :
    c.outcome line = (c.traced line).under c.settings.domainChecks := by
  unfold outcome traced
  cases Line.tokens c.settings.rootSymbol line with
  | error f => exact (Traced.under_lift _ _).symm
  | ok ts => exact Group.resolve_eq_under _ _

/-- **A failure of a line** is found without checks, then it is a syntax error and no gap; or it refuses the first value
passed that is not finite. -/
theorem outcome_error_cases {c : Calculator} {line : String} {f : Failure} (h : c.outcome line = .error f) :
    ((c.traced line).outcome = .error f ∧ f.kind = .syntaxError ∧ f.isGap = false) ∨
      ∃ e, (c.traced line).firstNonFinite? = some e ∧ e.refusal? = some f := by
  have hunchecked : (c.traced line).outcome = .error f → f.kind = .syntaxError ∧ f.isGap = false := by
    unfold traced
    cases htokens : Line.tokens c.settings.rootSymbol line with
    | error g =>
      intro hg
      cases hg
      have hunreadable := Line.isUnreadable_of_tokens htokens
      exact ⟨Failure.kind_of_isUnreadable hunreadable, Failure.isGap_of_isUnreadable hunreadable⟩
    | ok ts =>
      intro hf
      have hresolve : Group.resolve false (Token.bindAnswer c.lastAnswer ts) = .error f :=
        (Group.resolve_eq_under false _).trans hf
      have hanswer := Token.answer_not_mem_bindAnswer c.lastAnswer ts
      have hjudged := Group.resolve_judged _ hanswer
      rw [hresolve] at hjudged
      exact ⟨hjudged.2, Group.isGap_of_resolve _ hanswer hresolve⟩
  rw [outcome_eq_under] at h
  cases hchecks : c.settings.domainChecks with
  | false =>
    rw [hchecks] at h
    exact .inl ⟨h, hunchecked h⟩
  | true =>
    rw [hchecks] at h
    exact (Traced.outcome_or_refusal_of_under_true h).imp_left fun houtcome => ⟨houtcome, hunchecked houtcome⟩

/-- **What can be wrong with a line**, whatever the settings and the last answer.  No failure of a line has the wording
of a gap.  If a canonical expression that is folded on the way to the value ends in a syntax error, an operator was
missing.  And where the failure is of unknown kind, it names the first value on the way that is not finite. -/
theorem evaluate_causes (c : Calculator) (line : String) :
    (∀ f gap : Failure, (c.evaluate line).1 = .error f → gap.isGap = true → f.detail ≠ gap.detail) ∧
      (∀ ts out f, Line.tokens c.settings.rootSymbol line = .ok ts →
        Group.Folded c.settings.domainChecks (Token.bindAnswer c.lastAnswer ts) out →
        Flat.value c.settings.domainChecks out = .error f → f.kind = .syntaxError → ∃ us, f = .missingOperator us) ∧
      ∀ f, (c.evaluate line).1 = .error f → f.kind = .unknown →
        ∃ e, (c.traced line).firstNonFinite? = some e ∧ e.isFinite = false ∧ e.refusal? = some f := by
  refine ⟨fun f gap hf hgap => ?_, fun ts out f _ hfolded hf hkind => ?_, fun f hf hkind => ?_⟩
  · obtain ⟨_, _, hisGap⟩ | ⟨e, _, hrefusal⟩ := outcome_error_cases hf
    · exact Failure.detail_ne_of_isGap hisGap hgap
    · exact Failure.detail_ne_of_isGap (Event.isGap_of_refusal hrefusal) hgap
  · have hanswer := Token.answer_not_mem_bindAnswer c.lastAnswer ts
    obtain ⟨hfoldable, hspaced⟩ := hfolded.foldable hanswer
    exact Flat.eq_missingOperator_of_kind hfoldable hspaced hf hkind
  · obtain ⟨_, hsyntax, _⟩ | ⟨e, hfirst, hrefusal⟩ := outcome_error_cases hf
    · rw [hkind] at hsyntax
      cases hsyntax
    · exact ⟨e, hfirst, by simpa using List.find?_some hfirst, hrefusal⟩

/-- Two numbers with nothing between them behind a group, and a quotient by zero. -/
theorem evaluate_causes_missing_zero :
    let c : Calculator := new {}
    (c.evaluate "(1+2)3").1 = .error (.missingOperator [.number 3, .number 3]) ∧
      (∀ gap : Failure, gap.isGap = true → (Failure.missingOperator [.number 3, .number 3]).detail ≠ gap.detail) ∧
      (∃ us, Failure.missingOperator [.number 3, .number 3] = .missingOperator us) ∧
      (c.evaluate "6/(2-2)").1 = .error (.divisionByZero 6) ∧
      ∃ e, (c.traced "6/(2-2)").firstNonFinite? = some e ∧ e.isFinite = false ∧
        e.refusal? = some (.divisionByZero 6) := by
  intro c
  have hmissing : (c.evaluate "(1+2)3").1 = .error (.missingOperator [.number 3, .number 3]) := by decide +kernel
  have hzero : (c.evaluate "6/(2-2)").1 = .error (.divisionByZero 6) := by decide +kernel
  have htokens : Line.tokens '√' "(1+2)3" =
      .ok [.opening, .number 1, .op .add, .number 2, .closing, .number 3] := by decide +kernel
  have hfolded : Group.Folded true [.opening, .number 1, .op .add, .number 2, .closing, .number 3]
      [.number 3, .number 3] := by
    have hshorter : Group.collapse true [.opening, .number 1, .op .add, .number 2, .closing, .number 3] 0 4 =
        .ok [.number 3, .number 3] := by decide +kernel
    exact .later rfl hshorter (.whole rfl rfl)
  have hvalue : Flat.value true [.number 3, .number 3] = .error (.missingOperator [.number 3, .number 3]) := by
    decide +kernel
  obtain ⟨hwording, hsyntax, _⟩ := evaluate_causes c "(1+2)3"
  obtain ⟨_, _, hunknown⟩ := evaluate_causes c "6/(2-2)"
  exact ⟨hmissing, fun gap => hwording _ gap hmissing, hsyntax _ _ _ htokens hfolded hvalue rfl, hzero,
    hunknown _ hzero rfl⟩

end Calculator
end Reckoner

import Reckoner.Proofs.Acceptance
import Reckoner.Proofs.Trace

/-!
# Checks — what domain checks do to an evaluation

They only filter.  Checked and unchecked evaluation pass the same values up to the first one that is no finite number;
there the checked one fails, and its failure tells what kind of value it was (`kind_of_refusal`).  If all values are
finite, the two come to the same outcome.
-/
namespace Reckoner

namespace Event

def isFinite (e : Event) : Bool := e.result.isFinite

/-- **No real number**: the NaN that a power or root of two finite numbers gives. -/
def hasNoRealResult : Event → Bool
  | step s => s.result.isNaN && s.operator.isExponential && s.x.isFinite && s.y.isFinite
  | value _ => false

theorem refusal?_eq_none_iff (e : Event) : e.refusal? = none ↔ e.isFinite = true := by
  cases e with
  | step s =>
    show s.refusal? = none ↔ s.result.isFinite = true
    unfold Flat.Step.refusal?
    cases s.result.isFinite with
    | true => simp
    | false =>
      simp only [Bool.false_eq_true, if_false, iff_false]
      split
      · exact nofun
      · split <;> exact nofun
  | value v =>
    show (if v.isFinite then none else some (Failure.valueNotFinite v)) = none ↔ v.isFinite = true
    cases v.isFinite <;> simp

theorem exists_refusal? {e : Event} (h : e.isFinite = false) : ∃ f, e.refusal? = some f := by
  refine Option.ne_none_iff_exists'.1 fun hnone => ?_
  rw [(refusal?_eq_none_iff e).1 hnone] at h
  cases h

/-- **A refusal tells what was refused.** -/
theorem kind_of_refusal {e : Event} {f : Failure} (h : e.refusal? = some f) :
    f.kind = if e.hasNoRealResult then .rootOfNegative else .unknown := by
  cases e with
  | step s =>
    replace h : s.refusal? = some f := h
    unfold Flat.Step.refusal? at h
    unfold hasNoRealResult
    split at h
    · cases h
    · split at h
      · rename_i hcomplex
        cases h
        rw [if_pos hcomplex]
        rfl
      · rename_i hcomplex
        rw [if_neg hcomplex]
        split at h <;> cases h <;> rfl
  | value v =>
    replace h : (if v.isFinite then none else some (Failure.valueNotFinite v)) = some f := h
    split at h <;> cases h
    rfl

end Event

namespace Traced

/-- The first value passed that is no finite number. -/
def firstNonFinite? {α : Type} (x : Traced α) : Option Event := x.events.find? fun e => !e.isFinite

theorem findSome?_refusal (events : List Event) :
    events.findSome? Event.refusal? = (events.find? fun e => !e.isFinite).bind Event.refusal? := by
  induction events with
  | nil => rfl
  | cons e events ih =>
    rw [List.findSome?_cons, List.find?_cons]
    cases hfinite : e.isFinite with
    | true => rw [(Event.refusal?_eq_none_iff e).2 hfinite]; exact ih
    | false =>
      obtain ⟨f, hrefusal⟩ := Event.exists_refusal? hfinite
      rw [hrefusal]
      exact hrefusal.symm

variable {α : Type} {x : Traced α}

/-- **Checks let a value through exactly if every value passed is finite.** -/
theorem under_true_eq_ok_iff {a : α} :
    x.under true = .ok a ↔ x.outcome = .ok a ∧ ∀ e ∈ x.events, e.isFinite = true := by
  rw [under_true]
  cases hrefused : x.events.findSome? Event.refusal? with
  | none =>
    have hfinite : ∀ e ∈ x.events, e.isFinite = true := fun e he =>
      (Event.refusal?_eq_none_iff e).1 (List.findSome?_eq_none_iff.1 hrefused e he)
    exact ⟨fun h => ⟨h, hfinite⟩, fun h => h.1⟩
  | some f =>
    refine ⟨fun h => (by cases h), fun h => ?_⟩
    have hnone : x.events.findSome? Event.refusal? = none :=
      List.findSome?_eq_none_iff.2 fun e he => (Event.refusal?_eq_none_iff e).2 (h.2 e he)
    rw [hnone] at hrefused
    cases hrefused

/-- **A failure under checks** was one without, or refuses the first value that is not finite. -/
theorem outcome_or_refusal_of_under_true {f : Failure} (h : x.under true = .error f) :
    x.outcome = .error f ∨ ∃ e, x.firstNonFinite? = some e ∧ e.refusal? = some f := by
  rw [under_true, findSome?_refusal] at h
  cases hfirst : x.firstNonFinite? with
  | none =>
    unfold firstNonFinite? at hfirst
    rw [hfirst] at h
    exact .inl h
  | some e =>
    unfold firstNonFinite? at hfirst
    obtain ⟨g, hrefusal⟩ := Event.exists_refusal? (by simpa using List.find?_some hfirst)
    rw [hfirst, Option.bind_some, hrefusal] at h
    cases h
    exact .inr ⟨e, rfl, hrefusal⟩

end Traced

namespace Group

/-- **Checks only filter.**  The traced evaluation is the unchecked one, and the value it comes to was passed last.
Checked evaluation has the same value if everything passed is finite, and none otherwise.  Its syntax errors are those
of the unchecked one; any other failure it has is about the first value passed that is not finite, which is a NaN from
a power or root of finite numbers or not, as the kind of the failure says. -/
theorem resolve_checks_filter (ts : List Token) (hanswer : .answer ∉ ts) :
    let run := traced ts
    (run.outcome = resolve false ts ∧ ∀ v, run.outcome = .ok v → run.events.getLast? = some (.value v)) ∧
      (∀ v, resolve true ts = .ok v ↔ resolve false ts = .ok v ∧ ∀ e ∈ run.events, e.isFinite = true) ∧
      ∀ f, resolve true ts = .error f →
        match f.kind with
        | .syntaxError => resolve false ts = .error f
        | .rootOfNegative => ∃ e, run.firstNonFinite? = some e ∧ e.hasNoRealResult = true
        | .unknown => ∃ e, run.firstNonFinite? = some e ∧ e.hasNoRealResult = false := by
  have hunchecked : resolve false ts = (traced ts).outcome := resolve_eq_under false ts
  refine ⟨⟨hunchecked.symm, traced_lands ts⟩, fun v => ?_, fun f hf => ?_⟩
  · rw [resolve_eq_under true, hunchecked]
    exact Traced.under_true_eq_ok_iff
  · rw [resolve_eq_under true] at hf
    obtain houtcome | ⟨e, hfirst, hrefusal⟩ := Traced.outcome_or_refusal_of_under_true hf
    · -- without checks only syntax errors are left
      have hjudged := resolve_judged ts hanswer
      rw [hunchecked, houtcome] at hjudged
      rw [hjudged.2]
      exact hunchecked.trans houtcome
    · rw [Event.kind_of_refusal hrefusal]
      cases hcomplex : e.hasNoRealResult with
      | true => exact ⟨e, hfirst, hcomplex⟩
      | false => exact ⟨e, hfirst, hcomplex⟩

/-- One divided by the quotient of one by zero is zero, but not under checks. -/
theorem resolve_checks_filter_quotient :
    let ts : List Token := [.number 1, .op .divide, .opening, .number 1, .op .divide, .number 0, .closing]
    .answer ∉ ts ∧ resolve false ts = .ok 0 ∧ resolve true ts = .error (.divisionByZero 1) ∧
      ∃ e, (traced ts).firstNonFinite? = some e ∧ e.hasNoRealResult = false := by
  intro ts
  have hanswer : Token.answer ∉ ts := by simp [ts]
  have hchecked : resolve true ts = .error (.divisionByZero 1) := by decide +kernel
  have hunchecked : resolve false ts = .ok 0 := by decide +kernel
  exact ⟨hanswer, hunchecked, hchecked, (resolve_checks_filter ts hanswer).2.2 _ hchecked⟩

end Group
end Reckoner

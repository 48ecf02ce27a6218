import Reckoner.Proofs.Causes

/-!
# Precedence — which of several faults is reported

Evaluation stops at the first fault it comes to, so a line that is no expression may be refused for a value before
evaluation comes to the place where the line is wrong.  Checks leave a failure as it is exactly as long as the values
before it are finite (`Traced.under_true_eq_outcome_iff`), and there are none before it exactly if the part of the line
that is evaluated first is no expression (`Group.Flawed`, `Calculator.events_eq_nil_iff`).
-/
namespace Reckoner

namespace Traced

variable {α β : Type}

theorem bind_lift_error (f : Failure) (k : α → Traced β) : (lift (.error f)).bind k = lift (.error f) := rfl

theorem bind_lift_ok (a : α) (k : α → Traced β) : (lift (.ok a)).bind k = k a := rfl

theorem bind_assoc {γ : Type} (x : Traced α) (k : α → Traced β) (l : β → Traced γ) :
    (x.bind k).bind l = x.bind fun a => (k a).bind l := by
  rcases x with ⟨events, f | a⟩
  · rfl
  · simp only [bind]
    cases (k a).outcome <;> simp

theorem events_eq_nil_of_bind {x : Traced α} {k : α → Traced β} (h : (x.bind k).events = []) : x.events = [] := by
  unfold bind at h
  split at h
  · exact h
  · exact (List.append_eq_nil_iff.1 h).1

theorem firstNonFinite?_eq_none_iff {x : Traced α} : x.firstNonFinite? = none ↔ ∀ e ∈ x.events, e.isFinite = true := by
  simp [firstNonFinite?]

/-- **The first value that is not finite is the failure.** -/
theorem under_true_of_firstNonFinite {x : Traced α} {e : Event} (h : x.firstNonFinite? = some e) :
    ∃ g, x.under true = .error g ∧ e.refusal? = some g := by
  have hnot : e.isFinite = false := by simpa using List.find?_some h
  unfold firstNonFinite? at h
  rw [under_true, findSome?_refusal, h, Option.bind_some]
  cases hrefusal : e.refusal? with
  | none =>
    rw [Event.refusal?_eq_none_iff, hnot] at hrefusal
    cases hrefusal
  | some g => exact ⟨g, rfl, rfl⟩

/-- **Checks leave a syntax error as it is exactly as long as the values before it are finite.** -/
theorem under_true_eq_outcome_iff {x : Traced α} {f : Failure} (h : x.outcome = .error f)
    (hkind : f.kind = .syntaxError) : x.under true = .error f ↔ ∀ e ∈ x.events, e.isFinite = true := by
  rw [← firstNonFinite?_eq_none_iff]
  cases hfirst : x.firstNonFinite? with
  | none =>
    unfold firstNonFinite? at hfirst
    rw [under_true, findSome?_refusal, hfirst, h]
    simp
  | some e =>
    obtain ⟨g, hg, hrefusal⟩ := under_true_of_firstNonFinite hfirst
    have hdomain := Event.kind_of_refusal hrefusal
    -- whatever a value is refused with, it is no syntax error
    simp only [reduceCtorEq, iff_false]
    intro hf
    rw [hg] at hf
    cases hf
    rw [hkind] at hdomain
    split at hdomain <;> cases hdomain

end Traced

/-! ## Expressions that are wrong from the start -/

namespace Flat

/-- A bracket-free expression of which nothing can be computed. -/
inductive Flawed (ts : List Token) : Prop where
  /-- An operator in the wrong place, or nothing at all. -/
  | misplaced {f : Failure} (h : canonical ts = .error f)
  /-- Values side by side and no operator among them. -/
  | apart {out : List Token} (h : canonical ts = .ok out) (hlength : 1 < out.length)
    (hnone : ∀ t ∈ out, t.isOperator = false)

theorem Flawed.tracedEvaluate {ts : List Token} : Flawed ts → ∃ f, tracedEvaluate ts = .lift (.error f)
  | @Flawed.misplaced _ f h => ⟨f, by rw [Flat.tracedEvaluate, h]; rfl⟩
  | @Flawed.apart _ out h hlength hnone => by
    have hstep : nextStep out = .error (.missingOperator out) := by
      unfold nextStep
      rw [nextPosition?_eq_none_iff.2 hnone]
    refine ⟨.missingOperator out, ?_⟩
    rw [Flat.tracedEvaluate, h]
    show Traced.bind ⟨[], .ok out⟩ tracedValue = _
    rw [Traced.bind]
    simp only [tracedValue_of_one_lt_length hlength, tracedAdvance, hstep, Traced.bind_lift_error]
    rfl

theorem flawed_of_events {ts : List Token} (hbrackets : Group.Bracketless ts) (hanswer : .answer ∉ ts)
    (h : (tracedEvaluate ts).events = []) : Flawed ts := by
  cases hcanonical : canonical ts with
  | error f => exact .misplaced hcanonical
  | ok out =>
    obtain ⟨hfoldable, hspaced⟩ := foldable_of_canonical hbrackets hanswer hcanonical
    replace h : (tracedValue out).events = [] := by
      rw [tracedEvaluate, hcanonical] at h
      exact (List.append_eq_nil_iff.1 h).2
    by_cases hlength : 1 < out.length
    · rw [tracedValue_of_one_lt_length hlength] at h
      have hadvance := Traced.events_eq_nil_of_bind h
      refine .apart hcanonical hlength ?_
      obtain ⟨hnone, _⟩ | ⟨_, _, _, _, _, _, hstep⟩ := nextStep_of_spaced hfoldable hspaced
      · exact hnone
      · simp [tracedAdvance, hstep] at hadvance
    · obtain ⟨t, back, rfl, hop, _⟩ := exists_head_of_spaced hspaced
      obtain ⟨x, rfl⟩ := exists_number (hfoldable t List.mem_cons_self) hop
      rw [tracedValue_of_length_le_one (by omega)] at h
      cases h

end Flat

namespace Group

/-- **An expression that is wrong where evaluation begins**: at the group that closes first, at the brackets if no group
closes, or in the whole if there is no bracket. -/
inductive Flawed : List Token → Prop where
  | whole (ts : List Token) (hts : Bracketless ts) (h : Flat.Flawed ts) : Flawed ts
  | group (pre inside post : List Token) (hpre : .closing ∉ pre) (hinside : Bracketless inside)
    (h : Flat.Flawed inside) : Flawed (pre ++ .opening :: (inside ++ .closing :: post))
  | unopened (pre post : List Token) (hpre : Bracketless pre) : Flawed (pre ++ .closing :: post)
  | unclosed (pre post : List Token) (hpre : .closing ∉ pre) (hpost : .closing ∉ post) :
    Flawed (pre ++ .opening :: post)

/-- **A group that closes first is evaluated by itself, and evaluation goes on with its value.** -/
theorem traced_group {pre inside : List Token} (post : List Token) (hpre : .closing ∉ pre)
    (hinside : Bracketless inside) : traced (pre ++ .opening :: (inside ++ .closing :: post)) =
      (Flat.tracedEvaluate inside).bind fun value => traced (pre ++ .number value :: post) := by
  rw [traced_of_some (innermost_group hpre hinside), tracedCollapse, between?_group]
  simp only [splice?_group, Traced.bind_assoc, Traced.bind_lift_ok]

theorem Flawed.traced {ts : List Token} : Flawed ts → ∃ f, traced ts = .lift (.error f)
  | .whole ts hts h => by
    rw [traced_of_none (innermost_none hts)]
    exact h.tracedEvaluate
  | .group pre inside post hpre hinside h => by
    obtain ⟨f, hf⟩ := h.tracedEvaluate
    exact ⟨f, by rw [traced_group post hpre hinside, hf, Traced.bind_lift_error]⟩
  | .unopened pre post hpre => ⟨_, traced_of_error (innermost_unopened hpre)⟩
  | .unclosed pre post hpre hpost => ⟨_, traced_of_error (innermost_unclosed hpre hpost)⟩

/-- **Nothing is computed of an expression exactly if it is wrong where evaluation begins.** -/
theorem events_eq_nil_iff {ts : List Token} (hanswer : .answer ∉ ts) : (traced ts).events = [] ↔ Flawed ts := by
  constructor
  · intro h
    cases brackets ts with
    | none _ hts =>
      rw [traced_of_none (innermost_none hts)] at h
      exact .whole ts hts (Flat.flawed_of_events hts hanswer h)
    | group pre inside post hpre hinside =>
      rw [traced_group post hpre hinside] at h
      have hevents := Traced.events_eq_nil_of_bind h
      exact .group pre inside post hpre hinside
        (Flat.flawed_of_events hinside (answer_not_mem_group hanswer).1 hevents)
    | unopened pre post hpre => exact .unopened pre post hpre
    | unclosed pre post hpre hpost => exact .unclosed pre post hpre hpost
  · intro h
    obtain ⟨f, hf⟩ := h.traced
    rw [hf]
    rfl

end Group

/-! ## Lines -/

namespace Calculator

/-- **Nothing is computed of a line exactly if it cannot be read or is wrong where evaluation begins.** -/
theorem events_eq_nil_iff (c : Calculator) (line : String) : (c.traced line).events = [] ↔
    ∀ ts, Line.tokens c.settings.rootSymbol line = .ok ts → Group.Flawed (Token.bindAnswer c.lastAnswer ts) := by
  unfold traced
  cases Line.tokens c.settings.rootSymbol line with
  | error f => simp [Traced.lift]
  | ok ts => simp [Group.events_eq_nil_iff (Token.answer_not_mem_bindAnswer c.lastAnswer ts)]

/-- **What checks make of a syntax error.**  It stays as it is exactly if every value that is computed before it is
found is finite; otherwise the first one that is not is reported instead, as what it is.  So it stays where nothing is
computed before: in a line that cannot be read, or that is wrong where evaluation begins. -/
theorem evaluate_syntax_checked (settings : Settings) (answer : Float) (line : String) (f : Failure)
    (h : (evaluate ⟨{ settings with domainChecks := false }, answer⟩ line).1 = .error f)
    (hkind : f.kind = .syntaxError) :
    let c : Calculator := ⟨{ settings with domainChecks := true }, answer⟩
    ((c.evaluate line).1 = .error f ↔ ∀ e ∈ (c.traced line).events, e.isFinite = true) ∧
      (∀ e, (c.traced line).firstNonFinite? = some e → ∃ g, (c.evaluate line).1 = .error g ∧ e.refusal? = some g ∧
        g.kind = if e.hasNoRealResult then .rootOfNegative else .unknown) ∧
      ((∀ ts, Line.tokens settings.rootSymbol line = .ok ts → Group.Flawed (Token.bindAnswer answer ts)) →
        (c.evaluate line).1 = .error f) := by
  intro c
  have houtcome : (c.traced line).outcome = .error f := by
    rw [← h]
    exact (outcome_eq_under ⟨{ settings with domainChecks := false }, answer⟩ line).symm
  have hchecked : (c.evaluate line).1 = (c.traced line).under true := outcome_eq_under c line
  rw [hchecked]
  refine ⟨Traced.under_true_eq_outcome_iff houtcome hkind, fun e hfirst => ?_, fun hflawed => ?_⟩
  · obtain ⟨g, hg, hrefusal⟩ := Traced.under_true_of_firstNonFinite hfirst
    exact ⟨g, hg, hrefusal, Event.kind_of_refusal hrefusal⟩
  · rw [Traced.under_true_eq_outcome_iff houtcome hkind, (events_eq_nil_iff c line).2 hflawed]
    exact fun e he => by cases he

/-- A missing operator behind a half, one behind a quotient by zero, and a bracket that is found before either. -/
theorem evaluate_syntax_checked_quotient :
    let unchecked : Calculator := ⟨{ domainChecks := false }, 0⟩
    let checked : Calculator := ⟨{ domainChecks := true }, 0⟩
    (unchecked.evaluate "1/2 3").1 = .error (.missingOperator [.number 0.5, .number 3]) ∧
      (checked.evaluate "1/2 3").1 = .error (.missingOperator [.number 0.5, .number 3]) ∧
      (unchecked.evaluate "0/0 2").1 = .error (.missingOperator [.number (0 / 0), .number 2]) ∧
      (∃ e g, (checked.traced "0/0 2").firstNonFinite? = some e ∧ (checked.evaluate "0/0 2").1 = .error g ∧
        e.refusal? = some g ∧ g.kind = .unknown) ∧
      (unchecked.evaluate "1/0)").1 = .error .unopenedBracket ∧
      (checked.evaluate "1/0)").1 = .error .unopenedBracket := by
  intro unchecked checked
  have hhalf : (unchecked.evaluate "1/2 3").1 = .error (.missingOperator [.number 0.5, .number 3]) := by
    decide +kernel
  have hfinite : ∀ e ∈ (checked.traced "1/2 3").events, e.isFinite = true := by decide +kernel
  have hquotient : (unchecked.evaluate "0/0 2").1 = .error (.missingOperator [.number (0 / 0), .number 2]) := by
    decide +kernel
  have hrefused : (checked.traced "0/0 2").firstNonFinite?.map Event.hasNoRealResult = some false := by decide +kernel
  have hbracket : (unchecked.evaluate "1/0)").1 = .error .unopenedBracket := by decide +kernel
  have htokens : Line.tokens '√' "1/0)" = .ok [.number 1, .op .divide, .number 0, .closing] := by decide +kernel
  have hflawed : Group.Flawed ([.number 1, .op .divide, .number 0] ++ [.closing]) :=
    .unopened [.number 1, .op .divide, .number 0] [] (by simp [Group.Bracketless, Token.isBracket])
  obtain ⟨e, hfirst, hreal⟩ := Option.map_eq_some_iff.1 hrefused
  obtain ⟨g, hg, hrefusal, hkind⟩ := (evaluate_syntax_checked {} 0 "0/0 2" _ hquotient rfl).2.1 e hfirst
  rw [hreal] at hkind
  refine ⟨hhalf, (evaluate_syntax_checked {} 0 "1/2 3" _ hhalf rfl).1.2 hfinite, hquotient,
    ⟨e, g, hfirst, hg, hrefusal, hkind⟩, hbracket, (evaluate_syntax_checked {} 0 "1/0)" _ hbracket rfl).2.2 ?_⟩
  intro ts hts
  cases htokens.symm.trans hts
  exact hflawed

/-- **A line that is no expression may be refused for a value**: of a quotient by zero with a number next to it the
quotient is reported. -/
theorem evaluate_quotient_before_syntax :
    ¬ ∀ (settings : Settings) (answer : Float) (line : String) (f : Failure),
      (evaluate ⟨{ settings with domainChecks := false }, answer⟩ line).1 = .error f → f.kind = .syntaxError →
      ∃ g, (evaluate ⟨{ settings with domainChecks := true }, answer⟩ line).1 = .error g ∧ g.kind = .syntaxError := by
  intro h
  have hunchecked : (evaluate ⟨{ domainChecks := false }, 0⟩ "1/0 2").1 =
      .error (.missingOperator [.number (1 / 0), .number 2]) := by decide +kernel
  have hchecked : (evaluate ⟨{ domainChecks := true }, 0⟩ "1/0 2").1 = .error (.divisionByZero 1) := by decide +kernel
  obtain ⟨g, hg, hkind⟩ := h {} 0 "1/0 2" _ hunchecked rfl
  rw [hchecked] at hg
  cases hg
  cases hkind

end Calculator
end Reckoner

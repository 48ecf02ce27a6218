import Reckoner.Proofs.Answer
import Reckoner.Proofs.Binary64.Infinity
import Reckoner.Proofs.Conserved

/-!
# Overflow — numbers on a line that are too large for a double

Such a number is infinite, and checks look at results and never at operands, so it is found out only if a step passes
the infinity on.  Sums, differences and products always do, so a line without any other operator has no value; a
quotient, a power or a root may be finite with an infinite operand (`Flat.Step.Settles`), and a line has a value only if
every infinity on it is taken up by such a step (`Calculator.evaluate_overflow`).
-/
namespace Reckoner

open Binary64 (isFinite_of_isInf isInf_neg isFinite_add isFinite_sub isFinite_mul isFinite_div_iff isFinite_power_iff
  isFinite_root_iff)

namespace Token

def isInfinite : Token → Bool
  | number x => x.isInf
  | _ => false

/-- What can make an infinity finite: a quotient, a power or a root. -/
def canSettle : Token → Bool
  | op operator => operator == .divide || operator.isExponential
  | squareRoot => true
  | _ => false

theorem conserved_isInfinite : Conserved isInfinite where
  sign _ _ := rfl
  finite x hx := by
    refine Bool.eq_false_iff.2 fun hinf => ?_
    rw [isFinite_of_isInf hinf] at hx
    cases hx
  neg x := isInf_neg x
  root := rfl
  opening := rfl
  closing := rfl

theorem conserved_canSettle : Conserved canSettle where
  sign operator h := by
    cases operator with
    | add | subtract => rfl
    | _ => cases h
  finite _ _ := rfl
  neg _ := rfl
  root := rfl
  opening := rfl
  closing := rfl

theorem canSettle_bind (answer : Float) (t : Token) : (bind answer t).canSettle = t.canSettle := by
  cases t <;> rfl

end Token

namespace Flat

/-- **A step whose result may be finite although an operand is not.**  A root is the power with the reciprocal of its
degree, which is zero for an infinite degree. -/
def Step.Settles (s : Step) : Prop :=
  match s.operator with
  | .divide => s.x.isFinite = true ∧ s.y.isInf = true
  | .power => Binary64.Settles s.x s.y
  | .root => Binary64.Settles s.y (1 / s.x)
  | .add | .subtract | .multiply => False

/-- **Where a step with an infinite operand has a finite result.** -/
theorem Step.isFinite_result_iff {s : Step} (h : s.x.isInf = true ∨ s.y.isInf = true) :
    s.result.isFinite = true ↔ s.Settles := by
  obtain ⟨position, operator, x, y⟩ := s
  cases operator with
  | add => exact iff_of_false (by rw [result, Operator.apply, isFinite_add h]; exact Bool.false_ne_true) id
  | subtract => exact iff_of_false (by rw [result, Operator.apply, isFinite_sub h]; exact Bool.false_ne_true) id
  | multiply => exact iff_of_false (by rw [result, Operator.apply, isFinite_mul h]; exact Bool.false_ne_true) id
  | divide => exact isFinite_div_iff h
  | power => exact isFinite_power_iff h
  | root => exact isFinite_root_iff h

theorem Step.Settles.canSettle {s : Step} (h : s.Settles) : (Token.op s.operator).canSettle = true := by
  obtain ⟨position, operator, x, y⟩ := s
  cases operator with
  | add | subtract | multiply => cases h
  | divide | power | root => rfl

end Flat

namespace Event

variable {events : List Event}

/-- An infinite token that was used up was an operand of a step. -/
theorem exists_step_of_isInfinite {t : Token} (ht : t ∈ events.flatMap tokens) (h : t.isInfinite = true) :
    ∃ s : Flat.Step, .step s ∈ events ∧ (s.x.isInf = true ∨ s.y.isInf = true) := by
  obtain ⟨e, he, hmem⟩ := List.mem_flatMap.1 ht
  cases e with
  | value v => cases hmem
  | step s =>
    simp only [tokens, Flat.Step.tokens, List.mem_cons, List.not_mem_nil, or_false] at hmem
    refine ⟨s, he, ?_⟩
    obtain rfl | rfl | rfl := hmem
    · exact .inl h
    · cases h
    · exact .inr h

theorem op_mem_tokens {s : Flat.Step} (h : .step s ∈ events) : .op s.operator ∈ events.flatMap tokens :=
  List.mem_flatMap.2 ⟨.step s, h, by simp [tokens, Flat.Step.tokens]⟩

end Event

namespace Group

section

variable {ts : List Token} {v : Float} (h : (traced ts).outcome = .ok v)
  (hfinite : ∀ e ∈ (traced ts).events, e.isFinite = true)
include hfinite

theorem settles_of_mem_events {s : Flat.Step} (hs : .step s ∈ (traced ts).events)
    (hinf : s.x.isInf = true ∨ s.y.isInf = true) : s.Settles :=
  (Flat.Step.isFinite_result_iff hinf).1 (hfinite (.step s) hs)

include h

/-- **An infinity is lost only where something can make it finite.** -/
theorem exists_canSettle {x : Float} (hx : x.isInf = true) (hmem : .number x ∈ ts) : ∃ t ∈ ts, t.canSettle = true := by
  have hinfinite := usesUp_traced Token.conserved_isInfinite ts v h hfinite
  have hsettle := usesUp_traced Token.conserved_canSettle ts v h hfinite
  have hpos : 0 < ts.countP Token.isInfinite := List.countP_pos_iff.2 ⟨.number x, hmem, hx⟩
  rw [← hinfinite, List.countP_pos_iff] at hpos
  obtain ⟨t, ht, htinf⟩ := hpos
  obtain ⟨s, hs, hinf⟩ := Event.exists_step_of_isInfinite ht htinf
  have hoperator := (settles_of_mem_events hfinite hs hinf).canSettle
  refine List.countP_pos_iff.1 ?_
  rw [← hsettle]
  exact List.countP_pos_iff.2 ⟨_, Event.op_mem_tokens hs, hoperator⟩

end

end Group

namespace Calculator

variable {c : Calculator} {line : String}

/-- **A value under checks**: the line can be read, and everything that was passed is finite. -/
theorem exists_tokens_of_outcome {v : Float} (hchecks : c.settings.domainChecks = true) (h : c.outcome line = .ok v) :
    ∃ ts, Line.tokens c.settings.rootSymbol line = .ok ts ∧
      c.traced line = Group.traced (Token.bindAnswer c.lastAnswer ts) ∧ (c.traced line).outcome = .ok v ∧
      ∀ e ∈ (c.traced line).events, e.isFinite = true := by
  obtain ⟨ts, htokens⟩ : ∃ ts, Line.tokens c.settings.rootSymbol line = .ok ts := by
    unfold outcome at h
    split at h
    · cases h
    · exact ⟨_, ‹_›⟩
  rw [outcome_eq_under, hchecks, Traced.under_true_eq_ok_iff] at h
  refine ⟨ts, htokens, ?_, h⟩
  unfold traced
  rw [htokens]

/-- **What becomes of numbers that are too large**: the line has no value, and the last answer stays; or as many infinite
operands as there are infinite numbers went into steps that are finite nevertheless.  Without a quotient, a power or a
root the line has no value. -/
theorem evaluate_overflow (c : Calculator) (line : String) (x : Float) (hchecks : c.settings.domainChecks = true)
    (hx : x.isInf = true) (hline : .ok (.number x) ∈ Line.entries c.settings.rootSymbol line) :
    ((∃ f, c.evaluate line = (.error f, c)) ∨
      ∃ ts, Line.tokens c.settings.rootSymbol line = .ok ts ∧
        ((c.traced line).events.flatMap Event.tokens).countP Token.isInfinite =
          (Token.bindAnswer c.lastAnswer ts).countP Token.isInfinite ∧
        ∀ s, .step s ∈ (c.traced line).events → s.x.isInf = true ∨ s.y.isInf = true → s.Settles) ∧
      ((∀ t, .ok t ∈ Line.entries c.settings.rootSymbol line → t.canSettle = false) →
        ∃ f, c.evaluate line = (.error f, c)) := by
  cases houtcome : c.outcome line with
  | error f =>
    have hevaluate := evaluate_of_outcome_eq_error houtcome
    exact ⟨.inl ⟨f, hevaluate⟩, fun _ => ⟨f, hevaluate⟩⟩
  | ok v =>
    obtain ⟨ts, htokens, htraced, hvalue, hfinite⟩ := exists_tokens_of_outcome hchecks houtcome
    rw [Line.entries_of_tokens htokens] at hline ⊢
    rw [htraced] at hvalue hfinite ⊢
    refine ⟨.inr ⟨ts, htokens, Group.usesUp_traced Token.conserved_isInfinite _ v hvalue hfinite,
      fun s hs => Group.settles_of_mem_events hfinite hs⟩, fun hnone => ?_⟩
    obtain ⟨u, hu, hwritten⟩ := List.mem_map.1 hline
    cases hwritten
    have hmem : Token.number x ∈ Token.bindAnswer c.lastAnswer ts := List.mem_map.2 ⟨.number x, hu, rfl⟩
    obtain ⟨t, ht, hsettle⟩ := Group.exists_canSettle hvalue hfinite hx hmem
    obtain ⟨w, hw, rfl⟩ := List.mem_map.1 ht
    rw [Token.canSettle_bind, hnone w (List.mem_map.2 ⟨w, hw, rfl⟩)] at hsettle
    cases hsettle

/-- A number of four hundred digits. -/
def nines : List Char := .replicate 400 '9'

theorem read?_nines : Line.read? '√' nines = some [.number Binary64.infinity] := by
  have hsplit : nines = '9' :: .replicate 399 '9' := rfl
  have hvalue : Numeral.read? (('9' :: List.replicate 399 '9').map Line.pointed) = some Binary64.infinity := by
    decide +kernel
  rw [hsplit]
  refine Line.read?_run (fun d hd => ?_) hvalue
  rw [← hsplit] at hd
  rw [List.eq_of_mem_replicate hd]
  rfl

theorem tokens_nines_minus : Line.tokens '√' (.ofList (nines ++ ['-', '1'])) =
    .ok [.number Binary64.infinity, .op .subtract, .number 1] := by
  have hone : Line.read? '√' ['-', '1'] = some [.op .subtract, .number 1] := by decide +kernel
  refine Line.tokens_eq_ok_iff.2 ⟨?_, List.cons_ne_nil _ _⟩
  rw [String.toList_ofList, Line.read?_append_cons rfl, read?_nines, hone]
  rfl

theorem tokens_over_nines : Line.tokens '√' (.ofList ('1' :: '/' :: nines)) =
    .ok [.number 1, .op .divide, .number Binary64.infinity] := by
  have hone : Line.read? '√' ['1'] = some [.number 1] := by decide +kernel
  have hsplit : '1' :: '/' :: nines = ['1'] ++ '/' :: nines := rfl
  refine Line.tokens_eq_ok_iff.2 ⟨?_, List.cons_ne_nil _ _⟩
  rw [String.toList_ofList, hsplit, Line.read?_append_cons rfl, hone, Line.read?_symbol_cons rfl rfl, read?_nines]
  rfl

theorem evaluate_over_nines : ((new {}).evaluate (.ofList ('1' :: '/' :: nines))).1 = .ok 0 := by
  have hread := (Line.tokens_eq_ok_iff.1 tokens_over_nines).1
  have hbound : Token.bindAnswer 0 [.number 1, .op .divide, .number Binary64.infinity] =
      [.number 1, .op .divide, .number Binary64.infinity] := rfl
  have hvalue : Group.resolve true [.number 1, .op .divide, .number Binary64.infinity] = .ok 0 := by decide +kernel
  have houtcome : outcome (new {}) (.ofList ('1' :: '/' :: nines)) = Group.resolve true (Token.bindAnswer 0 _) :=
    outcome_of_read? hread (List.cons_ne_nil _ _)
  rw [hbound, hvalue] at houtcome
  exact houtcome

/-- A number that is too large, with one taken off it and one divided by it. -/
theorem evaluate_overflow_nines :
    let c := new {}
    let quotient : String := .ofList ('1' :: '/' :: nines)
    (∃ f, c.evaluate (.ofList (nines ++ ['-', '1'])) = (.error f, c)) ∧ (c.evaluate quotient).1 = .ok 0 ∧
      ∀ s, .step s ∈ (c.traced quotient).events → s.x.isInf = true ∨ s.y.isInf = true → s.Settles := by
  intro c quotient
  have hinf : Binary64.infinity.isInf = true := by decide +kernel
  have hminus : Line.entries c.settings.rootSymbol (.ofList (nines ++ ['-', '1'])) = _ :=
    Line.entries_of_tokens tokens_nines_minus
  have hover : Line.entries c.settings.rootSymbol quotient = _ := Line.entries_of_tokens tokens_over_nines
  obtain ⟨_, hrefused⟩ := evaluate_overflow c _ Binary64.infinity rfl hinf (by rw [hminus]; simp)
  obtain ⟨⟨f, hf⟩ | ⟨ts, _, _, hsettles⟩, _⟩ :=
    evaluate_overflow c quotient Binary64.infinity rfl hinf (by rw [hover]; simp)
  · have hvalue : (c.evaluate quotient).1 = .ok 0 := evaluate_over_nines
    rw [hf] at hvalue
    cases hvalue
  · refine ⟨hrefused fun t ht => ?_, evaluate_over_nines, hsettles⟩
    rw [hminus] at ht
    simp only [List.map_cons, List.map_nil, List.mem_cons, Except.ok.injEq, List.not_mem_nil, or_false] at ht
    obtain rfl | rfl | rfl := ht <;> rfl

/-- **One divided by a number that is too large is zero.** -/
theorem evaluate_overflow_quotient :
    ¬∀ (c : Calculator) (line : String) (x : Float), c.settings.domainChecks = true → x.isInf = true →
      .ok (.number x) ∈ Line.entries c.settings.rootSymbol line → ∃ f, c.evaluate line = (.error f, c) := by
  intro h
  have hover : Line.entries (new {}).settings.rootSymbol (.ofList ('1' :: '/' :: nines)) = _ :=
    Line.entries_of_tokens tokens_over_nines
  obtain ⟨f, hf⟩ := h (new {}) _ Binary64.infinity rfl (by decide +kernel) (by rw [hover]; simp)
  have hvalue := evaluate_over_nines
  rw [hf] at hvalue
  cases hvalue

end Calculator
end Reckoner

import Reckoner.Calculator
import Reckoner.Proofs.Flat.Acceptance

/-!
# Acceptance — which lines have a value when values are not checked

A group that closes first is recognized exactly if its inside is and the list is with a number in the group's place
(`recognizes_group`); so evaluation group by group and the recognizer agree on every list (`resolve_judged`), and a
line has an unchecked value exactly when its tokens are an expression of the grammar.
-/
namespace Reckoner

open Grammar (recognizes ReadAlike)
open Outcome (Judged)

namespace Group

theorem recognizes_bracketless (post : List Token) (depth : Nat) : ∀ (inside : List Token) (awaiting : Bool),
    Bracketless inside →
      recognizes (depth + 1) awaiting (inside ++ .closing :: post) =
        (recognizes 0 awaiting inside && recognizes depth false post)
  | [], awaiting, _ => rfl
  | t :: inside, awaiting, h => by
    obtain ⟨ht, hinside⟩ := bracketless_cons.1 h
    have ih := fun awaiting => recognizes_bracketless post depth inside awaiting hinside
    cases t with
    | opening => cases ht
    | closing => cases ht
    | _ => simp only [List.cons_append, recognizes, ih, Bool.and_assoc]

/-- **A group is an atom if its inside is an expression**, whatever stands around it. -/
theorem recognizes_group {inside : List Token} (post : List Token) (value : Float) (hinside : Bracketless inside) :
    ∀ (pre : List Token) (depth : Nat) (awaiting : Bool),
      recognizes depth awaiting (pre ++ .opening :: (inside ++ .closing :: post)) =
        (recognizes 0 true inside && recognizes depth awaiting (pre ++ .number value :: post))
  | [], depth, awaiting => by
    rw [List.nil_append, List.nil_append, recognizes, recognizes, recognizes_bracketless post depth inside true hinside,
      Bool.and_left_comm]
  | t :: pre, depth, awaiting => by
    have ih := recognizes_group post value hinside pre
    cases t with
    | closing => cases depth <;> simp only [List.cons_append, recognizes, ih, Bool.and_left_comm, Bool.and_false]
    | _ => simp only [List.cons_append, recognizes, ih, Bool.and_left_comm]

theorem recognizes_unopened (post : List Token) : ∀ (pre : List Token) (awaiting : Bool), Bracketless pre →
    recognizes 0 awaiting (pre ++ .closing :: post) = false
  | [], _, _ => rfl
  | t :: pre, awaiting, h => by
    obtain ⟨ht, hpre⟩ := bracketless_cons.1 h
    have ih := fun awaiting => recognizes_unopened post pre awaiting hpre
    cases t with
    | opening => cases ht
    | closing => cases ht
    | _ => simp only [List.cons_append, recognizes, ih, Bool.and_false]

theorem recognizes_unclosed : ∀ (post : List Token) (depth : Nat) (awaiting : Bool), .closing ∉ post →
    recognizes (depth + 1) awaiting post = false
  | [], _, _, _ => rfl
  | t :: post, depth, awaiting, h => by
    have ih := fun depth awaiting =>
      recognizes_unclosed post depth awaiting fun hm => h (List.mem_cons_of_mem t hm)
    cases t with
    | closing => exact absurd List.mem_cons_self h
    | _ => simp only [recognizes, ih, Bool.and_false]

theorem recognizes_opening_unclosed {post : List Token} (hpost : .closing ∉ post) : ∀ (pre : List Token) (depth : Nat)
    (awaiting : Bool), .closing ∉ pre → recognizes depth awaiting (pre ++ .opening :: post) = false
  | [], depth, awaiting, _ => by
    rw [List.nil_append, recognizes, recognizes_unclosed post depth true hpost, Bool.and_false]
  | t :: pre, depth, awaiting, h => by
    have ih := fun depth awaiting =>
      recognizes_opening_unclosed hpost pre depth awaiting fun hm => h (List.mem_cons_of_mem t hm)
    cases t with
    | closing => exact absurd List.mem_cons_self h
    | _ => simp only [List.cons_append, recognizes, ih, Bool.and_false]

theorem number_alike (a b : Float) (pre post : List Token) :
    ReadAlike (pre ++ .number a :: post) (pre ++ .number b :: post) := by
  have h : ReadAlike (.number a :: post) (.number b :: post) := fun _ _ => rfl
  exact h.append pre

/-- **A list without references has an unchecked value exactly when it is recognized**, and is a syntax error
otherwise. -/
theorem resolve_judged (ts : List Token) : .answer ∉ ts → Judged (recognizes 0 true ts) (resolve false ts) := by
  induction ts using resolve_induction with
  | none ts h =>
    intro hanswer
    rw [resolve_bracketless false h]
    exact Flat.evaluate_judged h hanswer
  | group pre inside post hpre hinside ih =>
    intro hanswer
    obtain ⟨hanswerInside, hanswerAround⟩ := answer_not_mem_group hanswer
    rw [resolve_group false post hpre hinside, recognizes_group post 0 hinside]
    refine (Flat.evaluate_judged hinside hanswerInside).bind fun value => ?_
    rw [number_alike 0 value pre post]
    exact ih value (hanswerAround value)
  | unopened pre post hpre =>
    intro _
    rw [resolve_unopened false post hpre, recognizes_unopened post pre true hpre]
    exact Outcome.judged_error rfl rfl
  | unclosed pre post hpre hpost =>
    intro _
    rw [resolve_unclosed false hpre hpost, recognizes_opening_unclosed hpost pre 0 true hpre]
    exact Outcome.judged_error rfl rfl

end Group

/-! ## References and lines -/

theorem Token.bindAnswer_alike (value : Float) : ∀ ts : List Token, ReadAlike (bindAnswer value ts) ts
  | [] => ReadAlike.refl []
  | t :: ts => by
    have ih := (bindAnswer_alike value ts).cons (t.bind value)
    refine ih.trans ?_
    cases t with
    | answer => exact fun _ _ => rfl
    | _ => exact ReadAlike.refl _

theorem Token.answer_not_mem_bindAnswer (value : Float) (ts : List Token) : .answer ∉ bindAnswer value ts := by
  intro h
  obtain ⟨t, _, ht⟩ := List.mem_map.1 h
  cases t <;> cases ht

/-- A malformed number, or a line with nothing on it. -/
def Failure.isUnreadable : Failure → Bool
  | malformedNumber .. | noTokens => true
  | _ => false

theorem Failure.kind_of_isUnreadable {f : Failure} (h : f.isUnreadable = true) : f.kind = .syntaxError := by
  cases f <;> first | rfl | cases h

namespace Line

theorem eq_malformedNumber_of_number {position : Nat} {run : List Char} {f : Failure}
    (h : number position run = .error f) : f = .malformedNumber (run.map pointed) position := by
  unfold number at h
  simp only at h
  split at h
  · cases h
  · cases h
    rfl

/-- The only failure on a line is a run of digits and separators that is no number. -/
theorem malformed_of_mem_entriesFrom {f : Failure} (root : Char) (position : Nat) (cs : List Char) :
    .error f ∈ entriesFrom root position cs →
      ∃ (run : List Char) (start : Nat), (∀ c ∈ run, isNumeric c = true) ∧
        f = .malformedNumber (run.map pointed) start := by
  fun_induction entriesFrom root position cs with
  | case1 => exact fun h => by cases h
  | case2 position c cs hc run ih =>
    intro h
    obtain hnumber | h := List.mem_cons.1 h
    · have hrun : ∀ d ∈ run, isNumeric d = true :=
        List.forall_mem_cons.2 ⟨hc, fun d hd => List.all_eq_true.1 List.all_takeWhile d hd⟩
      exact ⟨run, position, hrun, eq_malformedNumber_of_number hnumber.symm⟩
    · exact ih h
  | case3 position c cs hc t ht ih =>
    intro h
    obtain hsymbol | h := List.mem_cons.1 h
    · cases hsymbol
    · exact ih h
  | case4 position c cs hc ht ih => exact ih

theorem mem_of_collect_eq_error : ∀ {es : List (Except Failure Token)} {f : Failure},
    collect es = .error f → .error f ∈ es
  | [], _, h => by cases h
  | .error g :: rest, f, h => by
    cases h
    exact List.mem_cons_self
  | .ok t :: rest, f, h => by
    rw [collect] at h
    cases hrest : collect rest with
    | error g =>
      rw [hrest] at h
      cases h
      exact List.mem_cons_of_mem _ (mem_of_collect_eq_error hrest)
    | ok ts =>
      rw [hrest] at h
      cases h

/-- **A line has no tokens because nothing is on it, or because a number on it is malformed.** -/
theorem tokens_error_cases {root : Char} {line : String} {f : Failure} (h : tokens root line = .error f) :
    f = .noTokens ∨ ∃ (run : List Char) (start : Nat), (∀ c ∈ run, isNumeric c = true) ∧
      f = .malformedNumber (run.map pointed) start := by
  unfold tokens at h
  split at h
  · cases h
    exact .inl rfl
  · exact .inr (malformed_of_mem_entriesFrom root 0 line.toList (mem_of_collect_eq_error h))

theorem isUnreadable_of_tokens {root : Char} {line : String} {f : Failure} (h : tokens root line = .error f) :
    f.isUnreadable = true := by
  obtain rfl | ⟨_, _, _, rfl⟩ := tokens_error_cases h <;> rfl

theorem kind_of_tokens {root : Char} {line : String} {f : Failure} (h : tokens root line = .error f) :
    f.kind = .syntaxError := Failure.kind_of_isUnreadable (isUnreadable_of_tokens h)

end Line

namespace Calculator

/-- **An unchecked line is judged by the grammar.** -/
theorem exists_judged (root : Char) (answer : Float) (line : String) :
    ∃ accepted, Judged accepted (evaluate ⟨⟨root, false⟩, answer⟩ line).1 ∧
      (accepted = true ↔ ∃ ts, Line.tokens root line = .ok ts ∧ Grammar.Expression ts) := by
  show ∃ accepted, Judged accepted (outcome ⟨⟨root, false⟩, answer⟩ line) ∧ _
  unfold outcome
  cases htokens : Line.tokens root line with
  | error f =>
    refine ⟨false, Outcome.judged_error rfl (Line.kind_of_tokens htokens), fun h => (by cases h), ?_⟩
    rintro ⟨ts, hts, _⟩
    cases hts
  | ok ts =>
    refine ⟨recognizes 0 true ts, ?_, ?_⟩
    · rw [← Token.bindAnswer_alike answer ts 0 true]
      exact Group.resolve_judged _ (Token.answer_not_mem_bindAnswer answer ts)
    · rw [← Grammar.expression_iff_recognizes]
      refine ⟨fun h => ⟨ts, rfl, h⟩, ?_⟩
      rintro ⟨us, hus, h⟩
      cases hus
      exact h

/-- **Which lines have a value** when values are not checked, whatever the root symbol and the last answer: exactly
those that have tokens and whose tokens are an expression.  Every other line is a syntax error. -/
theorem evaluate_unchecked_iff (root : Char) (answer : Float) (line : String) :
    let outcome := (evaluate ⟨⟨root, false⟩, answer⟩ line).1
    ((∃ value, outcome = .ok value) ↔ ∃ ts, Line.tokens root line = .ok ts ∧ Grammar.Expression ts) ∧
      ((∃ f, outcome = .error f ∧ f.kind = .syntaxError) ↔
        ¬∃ ts, Line.tokens root line = .ok ts ∧ Grammar.Expression ts) := by
  obtain ⟨accepted, hjudged, haccepted⟩ := exists_judged root answer line
  rw [← haccepted]
  exact ⟨hjudged.exists_ok_iff, hjudged.exists_error_iff⟩

end Calculator
end Reckoner

import Reckoner.Flat.Value
import Reckoner.Proofs.Flat.Spacing
import Reckoner.Proofs.Outcome

/-!
# Flat.Fold — folding a spaced list of numbers and operators

As long as there is an operator in such a list, the next step finds a number on both its sides (`nextStep_of_spaced`),
and the list it leaves is of the same kind (`spaced_result`).  So unchecked folding ends in a value exactly when numbers
and operators alternate, and else in two numbers that nothing joins (`value_judged`).
-/
namespace Reckoner
namespace Flat

def Foldable (ts : List Token) : Prop := ∀ t ∈ ts, t.isFoldable = true

theorem foldable_cons {t : Token} {ts : List Token} : Foldable (t :: ts) ↔ t.isFoldable = true ∧ Foldable ts :=
  List.forall_mem_cons

theorem foldable_append {ts us : List Token} : Foldable (ts ++ us) ↔ Foldable ts ∧ Foldable us :=
  List.forall_mem_append

theorem exists_number {t : Token} (ht : t.isFoldable = true) (hop : t.isOperator = false) :
    ∃ value, t = .number value := by
  cases t with
  | number value => exact ⟨value, rfl⟩
  | op operator => cases hop
  | _ => cases ht

/-- **Numbers and operators take turns**; the flag says that a number comes next. -/
def alternates : Bool → List Token → Bool
  | awaiting, [] => !awaiting
  | awaiting, .number _ :: rest => awaiting && alternates false rest
  | awaiting, .op _ :: rest => !awaiting && alternates true rest
  | _, _ :: _ => false

theorem spaced_of_alternates : ∀ (ts : List Token) (awaiting : Bool), alternates awaiting ts = true →
    spaced awaiting ts = true
  | [], _, h => h
  | .number _ :: rest, true, h => spaced_of_alternates rest false h
  | .op _ :: rest, false, h => spaced_of_alternates rest true h

/-! ## Where the next step is -/

theorem isOperator_eq_hasRank (t : Token) :
    t.isOperator = (hasRank .exponent t || (hasRank .multiplicative t || hasRank .additive t)) := by
  cases t with
  | op operator => cases operator <;> rfl
  | _ => rfl

/-- **There is no next step exactly where there is no operator.** -/
theorem nextPosition?_eq_none_iff {ts : List Token} :
    nextPosition? ts = none ↔ ∀ t ∈ ts, t.isOperator = false := by
  simp only [nextPosition?, Option.or_eq_none_iff, List.findIdx?_eq_none_iff, isOperator_eq_hasRank,
    Bool.or_eq_false_iff]
  constructor
  · rintro ⟨hexponent, hmultiplicative, hadditive⟩ t ht
    exact ⟨hexponent t ht, hmultiplicative t ht, hadditive t ht⟩
  · intro h
    exact ⟨fun t ht => (h t ht).1, fun t ht => (h t ht).2.1, fun t ht => (h t ht).2.2⟩

theorem exists_op_of_nextPosition? {ts : List Token} {position : Nat} (h : nextPosition? ts = some position) :
    ∃ (pre : List Token) (operator : Operator) (post : List Token),
      ts = pre ++ .op operator :: post ∧ pre.length = position := by
  have hfound : ∃ rank, ts.findIdx? (hasRank rank) = some position := by
    simp only [nextPosition?, Option.or_eq_some_iff] at h
    obtain h | ⟨_, h | ⟨_, h⟩⟩ := h
    · exact ⟨_, h⟩
    · exact ⟨_, h⟩
    · exact ⟨_, h⟩
  obtain ⟨rank, hfound⟩ := hfound
  obtain ⟨hlt, hrank, _⟩ := List.findIdx?_eq_some_iff_getElem.1 hfound
  cases htoken : ts[position] with
  | op operator =>
    refine ⟨ts.take position, operator, ts.drop (position + 1), ?_, by rw [List.length_take]; omega⟩
    rw [← htoken, ← List.drop_eq_getElem_cons hlt, List.take_append_drop]
  | _ =>
    rw [htoken] at hrank
    cases hrank

theorem nextStep_append {front back : List Token} {x y : Float} {operator : Operator}
    (h : nextPosition? (front ++ .number x :: .op operator :: .number y :: back) = some (front.length + 1)) :
    nextStep (front ++ .number x :: .op operator :: .number y :: back) = .ok ⟨front.length + 1, operator, x, y⟩ := by
  have hx : (front ++ .number x :: .op operator :: .number y :: back)[front.length]? = some (.number x) := by simp
  have hop : (front ++ .number x :: .op operator :: .number y :: back)[front.length + 1]? = some (.op operator) := by
    simp
  have hy : (front ++ .number x :: .op operator :: .number y :: back)[front.length + 1 + 1]? = some (.number y) := by
    rw [Nat.add_assoc, List.getElem?_append_right (Nat.le_add_right _ _), Nat.add_sub_cancel_left]
    rfl
  unfold nextStep
  simp only [h, hop, hy, before?, hx, Option.bind_some, Token.operator?, operand]

theorem operand_eq_ok_iff {operator : Operator} {t : Option Token} {x : Float} :
    operand operator t = .ok x ↔ t = some (.number x) := by
  unfold operand
  split <;> simp_all

/-- **A step joins an operator and the numbers on both sides of it.** -/
theorem exists_append_of_nextStep {ts : List Token} {s : Step} (h : nextStep ts = .ok s) :
    ∃ front back, ts = front ++ .number s.x :: .op s.operator :: .number s.y :: back ∧
      s.position = front.length + 1 := by
  unfold nextStep at h
  cases hposition : nextPosition? ts with
  | none => simp [hposition] at h
  | some position =>
    rcases exists_op_of_nextPosition? hposition with ⟨pre, operator, post, rfl, rfl⟩
    simp only [hposition] at h
    simp only [List.getElem?_append_right (Nat.le_refl _), Nat.sub_self, List.getElem?_cons_zero, Option.bind_some,
      Token.operator?] at h
    split at h
    · cases h
    · rename_i x hx
      split at h
      · cases h
      · rename_i y hy
        cases h
        rw [operand_eq_ok_iff] at hx hy
        rcases List.eq_nil_or_concat pre with rfl | ⟨front, t, rfl⟩
        · cases hx
        · obtain rfl : t = .number x := by simpa [before?] using hx
          cases post with
          | nil => simp at hy
          | cons u back =>
            obtain rfl : u = .number y := by simpa [Nat.add_assoc] using hy
            exact ⟨front, back, by simp, by simp⟩

/-- **The next step of a spaced list** of numbers and operators has a number on both sides, unless there is no operator
left. -/
theorem nextStep_of_spaced {ts : List Token} (hfoldable : Foldable ts) (hspaced : spaced true ts = true) :
    ((∀ t ∈ ts, t.isOperator = false) ∧ nextStep ts = .error (.missingOperator ts)) ∨
      ∃ (front : List Token) (x : Float) (operator : Operator) (y : Float) (back : List Token),
        ts = front ++ .number x :: .op operator :: .number y :: back ∧
          nextStep ts = .ok ⟨front.length + 1, operator, x, y⟩ := by
  cases hposition : nextPosition? ts with
  | none =>
    refine .inl ⟨nextPosition?_eq_none_iff.1 hposition, ?_⟩
    unfold nextStep
    rw [hposition]
  | some position =>
    obtain ⟨pre, operator, post, rfl, hlength⟩ := exists_op_of_nextPosition? hposition
    rw [spaced_append_op, Bool.and_eq_true] at hspaced
    obtain ⟨front, before, rfl, hbefore⟩ := exists_last_of_spaced hspaced.1
    obtain ⟨after, back, rfl, hafter, _⟩ := exists_head_of_spaced hspaced.2
    obtain ⟨x, rfl⟩ := exists_number (hfoldable before (by simp)) hbefore
    obtain ⟨y, rfl⟩ := exists_number (hfoldable after (by simp)) hafter
    rw [List.append_assoc, List.singleton_append] at hposition ⊢
    refine .inr ⟨front, x, operator, y, back, rfl, nextStep_append ?_⟩
    rw [hposition, ← hlength, List.length_append, List.length_singleton]

/-! ## What a step leaves -/

theorem Step.run_of_splice? {s : Step} {ts out : List Token}
    (h : Token.splice? ts (s.position - 1) (s.position + 1) s.result = some out) : s.run ts = .ok out := by
  unfold Step.run
  rw [h]

/-- **A step puts its result in place of the operator and its operands.** -/
theorem run_append (front back : List Token) (x y : Float) (operator : Operator) :
    Step.run ⟨front.length + 1, operator, x, y⟩ (front ++ .number x :: .op operator :: .number y :: back) =
      .ok (front ++ .number (operator.apply x y) :: back) := by
  have hsplice : Token.splice? (front ++ .number x :: .op operator :: .number y :: back) front.length
      (front.length + 2) (operator.apply x y) = some (front ++ .number (operator.apply x y) :: back) := by
    refine Token.splice?_eq_some_iff.2 ⟨by simp, by simp, ?_⟩
    rw [List.take_left' rfl, Nat.add_assoc, List.drop_length_add_append]
    rfl
  exact Step.run_of_splice? hsplice

theorem exists_append_of_advance {checks : Bool} {ts out : List Token} (h : advance checks ts = .ok out) :
    ∃ front x operator y back, ts = front ++ .number x :: .op operator :: .number y :: back ∧
      out = front ++ .number (operator.apply x y) :: back := by
  unfold advance at h
  cases hstep : nextStep ts with
  | error f => simp [hstep] at h
  | ok s =>
    rcases exists_append_of_nextStep hstep with ⟨front, back, rfl, hposition⟩
    rcases s with ⟨position, operator, x, y⟩
    subst hposition
    simp only [hstep, run_append front back] at h
    split at h
    · cases h
    · cases h
      exact ⟨front, x, operator, y, back, rfl, rfl⟩

/-- A number for an operator and its operands: the list stays as spaced as it was. -/
theorem spaced_result (x y r : Float) (operator : Operator) (back : List Token) : ∀ (front : List Token)
    (awaiting : Bool), spaced awaiting (front ++ .number x :: .op operator :: .number y :: back) =
      spaced awaiting (front ++ .number r :: back)
  | [], _ => rfl
  | t :: front, awaiting => by
    rw [List.cons_append, List.cons_append, spaced, spaced, spaced_result x y r operator back front,
      spaced_result x y r operator back front]

theorem alternates_result (x y r : Float) (operator : Operator) (back : List Token) : ∀ (front : List Token)
    (awaiting : Bool), alternates awaiting (front ++ .number x :: .op operator :: .number y :: back) =
      alternates awaiting (front ++ .number r :: back)
  | [], awaiting => by cases awaiting <;> rfl
  | t :: front, awaiting => by
    have ih := alternates_result x y r operator back front
    cases t <;> simp only [List.cons_append, alternates, ih]

theorem foldable_result {front back : List Token} {x y : Float} {operator : Operator} (r : Float)
    (h : Foldable (front ++ .number x :: .op operator :: .number y :: back)) :
    Foldable (front ++ .number r :: back) := by
  obtain ⟨hfront, hrest⟩ := foldable_append.1 h
  have hback := (foldable_cons.1 (foldable_cons.1 (foldable_cons.1 hrest).2).2).2
  exact foldable_append.2 ⟨hfront, foldable_cons.2 ⟨rfl, hback⟩⟩

/-- **A step of unchecked folding** leaves the result for an operator and its operands; none is left to take where there
is no operator. -/
theorem advance_of_spaced {ts : List Token} (hfoldable : Foldable ts) (hspaced : spaced true ts = true) :
    ((∀ t ∈ ts, t.isOperator = false) ∧ advance false ts = .error (.missingOperator ts)) ∨
      ∃ (front : List Token) (x : Float) (operator : Operator) (y : Float) (back : List Token),
        ts = front ++ .number x :: .op operator :: .number y :: back ∧
          advance false ts = .ok (front ++ .number (operator.apply x y) :: back) := by
  unfold advance
  obtain ⟨hnone, hstep⟩ | ⟨front, x, operator, y, back, rfl, hstep⟩ := nextStep_of_spaced hfoldable hspaced
  · rw [hstep]
    exact .inl ⟨hnone, rfl⟩
  · rw [hstep]
    exact .inr ⟨front, x, operator, y, back, rfl, run_append front back x y operator⟩

/-! ## The value -/

theorem alternates_of_no_operator : ∀ {ts : List Token}, (∀ t ∈ ts, t.isOperator = false) → 1 < ts.length →
    alternates true ts = false
  | [_], _, h => by simp at h
  | t :: u :: rest, hop, _ => by
    have hu := hop u (by simp)
    cases t with
    | number value =>
      cases u with
      | op operator => cases hu
      | _ => rfl
    | _ => rfl

/-- **Induction along unchecked folding**: what holds of a number, of a list that misses an operator, and of a list with
an operation once it holds with the result in its place, holds of every spaced list and its value. -/
theorem fold_induction {motive : List Token → Except Failure Float → Prop} (number : ∀ x, motive [.number x] (.ok x))
    (apart : ∀ ts, 1 < ts.length → (∀ t ∈ ts, t.isOperator = false) → motive ts (.error (.missingOperator ts)))
    (step : ∀ front x operator y back outcome, motive (front ++ .number (operator.apply x y) :: back) outcome →
      motive (front ++ .number x :: .op operator :: .number y :: back) outcome)
    (ts : List Token) (hfoldable : Foldable ts) (hspaced : spaced true ts = true) : motive ts (value false ts) := by
  fun_induction value false ts with
  | case1 ts hlength =>
    obtain ⟨t, back, rfl, hop, _⟩ := exists_head_of_spaced hspaced
    obtain ⟨x, rfl⟩ := exists_number (hfoldable t List.mem_cons_self) hop
    obtain rfl : back = [] := List.length_eq_zero_iff.1 (by simpa using hlength)
    exact number x
  | case2 ts hlength f hf =>
    obtain ⟨hnone, hadvance⟩ | ⟨_, _, _, _, _, _, hadvance⟩ := advance_of_spaced hfoldable hspaced
    · rw [hf] at hadvance
      cases hadvance
      exact apart ts (by omega) hnone
    · rw [hf] at hadvance
      cases hadvance
  | case3 ts hlength shorter hshorter ih =>
    obtain ⟨_, hadvance⟩ | ⟨front, x, operator, y, back, rfl, hadvance⟩ := advance_of_spaced hfoldable hspaced
    · rw [hshorter] at hadvance
      cases hadvance
    · rw [hshorter] at hadvance
      cases hadvance
      refine step front x operator y back _ (ih (foldable_result _ hfoldable) ?_)
      rwa [← spaced_result x y (operator.apply x y) operator back front true]

/-- **Unchecked folding has a value exactly when numbers and operators take turns**, and fails with a syntax error
otherwise. -/
theorem value_judged (ts : List Token) (hfoldable : Foldable ts) (hspaced : spaced true ts = true) :
    Outcome.Judged (alternates true ts) (value false ts) := by
  refine fold_induction (motive := fun ts outcome => Outcome.Judged (alternates true ts) outcome) ?_ ?_ ?_ ts hfoldable
    hspaced
  · exact fun x => Outcome.judged_ok rfl
  · exact fun ts hlength hnone => Outcome.judged_error (alternates_of_no_operator hnone hlength) rfl
  · intro front x operator y back outcome h
    rwa [alternates_result x y (operator.apply x y)]

/-- **The only failure of unchecked folding is a missing operator.** -/
theorem eq_missingOperator_of_value {ts : List Token} {f : Failure} (hfoldable : Foldable ts)
    (hspaced : spaced true ts = true) (h : value false ts = .error f) : ∃ us, f = .missingOperator us := by
  revert h
  refine fold_induction (motive := fun _ outcome => outcome = .error f → ∃ us, f = .missingOperator us) ?_ ?_ ?_ ts
    hfoldable hspaced
  · exact fun x h => by cases h
  · exact fun ts _ _ h => ⟨ts, by cases h; rfl⟩
  · exact fun _ _ _ _ _ _ h => h

end Flat
end Reckoner

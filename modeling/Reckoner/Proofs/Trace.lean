import Reckoner.Group
import Reckoner.Proofs.Outcome

/-!
# Trace — the values an evaluation passes through

A traced evaluation goes on whatever values come up, and tells what it passed: the result of every step, and the value
of every bracket-free expression, that is of the groups one by one and of the whole at the end.  What checks do can then
be said afterwards (`Traced.under`): the first value passed that is refused is the failure, and with no such value the
outcome stands.  Evaluation with and without checks is the traced one under checks or under none
(`Group.resolve_eq_under`).
-/
namespace Reckoner

/-- A value that an evaluation passes through. -/
inductive Event where
  /-- An operator applied to its operands. -/
  | step (step : Flat.Step)
  /-- The value of a bracket-free expression. -/
  | value (value : Float)

namespace Event

def result : Event → Float
  | step s => s.result
  | value v => v

/-- Why the value passed is refused, if it is. -/
def refusal? : Event → Option Failure
  | step s => s.refusal?
  | value v => if v.isFinite then none else some (.valueNotFinite v)

end Event

/-- An outcome and the values passed on the way to it. -/
structure Traced (α : Type) where
  events : List Event
  outcome : Except Failure α

namespace Traced

variable {α β : Type}

def lift (outcome : Except Failure α) : Traced α := ⟨[], outcome⟩

/-- One after the other, the second from the value of the first. -/
def bind (x : Traced α) (k : α → Traced β) : Traced β :=
  match x.outcome with
  | .error f => ⟨x.events, .error f⟩
  | .ok a => ⟨x.events ++ (k a).events, (k a).outcome⟩

/-- **The outcome under checks, or under none**: the first value passed that is refused is the failure. -/
def under (checks : Bool) (x : Traced α) : Except Failure α :=
  match (if checks then x.events.findSome? Event.refusal? else none) with
  | some f => .error f
  | none => x.outcome

@[simp] theorem under_false (x : Traced α) : x.under false = x.outcome := rfl

theorem under_true (x : Traced α) :
    x.under true = (match x.events.findSome? Event.refusal? with
      | some f => .error f
      | none => x.outcome) := rfl

@[simp] theorem under_lift (checks : Bool) (outcome : Except Failure α) :
    (lift outcome).under checks = outcome := by
  cases checks <;> rfl

/-- **Checks may be made on the way**: under checks, one after the other is one under checks after the other. -/
theorem under_bind (checks : Bool) (x : Traced α) (k : α → Traced β) :
    (x.bind k).under checks = (x.under checks).bind fun a => (k a).under checks := by
  cases checks with
  | false =>
    simp only [under_false, bind]
    cases x.outcome <;> rfl
  | true =>
    simp only [under_true]
    cases houtcome : x.outcome with
    | error f =>
      simp only [bind, houtcome]
      cases x.events.findSome? Event.refusal? <;> rfl
    | ok a =>
      simp only [bind, houtcome, List.findSome?_append]
      cases x.events.findSome? Event.refusal? <;> rfl

/-- **The value that comes out was the last one passed.** -/
def Lands (x : Traced Float) : Prop := ∀ v, x.outcome = .ok v → x.events.getLast? = some (.value v)

theorem lands_error (events : List Event) (f : Failure) : Lands ⟨events, .error f⟩ := fun _ h => (by cases h)

theorem Lands.append {x : Traced Float} (h : x.Lands) (events : List Event) :
    Lands ⟨events ++ x.events, x.outcome⟩ := by
  intro v hv
  rw [List.getLast?_append, h v hv]
  rfl

theorem lands_bind {x : Traced α} {k : α → Traced Float} (h : ∀ a, (k a).Lands) : (x.bind k).Lands := by
  unfold bind
  cases x.outcome with
  | error f => exact lands_error _ f
  | ok a => exact (h a).append _

end Traced

/-! ## Folding -/

namespace Flat

def tracedAdvance (ts : List Token) : Traced (List Token) :=
  match nextStep ts with
  | .error f => .lift (.error f)
  | .ok s => ⟨[.step s], s.run ts⟩

theorem advance_eq_under (checks : Bool) (ts : List Token) : advance checks ts = (tracedAdvance ts).under checks := by
  unfold advance tracedAdvance
  cases nextStep ts with
  | error f => exact (Traced.under_lift checks _).symm
  | ok s =>
    cases checks with
    | false => rfl
    | true =>
      simp only [Traced.under_true, List.findSome?_cons, List.findSome?_nil, Event.refusal?, if_true]
      cases s.refusal? <;> rfl

def tracedFinal : List Token → Traced Float
  | .number value :: _ => ⟨[.value value], .ok value⟩
  | ts => .lift (final false ts)

theorem final_eq_under (checks : Bool) (ts : List Token) : final checks ts = (tracedFinal ts).under checks := by
  unfold tracedFinal
  split
  · rename_i value rest
    cases checks with
    | false => rfl
    | true =>
      simp only [Traced.under_true, List.findSome?_cons, List.findSome?_nil, Event.refusal?, final]
      cases value.isFinite <;> rfl
  · rename_i hne
    rw [Traced.under_lift]
    unfold final
    split <;> first | rfl | exact absurd rfl (hne _ _)

def tracedValue (ts : List Token) : Traced Float :=
  if ts.length ≤ 1 then tracedFinal ts
  else
    match _h : (tracedAdvance ts).outcome with
    | .error f => ⟨(tracedAdvance ts).events, .error f⟩
    | .ok shorter => ⟨(tracedAdvance ts).events ++ (tracedValue shorter).events, (tracedValue shorter).outcome⟩
termination_by ts.length
decreasing_by all_goals exact advance_length ((advance_eq_under false ts).trans ‹_›)

theorem tracedValue_of_length_le_one {ts : List Token} (h : ts.length ≤ 1) : tracedValue ts = tracedFinal ts := by
  rw [tracedValue, if_pos h]

theorem tracedValue_of_one_lt_length {ts : List Token} (h : 1 < ts.length) :
    tracedValue ts = (tracedAdvance ts).bind tracedValue := by
  rw [tracedValue, if_neg (by omega), Traced.bind]
  split <;> rename_i hs <;> rw [hs]

/-- **Folding with and without checks is the traced folding** under checks and under none. -/
theorem value_eq_under (checks : Bool) (ts : List Token) : value checks ts = (tracedValue ts).under checks := by
  fun_induction value checks ts with
  | case1 ts hlength => rw [tracedValue_of_length_le_one hlength, final_eq_under]
  | case2 ts hlength f hf =>
    rw [tracedValue_of_one_lt_length (by omega), Traced.under_bind, ← advance_eq_under, hf]
    rfl
  | case3 ts hlength shorter hshorter ih =>
    rw [tracedValue_of_one_lt_length (by omega), Traced.under_bind, ← advance_eq_under, hshorter, ih]
    rfl

theorem tracedFinal_lands (ts : List Token) : (tracedFinal ts).Lands := by
  unfold tracedFinal
  split
  · intro v hv
    cases hv
    rfl
  · rename_i hne
    unfold final
    split <;> first | exact Traced.lands_error _ _ | exact absurd rfl (hne _ _)

theorem tracedValue_lands (ts : List Token) : (tracedValue ts).Lands := by
  fun_induction tracedValue ts with
  | case1 ts hlength => exact tracedFinal_lands ts
  | case2 ts hlength f hf => exact Traced.lands_error _ f
  | case3 ts hlength shorter hshorter ih => exact ih.append _

def tracedEvaluate (ts : List Token) : Traced Float := (Traced.lift (canonical ts)).bind tracedValue

theorem evaluate_eq_under (checks : Bool) (ts : List Token) :
    evaluate checks ts = (tracedEvaluate ts).under checks := by
  unfold evaluate tracedEvaluate
  rw [Traced.under_bind, Traced.under_lift]
  cases canonical ts with
  | error f => rfl
  | ok out => exact value_eq_under checks out

end Flat

/-! ## Groups -/

namespace Group

def tracedCollapse (ts : List Token) (start stop : Nat) : Traced (List Token) :=
  match Token.between? ts start stop with
  | none => .lift (.error (.outOfRange start stop))
  | some inside =>
    (Flat.tracedEvaluate inside).bind fun value =>
      match Token.splice? ts start stop value with
      | none => .lift (.error (.outOfRange start stop))
      | some out => .lift (.ok out)

theorem collapse_eq_under (checks : Bool) (ts : List Token) (start stop : Nat) :
    collapse checks ts start stop = (tracedCollapse ts start stop).under checks := by
  unfold collapse tracedCollapse
  cases Token.between? ts start stop with
  | none => exact (Traced.under_lift checks _).symm
  | some inside =>
    simp only [Traced.under_bind, ← Flat.evaluate_eq_under]
    cases Flat.evaluate checks inside with
    | error f => rfl
    | ok value => cases hsplice : Token.splice? ts start stop value <;> simp [hsplice, Except.bind]

/-- The value of an expression with brackets, traced. -/
def traced (ts : List Token) : Traced Float :=
  match _hg : innermost ts with
  | .error f => .lift (.error f)
  | .ok none => Flat.tracedEvaluate ts
  | .ok (some (start, stop)) =>
    match _h : (tracedCollapse ts start stop).outcome with
    | .error f => ⟨(tracedCollapse ts start stop).events, .error f⟩
    | .ok shorter => ⟨(tracedCollapse ts start stop).events ++ (traced shorter).events, (traced shorter).outcome⟩
termination_by ts.length
decreasing_by
  all_goals
    exact collapse_length (innermostFrom_lt ts 0 none (by simp) ‹_›)
      ((collapse_eq_under false ts start stop).trans ‹_›)

theorem traced_of_error {ts : List Token} {f : Failure} (h : innermost ts = .error f) :
    traced ts = .lift (.error f) := by
  rw [traced]
  split <;> simp_all

theorem traced_of_none {ts : List Token} (h : innermost ts = .ok none) : traced ts = Flat.tracedEvaluate ts := by
  rw [traced]
  split <;> simp_all

theorem traced_of_some {ts : List Token} {start stop : Nat} (h : innermost ts = .ok (some (start, stop))) :
    traced ts = (tracedCollapse ts start stop).bind traced := by
  rw [traced, Traced.bind]
  split
  · simp_all
  · simp_all
  · rename_i a b hab
    rw [h] at hab
    cases hab
    split <;> rename_i hs <;> rw [hs]

/-- **Evaluation with and without checks is the traced one** under checks and under none. -/
theorem resolve_eq_under (checks : Bool) (ts : List Token) : resolve checks ts = (traced ts).under checks := by
  fun_induction resolve checks ts with
  | case1 ts f hf => rw [traced_of_error hf, Traced.under_lift]
  | case2 ts hnone => rw [traced_of_none hnone, Flat.evaluate_eq_under]
  | case3 ts start stop hgroup f hf =>
    rw [traced_of_some hgroup, Traced.under_bind, ← collapse_eq_under, hf]
    rfl
  | case4 ts start stop hgroup shorter hshorter ih =>
    rw [traced_of_some hgroup, Traced.under_bind, ← collapse_eq_under, hshorter, ih]
    rfl

/-- **A value that comes out at the end was passed last.** -/
theorem traced_lands (ts : List Token) : (traced ts).Lands := by
  fun_induction traced ts with
  | case1 ts f hf => exact Traced.lands_error _ f
  | case2 ts hnone => exact Traced.lands_bind Flat.tracedValue_lands
  | case3 ts start stop hgroup f hf => exact Traced.lands_error _ f
  | case4 ts start stop hgroup shorter hshorter ih => exact ih.append _

end Group
end Reckoner

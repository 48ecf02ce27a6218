import Mathlib.Data.Nat.PSub
import Reckoner.Proofs.Acceptance

/-!
# Ranges — no evaluation reaches outside its list

A machine that evaluates has three ways to break down: it takes tokens from a range that does not lie in their list, it
counts below zero, or it never ends.  `Flat.round` and `Group.round` are the rounds of the two loops on such a machine:
every difference is a partial one, every range is looked at before it is used, and a round that cannot go on is trapped.
On any list at all, valid expression or not, no round is trapped and every round leaves fewer tokens
(`Flat.round_steps`, `Group.round_steps`), so a loop ends within as many rounds as there are tokens, with the outcome
of the evaluation (`Round.run_eq_some`).  That outcome is never the failure that stands for a bad range
(`Failure.InRange`).
-/
namespace Reckoner

/-- How one round of a loop ends. -/
inductive Round where
  /-- The loop goes on with these tokens. -/
  | next (ts : List Token)
  | done (outcome : Except Failure Float)
  /-- A range outside its list, or a number below zero. -/
  | trapped

namespace Round

/-- **A loop that is given so many rounds**: its outcome, unless it is trapped or needs more. -/
def run (round : List Token → Round) : Nat → List Token → Option (Except Failure Float)
  | 0, _ => none
  | rounds + 1, ts =>
    match round ts with
    | .next out => run round rounds out
    | .done outcome => some outcome
    | .trapped => none

/-- **What a round does on the way to an outcome**: it is done with it, or leaves fewer tokens with the same outcome. -/
def Steps (outcome : List Token → Except Failure Float) (ts : List Token) (round : Round) : Prop :=
  round = .done (outcome ts) ∨ ∃ out, round = .next out ∧ out.length < ts.length ∧ outcome ts = outcome out

/-- **A loop whose rounds all step ends in its outcome**, after no more rounds than there are tokens and one. -/
theorem run_eq_some {round : List Token → Round} {outcome : List Token → Except Failure Float}
    (h : ∀ ts, Steps outcome ts (round ts)) : ∀ (rounds : Nat) (ts : List Token), ts.length < rounds →
      run round rounds ts = some (outcome ts)
  | 0, ts, hlt => by cases hlt
  | rounds + 1, ts, hlt => by
    obtain hdone | ⟨out, hnext, hlength, houtcome⟩ := h ts
    · rw [run, hdone]
    · have ih := run_eq_some h rounds out (by omega)
      rw [run, hnext, houtcome]
      exact ih

end Round

namespace Token

/-- **One number in place of a stretch of tokens**, the room for what is left counted first. -/
def replace? (ts : List Token) (start stop : Nat) (value : Float) : Option (List Token) :=
  (Nat.psub (ts.length + start) stop).bind fun _ => splice? ts start stop value

theorem replace?_eq_some {ts : List Token} {start stop : Nat} (value : Float) (hlt : start < stop)
    (hstop : stop < ts.length) :
    ∃ out, splice? ts start stop value = some out ∧ replace? ts start stop value = some out ∧
      out.length < ts.length := by
  have hsplice : splice? ts start stop value = some (ts.take start ++ number value :: ts.drop (stop + 1)) :=
    splice?_eq_some_iff.2 ⟨by omega, hstop, rfl⟩
  have hroom : Nat.psub (ts.length + start) stop = some (ts.length + start - stop) := Nat.psub_eq_sub (by omega)
  refine ⟨_, hsplice, ?_, splice?_length hlt hsplice⟩
  rw [replace?, hroom]
  exact hsplice

end Token

/-- An outcome that is not about a stretch of tokens outside its list. -/
def Failure.InRange {α : Type} (outcome : Except Failure α) : Prop :=
  ∀ start stop, outcome ≠ .error (.outOfRange start stop)

open Failure (InRange)

namespace Failure

variable {α β : Type} {x : Except Failure α} {f : Failure}

theorem inRange_ok (value : α) : InRange (.ok value) := fun _ _ h => by cases h

theorem inRange_of_syntaxError (h : ∀ f, x = .error f → f.kind = .syntaxError) : InRange x := by
  intro start stop hx
  have hkind := h _ hx
  cases hkind

/-- A failure that is passed on. -/
theorem InRange.error (h : InRange x) (hx : x = .error f) : InRange (.error f : Except Failure β) := by
  intro start stop hf
  cases hf
  exact h start stop hx

end Failure

open Failure (inRange_ok inRange_of_syntaxError)

/-! ## Folding -/

namespace Flat

/-- **A step has a neighbour on both sides**, whatever list it was found in. -/
theorem nextStep_inside {ts : List Token} {s : Step} (h : nextStep ts = .ok s) :
    0 < s.position ∧ s.position + 1 < ts.length := by
  obtain ⟨front, back, rfl, hposition⟩ := exists_append_of_nextStep h
  simp only [List.length_append, List.length_cons]
  omega

/-- **One round of folding.** -/
def round (checks : Bool) (ts : List Token) : Round :=
  if ts.length ≤ 1 then .done (final checks ts)
  else
    match nextStep ts with
    | .error f => .done (.error f)
    | .ok s =>
      match (if checks then s.refusal? else none) with
      | some f => .done (.error f)
      | none =>
        match (Nat.psub s.position 1).bind fun start => Token.replace? ts start (s.position + 1) s.result with
        | some out => .next out
        | none => .trapped

theorem round_steps (checks : Bool) (ts : List Token) : Round.Steps (value checks) ts (round checks ts) := by
  unfold round
  by_cases hlength : ts.length ≤ 1
  · rw [if_pos hlength]
    exact .inl (by rw [value_of_length_le_one hlength])
  · rw [if_neg hlength]
    have hvalue : value checks ts = (advance checks ts).bind (value checks) := value_of_one_lt_length (by omega)
    cases hstep : nextStep ts with
    | error f =>
      have hadvance : advance checks ts = .error f := by rw [advance, hstep]
      exact .inl (by rw [hvalue, hadvance]; rfl)
    | ok s =>
      obtain ⟨hpositive, hinside⟩ := nextStep_inside hstep
      have hordered : s.position - 1 < s.position + 1 := by omega
      obtain ⟨out, hsplice, hreplace, hshorter⟩ := Token.replace?_eq_some s.result hordered hinside
      have hbefore : Nat.psub s.position 1 = some (s.position - 1) := Nat.psub_eq_sub hpositive
      cases hrefusal : (if checks then s.refusal? else none) with
      | some f =>
        have hadvance : advance checks ts = .error f := by rw [advance, hstep]; simp only [hrefusal]
        exact .inl (by rw [hvalue, hadvance]; simp only [hrefusal]; rfl)
      | none =>
        have hadvance : advance checks ts = .ok out := by
          rw [advance, hstep]
          simp only [hrefusal, Step.run, hsplice]
        refine .inr ⟨out, ?_, hshorter, by rw [hvalue, hadvance]; rfl⟩
        simp only [hrefusal, hbefore, Option.bind_some, hreplace]

/-- A bracket-free expression evaluated round by round. -/
def evaluateGuarded (checks : Bool) (ts : List Token) : Option (Except Failure Float) :=
  match canonical ts with
  | .error f => some (.error f)
  | .ok out => Round.run (round checks) (out.length + 1) out

theorem evaluateGuarded_eq_some (checks : Bool) (ts : List Token) :
    evaluateGuarded checks ts = some (evaluate checks ts) := by
  unfold evaluateGuarded evaluate
  cases canonical ts with
  | error f => rfl
  | ok out => exact Round.run_eq_some (round_steps checks) (out.length + 1) out (Nat.lt_succ_self _)

/-! ### What is never reported -/

theorem inRange_canonical (ts : List Token) : InRange (canonical ts) :=
  inRange_of_syntaxError fun _ h => kind_of_canonical h

theorem inRange_operand (operator : Operator) (t : Option Token) : InRange (operand operator t) := by
  intro start stop h
  unfold operand at h
  split at h <;> cases h

theorem inRange_nextStep (ts : List Token) : InRange (nextStep ts) := by
  unfold nextStep
  split
  · exact fun start stop h => by cases h
  · split
    · exact fun start stop h => by cases h
    · split
      · exact (inRange_operand _ _).error ‹_›
      · split
        · exact (inRange_operand _ _).error ‹_›
        · exact inRange_ok _

theorem refusal?_ne_outOfRange (s : Step) (start stop : Nat) : s.refusal? ≠ some (.outOfRange start stop) := by
  intro h
  unfold Step.refusal? at h
  split at h
  · cases h
  · split at h
    · cases h
    · split at h <;> cases h

theorem inRange_final (checks : Bool) (ts : List Token) : InRange (final checks ts) := by
  intro start stop h
  unfold final at h
  split at h
  · cases h
  · split at h <;> cases h
  · cases h
  · cases h

theorem inRange_advance (checks : Bool) (ts : List Token) : InRange (advance checks ts) := by
  unfold advance
  cases hstep : nextStep ts with
  | error f => exact (inRange_nextStep ts).error hstep
  | ok s =>
    simp only
    split
    · rename_i f hf
      intro start stop h
      cases h
      cases checks with
      | false => cases hf
      | true => exact refusal?_ne_outOfRange s start stop hf
    · have hordered : s.position - 1 < s.position + 1 := by omega
      obtain ⟨out, hsplice, _⟩ := Token.replace?_eq_some s.result hordered (nextStep_inside hstep).2
      rw [Step.run, hsplice]
      exact inRange_ok out

theorem inRange_value (checks : Bool) (ts : List Token) : InRange (value checks ts) := by
  fun_induction value checks ts with
  | case1 ts hlength => exact inRange_final checks ts
  | case2 ts hlength f hf => exact (inRange_advance checks ts).error hf
  | case3 ts hlength shorter hshorter ih => exact ih

theorem inRange_evaluate (checks : Bool) (ts : List Token) : InRange (evaluate checks ts) := by
  unfold evaluate
  cases hcanonical : canonical ts with
  | error f => exact (inRange_canonical ts).error hcanonical
  | ok out => exact inRange_value checks out

end Flat

/-! ## Groups -/

namespace Group

theorem innermost_inside {ts : List Token} {start stop : Nat} (h : innermost ts = .ok (some (start, stop))) :
    start < stop ∧ stop < ts.length := by
  obtain ⟨pre, inside, post, rfl, _, rfl, rfl⟩ := exists_group_of_innermost h
  simp only [List.length_append, List.length_cons]
  omega

theorem inRange_innermost (ts : List Token) : InRange (innermost ts) := by
  cases brackets ts with
  | none _ hts =>
    rw [innermost_none hts]
    exact inRange_ok none
  | group pre inside post hpre hinside =>
    rw [innermost_group hpre hinside]
    exact inRange_ok _
  | unopened pre post hpre =>
    rw [innermost_unopened hpre]
    exact fun start stop h => by cases h
  | unclosed pre post hpre hpost =>
    rw [innermost_unclosed hpre hpost]
    exact fun start stop h => by cases h

/-- **One round of resolving groups.** -/
def round (checks : Bool) (ts : List Token) : Round :=
  match innermost ts with
  | .error f => .done (.error f)
  | .ok none =>
    match Flat.evaluateGuarded checks ts with
    | some outcome => .done outcome
    | none => .trapped
  | .ok (some (start, stop)) =>
    match (Token.between? ts start stop).bind (Flat.evaluateGuarded checks) with
    | none => .trapped
    | some (.error f) => .done (.error f)
    | some (.ok value) =>
      match Token.replace? ts start stop value with
      | some out => .next out
      | none => .trapped

theorem round_steps (checks : Bool) (ts : List Token) : Round.Steps (resolve checks) ts (round checks ts) := by
  unfold round
  cases hgroup : innermost ts with
  | error f => exact .inl (by rw [resolve_of_error hgroup])
  | ok found =>
    cases found with
    | none => exact .inl (by simp only [Flat.evaluateGuarded_eq_some, resolve_of_none hgroup])
    | some places =>
      obtain ⟨start, stop⟩ := places
      obtain ⟨hlt, hstop⟩ := innermost_inside hgroup
      have hbetween : Token.between? ts start stop = some ((ts.take stop).drop (start + 1)) :=
        Token.between?_eq_some_iff.2 ⟨hlt, Nat.le_of_lt hstop, rfl⟩
      have hresolve : resolve checks ts = (collapse checks ts start stop).bind (resolve checks) :=
        resolve_of_some hgroup
      unfold collapse at hresolve
      simp only [hbetween, Option.bind_some, Flat.evaluateGuarded_eq_some] at hresolve ⊢
      cases hvalue : Flat.evaluate checks ((ts.take stop).drop (start + 1)) with
      | error f =>
        rw [hvalue] at hresolve
        exact .inl (by rw [hresolve]; rfl)
      | ok value =>
        obtain ⟨out, hsplice, hreplace, hshorter⟩ := Token.replace?_eq_some value hlt hstop
        rw [hvalue] at hresolve
        simp only [hsplice] at hresolve
        refine .inr ⟨out, ?_, hshorter, by rw [hresolve]; rfl⟩
        simp only [hreplace]

theorem inRange_collapse {checks : Bool} {ts : List Token} {start stop : Nat} (hlt : start < stop)
    (hstop : stop < ts.length) : InRange (collapse checks ts start stop) := by
  have hbetween : Token.between? ts start stop = some ((ts.take stop).drop (start + 1)) :=
    Token.between?_eq_some_iff.2 ⟨hlt, Nat.le_of_lt hstop, rfl⟩
  unfold collapse
  simp only [hbetween]
  cases hvalue : Flat.evaluate checks ((ts.take stop).drop (start + 1)) with
  | error f => exact (Flat.inRange_evaluate checks _).error hvalue
  | ok value =>
    obtain ⟨out, hsplice, _⟩ := Token.replace?_eq_some value hlt hstop
    simp only [hsplice]
    exact inRange_ok out

theorem inRange_resolve (checks : Bool) (ts : List Token) : InRange (resolve checks ts) := by
  fun_induction resolve checks ts with
  | case1 ts f hf => exact (inRange_innermost ts).error hf
  | case2 ts hnone => exact Flat.inRange_evaluate checks ts
  | case3 ts start stop hgroup f hf =>
    obtain ⟨hlt, hstop⟩ := innermost_inside hgroup
    exact (inRange_collapse hlt hstop).error hf
  | case4 ts start stop hgroup shorter hshorter ih => exact ih

end Group

/-! ## Lines -/

namespace Calculator

/-- **The value of a line**, its groups resolved round by round. -/
def outcomeGuarded (c : Calculator) (line : String) : Option (Except Failure Float) :=
  match Line.tokens c.settings.rootSymbol line with
  | .error f => some (.error f)
  | .ok ts =>
    Round.run (Group.round c.settings.domainChecks) (ts.length + 1) (Token.bindAnswer c.lastAnswer ts)

theorem outcomeGuarded_eq_some (c : Calculator) (line : String) : c.outcomeGuarded line = some (c.outcome line) := by
  unfold outcomeGuarded outcome
  cases Line.tokens c.settings.rootSymbol line with
  | error f => rfl
  | ok ts =>
    have hlength : (Token.bindAnswer c.lastAnswer ts).length < ts.length + 1 := by
      rw [Token.length_bindAnswer]
      exact Nat.lt_succ_self _
    exact Round.run_eq_some (Group.round_steps c.settings.domainChecks) _ _ hlength

theorem inRange_outcome (c : Calculator) (line : String) : InRange (c.outcome line) := by
  have htokens : InRange (Line.tokens c.settings.rootSymbol line) :=
    inRange_of_syntaxError fun _ h => Line.kind_of_tokens h
  unfold outcome
  cases h : Line.tokens c.settings.rootSymbol line with
  | error f => exact htokens.error h
  | ok ts => exact Group.inRange_resolve _ _

/-- **Every evaluation ends in a value or a failure of its own, and none breaks down on the way.**  Whatever tokens
are folded, evaluated or resolved, checked or not, and whatever line is evaluated in whatever state: the rounds of the
loops, which would be trapped by a range outside its list or a number below zero, come to the outcome within as many
rounds as there are tokens and one; and neither there nor in a canonical form is the failure of a bad range. -/
theorem outcomes_in_range :
    (∀ ts, InRange (Flat.canonical ts)) ∧
      (∀ checks ts, Round.run (Flat.round checks) (ts.length + 1) ts = some (Flat.value checks ts) ∧
        InRange (Flat.value checks ts)) ∧
      (∀ checks ts, Flat.evaluateGuarded checks ts = some (Flat.evaluate checks ts) ∧
        InRange (Flat.evaluate checks ts)) ∧
      (∀ checks ts, Round.run (Group.round checks) (ts.length + 1) ts = some (Group.resolve checks ts) ∧
        InRange (Group.resolve checks ts)) ∧
      ∀ (c : Calculator) (line : String), c.outcomeGuarded line = some (c.evaluate line).1 ∧
        InRange (c.evaluate line).1 := by
  refine ⟨Flat.inRange_canonical, fun checks ts => ⟨?_, Flat.inRange_value checks ts⟩, fun checks ts =>
    ⟨Flat.evaluateGuarded_eq_some checks ts, Flat.inRange_evaluate checks ts⟩, fun checks ts =>
    ⟨?_, Group.inRange_resolve checks ts⟩, fun c line => ⟨outcomeGuarded_eq_some c line, inRange_outcome c line⟩⟩
  · exact Round.run_eq_some (Flat.round_steps checks) _ ts (Nat.lt_succ_self _)
  · exact Round.run_eq_some (Group.round_steps checks) _ ts (Nat.lt_succ_self _)

end Calculator
end Reckoner

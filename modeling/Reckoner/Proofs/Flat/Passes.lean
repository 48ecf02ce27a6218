import Reckoner.Proofs.Checks

/-!
# Flat.Passes — folding as three passes

A list has a value only if numbers and operators take turns in it (`exists_chain_of_value`).  Folding such a list is
three passes over it: the first joins the neighbours of every power and root from left to right, the second those of
the products and quotients, the third those of the sums and differences (`tracedValue_tokens`).
-/
namespace Reckoner

def Rank.level : Rank → Nat
  | .operand => 0
  | .additive => 1
  | .multiplicative => 2
  | .exponent => 3

theorem Rank.level_injective : Function.Injective Rank.level := by
  intro rank rank' h
  cases rank <;> cases rank' <;> first | rfl | cases h

theorem Rank.level_lt {rank rank' : Rank} (hle : rank.level ≤ rank'.level) (hne : rank ≠ rank') :
    rank.level < rank'.level :=
  Nat.lt_of_le_of_ne hle fun h => hne (level_injective h)

namespace Flat

/-! ## Chains -/

/-- **Operands and the operators between them**: the first operand, and every operator with what stands behind it. -/
structure Chain (α : Type) where
  head : α
  tail : List (Operator × α)

namespace Chain

variable {α : Type}

def operators (c : Chain α) : List Operator := c.tail.map Prod.fst

def written (operand : α → List Token) (c : Chain α) : List Token :=
  operand c.head ++ c.tail.flatMap fun link => .op link.1 :: operand link.2

def tokens (c : Chain Float) : List Token := c.written fun x => [.number x]

theorem tokens_nil (x : Float) : tokens ⟨x, []⟩ = [.number x] := rfl

theorem tokens_cons (x : Float) (operator : Operator) (y : Float) (tail : List (Operator × Float)) :
    tokens ⟨x, (operator, y) :: tail⟩ = .number x :: .op operator :: tokens ⟨y, tail⟩ := rfl

theorem op_mem_tokens {operator : Operator} : ∀ (tail : List (Operator × Float)) (x : Float),
    .op operator ∈ tokens ⟨x, tail⟩ ↔ operator ∈ tail.map Prod.fst
  | [], x => by simp [tokens_nil]
  | (o, y) :: tail, x => by simp [tokens_cons, op_mem_tokens tail y]

theorem alternates_tokens : ∀ (tail : List (Operator × Float)) (x : Float), alternates true (tokens ⟨x, tail⟩) = true
  | [], _ => rfl
  | (_, y) :: tail, _ => alternates_tokens tail y

end Chain

open Chain (tokens)

theorem exists_chain_of_alternates : ∀ ts : List Token, alternates true ts = true → ∃ c : Chain Float, ts = c.tokens
  | [.number x], _ => ⟨⟨x, []⟩, rfl⟩
  | .number x :: .op operator :: ts, h => by
    rcases exists_chain_of_alternates ts h with ⟨c, rfl⟩
    exact ⟨⟨x, (operator, c.head) :: c.tail⟩, rfl⟩

/-- **Folding comes to a value only on a chain.** -/
theorem exists_chain_of_value {checks : Bool} {ts : List Token} {v : Float} (h : value checks ts = .ok v) :
    ∃ c : Chain Float, ts = c.tokens := by
  fun_induction value checks ts with
  | case1 ts hlength =>
    rcases ts with _ | ⟨t, _ | ⟨u, ts⟩⟩
    · cases h
    · cases t with
      | number x => exact ⟨⟨x, []⟩, rfl⟩
      | _ => cases h
    · simp at hlength
  | case2 ts hlength f hf => cases h
  | case3 ts hlength shorter hshorter ih =>
    rcases exists_append_of_advance hshorter with ⟨front, x, operator, y, back, rfl, rfl⟩
    rcases ih h with ⟨c, hc⟩
    refine exists_chain_of_alternates _ ?_
    rw [alternates_result x y (operator.apply x y), hc]
    exact Chain.alternates_tokens c.tail c.head

/-! ## Passes -/

section Pass

variable {α : Type} (join : Operator → α → α → α) (rank : Rank)

/-- **One pass**: every operator of the rank joins its two neighbours, from left to right. -/
def pass (x : α) : List (Operator × α) → Chain α
  | [] => ⟨x, []⟩
  | (operator, y) :: tail =>
    if operator.rank = rank then pass (join operator x y) tail
    else ⟨x, (operator, (pass y tail).head) :: (pass y tail).tail⟩

theorem operators_pass : ∀ (tail : List (Operator × α)) (x : α),
    (pass join rank x tail).operators = (tail.map Prod.fst).filter fun operator => operator.rank ≠ rank
  | [], x => rfl
  | (operator, y) :: tail, x => by
    rw [pass, List.map_cons]
    by_cases hrank : operator.rank = rank
    · rw [if_pos hrank, List.filter_cons_of_neg (by simpa using hrank), operators_pass tail]
    · have ih := operators_pass tail y
      rw [if_neg hrank, List.filter_cons_of_pos (by simpa using hrank), ← ih]
      rfl

namespace Chain

def pass (c : Chain α) : Chain α := Flat.pass join rank c.head c.tail

/-- **The three passes**, the tightest rank first. -/
def passes (c : Chain α) : Chain α := ((c.pass join .exponent).pass join .multiplicative).pass join .additive

variable {c : Chain α} {join rank}

theorem mem_operators_pass {operator : Operator} :
    operator ∈ (c.pass join rank).operators ↔ operator ∈ c.operators ∧ operator.rank ≠ rank := by
  rw [pass, operators_pass, List.mem_filter, decide_eq_true_eq, operators]

theorem tail_passes : (c.passes join).tail = [] := by
  have hnone : ∀ operator, operator ∉ (c.passes join).operators := by
    intro operator hmem
    simp only [passes, mem_operators_pass] at hmem
    cases operator <;> simp [Operator.rank] at hmem
  exact List.map_eq_nil_iff.1 (List.eq_nil_iff_forall_not_mem.2 hnone)

end Chain

end Pass

/-! ## Folding a chain -/

theorem findIdx?_hasRank_eq_none {rank : Rank} {ts : List Token} (h : ∀ o, .op o ∈ ts → o.rank ≠ rank) :
    ts.findIdx? (hasRank rank) = none := by
  refine List.findIdx?_eq_none_iff.2 fun t ht => ?_
  cases t with
  | op operator => simpa [hasRank, Token.operator?] using h operator ht
  | _ => rfl

/-- **The next step is the first operator that no other one outranks.** -/
theorem nextPosition?_append {front back : List Token} {operator : Operator}
    (hfront : ∀ o, .op o ∈ front → o.rank.level < operator.rank.level)
    (hback : ∀ o, .op o ∈ back → o.rank.level ≤ operator.rank.level) :
    nextPosition? (front ++ .op operator :: back) = some front.length := by
  have hhigher : ∀ rank : Rank, operator.rank.level < rank.level →
      (front ++ .op operator :: back).findIdx? (hasRank rank) = none := by
    intro rank hlt
    refine findIdx?_hasRank_eq_none ?_
    rintro o ho rfl
    rcases List.mem_append.1 ho with hmem | hmem
    · exact absurd (hfront o hmem) (by omega)
    · rcases List.mem_cons.1 hmem with hsame | hmem
      · cases hsame
        omega
      · exact absurd (hback o hmem) (by omega)
  have hown : (front ++ .op operator :: back).findIdx? (hasRank operator.rank) = some front.length := by
    have hbefore : front.findIdx? (hasRank operator.rank) = none := by
      refine findIdx?_hasRank_eq_none fun o ho hrank => ?_
      exact absurd (hfront o ho) (by rw [hrank]; omega)
    rw [List.findIdx?_append, hbefore]
    simp [List.findIdx?_cons, hasRank, Token.operator?]
  unfold nextPosition?
  cases hrank : operator.rank with
  | operand => cases operator <;> cases hrank
  | additive =>
    rw [hrank] at hown hhigher
    rw [hhigher .exponent (by decide), hhigher .multiplicative (by decide), hown]
    rfl
  | multiplicative =>
    rw [hrank] at hown hhigher
    rw [hhigher .exponent (by decide), hown]
    rfl
  | exponent =>
    rw [hrank] at hown
    rw [hown]
    rfl

def stepsThen {α : Type} (steps : List Step) (t : Traced α) : Traced α := ⟨steps.map .step ++ t.events, t.outcome⟩

theorem stepsThen_append {α : Type} (steps steps' : List Step) (t : Traced α) :
    stepsThen (steps ++ steps') t = stepsThen steps (stepsThen steps' t) := by
  simp [stepsThen]

/-- The steps of a pass; the operator behind `x` stands at `position`. -/
def passSteps (rank : Rank) (position : Nat) (x : Float) : List (Operator × Float) → List Step
  | [] => []
  | (operator, y) :: tail =>
    if operator.rank = rank then
      ⟨position, operator, x, y⟩ :: passSteps rank position (operator.apply x y) tail
    else passSteps rank (position + 2) y tail

theorem tracedValue_step {front : List Token} {operator : Operator} {tail : List (Operator × Float)} (x y : Float)
    (hfront : ∀ o, .op o ∈ front → o.rank.level < operator.rank.level)
    (htail : ∀ o ∈ tail.map Prod.fst, o.rank.level ≤ operator.rank.level) :
    tracedValue (front ++ tokens ⟨x, (operator, y) :: tail⟩) =
      stepsThen [⟨front.length + 1, operator, x, y⟩] (tracedValue (front ++ tokens ⟨operator.apply x y, tail⟩)) := by
  obtain ⟨back, hback⟩ : ∃ back, ∀ z : Float, tokens ⟨z, tail⟩ = .number z :: back :=
    ⟨tail.flatMap fun link => [.op link.1, .number link.2], fun _ => rfl⟩
  have hposition := @nextPosition?_append (front ++ [.number x]) (tokens ⟨y, tail⟩) operator (by simpa using hfront)
    fun o ho => htail o ((Chain.op_mem_tokens tail y).1 ho)
  rw [hback, List.append_assoc, List.singleton_append, List.length_append, List.length_singleton] at hposition
  have hstep := run_append front back x y operator
  rw [Chain.tokens_cons, hback, hback, tracedValue_of_one_lt_length (by simp; omega), tracedAdvance,
    nextStep_append hposition]
  simp only [Traced.bind, hstep, stepsThen, List.map_cons, List.map_nil]

/-- **A pass of folding**: as long as no operator outranks those of the pass, the steps that are taken are its steps. -/
theorem tracedValue_append_tokens {rank : Rank} : ∀ (tail : List (Operator × Float)) (x : Float) (front : List Token),
    (∀ o, .op o ∈ front → o.rank.level < rank.level) → (∀ o ∈ tail.map Prod.fst, o.rank.level ≤ rank.level) →
      tracedValue (front ++ tokens ⟨x, tail⟩) = stepsThen (passSteps rank (front.length + 1) x tail)
        (tracedValue (front ++ (pass Operator.apply rank x tail).tokens))
  | [], x, front, _, _ => rfl
  | (operator, y) :: tail, x, front, hfront, htail => by
    rcases List.forall_mem_cons.1 htail with ⟨hoperator, htail⟩
    rw [pass, passSteps]
    by_cases hrank : operator.rank = rank
    · -- the operator is the next to be folded, and what stands in front stays as it is
      have ih := tracedValue_append_tokens tail (operator.apply x y) front hfront htail
      subst hrank
      rw [if_pos rfl, if_pos rfl, tracedValue_step x y hfront htail, ih, ← stepsThen_append, List.singleton_append]
    · -- the operator comes later, and the pass goes on behind it
      have hlt := Rank.level_lt hoperator hrank
      have hfront' : ∀ o, .op o ∈ front ++ [.number x, .op operator] → o.rank.level < rank.level := by
        simpa [or_imp, forall_and, hlt] using hfront
      have ih := tracedValue_append_tokens tail y _ hfront' htail
      rw [if_neg hrank, if_neg hrank, Chain.tokens_cons, Chain.tokens_cons]
      simpa using ih

namespace Chain

def passSteps (rank : Rank) (c : Chain Float) : List Step := Flat.passSteps rank 1 c.head c.tail

/-- **The steps of the three passes**, one pass after the other. -/
def steps (c : Chain Float) : List Step :=
  let second := c.pass Operator.apply .exponent
  let third := second.pass Operator.apply .multiplicative
  c.passSteps .exponent ++ second.passSteps .multiplicative ++ third.passSteps .additive

/-- **The value of a chain**, which is all that three passes leave. -/
def value (c : Chain Float) : Float := (c.passes Operator.apply).head

theorem tokens_passes (c : Chain Float) : (c.passes Operator.apply).tokens = [.number c.value] := by
  rw [tokens, written, tail_passes]
  rfl

theorem level_lt_of_mem_pass {c : Chain Float} {rank : Rank} (h : ∀ o ∈ c.operators, o.rank.level ≤ rank.level) :
    ∀ o ∈ (c.pass Operator.apply rank).operators, o.rank.level < rank.level := by
  intro o ho
  rcases mem_operators_pass.1 ho with ⟨hmem, hne⟩
  exact Rank.level_lt (h o hmem) hne

end Chain

theorem tracedValue_pass {c : Chain Float} {rank : Rank} (h : ∀ o ∈ c.operators, o.rank.level ≤ rank.level) :
    tracedValue c.tokens = stepsThen (c.passSteps rank) (tracedValue (c.pass Operator.apply rank).tokens) :=
  tracedValue_append_tokens c.tail c.head [] (by simp) h

/-- **Folding a chain takes the steps of the three passes**, and comes to what they leave. -/
theorem tracedValue_tokens (c : Chain Float) :
    tracedValue c.tokens = stepsThen c.steps ⟨[.value c.value], .ok c.value⟩ := by
  have hfirst : ∀ o ∈ c.operators, o.rank.level ≤ Rank.exponent.level := by
    intro o _
    cases o <;> decide
  have hsecond : ∀ o ∈ (c.pass Operator.apply .exponent).operators, o.rank.level ≤ Rank.multiplicative.level :=
    fun o ho => Nat.le_of_lt_succ (Chain.level_lt_of_mem_pass hfirst o ho)
  have hthird : ∀ o ∈ ((c.pass Operator.apply .exponent).pass Operator.apply .multiplicative).operators,
      o.rank.level ≤ Rank.additive.level :=
    fun o ho => Nat.le_of_lt_succ (Chain.level_lt_of_mem_pass hsecond o ho)
  have hlast := c.tokens_passes
  rw [Chain.passes] at hlast
  rw [tracedValue_pass hfirst, tracedValue_pass hsecond, tracedValue_pass hthird, hlast, ← stepsThen_append,
    ← stepsThen_append, tracedValue_of_length_le_one (by simp)]
  rfl

-- power and root first, then the product, then sum and difference, each where the steps before have left it
example : (Chain.steps ⟨2, [(.add, 3), (.power, 2), (.multiply, 4), (.root, 1), (.subtract, 5)]⟩).map
    (fun s => (s.operator, s.position)) = [(.power, 3), (.root, 5), (.multiply, 3), (.add, 1), (.subtract, 1)] := by
  decide

theorem value_false_tokens (c : Chain Float) : value false c.tokens = .ok c.value := by
  rw [value_eq_under, tracedValue_tokens]
  rfl

/-- **Checks look at the steps in the order of the passes**, and at what is left after them. -/
theorem value_true_tokens (c : Chain Float) :
    match c.steps.find? fun s => !s.result.isFinite with
    | some s => ∃ f, s.refusal? = some f ∧ value true c.tokens = .error f
    | none => value true c.tokens = if c.value.isFinite then .ok c.value else .error (.valueNotFinite c.value) := by
  have hfind : (c.steps.map Event.step).find? (fun e => !e.isFinite) =
      (c.steps.find? fun s => !s.result.isFinite).map Event.step := List.find?_map ..
  rw [value_eq_under, tracedValue_tokens, Traced.under_true]
  simp only [stepsThen, List.findSome?_append, Traced.findSome?_refusal, hfind]
  cases hfirst : c.steps.find? fun s => !s.result.isFinite with
  | none => cases hvalue : c.value.isFinite <;> simp [Event.isFinite, Event.result, Event.refusal?, hvalue]
  | some s =>
    have hinfinite : s.result.isFinite = false := by simpa using List.find?_some hfirst
    obtain ⟨f, hrefusal⟩ : ∃ f, (Event.step s).refusal? = some f := Event.exists_refusal? hinfinite
    exact ⟨f, hrefusal, by simp [hrefusal]⟩

end Flat
end Reckoner

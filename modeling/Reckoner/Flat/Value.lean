import Reckoner.Flat.Canonical
import Reckoner.Token.Range

/-!
# Flat.Value — the value of a bracket-free expression

A canonical expression is folded step by step: the leftmost operator of the highest rank present is applied to its two
neighbours, and the result takes the place of the three.  With domain checks on, a result that is NaN or infinite ends
the run, and so does such a final value.  Every step makes the list shorter (`Step.run_length`), so folding ends.
-/
namespace Reckoner
namespace Flat

/-- One operator with its place in a list and the numbers on both sides of it. -/
structure Step where
  position : Nat
  operator : Operator
  x : Float
  y : Float

namespace Step

def result (s : Step) : Float := s.operator.apply s.x s.y

/-- **Why a step's result is refused**, if it is: a result that is finite never is. -/
def refusal? (s : Step) : Option Failure :=
  if s.result.isFinite then none
  else if s.result.isNaN && s.operator.isExponential && s.x.isFinite && s.y.isFinite then
    some (.noRealResult s.x s.operator s.y)
  else if s.operator == .divide && s.y == 0 then some (.divisionByZero s.x)
  else some (.stepNotFinite s.x s.operator s.y)

/-- The tokens with the result in place of the operator and its operands. -/
def run (s : Step) (ts : List Token) : Except Failure (List Token) :=
  match Token.splice? ts (s.position - 1) (s.position + 1) s.result with
  | some out => .ok out
  | none => .error (.outOfRange (s.position - 1) (s.position + 1))

/-- **A step makes its list shorter.** -/
theorem run_length {s : Step} {ts out : List Token} (h : s.run ts = .ok out) : out.length < ts.length := by
  unfold run at h
  split at h
  · rename_i shorter hs
    cases h
    exact Token.splice?_length (by omega) hs
  · cases h

end Step

def hasRank (rank : Rank) (t : Token) : Bool := t.operator?.any (·.rank == rank)

/-- **Where the next step is**: the leftmost operator of the highest rank in the list. -/
def nextPosition? (ts : List Token) : Option Nat :=
  (ts.findIdx? (hasRank .exponent)).or
    ((ts.findIdx? (hasRank .multiplicative)).or (ts.findIdx? (hasRank .additive)))

/-- The number that a neighbour of an operator holds. -/
def operand (operator : Operator) : Option Token → Except Failure Float
  | some (.number value) => .ok value
  | some .answer => .error .unboundAnswer
  | _ => .error (.missingOperand operator)

def before? (ts : List Token) : Nat → Option Token
  | 0 => none
  | position + 1 => ts[position]?

/-- **The next step**, or why there is none. -/
def nextStep (ts : List Token) : Except Failure Step :=
  match nextPosition? ts with
  | none => .error (.missingOperator ts)
  | some position =>
    match ts[position]?.bind Token.operator? with
    | none => .error (.noOperatorAt position)
    | some operator =>
      match operand operator (before? ts position) with
      | .error f => .error f
      | .ok x =>
        match operand operator ts[position + 1]? with
        | .error f => .error f
        | .ok y => .ok ⟨position, operator, x, y⟩

/-- One step taken: the result is looked at if `checks` says so. -/
def advance (checks : Bool) (ts : List Token) : Except Failure (List Token) :=
  match nextStep ts with
  | .error f => .error f
  | .ok s =>
    match (if checks then s.refusal? else none) with
    | some f => .error f
    | none => s.run ts

theorem advance_length {checks : Bool} {ts out : List Token} (h : advance checks ts = .ok out) :
    out.length < ts.length := by
  unfold advance at h
  split at h
  · cases h
  · split at h
    · cases h
    · exact Step.run_length h

/-- The value of what is left when there is nothing to join any more. -/
def final (checks : Bool) : List Token → Except Failure Float
  | [] => .error .emptyExpression
  | .number value :: _ => if checks && !value.isFinite then .error (.valueNotFinite value) else .ok value
  | .answer :: _ => .error .unboundAnswer
  | t :: _ => .error (.notValue t)

/-- **The value of a canonical expression.** -/
def value (checks : Bool) (ts : List Token) : Except Failure Float :=
  if ts.length ≤ 1 then final checks ts
  else
    match _h : advance checks ts with
    | .error f => .error f
    | .ok shorter => value checks shorter
termination_by ts.length
decreasing_by exact advance_length ‹_›

theorem value_of_length_le_one {checks : Bool} {ts : List Token} (h : ts.length ≤ 1) :
    value checks ts = final checks ts := by
  rw [value, if_pos h]

/-- **A list of two tokens or more takes a step, and the value is that of what the step leaves.** -/
theorem value_of_one_lt_length {checks : Bool} {ts : List Token} (h : 1 < ts.length) :
    value checks ts = (advance checks ts).bind (value checks) := by
  rw [value, if_neg (by omega)]
  split <;> rename_i hs <;> rw [hs] <;> rfl

/-- **The value of a bracket-free expression**, through its canonical form. -/
def evaluate (checks : Bool) (ts : List Token) : Except Failure Float :=
  match canonical ts with
  | .error f => .error f
  | .ok out => value checks out

end Flat
end Reckoner

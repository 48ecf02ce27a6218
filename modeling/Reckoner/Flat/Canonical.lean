import Reckoner.Failure

/-!
# Flat.Canonical — one form for every bracket-free expression

A bracket-free run of tokens is brought into canonical form: no root prefix, no sign that belongs to a number, and no
operator without something on both its sides.  In this order:
- `√` becomes `2 v`, so that every root has a degree;
- a run of signs becomes the one sign it amounts to;
- a sign at the very beginning gets a zero in front, any other operator there is refused;
- a sign right behind an operator goes into the number behind it;
- an operator still next to another, or left at the end, is refused.
-/
namespace Reckoner
namespace Flat

/-- A root prefix spelt out as the root of degree two. -/
def spelt : Token → List Token
  | .squareRoot => [.number 2, .op .root]
  | t => [t]

def spellRoots (ts : List Token) : List Token := ts.flatMap spelt

/-- The one sign that two signs in a row amount to. -/
def signProduct (a b : Operator) : Operator := if a = b then .add else .subtract

/-- A sign put in front of tokens: a sign that stands there already takes it up. -/
def consSign (sign : Operator) : List Token → List Token
  | .op next :: rest =>
    if next.isSign then .op (signProduct sign next) :: rest else .op sign :: .op next :: rest
  | rest => .op sign :: rest

/-- **Every run of signs as one sign.** -/
def mergeSigns : List Token → List Token
  | [] => []
  | .op operator :: rest =>
    if operator.isSign then consSign operator (mergeSigns rest) else .op operator :: mergeSigns rest
  | t :: rest => t :: mergeSigns rest

/-- A zero in front of a leading sign; no other operator may lead. -/
def supplyZero : List Token → Except Failure (List Token)
  | .op operator :: rest =>
    if operator.isSign then .ok (.number 0 :: .op operator :: rest) else .error (.cannotStart operator)
  | ts => .ok ts

/-- **Signs behind an operator taken into the number behind them**; the flag says that an operator was kept last.  A
plus leaves no trace, a minus negates a number and is dropped in front of anything else. -/
def attachSigns : Bool → List Token → List Token
  | _, [] => []
  | true, .op .add :: rest => attachSigns true rest
  | true, .op .subtract :: .number value :: rest => .number (-value) :: attachSigns false rest
  | true, .op .subtract :: rest => attachSigns true rest
  | _, t :: rest => t :: attachSigns t.isOperator rest

/-- The first two operators that stand side by side. -/
def clash? : List Token → Option (Operator × Operator)
  | .op first :: .op second :: _ => some (first, second)
  | _ :: rest => clash? rest
  | [] => none

/-- Refuses operators side by side and an operator at the end. -/
def check (ts : List Token) : Except Failure (List Token) :=
  match clash? ts with
  | some (first, second) => .error (.cannotFollow first second)
  | none =>
    match ts.getLast? with
    | some (.op operator) => .error (.cannotEnd operator)
    | some _ => .ok ts
    | none => .error .emptyExpression

/-- **The canonical form of a bracket-free expression.** -/
def canonical (ts : List Token) : Except Failure (List Token) :=
  if ts.isEmpty then .error .emptyExpression
  else
    match supplyZero (mergeSigns (spellRoots ts)) with
    | .error f => .error f
    | .ok led => check (attachSigns false led)

end Flat
end Reckoner

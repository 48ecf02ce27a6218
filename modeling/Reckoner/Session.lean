import Reckoner.Calculator

/-!
# Session — calculators behind handles

A session numbers handles on calculators.  Handles are made by forking another handle; a fork either gets a calculator
of its own, equal to the forked one at that moment, or is a second handle on the same one.
-/
namespace Reckoner

/-- What a fork of a handle refers to. -/
inductive Sharing where
  | separate
  | shared
deriving DecidableEq, Repr

/-- Calculators and the handles on them: a handle is the place of its calculator in the list. -/
structure Session where
  sharing : Sharing
  calculators : List Calculator
  handles : List Nat

namespace Session

def new (sharing : Sharing) (settings : Settings) : Session := ⟨sharing, [.new settings], [0]⟩

/-- The calculator behind a handle. -/
def calculator? (s : Session) (handle : Nat) : Option Calculator :=
  s.handles[handle]?.bind (s.calculators[·]?)

def update (s : Session) (handle : Nat) (c : Calculator) : Session :=
  match s.handles[handle]? with
  | some place => { s with calculators := s.calculators.set place c }
  | none => s

/-- **A new handle**, forked from another one. -/
def fork (s : Session) (handle : Nat) : Session :=
  match s.sharing with
  | .shared =>
    match s.handles[handle]? with
    | some place => { s with handles := s.handles ++ [place] }
    | none => s
  | .separate =>
    match s.calculator? handle with
    | some c =>
      { s with calculators := s.calculators ++ [c], handles := s.handles ++ [s.calculators.length] }
    | none => s

/-- A line evaluated through a handle; `none` if there is no such handle. -/
def evaluate (s : Session) (handle : Nat) (line : String) : Option (Except Failure Float) × Session :=
  match s.calculator? handle with
  | some c =>
    let (outcome, next) := c.evaluate line
    (some outcome, s.update handle next)
  | none => (none, s)

def evaluateText (s : Session) (handle : Nat) (line : String) : Option String × Session :=
  match s.calculator? handle with
  | some c =>
    let (text, next) := c.evaluateText line
    (some text, s.update handle next)
  | none => (none, s)

def reset (s : Session) (handle : Nat) : Session :=
  match s.calculator? handle with
  | some c => s.update handle c.reset
  | none => s

/-- The last answers seen through all handles, in their order. -/
def lastAnswers (s : Session) : List Float :=
  (s.handles.filterMap (s.calculators[·]?)).map (·.lastAnswer)

end Session
end Reckoner

import Reckoner.Flat.Value

/-!
# Group — bracketed expressions

The first closing bracket of a list and the last opening bracket before it enclose tokens without brackets.  Such a
group is evaluated by itself and its value put in its place, until no bracket is left (`resolve`).  Since the closing
bracket stands behind the opening one (`innermostFrom_lt`), every group makes the list shorter.
-/
namespace Reckoner
namespace Group

/-- The search for the first closing bracket: `opened` is the last opening bracket so far. -/
def innermostFrom (position : Nat) (opened : Option Nat) : List Token → Except Failure (Option (Nat × Nat))
  | [] => if opened.isSome then .error .unclosedBracket else .ok none
  | .opening :: rest => innermostFrom (position + 1) (some position) rest
  | .closing :: _ =>
    match opened with
    | some start => .ok (some (start, position))
    | none => .error .unopenedBracket
  | _ :: rest => innermostFrom (position + 1) opened rest

/-- **The innermost group that closes first**: the places of its two brackets, or `none` if there are no brackets. -/
def innermost (ts : List Token) : Except Failure (Option (Nat × Nat)) := innermostFrom 0 none ts

/-- **A group's closing bracket stands behind its opening one.** -/
theorem innermostFrom_lt {start stop : Nat} : ∀ (ts : List Token) (position : Nat) (opened : Option Nat),
    (∀ o, opened = some o → o < position) → innermostFrom position opened ts = .ok (some (start, stop)) → start < stop
  | [], position, opened, ho, h => by
    unfold innermostFrom at h
    split at h <;> cases h
  | t :: rest, position, opened, ho, h => by
    have hgo : ∀ o, opened = some o → o < position + 1 := fun o hs => Nat.lt_succ_of_lt (ho o hs)
    cases t with
    | opening =>
      exact innermostFrom_lt rest (position + 1) (some position)
        (fun o hs => by cases hs; exact Nat.lt_succ_self _) h
    | closing =>
      unfold innermostFrom at h
      cases opened with
      | none => cases h
      | some o => cases h; exact ho _ rfl
    | number value => exact innermostFrom_lt rest (position + 1) opened hgo h
    | op operator => exact innermostFrom_lt rest (position + 1) opened hgo h
    | squareRoot => exact innermostFrom_lt rest (position + 1) opened hgo h
    | answer => exact innermostFrom_lt rest (position + 1) opened hgo h

/-- One group replaced by its value. -/
def collapse (checks : Bool) (ts : List Token) (start stop : Nat) : Except Failure (List Token) :=
  match Token.between? ts start stop with
  | none => .error (.outOfRange start stop)
  | some inside =>
    match Flat.evaluate checks inside with
    | .error f => .error f
    | .ok value =>
      match Token.splice? ts start stop value with
      | none => .error (.outOfRange start stop)
      | some out => .ok out

theorem collapse_length {checks : Bool} {ts out : List Token} {start stop : Nat} (hlt : start < stop)
    (h : collapse checks ts start stop = .ok out) : out.length < ts.length := by
  unfold collapse at h
  split at h
  · cases h
  · split at h
    · cases h
    · split at h
      · cases h
      · rename_i shorter hs
        cases h
        exact Token.splice?_length hlt hs

/-- **The value of an expression with brackets.** -/
def resolve (checks : Bool) (ts : List Token) : Except Failure Float :=
  match _hg : innermost ts with
  | .error f => .error f
  | .ok none => Flat.evaluate checks ts
  | .ok (some (start, stop)) =>
    match _h : collapse checks ts start stop with
    | .error f => .error f
    | .ok shorter => resolve checks shorter
termination_by ts.length
decreasing_by exact collapse_length (innermostFrom_lt ts 0 none (by simp) ‹_›) ‹_›

/-- No bracket left. -/
theorem resolve_of_none {checks : Bool} {ts : List Token} (h : innermost ts = .ok none) :
    resolve checks ts = Flat.evaluate checks ts := by
  rw [resolve]
  split <;> simp_all

/-- Brackets that do not match. -/
theorem resolve_of_error {checks : Bool} {ts : List Token} {f : Failure} (h : innermost ts = .error f) :
    resolve checks ts = .error f := by
  rw [resolve]
  split <;> simp_all

/-- **A group collapses, and the value is that of what this leaves.** -/
theorem resolve_of_some {checks : Bool} {ts : List Token} {start stop : Nat}
    (h : innermost ts = .ok (some (start, stop))) :
    resolve checks ts = (collapse checks ts start stop).bind (resolve checks) := by
  rw [resolve]
  split
  · simp_all
  · simp_all
  · rename_i a b hab
    rw [h] at hab
    cases hab
    split <;> rename_i hs <;> rw [hs] <;> rfl

end Group
end Reckoner

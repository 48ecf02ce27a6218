import Reckoner.Failure

/-!
# Line — the tokens of a line of text

A line is free-form: a maximal run of digits and separators is one number, a few characters are tokens of their own,
and every other character is passed over.  `entries` lists what stands on the line, a run that is no number as a
failure in its place; `tokens` is that list when nothing on it failed and something is there.
-/
namespace Reckoner
namespace Line

/-- A character that a number is written with; point and comma are the same separator. -/
def isNumeric (c : Char) : Bool := c.isDigit || c == '.' || c == ','

def pointed (c : Char) : Char := if c == ',' then '.' else c

/-- **The token of a single character**, the chosen square root symbol last. -/
def symbol? (root : Char) (c : Char) : Option Token :=
  match c with
  | '(' => some .opening
  | ')' => some .closing
  | '^' => some (.op .power)
  | 'v' => some (.op .root)
  | '*' => some (.op .multiply)
  | '/' => some (.op .divide)
  | '+' => some (.op .add)
  | '-' => some (.op .subtract)
  | 'a' => some .answer
  | _ => if c == root then some .squareRoot else none

/-- The number that a run of digits and separators stands for; `position` is where the run begins. -/
def number (position : Nat) (run : List Char) : Except Failure Token :=
  let literal := run.map pointed
  match Numeral.read? literal with
  | some value => .ok (.number value)
  | none => .error (.malformedNumber literal position)

/-- **What stands on a line**, from left to right; `position` counts the characters already behind. -/
def entriesFrom (root : Char) (position : Nat) : List Char → List (Except Failure Token)
  | [] => []
  | c :: cs =>
    if isNumeric c then
      let run := c :: cs.takeWhile isNumeric
      number position run :: entriesFrom root (position + run.length) (cs.dropWhile isNumeric)
    else
      match symbol? root c with
      | some t => .ok t :: entriesFrom root (position + 1) cs
      | none => entriesFrom root (position + 1) cs
termination_by cs => cs.length
decreasing_by
  · exact Nat.lt_succ_of_le (List.dropWhile_sublist _).length_le
  · exact Nat.lt_succ_self _
  · exact Nat.lt_succ_self _

@[simp] theorem entriesFrom_nil (root : Char) (position : Nat) : entriesFrom root position [] = [] := by
  rw [entriesFrom]

/-- A run of digits and separators is taken whole. -/
theorem entriesFrom_of_isNumeric {root c : Char} (position : Nat) (cs : List Char) (h : isNumeric c = true) :
    entriesFrom root position (c :: cs) =
      number position (c :: cs.takeWhile isNumeric) ::
        entriesFrom root (position + (cs.takeWhile isNumeric).length + 1) (cs.dropWhile isNumeric) := by
  rw [entriesFrom, if_pos h]
  rfl

/-- Any other character stands for a token or is passed over. -/
theorem entriesFrom_of_not_isNumeric {root c : Char} (position : Nat) (cs : List Char) (h : isNumeric c = false) :
    entriesFrom root position (c :: cs) =
      ((symbol? root c).map .ok).toList ++ entriesFrom root (position + 1) cs := by
  rw [entriesFrom, if_neg (by simp [h])]
  cases symbol? root c <;> rfl

def entries (root : Char) (line : String) : List (Except Failure Token) := entriesFrom root 0 line.toList

/-- The entries as tokens: the first failure among them, if there is one. -/
def collect : List (Except Failure Token) → Except Failure (List Token)
  | [] => .ok []
  | .error f :: _ => .error f
  | .ok t :: rest => (collect rest).map (t :: ·)

/-- **Entries are tokens exactly when none of them failed.** -/
theorem collect_eq_ok_iff {es : List (Except Failure Token)} {ts : List Token} :
    collect es = .ok ts ↔ es = ts.map .ok := by
  induction es generalizing ts with
  | nil => cases ts <;> simp [collect]
  | cons e es ih =>
    cases e with
    | error f => cases ts <;> simp [collect]
    | ok t =>
      rw [collect]
      cases hc : collect es with
      | error f =>
        have hne : ∀ us : List Token, es ≠ us.map .ok := fun us hu => by
          rw [ih.2 hu] at hc
          cases hc
        cases ts <;> simp [Except.map, hne]
      | ok us =>
        rw [ih.1 hc]
        cases ts <;> simp [Except.map, List.map_inj_right]

/-- **The tokens of a line.**  A line on which nothing stands is refused. -/
def tokens (root : Char) (line : String) : Except Failure (List Token) :=
  match collect (entries root line) with
  | .ok [] => .error .noTokens
  | outcome => outcome

end Line
end Reckoner

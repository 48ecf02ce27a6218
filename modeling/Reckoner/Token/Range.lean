import Reckoner.Token

/-!
# Token.Range — parts of a token list

Three operations on token lists: the answer put in place of its references (`bindAnswer`), the tokens between two
positions (`between?`), and one number put in place of a stretch of tokens (`splice?`).  A range that does not lie in
the list gives `none`.
-/
namespace Reckoner
namespace Token

/-- A token with the last answer put in place of the reference to it. -/
def bind (value : Float) : Token → Token
  | answer => number value
  | t => t

/-- Every reference to the last answer replaced by its value. -/
def bindAnswer (value : Float) (ts : List Token) : List Token := ts.map (bind value)

/-- **The tokens strictly between two positions.** -/
def between? (ts : List Token) (before after : Nat) : Option (List Token) :=
  if before + 1 ≤ after ∧ after ≤ ts.length then some ((ts.take after).drop (before + 1)) else none

/-- **One number in place of the tokens from `start` to `stop`**, both included.  With `stop` just before `start` nothing
is taken out and the number is put in; a `start` further behind repeats the tokens between. -/
def splice? (ts : List Token) (start stop : Nat) (value : Float) : Option (List Token) :=
  if start ≤ ts.length ∧ stop < ts.length then
    some (ts.take start ++ number value :: ts.drop (stop + 1))
  else none

@[simp] theorem length_bindAnswer (value : Float) (ts : List Token) : (bindAnswer value ts).length = ts.length :=
  List.length_map _

theorem between?_eq_some_iff {ts out : List Token} {before after : Nat} :
    between? ts before after = some out ↔
      before < after ∧ after ≤ ts.length ∧ out = (ts.take after).drop (before + 1) := by
  unfold between?
  split
  · rename_i h
    simp only [Option.some.injEq, eq_comm (b := out)]
    exact ⟨fun ho => ⟨h.1, h.2, ho⟩, fun ho => ho.2.2⟩
  · rename_i h
    exact ⟨fun ho => (by cases ho), fun ho => absurd ⟨ho.1, ho.2.1⟩ h⟩

theorem splice?_eq_some_iff {ts out : List Token} {start stop : Nat} {value : Float} :
    splice? ts start stop value = some out ↔
      start ≤ ts.length ∧ stop < ts.length ∧ out = ts.take start ++ number value :: ts.drop (stop + 1) := by
  unfold splice?
  split
  · rename_i h
    simp only [Option.some.injEq, eq_comm (b := out)]
    exact ⟨fun ho => ⟨h.1, h.2, ho⟩, fun ho => ho.2.2⟩
  · rename_i h
    exact ⟨fun ho => (by cases ho), fun ho => absurd ⟨ho.1, ho.2.1⟩ h⟩

/-- **A number in place of two tokens or more makes a list shorter.** -/
theorem splice?_length {ts out : List Token} {start stop : Nat} {value : Float} (hlt : start < stop)
    (h : splice? ts start stop value = some out) : out.length < ts.length := by
  obtain ⟨h1, h2, rfl⟩ := splice?_eq_some_iff.1 h
  simp only [List.length_append, List.length_take, List.length_cons, List.length_drop]
  omega

end Token
end Reckoner

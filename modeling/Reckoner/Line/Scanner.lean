import Reckoner.Line

/-!
# Line.Scanner — a line scanned entry by entry

A scanner stands somewhere on a line.  It passes over what means nothing, takes the next entry and stops right behind
it, also behind a run that is no number (`next?`); at the end of the line there is nothing to take.  Every entry takes
a character at least (`next?_length`), so scanning comes to an end.
-/
namespace Reckoner
namespace Line

/-- Where a scanner stands: how many characters are behind it, and those still to come. -/
structure Scanner where
  position : Nat
  rest : List Char
deriving DecidableEq, Repr

namespace Scanner

def start (line : String) : Scanner := ⟨0, line.toList⟩

def nextFrom? (root : Char) (position : Nat) : List Char → Option (Except Failure Token × Scanner)
  | [] => none
  | c :: cs =>
    if isNumeric c then
      let run := c :: cs.takeWhile isNumeric
      some (number position run, ⟨position + run.length, cs.dropWhile isNumeric⟩)
    else
      match symbol? root c with
      | some t => some (.ok t, ⟨position + 1, cs⟩)
      | none => nextFrom? root (position + 1) cs

/-- **The next entry, and the scanner behind it.** -/
def next? (root : Char) (s : Scanner) : Option (Except Failure Token × Scanner) := nextFrom? root s.position s.rest

theorem nextFrom?_length {root : Char} {entry : Except Failure Token} {behind : Scanner} :
    ∀ (cs : List Char) (position : Nat), nextFrom? root position cs = some (entry, behind) →
      behind.rest.length < cs.length
  | [], _, h => by cases h
  | c :: cs, position, h => by
    unfold nextFrom? at h
    split at h
    · cases h
      exact Nat.lt_succ_of_le (List.dropWhile_sublist _).length_le
    · split at h
      · cases h
        exact Nat.lt_succ_self _
      · exact Nat.lt_succ_of_lt (nextFrom?_length cs (position + 1) h)

/-- **A scanner never stands still.** -/
theorem next?_length {root : Char} {s behind : Scanner} {entry : Except Failure Token}
    (h : s.next? root = some (entry, behind)) : behind.rest.length < s.rest.length :=
  nextFrom?_length s.rest s.position h

/-- What a scanner takes until there is nothing to take any more. -/
def entries (root : Char) (s : Scanner) : List (Except Failure Token) :=
  match _h : s.next? root with
  | none => []
  | some (entry, behind) => entry :: behind.entries root
termination_by s.rest.length
decreasing_by exact next?_length _h

end Scanner
end Line
end Reckoner

import Reckoner.Record
import Reckoner.Refusal

/-!
# Transcript — a text evaluated line by line

One calculator goes through a text line by line, so that the answer carries over.  How a line is printed depends on the
`Style`: the outcome plain or as a record, the tokens in front of it or not.  The tokens are read with the calculator's
own square root symbol, unless the caller has settings of its own for that.  Lines of white space are passed over.  The
input is bytes; a line that is no UTF-8 ends the run there.
-/
namespace Reckoner

/-- How outcomes are printed. -/
structure Style where
  /-- Round results to this many places. -/
  places : Option Nat := none
  json : Bool := false
  /-- Print the tokens in front of every outcome. -/
  tokens : Bool := false
deriving DecidableEq, Repr

namespace Transcript

def isLineEnd (c : Char) : Bool := c == '\r' || c == '\n'

def stripEnds (line : String) : String :=
  .ofList (line.toList.reverse.dropWhile isLineEnd).reverse

/-- The tokens of a line, or why it has none, on a line of their own. -/
def tokenLine (root : Char) (line : String) : String :=
  match Line.tokens root line with
  | .ok ts => "tokens = " ++ Token.dumpWith root ts ++ "\n"
  | .error f => "tokens = <" ++ f.message ++ ">\n"

def outcomeText (style : Style) (line : String) (outcome : Except Failure Float) : String :=
  if style.json then (Record.ofOutcome style.places line outcome).text
  else Calculator.outcomeText style.places outcome

/-- **What is printed for one line**, and the calculator behind it. -/
def answer (style : Style) (c : Calculator) (line : String) (shown : Settings := c.settings) : String × Calculator :=
  let line := stripEnds line
  let tokens := if style.tokens then tokenLine shown.rootSymbol line else ""
  let (outcome, next) := c.evaluate line
  (tokens ++ outcomeText style line outcome, next)

/-- A calculator with settings that a line can be read with. -/
def start (settings : Settings) : Except Refusal Calculator :=
  if settings.isValid then .ok (.new settings) else .error (.reservedSymbol settings.rootSymbol)

def lineFeed : UInt8 := 10

/-- **The lines of a text**, their line feeds dropped.  A text that ends in a line feed has no line behind it. -/
def lines : List UInt8 → List (List UInt8)
  | [] => []
  | b :: rest =>
    if b = lineFeed then [] :: lines rest
    else
      match lines rest with
      | [] => [[b]]
      | line :: more => (b :: line) :: more

@[simp] theorem lines_nil : lines [] = [] := rfl

@[simp] theorem lines_lineFeed_cons (rest : List UInt8) : lines (lineFeed :: rest) = [] :: lines rest := if_pos rfl

/-- **A line feed separates what stands before it from what stands behind it.** -/
theorem lines_append_lineFeed (bytes rest : List UInt8) :
    lines (bytes ++ lineFeed :: rest) = lines (bytes ++ [lineFeed]) ++ lines rest := by
  induction bytes with
  | nil => simp
  | cons b bytes ih =>
    rw [List.cons_append, List.cons_append, lines, lines, ih]
    split
    · rfl
    · cases h : lines (bytes ++ [lineFeed]) with
      | cons line more => rfl
      | nil =>
        cases bytes with
        | nil => simp at h
        | cons a bytes =>
          rw [List.cons_append, lines] at h
          split at h
          · cases h
          · split at h <;> cases h

/-- The bytes of a line as text, if they are UTF-8. -/
def decode (bytes : List UInt8) : Option String := String.fromUTF8? ⟨bytes.toArray⟩

inductive Turn where
  | unreadable
  /-- Nothing but white space stands on the line. -/
  | blank
  | answered (text : String) (next : Calculator)

/-- **One line of the input.** -/
def turn (style : Style) (c : Calculator) (bytes : List UInt8) (shown : Settings := c.settings) : Turn :=
  match decode bytes with
  | none => .unreadable
  | some line =>
    if line.toList.all Text.isBlank then .blank
    else
      let (text, next) := answer style c line shown
      .answered text next

end Transcript

structure Transcript where
  /-- What was printed for each evaluated line. -/
  answers : List String
  /-- How many times a line was asked for. -/
  asked : Nat
  calculator : Calculator
  /-- A line that is no text ended the run. -/
  unreadable : Bool

namespace Transcript

/-- The run over lines from a given calculator on. -/
def ofLines (style : Style) (shown : Settings) (c : Calculator) : List (List UInt8) → Transcript
  | [] => ⟨[], 1, c, false⟩
  | bytes :: rest =>
    match turn style c bytes shown with
    | .unreadable => ⟨[], 1, c, true⟩
    | .blank =>
      let later := ofLines style shown c rest
      { later with asked := later.asked + 1 }
    | .answered text next =>
      let later := ofLines style shown next rest
      { later with answers := text :: later.answers, asked := later.asked + 1 }

/-- **The run over a text.** -/
def run (style : Style) (c : Calculator) (input : List UInt8) (shown : Settings := c.settings) : Transcript :=
  ofLines style shown c (lines input)

def count (t : Transcript) : Nat := t.answers.length

/-- What was printed, every answer on a line of its own. -/
def output (t : Transcript) : String := String.join (t.answers.map (· ++ "\n"))

def prompt : String := "> "

def prompts (t : Transcript) : String := String.join (List.replicate t.asked prompt)

/-- Why the run ended early, if it did. -/
def refusal? (t : Transcript) : Option Refusal := if t.unreadable then some .unreadable else none

end Transcript
end Reckoner

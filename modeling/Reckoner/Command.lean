import Reckoner.Command.Arguments
import Reckoner.Manual
import Reckoner.Transcript

/-!
# Command — what a command line comes to

Without a verb the first line of the input is evaluated; `eval` evaluates the word behind it and `repl` every line of
the input; `docs` and `doc` print the manual.  The exit status is 0 whenever something was printed for what was asked,
failures of evaluation included; 1 if a refusal ended the run; and 2 if the command line could not be used.

Two things are left out.  Logs, which `verbose` or the environment may turn on, and the prompt on a terminal are no part
of an outcome.  Nor is there any help: a line that asks for it is one that cannot be used (`read`).
-/
namespace Reckoner
namespace Command

/-- What a command leaves behind. -/
structure Outcome where
  status : Nat
  output : String
  /-- The text of the refusal, or that the command line could not be used.  This is all that is said beside the output
  where no log is kept and nobody is prompted; with a log or on a terminal there is more. -/
  complaint : String
deriving DecidableEq, Repr

def done (output : String) : Outcome := ⟨0, output, ""⟩

/-- A refusal ended the run after something had been printed. -/
def refused (output : String) (r : Refusal) : Outcome := ⟨1, output, r.message ++ "\n"⟩

def unusable : Outcome := ⟨2, "", "error: unusable arguments\n"⟩

def version : String := "tally 0.1.0\n"

namespace Options

def settings (o : Options) : Settings := ⟨o.rootSymbol.getD defaultRootSymbol, !o.ieee⟩

def style (o : Options) : Style := ⟨o.places, o.json, o.tokens⟩

end Options

def evaluateLine (o : Options) (line : String) : Outcome :=
  match Transcript.start o.settings with
  | .error r => refused "" r
  | .ok c => done ((Transcript.answer o.style c line).1 ++ "\n")

/-- **The first line of an input as it is read**, its line feed included. -/
def firstLine (input : List UInt8) : List UInt8 :=
  input.takeWhile (· != Transcript.lineFeed) ++ (input.dropWhile (· != Transcript.lineFeed)).take 1

/-- **The first line of the input evaluated.**  It is read before anything is said about the options. -/
def evaluateFirst (o : Options) (input : List UInt8) : Outcome :=
  match Transcript.decode (firstLine input) with
  | none => refused "" .unreadable
  | some line => evaluateLine o line

def ofTranscript (t : Transcript) : Outcome :=
  match t.refusal? with
  | some r => refused t.output r
  | none => done t.output

def evaluateLines (o : Options) (input : List UInt8) : Outcome :=
  match Transcript.start o.settings with
  | .error r => refused "" r
  | .ok c => ofTranscript (Transcript.run o.style c input)

def showTopic (name : String) : Except Refusal Topic :=
  match Topic.ofName? name with
  | some t => .ok t
  | none => .error (.unknownTopic name)

/-- **What an action comes to** on an input. -/
def perform (o : Options) (input : List UInt8) : Action → Outcome
  | .firstLine => evaluateFirst o input
  | .evaluate expression => evaluateLine o expression
  | .lines => evaluateLines o input
  | .overview => done Manual.overview
  | .topic name =>
    match showTopic name with
    | .ok t => done t.page
    | .error r => refused "" r

/-- **What a command line comes to** on an input, without the log that `verbose` asks for.  A line that asks for help is
unusable, as any that cannot be read: it has status 2 here, not the status 0 of a help text. -/
def run (words : List String) (input : List UInt8) : Outcome :=
  match read words with
  | none => unusable
  | some .version => done version
  | some (.perform action o) => perform o input action

end Command
end Reckoner

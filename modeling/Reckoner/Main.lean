import Reckoner.Command

/-!
# Main — the program

Reads the input that a command needs, prints what the command comes to, and exits with its status.  A run over the
lines of the input prints each answer before it reads on, and asks for lines on a terminal.  No log is kept.
-/
namespace Reckoner
namespace Main

/-- The bytes up to and including the next line feed; empty at the end of the input. -/
partial def readLine (input : IO.FS.Stream) (line : Array UInt8) : IO (List UInt8) := do
  match (← input.read 1).toList with
  | [b] => if b == Transcript.lineFeed then return (line.push b).toList else readLine input (line.push b)
  | _ => return line.toList

/-- The lines of the input answered one by one, each before the next one is read. -/
partial def answerLines (style : Style) (c : Calculator) (input output : IO.FS.Stream) (ask : IO Unit) :
    IO UInt32 := do
  ask
  match Transcript.lines (← readLine input #[]) with
  | [] => return 0
  | bytes :: _ =>
    match Transcript.turn style c bytes with
    | .unreadable =>
      IO.eprint ((Refusal.unreadable).message ++ "\n")
      return 1
    | .blank => answerLines style c input output ask
    | .answered text next =>
      output.putStr (text ++ "\n")
      output.flush
      answerLines style next input output ask

def finish (o : Command.Outcome) : IO UInt32 := do
  IO.print o.output
  IO.eprint o.complaint
  return o.status.toUInt32

end Main
end Reckoner

open Reckoner in
def main (words : List String) : IO UInt32 := do
  let input ← IO.getStdin
  match Command.read words with
  | some (.perform .lines o) =>
    match Transcript.start o.settings with
    | .error r => Main.finish (Command.refused "" r)
    | .ok c =>
      let onTerminal ← input.isTty
      Main.answerLines o.style c input (← IO.getStdout) (if onTerminal then IO.eprint Transcript.prompt else pure ())
  | some (.perform .firstLine o) => Main.finish (Command.perform o (← Main.readLine input #[]) .firstLine)
  | _ => Main.finish (Command.run words [])

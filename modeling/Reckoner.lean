import Reckoner.Main
import Reckoner.Session
import Reckoner.Proofs.Group.Brackets
import Reckoner.Proofs.Group.Forest
import Reckoner.Proofs.Flat.Fold
import Reckoner.Proofs.Flat.Passes
import Reckoner.Proofs.Flat.Tree
import Reckoner.Proofs.Flat.Minus
import Reckoner.Proofs.Grammar
import Reckoner.Proofs.Flat.Acceptance
import Reckoner.Proofs.Acceptance
import Reckoner.Proofs.Precedence
import Reckoner.Proofs.History
import Reckoner.Proofs.Answer
import Reckoner.Proofs.Ranges
import Reckoner.Proofs.Result
import Reckoner.Proofs.Dump
import Reckoner.Proofs.Threads
import Reckoner.Proofs.Transcript.Framing
import Reckoner.Proofs.Transcript.Unreadable
import Reckoner.Proofs.Command.Modes
import Reckoner.Proofs.Json.Value
import Reckoner.Proofs.Json.Text
import Reckoner.Proofs.Json.Written
import Reckoner.Proofs.Record
import Reckoner.Proofs.Transcript.Styles
import Reckoner.Proofs.Printed
import Reckoner.Proofs.Line.Stream
import Reckoner.Proofs.Respelled
import Reckoner.Proofs.Flat.Idempotent
import Reckoner.Proofs.Group.Longhand
import Reckoner.Proofs.Flat.Binding
import Reckoner.Proofs.Binary64.Value
import Reckoner.Proofs.Decimal.Rounding
import Reckoner.Proofs.Numeral.Rounded
import Reckoner.Proofs.Numeral.Canonical
import Reckoner.Proofs.Command.Status
import Reckoner.Proofs.Binary64.Power
import Reckoner.Proofs.Binary64.Reciprocal
import Reckoner.Proofs.Roots
import Reckoner.Proofs.Binary64.Infinity
import Reckoner.Proofs.Conserved
import Reckoner.Proofs.Overflow
import Reckoner.Proofs.Line.Places
import Reckoner.Proofs.Transcript.Blank

import Reckoner.Proofs.Record
import Reckoner.Proofs.Transcript.Framing

/-!
# Transcript.Styles — what is printed does not change what is evaluated

A run evaluates the same lines to the same outcomes in every style, and an answer is written from one of these alone
(`ofLines_eq`).  Two styles that round alike write the same thing in two ways: the plain line is a string of the record,
and the tokens stand in front of either (`run_styles`).
-/
namespace Reckoner
namespace Transcript

structure Evaluation where
  line : String
  outcome : Except Failure Float

/-- **What a run evaluates.** -/
def evaluated (c : Calculator) : List (List UInt8) → List Evaluation
  | [] => []
  | bytes :: rest =>
    match decode bytes with
    | none => []
    | some line =>
      if line.toList.all Text.isBlank then evaluated c rest
      else ⟨stripEnds line, c.outcome (stripEnds line)⟩ :: evaluated (c.evaluate (stripEnds line)).2 rest

namespace Evaluation

def dump (style : Style) (shown : Settings) (e : Evaluation) : String :=
  if style.tokens then tokenLine shown.rootSymbol e.line else ""

/-- **What is printed for an evaluated line.** -/
def text (style : Style) (shown : Settings) (e : Evaluation) : String :=
  e.dump style shown ++ outcomeText style e.line e.outcome

end Evaluation

/-- **Only the texts of the answers come from the style.** -/
theorem ofLines_eq (first second : Style) (shown : Settings) : ∀ (ls : List (List UInt8)) (c : Calculator),
    ofLines second shown c ls =
      { ofLines first shown c ls with answers := (evaluated c ls).map (·.text second shown) }
  | [], c => rfl
  | bytes :: ls, c => by
    rw [ofLines, ofLines, evaluated]
    unfold turn
    cases decode bytes with
    | none => rfl
    | some line =>
      by_cases hblank : line.toList.all Text.isBlank
      · simp only [hblank, if_true]
        rw [ofLines_eq first second shown ls c]
      · simp only [hblank, Bool.false_eq_true, if_false]
        rw [ofLines_eq first second shown ls]
        rfl

/-! ## Lines of an answer -/

/-- What stands behind the last line feed of an answer. -/
def resultLine (answer : String) : String := .ofList (answer.toList.reverse.takeWhile (· ≠ '\n')).reverse

/-- What stands in front of the result, up to the last line feed. -/
def dumpLine (answer : String) : String := .ofList (answer.toList.reverse.dropWhile (· ≠ '\n')).reverse

theorem resultLine_append {dump result : String} (hdump : EndsLine dump) (hresult : '\n' ∉ result.toList) :
    resultLine (dump ++ result) = result ∧ dumpLine (dump ++ result) = dump := by
  have hrun : ∀ c ∈ result.toList.reverse, decide (c ≠ '\n') = true := by
    intro c hc
    have hne : c ≠ '\n' := fun h => hresult (by simpa [h] using hc)
    simp [hne]
  have htail : ∀ c ∈ dump.toList.reverse.head?, decide (c ≠ '\n') = false := by
    rcases hdump with rfl | ⟨start, rfl⟩ <;> simp
  rcases takeWhile_run hrun htail with ⟨htake, hdrop⟩
  constructor
  · rw [resultLine, String.toList_append, List.reverse_append, htake, List.reverse_reverse, String.ofList_toList]
  · rw [dumpLine, String.toList_append, List.reverse_append, hdrop, List.reverse_reverse, String.ofList_toList]

theorem endsLine_tokenLine (root : Char) (line : String) : EndsLine (tokenLine root line) := by
  unfold tokenLine
  split
  · exact .inr ⟨_, rfl⟩
  · rename_i f _
    have hend : ">\n" = ">" ++ "\n" := rfl
    exact .inr ⟨"tokens = <" ++ f.message ++ ">", by simp only [hend, String.append_assoc]⟩

theorem Evaluation.resultLine_text (style : Style) (shown : Settings) (e : Evaluation) :
    resultLine (e.text style shown) = outcomeText style e.line e.outcome ∧
      dumpLine (e.text style shown) = e.dump style shown := by
  refine resultLine_append ?_ (lineFeed_not_mem_outcomeText style e.line e.outcome)
  unfold dump
  split
  · exact endsLine_tokenLine _ _
  · exact .inl rfl

/-! ## Two styles -/

theorem exists_read?_ofOutcome (places : Option Nat) (line : String) (outcome : Except Failure Float) :
    ∃ record : Json, Json.read? (Record.ofOutcome places line outcome).text = some record ∧
      record.field? "input" = some (.string line) ∧
      record.field? (match outcome with | .ok _ => "display" | .error _ => "error") =
        some (.string (Calculator.outcomeText places outcome)) := by
  cases outcome with
  | ok x =>
    rcases Record.exists_read?_value line x (Numeral.display places x) with ⟨result, hread, -⟩
    exact ⟨_, hread, rfl, rfl⟩
  | error f => exact ⟨_, Record.read?_failure line f.kind f.detail, rfl, rfl⟩

/-- **Styles do not change what is evaluated.**  Two runs that differ in their style evaluate the same lines to the same
outcomes and end alike.  With the same places, the plain result of an evaluated line is the display or the error of its
record, and the line of tokens is the same. -/
theorem run_styles (shown : Settings) (c : Calculator) (input : List UInt8) :
    (∀ first second : Style,
      let r := run first c input shown
      let r' := run second c input shown
      r.count = r'.count ∧ r.calculator = r'.calculator ∧ r.refusal? = r'.refusal? ∧ r.prompts = r'.prompts) ∧
    (∀ style : Style, (run style c input shown).answers = (evaluated c (lines input)).map (·.text style shown)) ∧
    ∀ (e : Evaluation) (places : Option Nat) (tokens tokens' : Bool),
      let plain := e.text ⟨places, false, tokens⟩ shown
      let json := e.text ⟨places, true, tokens'⟩ shown
      (∃ record : Json, Json.read? (resultLine json) = some record ∧
        record.field? "input" = some (.string e.line) ∧
        record.field? (match e.outcome with | .ok _ => "display" | .error _ => "error") =
          some (.string (resultLine plain))) ∧
      dumpLine plain = (if tokens then tokenLine shown.rootSymbol e.line else "") ∧
      dumpLine json = if tokens' then tokenLine shown.rootSymbol e.line else "" := by
  have hanswers : ∀ style : Style,
      (run style c input shown).answers = (evaluated c (lines input)).map (·.text style shown) :=
    fun style => congrArg answers (ofLines_eq style style shown (lines input) c)
  refine ⟨?_, hanswers, ?_⟩
  · intro first second r r'
    have hsecond : r' = { r with answers := _ } := ofLines_eq first second shown (lines input) c
    have hcount : r.count = r'.count := by
      rw [count, count, hanswers, hanswers, List.length_map, List.length_map]
    refine ⟨hcount, ?_, ?_, ?_⟩ <;> rw [hsecond] <;> rfl
  · intro e places tokens tokens' plain json
    rcases e.resultLine_text ⟨places, false, tokens⟩ shown with ⟨hplain, hplainDump⟩
    rcases e.resultLine_text ⟨places, true, tokens'⟩ shown with ⟨hjson, hjsonDump⟩
    refine ⟨?_, hplainDump, hjsonDump⟩
    rw [hplain, hjson]
    exact exists_read?_ofOutcome places e.line e.outcome

end Transcript
end Reckoner

import Reckoner.Proofs.Line.Places
import Reckoner.Proofs.Transcript.Styles

/-!
# Transcript.Blank — what is lost with a line that is passed over

There is nothing on a line exactly if none of its characters means anything (`Line.tokens_eq_noTokens_iff`), and white
space means nothing unless it was chosen for the symbol.  So a run loses nothing with the lines that it passes over: a
run that evaluates every line ends with the same calculator, and all that it has in addition is the same refusal for
each of these lines (`ofLines_eq_unskipped`).  Settings are checked for this and for the reading of their symbol
(`Settings.isValid_matches_lines`).
-/
namespace Reckoner
namespace Line

variable {root : Char}

theorem entriesFrom_eq_nil_iff (position : Nat) (cs : List Char) :
    entriesFrom root position cs = [] ↔ ∀ c ∈ cs, IsIgnored root c := by
  fun_induction entriesFrom root position cs with
  | case1 => simp
  | case2 position c cs hc run ih => simp [IsIgnored, hc]
  | case3 position c cs hc t ht ih => simp [isIgnored_iff, ht]
  | case4 position c cs hc ht ih =>
    rw [ih, List.forall_mem_cons, and_iff_right]
    exact isIgnored_iff.2 ⟨by simpa using hc, ht⟩

/-- **There is nothing on a line exactly if none of its characters means anything.** -/
theorem tokens_eq_noTokens_iff {line : String} :
    tokens root line = .error .noTokens ↔ ∀ c ∈ line.toList, IsIgnored root c := by
  rw [← entriesFrom_eq_nil_iff 0]
  constructor
  · intro h
    unfold tokens at h
    split at h
    · rename_i hcollect
      exact collect_eq_ok_iff.1 hcollect
    · obtain ⟨run, start, -, hmalformed⟩ := malformed_of_mem_entriesFrom root 0 _ (mem_of_collect_eq_error h)
      cases hmalformed
  · intro h
    rw [tokens, entries, h]
    rfl

end Line

namespace Calculator

theorem settings_evaluate (c : Calculator) (line : String) : (c.evaluate line).2.settings = c.settings := by
  rw [evaluate]
  cases c.outcome line <;> rfl

/-- **A line of white space is refused because nothing is on it**, and changes nothing. -/
theorem evaluate_blank {c : Calculator} (hroot : Text.isBlank c.settings.rootSymbol = false) {line : String}
    (h : Transcript.isBlankLine line.toList = true) : c.evaluate line = (.error .noTokens, c) := by
  have htokens : Line.tokens c.settings.rootSymbol line = .error .noTokens :=
    Line.tokens_eq_noTokens_iff.2 fun d hd => Line.isIgnored_of_isBlank hroot (List.all_eq_true.1 h d hd)
  refine evaluate_of_outcome_eq_error ?_
  rw [outcome, htokens]

end Calculator

namespace Transcript

variable {style : Style} {shown : Settings}

/-! ## Blank lines -/

theorem isBlank_of_isLineEnd {c : Char} (h : isLineEnd c = true) : Text.isBlank c = true := by
  have hc : c = '\r' ∨ c = '\n' := by simpa [isLineEnd] using h
  rcases hc with rfl | rfl <;> rfl

/-- A line is blank with its ends or without them. -/
theorem isBlankLine_stripEnds (line : String) : isBlankLine (stripEnds line).toList = isBlankLine line.toList := by
  have hends : (line.toList.reverse.takeWhile isLineEnd).all Text.isBlank = true :=
    List.all_eq_true.2 fun c hc => isBlank_of_isLineEnd (List.all_eq_true.1 List.all_takeWhile c hc)
  rw [isBlankLine, isBlankLine, stripEnds, String.toList_ofList, List.all_reverse]
  calc (line.toList.reverse.dropWhile isLineEnd).all Text.isBlank
      = (line.toList.reverse.takeWhile isLineEnd ++ line.toList.reverse.dropWhile isLineEnd).all Text.isBlank := by
        rw [List.all_append, hends, Bool.true_and]
    _ = line.toList.all Text.isBlank := by rw [List.takeWhile_append_dropWhile, List.all_reverse]

theorem turn_eq_blank_iff {c : Calculator} {bytes : List UInt8} : turn style c bytes shown = .blank ↔
    ∃ line, decode bytes = some line ∧ isBlankLine line.toList = true := by
  unfold turn isBlankLine
  cases decode bytes with
  | none => simp
  | some line =>
    simp only [Option.some.injEq, exists_eq_left']
    split
    · simp_all
    · simp_all

/-! ## A run that passes over nothing -/

/-- **What a run evaluates that passes over nothing**, and its calculator at the end. -/
def unskipped (c : Calculator) : List (List UInt8) → List Evaluation × Calculator
  | [] => ([], c)
  | bytes :: rest =>
    match decode bytes with
    | none => ([], c)
    | some line =>
      let later := unskipped (c.evaluate (stripEnds line)).2 rest
      (⟨stripEnds line, c.outcome (stripEnds line)⟩ :: later.1, later.2)

/-- The evaluation of a line that a run passes over. -/
def Evaluation.isBlank (e : Evaluation) : Bool := isBlankLine e.line.toList

/-- **A run loses nothing with the lines that it passes over.** -/
theorem ofLines_eq_unskipped (ls : List (List UInt8)) (c : Calculator)
    (hroot : Text.isBlank c.settings.rootSymbol = false) :
    (ofLines style shown c ls).calculator = (unskipped c ls).2 ∧
      evaluated c ls = (unskipped c ls).1.filter (fun e => !e.isBlank) ∧
      ∀ e ∈ (unskipped c ls).1, e.isBlank = true → e.outcome = .error .noTokens := by
  induction ls generalizing c with
  | nil => exact ⟨rfl, rfl, List.forall_mem_nil _⟩
  | cons bytes ls ih =>
    rw [ofLines, evaluated, unskipped]
    unfold turn
    cases decode bytes with
    | none => exact ⟨rfl, rfl, List.forall_mem_nil _⟩
    | some line =>
      have hstripped := isBlankLine_stripEnds line
      cases hblank : isBlankLine line.toList with
      | true =>
        -- the line would be refused, and the run goes on with the same calculator either way
        have hall : line.toList.all Text.isBlank = true := hblank
        have hevaluate := Calculator.evaluate_blank hroot (hstripped.trans hblank)
        have houtcome : c.outcome (stripEnds line) = .error .noTokens := congrArg Prod.fst hevaluate
        obtain ⟨hcalculator, hevaluated, hrefused⟩ := ih c hroot
        simp only [hall, if_true, hevaluate]
        refine ⟨hcalculator, ?_, List.forall_mem_cons.2 ⟨fun _ => houtcome, hrefused⟩⟩
        rw [List.filter_cons_of_neg (by simp [Evaluation.isBlank, hstripped, hblank]), hevaluated]
      | false =>
        have hall : line.toList.all Text.isBlank = false := hblank
        have hnext : Text.isBlank (c.evaluate (stripEnds line)).2.settings.rootSymbol = false := by
          rw [c.settings_evaluate, hroot]
        obtain ⟨hcalculator, hevaluated, hrefused⟩ := ih (c.evaluate (stripEnds line)).2 hnext
        simp only [hall, Bool.false_eq_true, if_false]
        refine ⟨hcalculator, ?_, List.forall_mem_cons.2 ⟨fun h => ?_, hrefused⟩⟩
        · rw [List.filter_cons_of_pos (by simp [Evaluation.isBlank, hstripped, hblank]), hevaluated]
        · rw [Evaluation.isBlank, hstripped, hblank] at h
          cases h

end Transcript

namespace Settings

open Transcript

/-- **Settings are valid exactly if their symbol can be read**: it is no white space, and on every line square roots are
taken where it stands and nowhere else; what is taken are the tokens of the line.  With valid settings, a line that a
run passes over would be refused because nothing is on it, and the calculator would stay as it is.  So a run that
evaluates every line ends with the same calculator and has the same to print, but for these refusals. -/
theorem isValid_matches_lines (s : Settings) :
    (s.isValid = true ↔ Text.isBlank s.rootSymbol = false ∧
      ∀ line : String, Line.rootPlaces s.rootSymbol line = line.toList.idxsOf s.rootSymbol) ∧
    (∀ (line : String) (ts : List Token), Line.tokens s.rootSymbol line = .ok ts →
      ((Line.Scanner.start line).taken s.rootSymbol).map Prod.fst = ts.map .ok) ∧
    (s.isValid = true → ∀ (style : Style) (shown : Settings) (answer : Float),
      let c : Calculator := ⟨s, answer⟩
      (∀ bytes, turn style c bytes shown = .blank → ∃ line, decode bytes = some line ∧
        c.evaluate line = (.error .noTokens, c) ∧ c.evaluate (stripEnds line) = (.error .noTokens, c)) ∧
      ∀ input : List UInt8,
        let r := run style c input shown
        let every := unskipped c (lines input)
        r.calculator = every.2 ∧
          r.answers = (every.1.filter fun e => !e.isBlank).map (·.text style shown) ∧
          ∀ e ∈ every.1, e.isBlank = true → e.outcome = .error .noTokens) ∧
    Failure.noTokens.detail = "no tokens in input" := by
  have hvalid : s.isValid = true ↔ isReserved s.rootSymbol = false := by rw [isValid, Bool.not_eq_true']
  refine ⟨hvalid.trans Line.isReserved_eq_false_iff_rootPlaces, fun line ts => Line.Scanner.map_fst_taken_of_tokens,
    ?_, rfl⟩
  intro h style shown answer c
  have hroot : Text.isBlank c.settings.rootSymbol = false := (Line.isReserved_eq_false_iff.1 (hvalid.1 h)).1
  constructor
  · intro bytes hturn
    obtain ⟨line, hdecode, hblank⟩ := turn_eq_blank_iff.1 hturn
    have hstripped := (isBlankLine_stripEnds line).trans hblank
    exact ⟨line, hdecode, Calculator.evaluate_blank hroot hblank, Calculator.evaluate_blank hroot hstripped⟩
  · intro input r every
    obtain ⟨hcalculator, hevaluated, hrefused⟩ := ofLines_eq_unskipped (lines input) c hroot
    refine ⟨hcalculator, ?_, hrefused⟩
    rw [← hevaluated]
    exact congrArg answers (ofLines_eq style style shown (lines input) c)

/-- The letter `r` for the root prefix, a tab and an ideographic space on a line. -/
theorem isValid_matches_lines_letter :
    let c : Calculator := ⟨⟨'r', true⟩, 42⟩
    let blank := "\t\u3000"
    let refused : Evaluation := ⟨stripEnds blank, c.outcome (stripEnds blank)⟩
    c.settings.isValid = true ∧ Line.rootPlaces 'r' "1..2r16 r,5" = [4, 8] ∧
      Line.tokens 'r' "r)" = .ok [.squareRoot, .closing] ∧
      ((Line.Scanner.start "r)").taken 'r').map Prod.fst = [.ok .squareRoot, .ok .closing] ∧
      turn {} c (encode blank.toList) = .blank ∧
      (∃ line, decode (encode blank.toList) = some line ∧ c.evaluate line = (.error .noTokens, c)) ∧
      refused ∈ (unskipped c (lines (encode blank.toList))).1 ∧ refused.isBlank = true ∧
      refused.outcome = .error .noTokens ∧
      (run {} c (encode blank.toList)).calculator = (unskipped c (lines (encode blank.toList))).2 := by
  intro c blank refused
  have hvalid : c.settings.isValid = true := by decide
  have htokens : Line.tokens 'r' "r)" = .ok [.squareRoot, .closing] := by decide +kernel
  have hturn : turn {} c (encode blank.toList) = .blank := by
    rw [turn_encode]
    exact if_pos (by decide)
  have hmem : refused ∈ (unskipped c (lines (encode blank.toList))).1 := by
    have hlines : lines (encode blank.toList) = [encode blank.toList] := by decide +kernel
    rw [hlines, unskipped, decode_encode, String.ofList_toList]
    exact List.mem_cons_self
  have hblank : refused.isBlank = true := (isBlankLine_stripEnds blank).trans (by decide)
  obtain ⟨hread, htaken, hskipped, -⟩ := isValid_matches_lines c.settings
  obtain ⟨hturns, hruns⟩ := hskipped hvalid {} c.settings 42
  obtain ⟨line, hdecode, hevaluate, -⟩ := hturns _ hturn
  obtain ⟨hcalculator, -, hrefused⟩ := hruns (encode blank.toList)
  have hplaces : Line.rootPlaces 'r' "1..2r16 r,5" = _ := (hread.1 hvalid).2 "1..2r16 r,5"
  exact ⟨hvalid, hplaces.trans (by decide), htokens, htaken _ _ htokens, hturn, ⟨line, hdecode, hevaluate⟩, hmem,
    hblank, hrefused refused hmem hblank, hcalculator⟩

end Settings
end Reckoner

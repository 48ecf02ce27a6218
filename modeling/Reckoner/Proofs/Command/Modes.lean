import Reckoner.Command
import Reckoner.Proofs.Transcript.Framing

/-!
# Command.Modes — three ways to evaluate one line

A line reaches the calculator as the first line of the input, with its line feed, as a word of the command line, with
nothing behind it, or as one of the lines of a text, with what is left of its end.  Line ends behind a line change
nothing in what is printed for it (`Transcript.answer_append`), so the three ways print the same (`modes_agree`).
-/
namespace Reckoner
namespace Transcript

/-! ## Ends of lines -/

theorem stripEnds_append {line ends : List Char} (h : ∀ c ∈ ends, isLineEnd c = true) :
    stripEnds (.ofList (line ++ ends)) = stripEnds (.ofList line) := by
  have hends : ∀ c ∈ ends.reverse, isLineEnd c = true := fun c hc => h c (List.mem_reverse.1 hc)
  unfold stripEnds
  rw [String.toList_ofList, String.toList_ofList, List.reverse_append, List.dropWhile_append_of_pos hends]

/-- **Line ends behind a line change nothing in its answer.** -/
theorem answer_append (style : Style) (c : Calculator) {line ends : List Char} (h : ∀ e ∈ ends, isLineEnd e = true)
    (shown : Settings) : answer style c (.ofList (line ++ ends)) shown = answer style c (.ofList line) shown := by
  unfold answer
  rw [stripEnds_append h]

def carriageReturn : UInt8 := 13

/-- **What can stand behind a line**: nothing, or a line feed, perhaps with a carriage return in front, and anything
behind it. -/
inductive Ending : List UInt8 → Prop where
  | none : Ending []
  | lineFeed (rest : List UInt8) : Ending (lineFeed :: rest)
  | carriageReturn (rest : List UInt8) : Ending (carriageReturn :: Transcript.lineFeed :: rest)

theorem lineFeed_not_mem_encode {line : List Char} (h : '\n' ∉ line) : lineFeed ∉ encode line := by
  intro hmem
  obtain ⟨c, hc, hbyte⟩ := List.mem_flatMap.1 hmem
  exact lineFeed_not_mem_utf8EncodeChar (fun heq => h (heq ▸ hc)) hbyte

theorem encode_ne_nil {line : List Char} (h : line ≠ []) : encode line ≠ [] := by
  obtain ⟨c, rest, rfl⟩ := List.exists_cons_of_ne_nil h
  simp [encode, String.utf8EncodeChar_ne_nil]

/-- **A line in front of its end is the first of the lines**, perhaps with a carriage return behind it. -/
theorem lines_ending {line : List Char} (hne : line ≠ []) (hline : '\n' ∉ line) {behind : List UInt8}
    (h : Ending behind) : ∃ (ends : List Char) (more : List (List UInt8)), (∀ c ∈ ends, isLineEnd c = true) ∧
      lines (encode line ++ behind) = encode (line ++ ends) :: more := by
  have hlines := lines_append_of_not_mem (encode_ne_nil hne) (lineFeed_not_mem_encode hline) behind
  rw [hlines]
  cases h with
  | none => exact ⟨[], [], nofun, by simp [prepend]⟩
  | lineFeed rest => exact ⟨[], lines rest, nofun, by simp [prepend]⟩
  | carriageReturn rest =>
    have hbyte : encode ['\r'] = [carriageReturn] := by decide
    refine ⟨['\r'], lines rest, List.forall_mem_singleton.2 rfl, ?_⟩
    rw [lines_cons_of_ne (by decide), lines_lineFeed_cons, encode_append, hbyte]
    rfl

end Transcript

namespace Command

open Transcript

/-! ## The first line of an input -/

theorem firstLine_append {front : List UInt8} (h : lineFeed ∉ front) (rest : List UInt8) :
    firstLine (front ++ rest) = front ++ firstLine rest := by
  have hfront : ∀ b ∈ front, (b != lineFeed) = true := fun b hb => bne_iff_ne.2 fun heq => h (heq ▸ hb)
  unfold firstLine
  rw [List.takeWhile_append_of_pos hfront, List.dropWhile_append_of_pos hfront, List.append_assoc]

/-- **The line that is read first is the line with its end behind it.** -/
theorem decode_firstLine_ending {line : List Char} (hline : '\n' ∉ line) {behind : List UInt8} (h : Ending behind) :
    ∃ ends : List Char, (∀ c ∈ ends, isLineEnd c = true) ∧
      decode (firstLine (encode line ++ behind)) = some (.ofList (line ++ ends)) := by
  rw [firstLine_append (lineFeed_not_mem_encode hline)]
  cases h with
  | none =>
    refine ⟨[], nofun, ?_⟩
    rw [← decode_encode, encode_append]
    rfl
  | lineFeed rest =>
    have hends : firstLine (lineFeed :: rest) = encode ['\n'] := rfl
    refine ⟨['\n'], List.forall_mem_singleton.2 rfl, ?_⟩
    rw [hends, ← encode_append, decode_encode]
  | carriageReturn rest =>
    have hends : firstLine (carriageReturn :: Transcript.lineFeed :: rest) = encode ['\r', '\n'] := rfl
    refine ⟨['\r', '\n'], List.forall_mem_cons.2 ⟨rfl, List.forall_mem_singleton.2 rfl⟩, ?_⟩
    rw [hends, ← encode_append, decode_encode]

/-! ## One line, three ways -/

variable {o : Options} {line : List Char} {behind : List UInt8}

theorem start_of_isValid {s : Settings} (h : s.isValid = true) : start s = .ok (.new s) := if_pos h

theorem evaluateLine_of_isValid (h : o.settings.isValid = true) (line : String) :
    evaluateLine o line = done ((answer o.style (.new o.settings) line).1 ++ "\n") := by
  unfold evaluateLine
  rw [start_of_isValid h]

theorem evaluateFirst_of_decode_eq_some {input : List UInt8} {text : String} (h : decode (firstLine input) = some text) :
    evaluateFirst o input = evaluateLine o text := by
  unfold evaluateFirst
  rw [h]

theorem evaluateLines_of_isValid (h : o.settings.isValid = true) (input : List UInt8) :
    evaluateLines o input = ofTranscript (Transcript.run o.style (.new o.settings) input) := by
  unfold evaluateLines
  rw [start_of_isValid h]

theorem run_perform {words : List String} {action : Action} (h : read words = some (.perform action o))
    (input : List UInt8) : run words input = perform o input action := by
  unfold run
  rw [h]

theorem evaluateFirst_ending (hvalid : o.settings.isValid = true) (hline : '\n' ∉ line) (h : Ending behind) :
    evaluateFirst o (encode line ++ behind) = done ((answer o.style (.new o.settings) (.ofList line)).1 ++ "\n") := by
  obtain ⟨ends, hends, hdecode⟩ := decode_firstLine_ending hline h
  rw [evaluateFirst_of_decode_eq_some hdecode, evaluateLine_of_isValid hvalid, answer_append _ _ hends]

theorem output_ofTranscript (t : Transcript) : (ofTranscript t).output = t.output := by
  unfold ofTranscript
  cases t.refusal? <;> rfl

theorem output_evaluateLines_ending (hvalid : o.settings.isValid = true) (hline : '\n' ∉ line)
    (hblank : isBlankLine line = false) (h : Ending behind) : ∃ later : List String,
      (evaluateLines o (encode line ++ behind)).output = String.join
        (((answer o.style (.new o.settings) (.ofList line)).1 :: later).map (· ++ "\n")) := by
  have hne : line ≠ [] := by
    rintro rfl
    cases hblank
  obtain ⟨ends, more, hends, hlines⟩ := lines_ending hne hline h
  have hblank' : isBlankLine (line ++ ends) = false := by
    rw [isBlankLine, List.all_append]
    exact Bool.and_eq_false_imp.2 fun hall => absurd (hall.symm.trans hblank) (by decide)
  have hturn : turn o.style (.new o.settings) (encode (line ++ ends)) (Calculator.new o.settings).settings =
      .answered (answer o.style (.new o.settings) (.ofList line)).1 (answer o.style (.new o.settings) (.ofList line)).2 := by
    rw [turn_encode, hblank', answer_append _ _ hends]
    rfl
  rw [evaluateLines_of_isValid hvalid, output_ofTranscript, Transcript.run, hlines, ofLines, hturn]
  exact ⟨_, rfl⟩

/-- **The three ways to evaluate a line agree.**  For options with valid settings and a line that is not blank and has
no line feed in it, whatever ends it and whatever the input goes on with: the program without a verb, `eval` with the
line as its word, and `repl` as its first answer print the same record. -/
theorem modes_agree (o : Options) (line : String) (behind : List UInt8) (first word text : List String)
    (hvalid : o.settings.isValid = true) (hline : '\n' ∉ line.toList)
    (hblank : line.toList.all Text.isBlank = false) (hbehind : Ending behind)
    (hfirst : read first = some (.perform .firstLine o)) (hword : read word = some (.perform (.evaluate line) o))
    (htext : read text = some (.perform .lines o)) :
    ∃ record : String,
      run first (bytes line ++ behind) = done (record ++ "\n") ∧
      (∀ input, run word input = done (record ++ "\n")) ∧
      ∃ later : List String,
        (run text (bytes line ++ behind)).output = String.join ((record :: later).map (· ++ "\n")) := by
  refine ⟨(answer o.style (.new o.settings) line).1, ?_, fun input => ?_, ?_⟩
  · have hmode := evaluateFirst_ending hvalid hline hbehind
    rw [String.ofList_toList, ← bytes_eq_encode] at hmode
    rw [run_perform hfirst]
    exact hmode
  · rw [run_perform hword]
    exact evaluateLine_of_isValid hvalid line
  · have hmode := output_evaluateLines_ending hvalid hline hblank hbehind
    rw [String.ofList_toList, ← bytes_eq_encode] at hmode
    rw [run_perform htext]
    exact hmode

/-- Carriage returns in the line, behind it and in its end, and a line behind that is no text. -/
theorem modes_agree_returns :
    let o : Options := { json := true, tokens := true }
    let input := bytes "-6*\r7\r" ++ [0x0d, 0x0a, 0xff]
    read ["--json", "--tokens"] = some (.perform .firstLine o) ∧
      read ["--json", "eval", "--tokens", "--", "-6*\r7\r"] = some (.perform (.evaluate "-6*\r7\r") o) ∧
      read ["repl", "--tokens", "--json"] = some (.perform .lines o) ∧
      ∃ record : String,
        run ["--json", "--tokens"] input = done (record ++ "\n") ∧
        run ["--json", "eval", "--tokens", "--", "-6*\r7\r"] [] = done (record ++ "\n") ∧
        ∃ later : List String,
          (run ["repl", "--tokens", "--json"] input).output = String.join ((record :: later).map (· ++ "\n")) := by
  intro o input
  have hfirst : read ["--json", "--tokens"] = some (.perform .firstLine o) := by decide +kernel
  have hword : read ["--json", "eval", "--tokens", "--", "-6*\r7\r"] =
      some (.perform (.evaluate "-6*\r7\r") o) := by decide +kernel
  have htext : read ["repl", "--tokens", "--json"] = some (.perform .lines o) := by decide +kernel
  obtain ⟨record, hfirst', hword', htext'⟩ := modes_agree o "-6*\r7\r" [0x0d, 0x0a, 0xff] _ _ _ (by decide) (by decide)
    (by decide) (.carriageReturn [0xff]) hfirst hword htext
  exact ⟨hfirst, hword, htext, record, hfirst', hword' [], htext'⟩

end Command
end Reckoner

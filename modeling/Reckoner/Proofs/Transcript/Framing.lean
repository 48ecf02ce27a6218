import Reckoner.Proofs.Transcript.OneLine
import Reckoner.Proofs.Transcript.Text

/-!
# Transcript.Framing — what a run prints for which line

A run over a text goes on where the run over its first lines ended (`ofLines_append`).  Every line that is not blank is
printed as one line, or as two with its tokens, and a line is asked for once more than the text has lines
(`run_text`).
-/
namespace Reckoner

theorem Settings.rootSymbol_ne_lineFeed {s : Settings} (h : s.isValid = true) : s.rootSymbol ≠ '\n' := by
  intro hroot
  rw [isValid, hroot] at h
  exact absurd h (by decide)

namespace Transcript

variable {style : Style} {shown : Settings} {c : Calculator}

/-! ## Runs one after another -/

/-- A run and what comes of going on behind it.  The line that the first run asked for in vain is the first one of the
second run. -/
def followedBy (first second : Transcript) : Transcript :=
  ⟨first.answers ++ second.answers, first.asked - 1 + second.asked, second.calculator, second.unreadable⟩

theorem count_followedBy (first second : Transcript) :
    (first.followedBy second).count = first.count + second.count := List.length_append

theorem output_followedBy (first second : Transcript) :
    (first.followedBy second).output = first.output ++ second.output := by
  simp [followedBy, output, String.join_append]

theorem asked_pos (style : Style) (shown : Settings) (c : Calculator) (ls : List (List UInt8)) :
    0 < (ofLines style shown c ls).asked := by
  cases ls with
  | nil => exact Nat.one_pos
  | cons bytes ls =>
    rw [ofLines]
    split <;> exact Nat.succ_pos _

/-- **A run goes on where the run over the lines before ended**, if all of these could be read. -/
theorem ofLines_append (rest : List (List UInt8)) : ∀ (ls : List (List UInt8)) (c : Calculator),
    (ofLines style shown c ls).unreadable = false → ofLines style shown c (ls ++ rest) =
      (ofLines style shown c ls).followedBy (ofLines style shown (ofLines style shown c ls).calculator rest)
  | [], c, _ => by simp [ofLines, followedBy]
  | bytes :: ls, c, h => by
    rw [List.cons_append, ofLines, ofLines]
    rw [ofLines] at h
    cases hturn : turn style c bytes shown with
    | unreadable => simp [hturn] at h
    | blank =>
      -- the first run has asked at least once, so nothing is lost where its last question is taken away
      have hasked := asked_pos style shown c ls
      simp only [hturn] at h ⊢
      rw [ofLines_append rest ls c h]
      simp only [followedBy, mk.injEq, and_true, true_and]
      omega
    | answered text next =>
      have hasked := asked_pos style shown next ls
      simp only [hturn] at h ⊢
      rw [ofLines_append rest ls next h]
      simp only [followedBy, List.cons_append, mk.injEq, and_true, true_and]
      omega

/-! ## Lines of a text -/

def isBlankLine (line : List Char) : Bool := line.all Text.isBlank

theorem turn_encode (c : Calculator) (line : List Char) : turn style c (encode line) shown =
    if isBlankLine line then .blank
    else .answered (answer style c (.ofList line) shown).1 (answer style c (.ofList line) shown).2 := by
  unfold turn
  rw [decode_encode]
  simp [isBlankLine]

theorem count_answer (hroot : shown.rootSymbol ≠ '\n') (line : String) :
    (answer style c line shown).1.toList.count '\n' = if style.tokens then 1 else 0 := by
  have houtcome := List.count_eq_zero_of_not_mem
    (lineFeed_not_mem_outcomeText style (stripEnds line) (c.outcome (stripEnds line)))
  unfold answer Calculator.evaluate
  by_cases htokens : style.tokens
  · simp [htokens, count_tokenLine hroot, houtcome]
  · simp [htokens, houtcome]

/-- **What a run over lines that can be read has done.** -/
structure Framed (style : Style) (ls : List (List Char)) (t : Transcript) : Prop where
  readable : t.unreadable = false
  asked : t.asked = ls.length + 1
  count : t.count = ls.countP fun line => !isBlankLine line
  lineFeeds : ∀ answer ∈ t.answers, answer.toList.count '\n' = if style.tokens then 1 else 0

theorem framed_ofLines (hroot : shown.rootSymbol ≠ '\n') : ∀ (ls : List (List Char)) (c : Calculator),
    Framed style ls (ofLines style shown c (ls.map encode))
  | [], c => by
    constructor <;> simp [ofLines, Transcript.count]
  | line :: ls, c => by
    rw [List.map_cons, ofLines, turn_encode]
    by_cases hblank : isBlankLine line
    · have ih := framed_ofLines hroot ls c
      simp only [hblank, if_true]
      constructor
      · exact ih.readable
      · simpa using ih.asked
      · simpa [hblank, Transcript.count] using ih.count
      · exact ih.lineFeeds
    · have ih := framed_ofLines hroot ls (answer style c (.ofList line) shown).2
      simp only [hblank, Bool.false_eq_true, if_false]
      constructor
      · exact ih.readable
      · simpa using ih.asked
      · simpa [hblank, Transcript.count] using ih.count
      · exact List.forall_mem_cons.2 ⟨count_answer hroot _, ih.lineFeeds⟩

theorem count_join {n : Nat} : ∀ {answers : List String}, (∀ answer ∈ answers, answer.toList.count '\n' = n) →
    (String.join (answers.map (· ++ "\n"))).toList.count '\n' = (n + 1) * answers.length
  | [], _ => by simp
  | answer :: answers, h => by
    rcases List.forall_mem_cons.1 h with ⟨hanswer, hanswers⟩
    have ih := count_join hanswers
    rw [String.toList_join] at ih ⊢
    simp [hanswer, ih, Nat.mul_add]
    omega

/-! ## Texts -/

theorem framed_run (hroot : shown.rootSymbol ≠ '\n') (c : Calculator) (text : String) :
    Framed style (textLines text.toList) (run style c (bytes text) shown) := by
  rw [run, bytes_eq_encode, lines_encode]
  exact framed_ofLines hroot _ c

/-- A text that is empty or ends its last line. -/
def EndsLine (text : String) : Prop := text = "" ∨ ∃ start, text = start ++ "\n"

theorem lines_bytes_append {text₁ : String} (h : EndsLine text₁) (text₂ : String) :
    lines (bytes (text₁ ++ text₂)) = lines (bytes text₁) ++ lines (bytes text₂) := by
  rcases h with rfl | ⟨start, rfl⟩
  · simp [bytes_eq_encode, encode]
  · have hbyte : encode ['\n'] = [lineFeed] := by decide
    simp only [bytes_eq_encode, String.toList_append, encode_append]
    rw [show "\n".toList = ['\n'] from rfl, hbyte, List.append_assoc, List.singleton_append,
      lines_append_lineFeed]

/-- **A run over a text is the runs over its parts one after another**, if the first part ends its last line; and every
line that is not blank is one line of output, or two with its tokens. -/
theorem run_text (style : Style) (shown : Settings) (c : Calculator) (hvalid : shown.isValid = true) :
    (∀ text₁ text₂ : String, EndsLine text₁ →
      let first := run style c (bytes text₁) shown
      let second := run style first.calculator (bytes text₂) shown
      let both := run style c (bytes (text₁ ++ text₂)) shown
      both.output = first.output ++ second.output ∧ both.count = first.count + second.count ∧
        both.calculator = second.calculator) ∧
    ∀ text : String,
      let whole := run style c (bytes text) shown
      whole.refusal? = none ∧
        whole.count = ((textLines text.toList).filter fun line => !isBlankLine line).length ∧
        (∀ answer ∈ whole.answers, answer.toList.count '\n' = if style.tokens then 1 else 0) ∧
        whole.output.toList.count '\n' = (if style.tokens then 2 else 1) * whole.count ∧
        whole.prompts = String.join (List.replicate ((textLines text.toList).length + 1) "> ") := by
  have hroot := Settings.rootSymbol_ne_lineFeed hvalid
  constructor
  · intro text₁ text₂ hends first second both
    have hreadable : first.unreadable = false := (framed_run hroot c text₁).readable
    have hboth : both = first.followedBy second := by
      show ofLines style shown c (lines (bytes (text₁ ++ text₂))) = _
      rw [lines_bytes_append hends]
      exact ofLines_append _ _ c hreadable
    rw [hboth]
    exact ⟨output_followedBy first second, count_followedBy first second, rfl⟩
  · intro text whole
    have hwhole : Framed style (textLines text.toList) whole := framed_run hroot c text
    refine ⟨?_, ?_, hwhole.lineFeeds, ?_, ?_⟩
    · rw [refusal?, hwhole.readable]
      rfl
    · rw [hwhole.count, List.countP_eq_length_filter]
    · rw [output, count_join hwhole.lineFeeds]
      split <;> rfl
    · rw [prompts, hwhole.asked]
      rfl

-- one line of output for each of the three lines that are not blank, in a text of four
example : (run {} (.new {}) (bytes "6*7\n\na/2\n(1\n")).output = "42\n21\nSYNTAX ERROR\n" := by decide +kernel

/-- Two lines as records with their tokens: the first part ends its line, and the second refers to its answer. -/
theorem run_text_two :
    ({} : Settings).isValid = true ∧ EndsLine "6*7\n" ∧
      let first := run ⟨none, true, true⟩ (.new {}) (bytes "6*7\n") {}
      (run ⟨none, true, true⟩ (.new {}) (bytes "6*7\na/2") {}).output =
        first.output ++ (run ⟨none, true, true⟩ first.calculator (bytes "a/2") {}).output :=
  ⟨by decide, .inr ⟨"6*7", rfl⟩,
    ((run_text ⟨none, true, true⟩ {} (.new {}) (by decide)).1 "6*7\n" "a/2" (.inr ⟨"6*7", rfl⟩)).1⟩

end Transcript
end Reckoner

import Reckoner.Transcript
import Reckoner.Proofs.Acceptance
import Reckoner.Proofs.Dump
import Reckoner.Proofs.Printed

/-!
# Transcript.OneLine — everything printed stays on its line

No token and no message has a line feed in it, whatever characters a line is made of, and what is printed for numbers
and records has no control characters at all.  So an outcome is one line, plain or as a record
(`lineFeed_not_mem_outcomeText`), and the tokens in front of it are another one (`count_tokenLine`).
-/
namespace Reckoner

/-! ## Tokens -/

namespace Token

variable {root : Char}

theorem lineFeed_not_mem_textWith (hroot : root ≠ '\n') (t : Token) : '\n' ∉ (t.textWith root).toList := by
  cases t with
  | number value => exact (Numeral.printed_plain value).lineFeed_not_mem
  | op operator => cases operator <;> simp [textWith, Operator.symbol]
  | squareRoot => simpa [textWith] using hroot.symm
  | _ => simp [textWith]

theorem lineFeed_not_mem_dumpWith (hroot : root ≠ '\n') : ∀ ts : List Token, '\n' ∉ (dumpWith root ts).toList
  | [] => by simp [dumpWith]
  | [t] => by
    have hone : dumpWith root [t] = t.textWith root := String.intercalate_singleton
    rw [hone]
    exact lineFeed_not_mem_textWith hroot t
  | t :: u :: us => by
    rw [toList_dumpWith_cons]
    simp [lineFeed_not_mem_textWith hroot, lineFeed_not_mem_dumpWith hroot (u :: us)]

end Token

theorem FailureKind.lineFeed_not_mem_lead (kind : FailureKind) : '\n' ∉ kind.lead.toList := by
  cases kind <;> decide

theorem FailureKind.lineFeed_not_mem_text (kind : FailureKind) : '\n' ∉ kind.text.toList := by
  cases kind <;> decide

namespace Line

theorem lineFeed_not_mem_pointed {run : List Char} (h : ∀ c ∈ run, isNumeric c = true) : '\n' ∉ run.map pointed := by
  intro hmem
  obtain ⟨c, hc, hpointed⟩ := List.mem_map.1 hmem
  have hnumeric := h c hc
  unfold pointed at hpointed
  split at hpointed
  · exact absurd hpointed (by decide)
  · rw [hpointed] at hnumeric
    exact absurd hnumeric (by decide)

theorem lineFeed_not_mem_malformedNumber {literal : List Char} (h : '\n' ∉ literal) (position : Nat) :
    '\n' ∉ (Failure.malformedNumber literal position).detail.toList := by
  have hbefore : '\n' ∉ "malformed number '".toList := by decide
  have hbetween : '\n' ∉ "' at position ".toList := by decide
  have hposition : '\n' ∉ (toString position).toList := by simpa using (printed_toDigits position).lineFeed_not_mem
  unfold Failure.detail
  simp only [String.toList_append, List.mem_append, String.toList_ofList, not_or]
  exact ⟨⟨⟨hbefore, h⟩, hbetween⟩, hposition⟩

theorem lineFeed_not_mem_message {root : Char} {line : String} {f : Failure} (h : tokens root line = .error f) :
    '\n' ∉ f.message.toList := by
  have hdetail : '\n' ∉ f.detail.toList := by
    obtain rfl | ⟨run, start, hrun, rfl⟩ := tokens_error_cases h
    · decide
    · exact lineFeed_not_mem_malformedNumber (lineFeed_not_mem_pointed hrun) start
  simp [Failure.message, FailureKind.lineFeed_not_mem_lead, hdetail]

end Line

/-! ## Answers -/

namespace Transcript

theorem lineFeed_not_mem_outcomeText (style : Style) (line : String) (outcome : Except Failure Float) :
    '\n' ∉ (outcomeText style line outcome).toList := by
  unfold outcomeText
  split
  · exact (Record.printed_text _).lineFeed_not_mem
  · cases outcome with
    | ok x => exact (Numeral.printed_display _ x).lineFeed_not_mem
    | error f => exact f.kind.lineFeed_not_mem_text

theorem count_tokenLine {root : Char} (hroot : root ≠ '\n') (line : String) :
    (tokenLine root line).toList.count '\n' = 1 := by
  unfold tokenLine
  split
  · rename_i ts hts
    simp [Token.lineFeed_not_mem_dumpWith hroot, List.count_eq_zero_of_not_mem]
  · rename_i f hf
    simp [Line.lineFeed_not_mem_message hf, List.count_eq_zero_of_not_mem]

end Transcript
end Reckoner

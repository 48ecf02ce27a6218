import Reckoner.Proofs.Json.Written

/-!
# Record — what a record says

The text of a record is JSON on one line: an object whose members say what was recorded and nothing else
(`Record.text_reads_back`).  The strings come back as they were, and the number as the same double, its sign included.
-/
namespace Reckoner

namespace Json

theorem isBare_of_isDigit {c : Char} (h : c.isDigit = true) : isBare c = true := by
  have hpunctuation : punctuation? c = none := by
    unfold punctuation?
    split <;> first | rfl | cases h
  have hne : ∀ d : Char, d.isDigit = false → c ≠ d := by
    rintro d hd rfl
    rw [h] at hd
    cases hd
  simp [isBare, isSpace, hpunctuation, hne ' ' rfl, hne '\t' rfl, hne '\n' rfl, hne '\r' rfl, hne '"' rfl]

theorem isBare_of_marked {cs : List Char} (h : Numeral.Marked cs) : ∀ c ∈ cs, isBare c = true := by
  intro c hc
  obtain hdigit | hmark := h c hc
  · exact isBare_of_isDigit hdigit
  · simp only [List.mem_cons, List.not_mem_nil, or_false] at hmark
    rcases hmark with rfl | rfl | rfl | rfl <;> rfl

theorem bare?_of_number? {run : List Char} {l : Lexeme} (h : number? run = some l) : bare? run = some l := by
  have hwords : ∀ word ∈ ["null".toList, "true".toList, "false".toList], number? word = none := by decide
  have hne : ∀ word ∈ ["null".toList, "true".toList, "false".toList], run ≠ word := by
    rintro word hword rfl
    rw [hwords run hword] at h
    cases h
  simp only [List.forall_mem_cons] at hne
  rw [bare?, if_neg hne.1, if_neg hne.2.1, if_neg hne.2.2.1, h]

theorem scans_string (s : String) : Scans (Record.string s) (Json.string s).lexemes := by
  have hquoted := scans_quoted s.toList
  rwa [String.ofList_toList] at hquoted

end Json

theorem Numeral.isSome_result? (x : Float) : (result? x).isSome = x.isFinite := by
  unfold result?
  split <;> simp_all

namespace Json

/-- **The number of a record** is scanned as a number that reads as the double, or as `null` if there is none. -/
theorem exists_scans_number (x : Float) : ∃ result : Json, Scans (Record.number x) result.lexemes ∧
    if x.isNaN || x.isInf then result = .null else result.toFloat? = some x := by
  have hfinite : (x.isNaN || x.isInf) = !(Numeral.result? x).isSome := by
    rw [Numeral.isSome_result?, Binary64.isFinite_eq]
    simp
  rw [hfinite]
  unfold Record.number
  cases hresult : Numeral.result? x with
  | some written =>
    obtain ⟨negative, size, hnumber, hfloat⟩ := exists_number?_of_result? hresult
    have hscans := scans_bare (isBare_of_marked (Numeral.marked_of_result? hresult)) (bare?_of_number? hnumber)
    exact ⟨.number negative size, by simpa [lexemes] using hscans, by simpa using hfloat⟩
  | none => exact ⟨.null, scans_bare (List.all_eq_true.1 rfl) rfl, rfl⟩

theorem read?_object (m : Member) (ms : List Member) (h : ∀ m' ∈ m :: ms, Scans m'.written m'.value.lexemes) :
    read? (.ofList (Record.object ((m :: ms).map Member.text))) = some (.object ((m :: ms).map Member.pair)) := by
  rw [read?, String.toList_ofList, scan?_object m ms h]
  exact ofLexemes?_eq_some_iff.2 rfl

end Json

namespace Record

open Json (Member)

theorem exists_read?_value (input : String) (x : Float) (display : String) : ∃ result : Json,
    Json.read? (value input x display).text =
      some (.object [("display", .string display), ("input", .string input), ("result", result)]) ∧
    if x.isNaN || x.isInf then result = .null else result.toFloat? = some x := by
  obtain ⟨result, hscans, hresult⟩ := Json.exists_scans_number x
  refine ⟨result, ?_, hresult⟩
  refine Json.read?_object ⟨"display", _, .string display⟩ [⟨"input", _, .string input⟩, ⟨"result", _, result⟩] ?_
  exact List.forall_mem_cons.2 ⟨Json.scans_string _,
    List.forall_mem_cons.2 ⟨Json.scans_string _, List.forall_mem_singleton.2 hscans⟩⟩

theorem read?_failure (input : String) (kind : FailureKind) (detail : String) :
    Json.read? (failure input kind detail).text =
      some (.object [("detail", .string detail), ("error", .string kind.text), ("input", .string input)]) := by
  refine Json.read?_object ⟨"detail", _, .string detail⟩
    [⟨"error", _, .string kind.text⟩, ⟨"input", _, .string input⟩] ?_
  exact List.forall_mem_cons.2 ⟨Json.scans_string _,
    List.forall_mem_cons.2 ⟨Json.scans_string _, List.forall_mem_singleton.2 (Json.scans_string _)⟩⟩

/-- **A record is read as what it records**: an object with the members of its kind and no others, the strings
unchanged, and the number as the same double.  Only for NaN and the infinities stands `null`.  What is wrong with a
line counts for its kind and its wording, whatever they are. -/
theorem text_reads_back (input : String) (places : Option Nat) :
    (∀ x : Float,
      let text := (ofOutcome places input (.ok x)).text
      (∀ c ∈ text.toList, 0x20 ≤ c.toNat) ∧
        ∃ result : Json,
          Json.read? text = some (.object [("display", .string (Numeral.display places x)), ("input", .string input),
            ("result", result)]) ∧
          if x.isNaN || x.isInf then result = .null else result.toFloat? = some x) ∧
      (∀ f : Failure, ofOutcome places input (.error f) = failure input f.kind f.detail) ∧
      ∀ (kind : FailureKind) (detail : String),
        let text := (failure input kind detail).text
        (∀ c ∈ text.toList, 0x20 ≤ c.toNat) ∧
          Json.read? text = some (.object [("detail", .string detail), ("error", .string kind.text),
            ("input", .string input)]) := by
  refine ⟨?_, fun _ => rfl, ?_⟩
  · intro x text
    exact ⟨printed_text _, exists_read?_value input x (Numeral.display places x)⟩
  · intro kind detail text
    exact ⟨printed_text _, read?_failure input kind detail⟩

end Record
end Reckoner

import Reckoner.Proofs.Transcript.Framing

/-!
# Transcript.Unreadable — a line that is no text

A run ends early exactly at the first line that is not UTF-8 (`refusal?_run_eq_none_iff`).  What it has done by then is
what the run over the lines before does (`ofLines_append_unreadable`), whatever stands behind.
-/
namespace Reckoner
namespace Transcript

variable {style : Style} {shown : Settings}

/-- The bytes of the first `k` lines, with their line feeds. -/
def firstLines : Nat → List UInt8 → List UInt8
  | 0, _ => []
  | _ + 1, [] => []
  | k + 1, b :: rest => if b = lineFeed then b :: firstLines k rest else b :: firstLines (k + 1) rest

theorem isPrefix_firstLines : ∀ (k : Nat) (input : List UInt8), firstLines k input <+: input
  | 0, input => by simp [firstLines]
  | k + 1, [] => by simp [firstLines]
  | k + 1, b :: rest => by
    rw [firstLines]
    split
    · exact (List.prefix_cons_inj b).2 (isPrefix_firstLines k rest)
    · exact (List.prefix_cons_inj b).2 (isPrefix_firstLines (k + 1) rest)

theorem take_prepend {α : Type} (front : List α) (k : Nat) (ls : List (List α)) :
    (prepend front ls).take (k + 1) = prepend front (ls.take (k + 1)) := by
  cases ls <;> simp [prepend]

/-- **The first lines of a text are lines of it.** -/
theorem lines_firstLines : ∀ (k : Nat) (input : List UInt8), lines (firstLines k input) = (lines input).take k
  | 0, input => by simp [firstLines]
  | k + 1, [] => by simp [firstLines]
  | k + 1, b :: rest => by
    rw [firstLines]
    by_cases hb : b = lineFeed
    · rw [if_pos hb, hb, lines_lineFeed_cons, lines_lineFeed_cons, lines_firstLines k rest, List.take_succ_cons]
    · rw [if_neg hb, lines_cons_of_ne hb, lines_cons_of_ne hb, lines_firstLines (k + 1) rest, take_prepend]

theorem turn_eq_unreadable_iff {c : Calculator} {bytes : List UInt8} :
    turn style c bytes shown = .unreadable ↔ decode bytes = none := by
  unfold turn
  cases decode bytes with
  | none => simp
  | some line =>
    simp only [reduceCtorEq, iff_false]
    split <;> simp

theorem unreadable_ofLines_iff : ∀ (ls : List (List UInt8)) (c : Calculator),
    (ofLines style shown c ls).unreadable = false ↔ ∀ line ∈ ls, decode line ≠ none
  | [], c => by simp [ofLines]
  | bytes :: ls, c => by
    have hbytes : decode bytes ≠ none ↔ turn style c bytes shown ≠ .unreadable := not_congr turn_eq_unreadable_iff.symm
    rw [ofLines, List.forall_mem_cons, hbytes]
    cases hturn : turn style c bytes shown with
    | unreadable => simp
    | blank => simp [unreadable_ofLines_iff ls c]
    | answered text next => simp [unreadable_ofLines_iff ls next]

theorem asked_ofLines : ∀ (ls : List (List UInt8)) (c : Calculator), (ofLines style shown c ls).unreadable = false →
    (ofLines style shown c ls).asked = ls.length + 1
  | [], c, _ => rfl
  | bytes :: ls, c, h => by
    rw [ofLines] at h ⊢
    cases hturn : turn style c bytes shown with
    | unreadable => simp [hturn] at h
    | blank =>
      simp only [hturn] at h
      simp [asked_ofLines ls c h]
    | answered text next =>
      simp only [hturn] at h
      simp [asked_ofLines ls next h]

theorem ofLines_unreadable (c : Calculator) {bad : List UInt8} (hbad : decode bad = none) (rest : List (List UInt8)) :
    ofLines style shown c (bad :: rest) = ⟨[], 1, c, true⟩ := by
  rw [ofLines, turn_eq_unreadable_iff.2 hbad]

/-- **A line that is no text adds nothing** to what the lines before it have done, and hides whatever stands behind. -/
theorem ofLines_append_unreadable (c : Calculator) {ls : List (List UInt8)} {bad : List UInt8}
    (hls : (ofLines style shown c ls).unreadable = false) (hbad : decode bad = none) (rest : List (List UInt8)) :
    ofLines style shown c (ls ++ bad :: rest) = { ofLines style shown c ls with unreadable := true } := by
  have hasked := asked_pos style shown c ls
  rw [ofLines_append _ ls c hls, ofLines_unreadable _ hbad]
  simp only [followedBy, List.append_nil, mk.injEq, and_true, true_and]
  omega

theorem refusal?_eq_none_iff {t : Transcript} : t.refusal? = none ↔ t.unreadable = false := by
  unfold refusal?
  cases t.unreadable <;> simp

/-- **A run goes to the end exactly if every line is text**; evaluation never ends it. -/
theorem refusal?_run_eq_none_iff (c : Calculator) (input : List UInt8) :
    (run style c input shown).refusal? = none ↔ ∀ line ∈ lines input, decode line ≠ none :=
  refusal?_eq_none_iff.trans (unreadable_ofLines_iff (lines input) c)

/-- **A run ends at the first line that is no text**, with what the run over the lines before comes to: the same output,
the same calculator, and as many prompts as it has read lines, that one included.  With no such line it goes to the
end. -/
theorem run_unreadable (style : Style) (shown : Settings) (c : Calculator) (input : List UInt8) :
    (∀ (k : Nat) (bad : List UInt8), (lines input)[k]? = some bad → decode bad = none →
      (∀ line ∈ (lines input).take k, decode line ≠ none) →
        let before := run style c (firstLines k input) shown
        let whole := run style c input shown
        (firstLines k input <+: input ∧ lines (firstLines k input) = (lines input).take k) ∧
          before.refusal? = none ∧ whole.refusal? = some .unreadable ∧ whole.output = before.output ∧
          whole.calculator = before.calculator ∧ whole.prompts = String.join (List.replicate (k + 1) "> ")) ∧
      ((∀ line ∈ lines input, decode line ≠ none) → (run style c input shown).refusal? = none) := by
  refine ⟨?_, (refusal?_run_eq_none_iff c input).2⟩
  intro k bad hk hbad hread before whole
  have hlines := lines_firstLines k input
  obtain ⟨hlt, rfl⟩ := List.getElem?_eq_some_iff.1 hk
  have hlength : ((lines input).take k).length = k := List.length_take_of_le (Nat.le_of_lt hlt)
  have hreadable : (ofLines style shown c ((lines input).take k)).unreadable = false :=
    (unreadable_ofLines_iff _ c).2 hread
  have hbefore : before = ofLines style shown c ((lines input).take k) := congrArg (ofLines style shown c) hlines
  have hwhole : whole = { before with unreadable := true } := by
    have hsplit : lines input = (lines input).take k ++ (lines input)[k] :: (lines input).drop (k + 1) := by
      rw [← List.drop_eq_getElem_cons hlt, List.take_append_drop]
    rw [hbefore, ← ofLines_append_unreadable c hreadable hbad ((lines input).drop (k + 1)), ← hsplit]
    rfl
  refine ⟨⟨isPrefix_firstLines k input, hlines⟩, ?_, ?_, ?_, ?_, ?_⟩
  · rw [hbefore]
    exact refusal?_eq_none_iff.2 hreadable
  · rw [hwhole]
    rfl
  · rw [hwhole]
    rfl
  · rw [hwhole]
  · have hasked : before.asked = k + 1 := by rw [hbefore, asked_ofLines _ c hreadable, hlength]
    rw [hwhole, prompts, hasked]
    rfl

/-- A lone `0xff` between a sum and a line that goes on with it. -/
theorem run_unreadable_between :
    let input : List UInt8 := [0x31, 0x2b, 0x31, 0x0a, 0xff, 0x0d, 0x0a, 0x61, 0x2b, 0x31]
    (lines input)[1]? = some [0xff, 0x0d] ∧ decode [0xff, 0x0d] = none ∧
      (∀ line ∈ (lines input).take 1, decode line ≠ none) ∧
      (run {} (.new {}) input).output = (run {} (.new {}) [0x31, 0x2b, 0x31, 0x0a]).output ∧
      (run {} (.new {}) input).prompts = "> > " := by
  intro input
  have hline : (lines input)[1]? = some [0xff, 0x0d] := by decide
  have hbad : decode [0xff, 0x0d] = none := by decide +kernel
  have hread : ∀ line ∈ (lines input).take 1, decode line ≠ none := by decide +kernel
  obtain ⟨_, _, _, houtput, _, hprompts⟩ := (run_unreadable {} {} (.new {}) input).1 1 _ hline hbad hread
  exact ⟨hline, hbad, hread, houtput, hprompts⟩

end Transcript
end Reckoner

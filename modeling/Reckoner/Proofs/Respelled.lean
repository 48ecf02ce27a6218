import Reckoner.Proofs.Answer
import Reckoner.Proofs.Line.Stream

/-!
# Respelled — what does not matter on a line

Wherever no run of digits and separators goes on, the entries of a line are those of its two parts, one after the other
(`Line.entriesFrom_joined`).  So a character that means nothing may stand there or not (`Line.read?_ignored`), and a
run is read the same with points and with commas (`Line.entriesFrom_map_pointed`).  However often a line is spelt anew
in these two ways, it comes to the same (`Calculator.evaluate_respelled`).
-/
namespace Reckoner

namespace Line

variable {root c : Char} {front back : List Char}

def IsIgnored (root c : Char) : Prop := isNumeric c = false ∧ meaning? root c = none

/-- **Two spellings of one line**: characters without a meaning come and go, and points and commas take turns. -/
inductive Respelled (root : Char) : List Char → List Char → Prop where
  | noise {front back : List Char} {c : Char} (hc : IsIgnored root c) (h : Joins front back) :
    Respelled root (front ++ c :: back) (front ++ back)
  | separator (front back : List Char) : Respelled root (front ++ '.' :: back) (front ++ ',' :: back)
  | symm {cs ds : List Char} : Respelled root cs ds → Respelled root ds cs
  | trans {cs ds es : List Char} : Respelled root cs ds → Respelled root ds es → Respelled root cs es

/-! ## Noise -/

theorem read?_ignored (hc : IsIgnored root c) (h : Joins front back) :
    read? root (front ++ c :: back) = read? root (front ++ back) := by
  have hsymbol : symbol? root c = none := (symbol?_eq_meaning? root c).trans hc.2
  have hback : read? root (c :: back) = read? root back := by
    rw [read?_cons hc.1, hsymbol]
    cases read? root back <;> rfl
  rw [read?_append_cons hc.1, read?_joined h, hback]

/-! ## Separators -/

theorem pointed_of_ne (h : c ≠ ',') : pointed c = c := if_neg (by simpa using h)

theorem pointed_of_not_isNumeric (h : isNumeric c = false) : pointed c = c :=
  pointed_of_ne fun hcomma => by
    rw [hcomma] at h
    cases h

theorem pointed_pointed (c : Char) : pointed (pointed c) = pointed c := by
  by_cases hcomma : c = ','
  · rw [hcomma]
    rfl
  · rw [pointed_of_ne hcomma, pointed_of_ne hcomma]

theorem isNumeric_pointed (c : Char) : isNumeric (pointed c) = isNumeric c := by
  by_cases hcomma : c = ','
  · rw [hcomma]
    rfl
  · rw [pointed_of_ne hcomma]

theorem number_map_pointed (position : Nat) (run : List Char) :
    number position (run.map pointed) = number position run := by
  have hrun : (run.map pointed).map pointed = run.map pointed := by
    rw [List.map_map]
    exact List.map_congr_left fun c _ => pointed_pointed c
  unfold number
  simp only [hrun]

/-- **A line is read the same with points for its commas**, and its failures are worded the same. -/
theorem entriesFrom_map_pointed (root : Char) (position : Nat) (cs : List Char) :
    entriesFrom root position (cs.map pointed) = entriesFrom root position cs := by
  have hnumeric : isNumeric ∘ pointed = isNumeric := funext isNumeric_pointed
  fun_induction entriesFrom root position cs with
  | case1 => exact entriesFrom_nil root _
  | case2 position c cs hc run ih =>
    have hrun : pointed c :: (cs.takeWhile isNumeric).map pointed = run.map pointed := rfl
    have hlength : position + (cs.takeWhile isNumeric).length + 1 = position + run.length := by
      simp only [run, List.length_cons]
      omega
    rw [List.map_cons, entriesFrom_of_isNumeric position _ ((isNumeric_pointed c).trans hc), List.takeWhile_map,
      List.dropWhile_map, hnumeric, hrun, number_map_pointed, List.length_map, hlength, ih]
  | case3 position c cs hc t ht ih =>
    have hc : isNumeric c = false := by simpa using hc
    rw [List.map_cons, pointed_of_not_isNumeric hc, entriesFrom_of_not_isNumeric position _ hc, ht, ih]
    rfl
  | case4 position c cs hc ht ih =>
    have hc : isNumeric c = false := by simpa using hc
    rw [List.map_cons, pointed_of_not_isNumeric hc, entriesFrom_of_not_isNumeric position _ hc, ht, ih]
    rfl

theorem read?_pointed (root : Char) (cs : List Char) : read? root (cs.map pointed) = read? root cs := by
  rw [read?, entriesFrom_map_pointed, read?]

/-! ## Spellings of one line -/

/-- **Spellings of one line read alike.** -/
theorem Respelled.read?_eq {cs ds : List Char} (h : Respelled root cs ds) : read? root cs = read? root ds := by
  induction h with
  | noise hc h => exact read?_ignored hc h
  | separator front back =>
    have hpointed : (front ++ '.' :: back).map pointed = (front ++ ',' :: back).map pointed := by
      rw [List.map_append, List.map_append]
      rfl
    rw [← read?_pointed, hpointed, read?_pointed]
  | symm _ ih => exact ih.symm
  | trans _ _ ih₁ ih₂ => exact ih₁.trans ih₂

/-- Where a line falls apart a scanner takes the entries of the two parts, with the failures of the second as far behind
as it stands. -/
theorem entries_append (root : Char) {front back : String} (h : Joins front.toList back.toList) :
    (Scanner.start (front ++ back)).entries root = (Scanner.start front).entries root ++
      ((Scanner.start back).entries root).map (Except.mapError (Failure.moved front.length)) := by
  have hchars : (Scanner.start (front ++ back)).rest = front.toList ++ back.toList := String.toList_append
  have hmoved := entriesFrom_add root front.toList.length 0 back.toList
  rw [entries_eq_entriesFrom, entries_eq_entriesFrom, entries_eq_entriesFrom, hchars, ← String.length_toList]
  exact (entriesFrom_joined h 0).trans (congrArg _ hmoved)

end Line

namespace Calculator

/-- Lines that read alike come to the same, but for the place of a malformed number. -/
theorem outcome_of_read?_eq (c : Calculator) {line line' : String}
    (h : Line.read? c.settings.rootSymbol line.toList = Line.read? c.settings.rootSymbol line'.toList) :
    (c.outcome line).mapError Failure.kind = (c.outcome line').mapError Failure.kind := by
  have htokens : ∀ ts, Line.tokens c.settings.rootSymbol line = .ok ts ↔
      Line.tokens c.settings.rootSymbol line' = .ok ts := fun ts => by
    rw [Line.tokens_eq_ok_iff, Line.tokens_eq_ok_iff, h]
  unfold outcome
  cases hline : Line.tokens c.settings.rootSymbol line with
  | ok ts => rw [(htokens ts).1 hline]
  | error f =>
    cases hline' : Line.tokens c.settings.rootSymbol line' with
    | ok ts =>
      rw [(htokens ts).2 hline'] at hline
      cases hline
    | error g =>
      have hkind : f.kind = g.kind := (Line.kind_of_tokens hline).trans (Line.kind_of_tokens hline').symm
      exact congrArg Except.error hkind

theorem after_of_kind_eq (c : Calculator) {x y : Except Failure Float}
    (h : x.mapError Failure.kind = y.mapError Failure.kind) : c.after x = c.after y := by
  cases x <;> cases y <;> first | rfl | (cases h; rfl) | cases h

/-- **A line is read part by part, and it does not matter how it is spelt.**  Where no run of digits and separators goes
on, its entries are those of the parts.  And whatever characters without a meaning come or go in such places, and
whichever separators are points or commas: the value is the same, or the kind of failure, and so is the calculator
afterwards. -/
theorem evaluate_respelled :
    (∀ (root : Char) (front back : String), Line.Joins front.toList back.toList →
      (Line.Scanner.start (front ++ back)).entries root = (Line.Scanner.start front).entries root ++
        ((Line.Scanner.start back).entries root).map (Except.mapError (Failure.moved front.length))) ∧
    ∀ (c : Calculator) (line line' : String), Line.Respelled c.settings.rootSymbol line.toList line'.toList →
      (c.evaluate line).1.mapError Failure.kind = (c.evaluate line').1.mapError Failure.kind ∧
        (c.evaluate line).2 = (c.evaluate line').2 := by
  refine ⟨fun root front back h => Line.entries_append root h, fun c line line' h => ?_⟩
  have houtcome := outcome_of_read?_eq c h.read?_eq
  exact ⟨houtcome, after_of_kind_eq c houtcome⟩

/-- A blank and a letter taken away, and a comma for the point; and a malformed number behind five characters. -/
theorem evaluate_respelled_noisy :
    let c : Calculator := ⟨{}, 4⟩
    Line.Respelled '√' "1,5 x+a".toList "1.5+a".toList ∧
      (c.evaluate "1,5 x+a").1.mapError Failure.kind = (c.evaluate "1.5+a").1.mapError Failure.kind ∧
      (c.evaluate "1,5 x+a").2 = (c.evaluate "1.5+a").2 ∧
      Line.Joins "1..2 ".toList "3..4".toList ∧
      (Line.Scanner.start ("1..2 " ++ "3..4")).entries '√' = (Line.Scanner.start "1..2 ").entries '√' ++
        ((Line.Scanner.start "3..4").entries '√').map (Except.mapError (Failure.moved 5)) := by
  intro c
  have hblank : Line.Respelled '√' "1,5 x+a".toList "1,5x+a".toList :=
    @Line.Respelled.noise '√' "1,5".toList "x+a".toList ' ' ⟨rfl, rfl⟩ (.inr rfl)
  have hletter : Line.Respelled '√' "1,5x+a".toList "1,5+a".toList :=
    @Line.Respelled.noise '√' "1,5".toList "+a".toList 'x' ⟨rfl, rfl⟩ (.inr rfl)
  have hcomma : Line.Respelled '√' "1,5+a".toList "1.5+a".toList := .symm (.separator "1".toList "5+a".toList)
  have hline := hblank.trans (hletter.trans hcomma)
  have hjoins : Line.Joins "1..2 ".toList "3..4".toList := .inl rfl
  have halike := evaluate_respelled.2 c _ _ hline
  exact ⟨hline, halike.1, halike.2, hjoins, evaluate_respelled.1 '√' _ _ hjoins⟩

end Calculator
end Reckoner

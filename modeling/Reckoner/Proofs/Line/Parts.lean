import Reckoner.Line
import Reckoner.Proofs.Outcome

/-!
# Line.Parts — a line read part by part

A character that no number is written with ends every run, so a line falls apart on both sides of it
(`entriesFrom_joined`): what stands in front is read by itself, and what follows is read as if it began the line, but
for the positions that failures report (`entriesFrom_add`).  `read?` forgets these positions.  It reads a line from its
parts (`read?_joined`), and it settles the tokens of a line (`tokens_eq_ok_iff`).
-/
namespace Reckoner

/-- A failure as it is reported with so many more characters in front of the line. -/
def Failure.moved (distance : Nat) : Failure → Failure
  | .malformedNumber literal position => .malformedNumber literal (position + distance)
  | f => f

namespace Line

/-! ## Entries -/

theorem takeWhile_append_cons {c : Char} (hc : isNumeric c = false) (rest : List Char) : ∀ cs : List Char,
    (cs ++ c :: rest).takeWhile isNumeric = cs.takeWhile isNumeric
  | [] => by rw [List.nil_append, List.takeWhile_cons_of_neg (by simp [hc])]; rfl
  | d :: cs => by
    rw [List.cons_append, List.takeWhile_cons, List.takeWhile_cons, takeWhile_append_cons hc rest cs]

theorem dropWhile_append_cons {c : Char} (hc : isNumeric c = false) (rest : List Char) : ∀ cs : List Char,
    (cs ++ c :: rest).dropWhile isNumeric = cs.dropWhile isNumeric ++ c :: rest
  | [] => by rw [List.nil_append, List.dropWhile_cons_of_neg (by simp [hc])]; rfl
  | d :: cs => by
    rw [List.cons_append, List.dropWhile_cons, List.dropWhile_cons, dropWhile_append_cons hc rest cs]
    split <;> rfl

/-- **A line falls apart in front of a character that no number is written with.** -/
theorem entriesFrom_append {root c : Char} (hc : isNumeric c = false) (rest : List Char) (position : Nat)
    (cs : List Char) :
    entriesFrom root position (cs ++ c :: rest) =
      entriesFrom root position cs ++ entriesFrom root (position + cs.length) (c :: rest) := by
  fun_induction entriesFrom root position cs with
  | case1 position => rfl
  | case2 position d cs hd run ih =>
    have hlength : (cs.takeWhile isNumeric).length + (cs.dropWhile isNumeric).length = cs.length := by
      rw [← List.length_append, List.takeWhile_append_dropWhile]
    have hposition : position + run.length + (cs.dropWhile isNumeric).length = position + (d :: cs).length := by
      simp only [run, List.length_cons]
      omega
    rw [hposition] at ih
    rw [List.cons_append, entriesFrom_of_isNumeric position _ hd, takeWhile_append_cons hc,
      dropWhile_append_cons hc, List.cons_append]
    exact congrArg _ ih
  | case3 position d cs hd t ht ih =>
    rw [List.cons_append, entriesFrom_of_not_isNumeric position _ (by simpa using hd), ih, ht, List.length_cons,
      Nat.add_assoc, Nat.add_comm 1]
    rfl
  | case4 position d cs hd ht ih =>
    rw [List.cons_append, entriesFrom_of_not_isNumeric position _ (by simpa using hd), ih, ht, List.length_cons,
      Nat.add_assoc, Nat.add_comm 1]
    rfl

/-- No run of digits and separators goes on from one part of a line into the next. -/
def Joins (front back : List Char) : Prop :=
  front.getLast?.any isNumeric = false ∨ back.head?.any isNumeric = false

/-- **A line falls apart wherever no run goes on.** -/
theorem entriesFrom_joined {root : Char} {front back : List Char} (h : Joins front back) (position : Nat) :
    entriesFrom root position (front ++ back) =
      entriesFrom root position front ++ entriesFrom root (position + front.length) back := by
  rcases front.eq_nil_or_concat with rfl | ⟨front, c, rfl⟩
  · simp
  rw [List.concat_eq_append] at h ⊢
  by_cases hc : isNumeric c = true
  · -- the run that ends the front stops there
    cases back with
    | nil => simp
    | cons d back =>
      have hd : isNumeric d = false := by simpa [Joins, hc] using h
      exact entriesFrom_append hd back position (front ++ [c])
  · rw [Bool.not_eq_true] at hc
    rw [List.append_assoc, List.singleton_append, entriesFrom_append hc, entriesFrom_append hc,
      entriesFrom_of_not_isNumeric _ back hc, entriesFrom_of_not_isNumeric _ [] hc, entriesFrom_nil, List.append_nil,
      List.append_assoc, List.length_append, List.length_singleton, Nat.add_assoc]

theorem number_add (position distance : Nat) (run : List Char) :
    number (position + distance) run = (number position run).mapError (Failure.moved distance) := by
  unfold number
  simp only
  cases Numeral.read? (run.map pointed) <;> rfl

/-- **Further behind, a line reads the same**, but for the positions of its failures. -/
theorem entriesFrom_add (root : Char) (distance position : Nat) (cs : List Char) :
    entriesFrom root (position + distance) cs =
      (entriesFrom root position cs).map (Except.mapError (Failure.moved distance)) := by
  fun_induction entriesFrom root position cs with
  | case1 position => rw [entriesFrom_nil]; rfl
  | case2 position c cs hc run ih =>
    have hposition : position + distance + (cs.takeWhile isNumeric).length + 1 = position + run.length + distance := by
      simp only [run, List.length_cons]
      omega
    rw [entriesFrom_of_isNumeric _ cs hc, number_add, hposition, ih]
    rfl
  | case3 position c cs hc t ht ih =>
    rw [entriesFrom_of_not_isNumeric _ cs (by simpa using hc), ht, Nat.add_right_comm, ih]
    rfl
  | case4 position c cs hc ht ih =>
    rw [entriesFrom_of_not_isNumeric _ cs (by simpa using hc), ht, Nat.add_right_comm, ih]
    rfl

/-! ## Tokens, wherever the line stands -/

theorem collect_append : ∀ es fs : List (Except Failure Token),
    collect (es ++ fs) = (collect es).bind fun ts => (collect fs).map (ts ++ ·)
  | [], fs => by
    rw [List.nil_append]
    cases collect fs <;> rfl
  | .error f :: es, fs => rfl
  | .ok t :: es, fs => by
    rw [List.cons_append, collect, collect, collect_append es fs]
    cases collect es with
    | error f => rfl
    | ok ts => cases collect fs <;> rfl

theorem collect_moved (distance : Nat) : ∀ es : List (Except Failure Token),
    collect (es.map (Except.mapError (Failure.moved distance))) = (collect es).mapError (Failure.moved distance)
  | [] => rfl
  | .error f :: es => rfl
  | .ok t :: es => by
    have hhead : Except.mapError (Failure.moved distance) (.ok t : Except Failure Token) = .ok t := rfl
    rw [List.map_cons, hhead, collect, collect, collect_moved distance es]
    cases collect es <;> rfl

/-- **The tokens that characters read as**, wherever on a line they stand; `none` if a run among them is no number. -/
def read? (root : Char) (cs : List Char) : Option (List Token) := (collect (entriesFrom root 0 cs)).toOption

theorem toOption_collect_entriesFrom (root : Char) (position : Nat) (cs : List Char) :
    (collect (entriesFrom root position cs)).toOption = read? root cs := by
  have hmoved : ∀ x : Except Failure (List Token), (x.mapError (Failure.moved position)).toOption = x.toOption := by
    intro x
    cases x <;> rfl
  have hadd := entriesFrom_add root position 0 cs
  rw [Nat.zero_add] at hadd
  rw [hadd, collect_moved, hmoved, read?]

theorem toOption_bind_map (x y : Except Failure (List Token)) :
    (x.bind fun ts => y.map (ts ++ ·)).toOption = x.toOption.bind fun ts => y.toOption.map (ts ++ ·) := by
  cases x with
  | error f => rfl
  | ok ts => cases y <;> rfl

@[simp] theorem read?_nil (root : Char) : read? root [] = some [] := by
  rw [read?, entriesFrom_nil]
  rfl

/-- **A line is read from its parts.** -/
theorem read?_joined {root : Char} {front back : List Char} (h : Joins front back) :
    read? root (front ++ back) = (read? root front).bind fun ts => (read? root back).map (ts ++ ·) := by
  rw [← toOption_collect_entriesFrom root (0 + front.length) back, read?, entriesFrom_joined h, collect_append,
    toOption_bind_map]
  rfl

theorem read?_append_cons {root c : Char} (hc : isNumeric c = false) (cs rest : List Char) :
    read? root (cs ++ c :: rest) =
      (read? root cs).bind fun ts => (read? root (c :: rest)).map (ts ++ ·) := by
  have h : Joins cs (c :: rest) := .inr (by simp [hc])
  exact read?_joined h

theorem read?_cons {root c : Char} (hc : isNumeric c = false) (cs : List Char) :
    read? root (c :: cs) = (read? root cs).map ((symbol? root c).toList ++ ·) := by
  rw [read?, entriesFrom_of_not_isNumeric 0 cs hc, ← toOption_collect_entriesFrom root (0 + 1) cs]
  cases symbol? root c with
  | none =>
    rw [Option.map_none, Option.toList_none, List.nil_append]
    cases collect (entriesFrom root (0 + 1) cs) <;> rfl
  | some t =>
    rw [Option.map_some, Option.toList_some, List.singleton_append, collect]
    cases collect (entriesFrom root (0 + 1) cs) <;> rfl

/-- A single character that is a token. -/
theorem read?_symbol_cons {root c : Char} {t : Token} (hc : isNumeric c = false) (ht : symbol? root c = some t)
    (cs : List Char) : read? root (c :: cs) = (read? root cs).map (t :: ·) := by
  rw [read?_cons hc, ht]
  rfl

/-- Characters that all belong to numbers are one number. -/
theorem read?_run {root c : Char} {cs : List Char} {value : Float} (hrun : ∀ d ∈ c :: cs, isNumeric d = true)
    (hvalue : Numeral.read? ((c :: cs).map pointed) = some value) : read? root (c :: cs) = some [.number value] := by
  obtain ⟨hc, hcs⟩ := List.forall_mem_cons.1 hrun
  have htake : (cs ++ []).takeWhile isNumeric = cs ++ [] := List.takeWhile_append_of_pos hcs
  have hdrop : (cs ++ []).dropWhile isNumeric = [] := List.dropWhile_append_of_pos hcs
  rw [List.append_nil] at htake hdrop
  have hnumber : number 0 (c :: cs) = .ok (.number value) := by
    unfold number
    simp only [hvalue]
  rw [read?, entriesFrom_of_isNumeric 0 cs hc, htake, hdrop, hnumber, entriesFrom_nil]
  rfl

/-! ## What a line comes to -/

/-- **A line has tokens exactly when it reads as some**, at least one. -/
theorem tokens_eq_ok_iff {root : Char} {line : String} {ts : List Token} :
    tokens root line = .ok ts ↔ read? root line.toList = some ts ∧ ts ≠ [] := by
  unfold tokens read? entries
  cases collect (entriesFrom root 0 line.toList) with
  | error f => exact ⟨fun h => (by cases h), fun h => (by cases h.1)⟩
  | ok us =>
    cases us with
    | nil => exact ⟨fun h => (by cases h), fun h => absurd (Option.some.inj h.1).symm h.2⟩
    | cons u us =>
      constructor
      · intro h
        cases h
        exact ⟨rfl, List.cons_ne_nil u us⟩
      · rintro ⟨h, _⟩
        cases h
        rfl

theorem entries_of_tokens {root : Char} {line : String} {ts : List Token} (h : tokens root line = .ok ts) :
    entries root line = ts.map .ok := by
  unfold tokens at h
  split at h
  · cases h
  · exact collect_eq_ok_iff.1 h

/-! ## Where the tokens of a line come from -/

theorem symbol?_ne_number {root c : Char} {value : Float} : symbol? root c ≠ some (.number value) := by
  intro h
  unfold symbol? at h
  split at h <;> first | cases h | (split at h <;> cases h)

theorem eq_of_symbol?_answer {root c : Char} (h : symbol? root c = some .answer) : c = 'a' := by
  unfold symbol? at h
  split at h <;> first | rfl | cases h | (split at h <;> cases h)

/-- **A token is read off a numeral or off a character of its own.** -/
theorem source_of_entriesFrom {root : Char} {t : Token} (position : Nat) (cs : List Char) :
    .ok t ∈ entriesFrom root position cs →
      (∃ literal value, Numeral.read? literal = some value ∧ t = .number value) ∨ ∃ c ∈ cs, symbol? root c = some t := by
  fun_induction entriesFrom root position cs with
  | case1 => exact fun h => by cases h
  | case2 position c cs hc run ih =>
    intro h
    obtain hnumber | h := List.mem_cons.1 h
    · unfold number at hnumber
      simp only at hnumber
      split at hnumber
      · rename_i value hvalue
        cases hnumber
        exact .inl ⟨_, value, hvalue, rfl⟩
      · cases hnumber
    · obtain hnumeral | ⟨d, hd, hsymbol⟩ := ih h
      · exact .inl hnumeral
      · exact .inr ⟨d, List.mem_cons_of_mem c ((List.dropWhile_sublist _).subset hd), hsymbol⟩
  | case3 position c cs hc u hu ih =>
    intro h
    obtain hsymbol | h := List.mem_cons.1 h
    · cases hsymbol
      exact .inr ⟨c, List.mem_cons_self, hu⟩
    · exact (ih h).imp_right fun ⟨d, hd, hsymbol⟩ => ⟨d, List.mem_cons_of_mem c hd, hsymbol⟩
  | case4 position c cs hc hnone ih =>
    exact fun h => (ih h).imp_right fun ⟨d, hd, hsymbol⟩ => ⟨d, List.mem_cons_of_mem c hd, hsymbol⟩

theorem source_of_read? {root : Char} {cs : List Char} {ts : List Token} {t : Token} (h : read? root cs = some ts)
    (ht : t ∈ ts) :
    (∃ literal value, Numeral.read? literal = some value ∧ t = .number value) ∨ ∃ c ∈ cs, symbol? root c = some t := by
  refine source_of_entriesFrom 0 cs ?_
  unfold read? at h
  cases hcollect : collect (entriesFrom root 0 cs) with
  | error f =>
    rw [hcollect] at h
    cases h
  | ok us =>
    rw [hcollect] at h
    cases h
    rw [collect_eq_ok_iff.1 hcollect]
    exact List.mem_map_of_mem ht

theorem answer_not_mem_of_read? {root : Char} {cs : List Char} {ts : List Token} (h : read? root cs = some ts)
    (ha : 'a' ∉ cs) : .answer ∉ ts := by
  intro hm
  obtain ⟨_, _, _, hnumber⟩ | ⟨c, hc, hsymbol⟩ := source_of_read? h hm
  · cases hnumber
  · obtain rfl := eq_of_symbol?_answer hsymbol
    exact ha hc

theorem exists_numeral_of_read? {root : Char} {cs : List Char} {ts : List Token} {value : Float}
    (h : read? root cs = some ts) (hm : .number value ∈ ts) : ∃ literal, Numeral.read? literal = some value := by
  obtain ⟨literal, _, hliteral, hnumber⟩ | ⟨c, _, hsymbol⟩ := source_of_read? h hm
  · cases hnumber
    exact ⟨literal, hliteral⟩
  · exact absurd hsymbol symbol?_ne_number

end Line
end Reckoner

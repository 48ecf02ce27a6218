import Reckoner.Line.Scanner
import Reckoner.Proofs.Decimal.ReadBack
import Reckoner.Proofs.Runs

/-!
# Line.Stream — what stands on a line, place by place

What a character contributes can be told from its place alone (`entryAt`): the first of a run of digits and separators
stands for the run, the others of it for nothing, and any other character for its own token, if it has one.  A scanner
takes just these entries, one run per call and starting again behind a run that is no number (`entries_eq_stream`), and
the tokens of a line are what they come to together (`tokens_eq_stream`).
-/
namespace Reckoner
namespace Line

/-! ## The rule -/

def isSeparator (c : Char) : Bool := c == '.' || c == ','

/-- The characters that are tokens whatever symbol is chosen for the root prefix. -/
def fixedTokens : List (Char × Token) :=
  [('(', .opening), (')', .closing), ('^', .op .power), ('v', .op .root), ('*', .op .multiply), ('/', .op .divide),
    ('+', .op .add), ('-', .op .subtract), ('a', .answer)]

def meaning? (root c : Char) : Option Token :=
  (fixedTokens.lookup c).or (if c = root then some .squareRoot else none)

/-- The digits of a run as one whole number, and behind its first separator as many places as characters. -/
def decimal (run : List Char) : Decimal :=
  ⟨Nat.ofDigitChars 10 (run.filter Char.isDigit) 0, -((run.dropWhile Char.isDigit).drop 1).length⟩

/-- **What a run of digits and separators stands for**: a number if there is a digit in it and at most one separator. -/
def runEntry (position : Nat) (run : List Char) : Except Failure Token :=
  if run.any Char.isDigit && run.countP isSeparator ≤ 1 then .ok (.number (decimal run).toFloat)
  else .error (.malformedNumber (run.map pointed) position)

/-- **What a character of a line stands for** where it stands. -/
def entryAt (root : Char) (before : List Char) (c : Char) (behind : List Char) : List (Except Failure Token) :=
  if isNumeric c then
    if before.head?.any isNumeric then [] else [runEntry before.length (c :: behind.takeWhile isNumeric)]
  else ((meaning? root c).map .ok).toList

def stream (root : Char) (line : String) : List (Except Failure Token) := inPlace (entryAt root) [] line.toList

/-! ## Single characters and runs -/

theorem symbol?_eq_meaning? (root c : Char) : symbol? root c = meaning? root c := by
  unfold symbol?
  split
  case h_10 =>
    have hnone : fixedTokens.lookup c = none := by
      rw [List.lookup_eq_none_iff]
      simp_all [fixedTokens]
    simp [meaning?, hnone]
  all_goals rfl

theorem isDigit_pointed (c : Char) : (pointed c).isDigit = c.isDigit := by
  unfold pointed
  by_cases hcomma : c = ','
  · rw [hcomma]
    rfl
  · rw [if_neg (by simpa using hcomma)]

theorem pointed_of_isDigit {c : Char} (h : c.isDigit = true) : pointed c = c := by
  unfold pointed
  rw [if_neg]
  rintro hcomma
  rw [beq_iff_eq.1 hcomma] at h
  cases h

theorem isSeparator_eq {c : Char} (h : isNumeric c = true) : isSeparator c = !c.isDigit := by
  unfold isNumeric at h
  by_cases hpoint : c = '.'
  · rw [hpoint]
    rfl
  by_cases hcomma : c = ','
  · rw [hcomma]
    rfl
  have hdigit : c.isDigit = true := by simpa [hpoint, hcomma] using h
  simp [isSeparator, hpoint, hcomma, hdigit]

theorem pointed_of_not_isDigit {c : Char} (h : isNumeric c = true) (hdigit : c.isDigit = false) : pointed c = '.' := by
  unfold isNumeric at h
  by_cases hcomma : c = ','
  · rw [hcomma]
    rfl
  · have hpoint : c = '.' := by simpa [hdigit, hcomma] using h
    rw [hpoint]
    rfl

theorem map_pointed_of_isDigit {cs : List Char} (h : ∀ c ∈ cs, c.isDigit = true) : cs.map pointed = cs :=
  (List.map_congr_left fun c hc => pointed_of_isDigit (h c hc)).trans (List.map_id _)

theorem countP_isSeparator_eq_zero_iff {cs : List Char} (h : ∀ c ∈ cs, isNumeric c = true) :
    cs.countP isSeparator = 0 ↔ ∀ c ∈ cs, c.isDigit = true := by
  rw [List.countP_eq_zero]
  refine forall₂_congr fun c hc => ?_
  simp [isSeparator_eq (h c hc)]

section Run

variable {whole rest : List Char} (hwhole : ∀ c ∈ whole, c.isDigit = true)
  (hrest : ∀ c ∈ rest.head?, c.isDigit = false)
include hwhole hrest

/-- A run begins with digits; if a separator stands behind them, it is the only one before another run of digits. -/
theorem countP_isSeparator_le_one_iff (hnumeric : ∀ c ∈ whole ++ rest, isNumeric c = true) :
    (whole ++ rest).countP isSeparator ≤ 1 ↔ ∀ c ∈ rest.drop 1, c.isDigit = true := by
  rcases List.forall_mem_append.1 hnumeric with ⟨hfront, hback⟩
  rw [List.countP_append, (countP_isSeparator_eq_zero_iff hfront).2 hwhole, Nat.zero_add]
  cases rest with
  | nil => simp
  | cons separator fraction =>
    rcases List.forall_mem_cons.1 hback with ⟨hseparator, hfraction⟩
    have hone : isSeparator separator = true := by
      rw [isSeparator_eq hseparator, hrest separator rfl]
      rfl
    rw [List.countP_cons_of_pos hone, List.drop_succ_cons, List.drop_zero,
      ← countP_isSeparator_eq_zero_iff hfraction]
    omega

theorem filter_isDigit (hfraction : ∀ c ∈ rest.drop 1, c.isDigit = true) :
    (whole ++ rest).filter Char.isDigit = whole ++ rest.drop 1 := by
  rw [List.filter_append, List.filter_eq_self.2 hwhole]
  cases rest with
  | nil => rfl
  | cons separator fraction =>
    rw [List.drop_succ_cons, List.drop_zero] at hfraction ⊢
    rw [List.filter_cons_of_neg (by simp [hrest separator rfl]), List.filter_eq_self.2 hfraction]

end Run

/-- **A run with points for commas is read exactly if there is a digit in it and at most one separator.** -/
theorem read?_map_pointed {run : List Char} (h : ∀ c ∈ run, isNumeric c = true) :
    Decimal.read? (run.map pointed) =
      if run.any Char.isDigit && run.countP isSeparator ≤ 1 then some (decimal run) else none := by
  rcases exists_run Char.isDigit run with ⟨whole, rest, rfl, hwhole, hrest⟩
  have hpoint : ∀ c ∈ whole, (c != '.') = true := fun c hc => Decimal.ne_point_of_isDigit (hwhole c hc)
  have hstop : ∀ c ∈ (rest.map pointed).head?, (c != '.') = false := by
    cases rest with
    | nil => simp
    | cons separator fraction =>
      simp [pointed_of_not_isDigit (h separator (by simp)) (hrest separator rfl)]
  have hpointed := takeWhile_run hpoint hstop
  have hcount := countP_isSeparator_le_one_iff hwhole hrest h
  rw [List.map_append, map_pointed_of_isDigit hwhole]
  unfold Decimal.read?
  simp only [hpointed.1, hpointed.2, ← List.map_drop]
  by_cases hfraction : ∀ c ∈ rest.drop 1, c.isDigit = true
  · have hdigits := filter_isDigit hwhole hrest hfraction
    have hall : (whole ++ rest.drop 1).all Char.isDigit = true :=
      List.all_eq_true.2 (List.forall_mem_append.2 ⟨hwhole, hfraction⟩)
    have hany : (whole ++ rest).any Char.isDigit = !(whole ++ rest.drop 1).isEmpty := by
      rw [← hdigits, Bool.eq_iff_iff]
      simp [List.isEmpty_eq_false_iff, List.filter_eq_nil_iff, -List.filter_append, -List.any_append]
    have hfew : decide ((whole ++ rest).countP isSeparator ≤ 1) = true := decide_eq_true (hcount.2 hfraction)
    rw [map_pointed_of_isDigit hfraction, decimal, hdigits, (takeWhile_run hwhole hrest).2, hall, hany, hfew,
      Bool.true_and, Bool.and_true]
  · have hall : (whole ++ (rest.drop 1).map pointed).all Char.isDigit = false := by
      refine Bool.eq_false_iff.2 fun hall => hfraction fun c hc => ?_
      have hdigit := List.all_eq_true.1 hall (pointed c) (List.mem_append_right _ (List.mem_map_of_mem hc))
      rwa [isDigit_pointed] at hdigit
    have hmany : decide ((whole ++ rest).countP isSeparator ≤ 1) = false := decide_eq_false (mt hcount.1 hfraction)
    rw [hall, hmany, Bool.false_and, Bool.and_false, if_neg Bool.false_ne_true, if_neg Bool.false_ne_true]

/-- **The entry of a run**, as the rule has it. -/
theorem number_eq_runEntry (position : Nat) {run : List Char} (h : ∀ c ∈ run, isNumeric c = true) :
    number position run = runEntry position run := by
  unfold number runEntry
  simp only [Numeral.read?, read?_map_pointed h]
  by_cases hread : (run.any Char.isDigit && decide (run.countP isSeparator ≤ 1)) = true
  · rw [if_pos hread, if_pos hread]
    rfl
  · rw [if_neg hread, if_neg hread]
    rfl

/-! ## From left to right -/

theorem entryAt_of_head? {root : Char} (before : List Char) (c : Char) (behind : List Char)
    (hbefore : before.head?.any isNumeric = true) (hc : isNumeric c = true) : entryAt root before c behind = [] := by
  rw [entryAt, if_pos hc, if_pos hbefore]

theorem entryAt_of_isNumeric {root c : Char} {before : List Char} (behind : List Char)
    (hbefore : before.head?.any isNumeric = false) (hc : isNumeric c = true) :
    entryAt root before c behind = [runEntry before.length (c :: behind.takeWhile isNumeric)] := by
  rw [entryAt, if_pos hc, hbefore, if_neg Bool.false_ne_true]

theorem entryAt_of_not_isNumeric {root c : Char} (before behind : List Char) (hc : isNumeric c = false) :
    entryAt root before c behind = ((symbol? root c).map .ok).toList := by
  rw [entryAt, hc, if_neg Bool.false_ne_true, symbol?_eq_meaning?]

/-- **From a place where no run goes on**, the entries are those of the rule. -/
theorem entriesFrom_eq_inPlace (root : Char) (cs : List Char) (before : List Char)
    (h : ∀ c ∈ cs.head?, isNumeric c = true → before.head?.any isNumeric = false) :
    entriesFrom root before.length cs = inPlace (entryAt root) before cs := by
  match cs with
  | [] => exact entriesFrom_nil root before.length
  | c :: cs =>
    cases hc : isNumeric c with
    | true =>
      rcases exists_run isNumeric cs with ⟨run, rest, rfl, hrun, hrest⟩
      have hall : ∀ d ∈ c :: run, isNumeric d = true := List.forall_mem_cons.2 ⟨hc, hrun⟩
      have hlength : before.length + run.length + 1 = ((c :: run).reverse ++ before).length := by
        simp
        omega
      have ih := entriesFrom_eq_inPlace root rest ((c :: run).reverse ++ before) fun d hd hnumeric => by
        rw [hrest d hd] at hnumeric
        cases hnumeric
      rw [entriesFrom_of_isNumeric before.length _ hc, (takeWhile_run hrun hrest).1, (takeWhile_run hrun hrest).2,
        ← List.cons_append, inPlace_cons_run entryAt_of_head? rest before hall,
        entryAt_of_isNumeric _ (h c rfl hc) hc, (takeWhile_run hrun hrest).1, number_eq_runEntry _ hall, hlength, ih]
      rfl
    | false =>
      have ih := entriesFrom_eq_inPlace root cs (c :: before) fun d _ _ => by simp [hc]
      rw [entriesFrom_of_not_isNumeric before.length cs hc, inPlace_cons, entryAt_of_not_isNumeric before cs hc, ← ih]
      rfl
termination_by cs.length

/-! ## One entry at a time -/

/-- What is taken from a line at once is taken entry by entry. -/
theorem entriesFrom_eq (root : Char) (position : Nat) (cs : List Char) :
    entriesFrom root position cs = match Scanner.nextFrom? root position cs with
      | none => []
      | some (entry, behind) => entry :: entriesFrom root behind.position behind.rest := by
  fun_induction Scanner.nextFrom? root position cs with
  | case1 => simp
  | case2 position c cs hc run =>
    rw [entriesFrom_of_isNumeric position cs hc]
    rfl
  | case3 position c cs hc t ht =>
    rw [entriesFrom_of_not_isNumeric position cs (by simpa using hc), ht]
    rfl
  | case4 position c cs hc ht ih =>
    rw [entriesFrom_of_not_isNumeric position cs (by simpa using hc), ht, ih]
    rfl

theorem entries_eq_entriesFrom (root : Char) (s : Scanner) :
    s.entries root = entriesFrom root s.position s.rest := by
  fun_induction Scanner.entries root s with
  | case1 s h =>
    rw [entriesFrom_eq]
    unfold Scanner.next? at h
    rw [h]
  | case2 s entry behind h ih =>
    rw [entriesFrom_eq]
    unfold Scanner.next? at h
    rw [h, ih]

/-! ## The tokens of a line -/

def failure? : Except Failure Token → Option Failure
  | .ok _ => none
  | .error f => some f

/-- The first failure of a stream; if nothing failed, its tokens, of which there has to be one. -/
def gathered (es : List (Except Failure Token)) : Except Failure (List Token) :=
  match es.findSome? failure? with
  | some f => .error f
  | none => if es = [] then .error .noTokens else .ok (es.filterMap Except.toOption)

theorem collect_eq : ∀ es : List (Except Failure Token),
    collect es = match es.findSome? failure? with
      | some f => .error f
      | none => .ok (es.filterMap Except.toOption)
  | [] => rfl
  | .error f :: es => rfl
  | .ok t :: es => by
    rw [collect, collect_eq es, List.findSome?_cons, failure?]
    cases es.findSome? failure? <;> rfl

theorem tokens_eq_gathered (root : Char) (line : String) : tokens root line = gathered (entries root line) := by
  rw [tokens, collect_eq, gathered]
  cases hfailure : (entries root line).findSome? failure? with
  | some f => rfl
  | none =>
    match hentries : entries root line with
    | [] => rfl
    | .error f :: es =>
      rw [hentries] at hfailure
      cases hfailure
    | .ok t :: es => rfl

/-- **What fails to be read is a syntax error.** -/
theorem kind_of_error_mem_stream {f : Failure} {root : Char} {line : String} (h : .error f ∈ stream root line) :
    f.kind = .syntaxError := by
  rcases mem_inPlace_iff.1 h with ⟨front, c, behind, -, h⟩
  unfold entryAt runEntry at h
  split at h
  · split at h
    · cases h
    · rw [List.mem_singleton] at h
      split at h
      · cases h
      · cases h
        rfl
  · cases hmeaning : meaning? root c <;> simp [hmeaning] at h

theorem kind_of_gathered_eq_error {f : Failure} {root : Char} {line : String}
    (h : gathered (stream root line) = .error f) : f.kind = .syntaxError := by
  unfold gathered at h
  split at h
  case h_1 g hg =>
    cases h
    rcases List.exists_of_findSome?_eq_some hg with ⟨_ | f, hmem, hfailure⟩
    · cases hfailure
      exact kind_of_error_mem_stream hmem
    · cases hfailure
  case h_2 =>
    split at h
    · cases h
      rfl
    · cases h

/-- **Scanning a line entry by entry gives what its characters stand for, place by place.**  The tokens of the line are
these entries if there is one and none failed, else the first failure among them. -/
theorem entries_eq_stream (root : Char) (line : String) :
    (Scanner.start line).entries root = stream root line ∧
    tokens root line = gathered (stream root line) ∧
    ∀ f, tokens root line = .error f → f.kind = .syntaxError := by
  have hstream : entries root line = stream root line := entriesFrom_eq_inPlace root line.toList [] (by simp)
  have htokens : tokens root line = gathered (stream root line) := by rw [tokens_eq_gathered, hstream]
  refine ⟨(entries_eq_entriesFrom root (.start line)).trans hstream, htokens, fun f hf => ?_⟩
  exact kind_of_gathered_eq_error (htokens.symm.trans hf)

-- positions count characters, not bytes, and a run that is no number does not end the scan
example : stream '#' "é1..2#" = [.error (.malformedNumber "1..2".toList 1), .ok .squareRoot] := rfl

end Line
end Reckoner

import Mathlib.Data.List.Basic
import Reckoner.Proofs.Respelled

/-!
# Line.Places — where on a line a root is taken

A scanner passes over characters that mean nothing and takes a run of digits and separators, or a single character that
is a token (`Scanner.exists_of_nextFrom?`).  What it takes is written down with the place right behind it
(`Scanner.taken`), so that a square root can be traced to the character it was read from (`rootPlaces`).  These are the
places of the chosen symbol, on every line, exactly if the symbol is reserved for nothing else
(`isReserved_eq_false_iff_rootPlaces`).
-/
namespace Reckoner
namespace Line

variable {root c : Char}

/-! ## Characters with a meaning -/

theorem isIgnored_iff : IsIgnored root c ↔ isNumeric c = false ∧ symbol? root c = none := by
  rw [symbol?_eq_meaning?, IsIgnored]

theorem isBlank_of_isNumeric (h : isNumeric c = true) : Text.isBlank c = false := by
  cases hdigit : c.isDigit with
  | true =>
    have hrange : 48 ≤ c.toNat ∧ c.toNat ≤ 57 := by simpa [Char.isDigit, UInt32.le_iff_toNat_le] using hdigit
    simp only [Text.isBlank, Text.blankRanges, List.any_cons, List.any_nil, Bool.or_false, Bool.or_eq_false_iff,
      Bool.and_eq_false_iff, decide_eq_false_iff_not]
    omega
  | false =>
    have hseparator : c = '.' ∨ c = ',' := by simpa [isNumeric, hdigit] using h
    rcases hseparator with rfl | rfl <;> rfl

theorem lookup_fixedTokens_of_isBlank (h : Text.isBlank c = true) : fixedTokens.lookup c = none := by
  have hfixed : fixedTokens.all (fun p => !Text.isBlank p.1) = true := by decide +kernel
  rw [List.lookup_eq_none_iff]
  intro p hp
  have hp : Text.isBlank p.1 = false := by simpa using List.all_eq_true.1 hfixed p hp
  rw [bne_iff_ne]
  rintro rfl
  rw [h] at hp
  cases hp

/-- **White space is passed over**, unless it is the symbol. -/
theorem isIgnored_of_isBlank (hroot : Text.isBlank root = false) (h : Text.isBlank c = true) : IsIgnored root c := by
  have hne : c ≠ root := by
    rintro rfl
    rw [h] at hroot
    cases hroot
  refine ⟨?_, by rw [meaning?, lookup_fixedTokens_of_isBlank h, if_neg hne]; rfl⟩
  rw [← Bool.not_eq_true]
  intro hnumeric
  rw [isBlank_of_isNumeric hnumeric] at h
  cases h

/-- **What is reserved** is white space, what numbers are written with, and what is a token under any symbol. -/
theorem isReserved_eq_false_iff : Settings.isReserved c = false ↔
    Text.isBlank c = false ∧ isNumeric c = false ∧ fixedTokens.lookup c = none := by
  rw [List.lookup_eq_none_iff]
  simp only [Settings.isReserved, Settings.reserved, isNumeric, fixedTokens, List.contains_cons, List.contains_nil,
    List.forall_mem_cons, Bool.or_eq_false_iff, bne_iff_ne, beq_eq_false_iff_ne]
  grind

theorem meaning?_of_lookup_eq_none (h : fixedTokens.lookup root = none) : meaning? root root = some .squareRoot := by
  rw [meaning?, h, if_pos rfl]
  rfl

/-- No character but the chosen symbol is a root prefix. -/
theorem eq_of_meaning?_squareRoot (h : meaning? root c = some .squareRoot) :
    c = root ∧ fixedTokens.lookup c = none := by
  have hfixed : fixedTokens.all (fun p => p.2 != .squareRoot) = true := by decide +kernel
  unfold meaning? at h
  cases hlookup : fixedTokens.lookup c with
  | none =>
    rw [hlookup, Option.none_or] at h
    split at h
    · rename_i hc
      exact ⟨hc, rfl⟩
    · cases h
  | some t =>
    rw [hlookup, Option.some_or] at h
    obtain ⟨front, behind, hsplit, -⟩ := List.lookup_eq_some_iff.1 hlookup
    have ht := List.all_eq_true.1 hfixed (c, t) (by rw [hsplit]; simp)
    cases h
    cases ht

/-! ## What a scanner takes -/

namespace Scanner

/-- How an entry is read: a run of digits and separators as a number, a single character as its token. -/
inductive Reads (root : Char) (position : Nat) : List Char → Except Failure Token → Prop where
  | run {c : Char} {cs : List Char} (h : ∀ d ∈ c :: cs, isNumeric d = true) :
    Reads root position (c :: cs) (number position (c :: cs))
  | symbol {c : Char} {t : Token} (hc : isNumeric c = false) (ht : meaning? root c = some t) :
    Reads root position [c] (.ok t)

theorem isIgnored_of_nextFrom? (cs : List Char) (position : Nat) :
    nextFrom? root position cs = none → ∀ c ∈ cs, IsIgnored root c := by
  fun_induction nextFrom? root position cs with
  | case1 => exact fun _ => List.forall_mem_nil _
  | case2 => exact fun h => by cases h
  | case3 => exact fun h => by cases h
  | case4 position c cs hc hsymbol ih =>
    have hignored : IsIgnored root c := isIgnored_iff.2 ⟨by simpa using hc, hsymbol⟩
    exact fun h => List.forall_mem_cons.2 ⟨hignored, ih h⟩

/-- **What one call does**: it passes over characters that mean nothing, reads an entry and stops behind it. -/
theorem exists_of_nextFrom? {entry : Except Failure Token} {behind : Scanner} (cs : List Char) (position : Nat) :
    nextFrom? root position cs = some (entry, behind) →
      ∃ passed read : List Char, cs = passed ++ (read ++ behind.rest) ∧ (∀ c ∈ passed, IsIgnored root c) ∧
        Reads root (position + passed.length) read entry ∧
        behind.position = position + passed.length + read.length := by
  fun_induction nextFrom? root position cs with
  | case1 => exact fun h => by cases h
  | case2 position c cs hc run =>
    intro h
    cases h
    have hrun : ∀ d ∈ run, isNumeric d = true :=
      List.forall_mem_cons.2 ⟨hc, fun d hd => List.all_eq_true.1 List.all_takeWhile d hd⟩
    refine ⟨[], run, ?_, List.forall_mem_nil _, .run hrun, rfl⟩
    rw [List.nil_append, List.cons_append, List.takeWhile_append_dropWhile]
  | case3 position c cs hc t ht =>
    intro h
    cases h
    rw [symbol?_eq_meaning?] at ht
    exact ⟨[], [c], rfl, List.forall_mem_nil _, .symbol (by simpa using hc) ht, rfl⟩
  | case4 position c cs hc hsymbol ih =>
    intro h
    obtain ⟨passed, read, hcs, hpassed, hread, hbehind⟩ := ih h
    have hignored : IsIgnored root c := isIgnored_iff.2 ⟨by simpa using hc, hsymbol⟩
    have hposition : position + 1 + passed.length = position + (c :: passed).length := by
      rw [List.length_cons]
      omega
    rw [hposition] at hread hbehind
    exact ⟨c :: passed, read, congrArg (c :: ·) hcs, List.forall_mem_cons.2 ⟨hignored, hpassed⟩, hread, hbehind⟩

/-- The entries that a scanner takes, each with the place right behind it. -/
def taken (root : Char) (s : Scanner) : List (Except Failure Token × Nat) :=
  match _h : s.next? root with
  | none => []
  | some (entry, behind) => (entry, behind.position) :: behind.taken root
termination_by s.rest.length
decreasing_by exact next?_length _h

theorem map_fst_taken (root : Char) (s : Scanner) : (s.taken root).map Prod.fst = s.entries root := by
  fun_induction Scanner.taken root s with
  | case1 s h =>
    rw [entries]
    split
    · rfl
    · rename_i hsome
      rw [h] at hsome
      cases hsome
  | case2 s entry behind h ih =>
    rw [entries, List.map_cons, ih]
    split
    · rename_i hnone
      rw [h] at hnone
      cases hnone
    · rename_i hsome
      rw [h] at hsome
      cases hsome
      rfl

/-- **The tokens of a line are what a scanner takes from it.** -/
theorem map_fst_taken_of_tokens {line : String} {ts : List Token} (h : tokens root line = .ok ts) :
    ((start line).taken root).map Prod.fst = ts.map .ok := by
  rw [map_fst_taken, entries_eq_entriesFrom, ← entries_of_tokens h]
  rfl

/-- The place of the character that a square root was read from. -/
def rootPlace? : Except Failure Token × Nat → Option Nat
  | (.ok .squareRoot, behind) => some (behind - 1)
  | _ => none

theorem rootPlace?_number (position place : Nat) (run : List Char) :
    rootPlace? (number position run, place) = none := by
  unfold number
  simp only
  split <;> rfl

theorem rootPlace?_of_ne {t : Token} (h : t ≠ .squareRoot) (place : Nat) : rootPlace? (.ok t, place) = none := by
  cases t <;> first | rfl | exact absurd rfl h

section Symbol

variable (hlookup : fixedTokens.lookup root = none) (hnumeric : isNumeric root = false)
include hlookup

theorem idxsOf_of_isIgnored {passed : List Char} (h : ∀ c ∈ passed, IsIgnored root c) (position : Nat) :
    passed.idxsOf root position = [] := by
  refine List.idxsOf_eq_nil_iff.2 fun c hc => beq_false_of_ne ?_
  rintro rfl
  have hmeaning := (h c hc).2
  rw [meaning?_of_lookup_eq_none hlookup] at hmeaning
  cases hmeaning

include hnumeric

/-- **An entry is a square root exactly where the symbol stands.** -/
theorem Reads.idxsOf_eq {position : Nat} {read : List Char} {entry : Except Failure Token}
    (h : Reads root position read entry) :
    read.idxsOf root position = [(entry, position + read.length)].filterMap rootPlace? := by
  cases h with
  | run hrun =>
    rw [List.filterMap_cons_none (rootPlace?_number _ _ _), List.filterMap_nil, List.idxsOf_eq_nil_iff]
    intro d hd
    refine beq_false_of_ne ?_
    rintro rfl
    rw [hrun d hd] at hnumeric
    cases hnumeric
  | @symbol c t hc ht =>
    by_cases hroot : c = root
    · rw [hroot, meaning?_of_lookup_eq_none hlookup] at ht
      cases ht
      simp [hroot, rootPlace?]
    · have hne : t ≠ .squareRoot := by
        rintro rfl
        exact hroot (eq_of_meaning?_squareRoot ht).1
      rw [List.filterMap_cons_none (rootPlace?_of_ne hne _), List.filterMap_nil, List.idxsOf_cons,
        if_neg (by simpa using hroot), List.idxsOf_nil]

/-- **A scanner takes square roots exactly where the symbol stands.** -/
theorem filterMap_taken (s : Scanner) : (s.taken root).filterMap rootPlace? = s.rest.idxsOf root s.position := by
  fun_induction Scanner.taken root s with
  | case1 s h =>
    exact (idxsOf_of_isIgnored hlookup (isIgnored_of_nextFrom? s.rest s.position h) s.position).symm
  | case2 s entry behind h ih =>
    obtain ⟨passed, read, hrest, hpassed, hread, hbehind⟩ := exists_of_nextFrom? s.rest s.position h
    rw [hrest, List.idxsOf_append, List.idxsOf_append, idxsOf_of_isIgnored hlookup hpassed, List.nil_append,
      hread.idxsOf_eq hlookup hnumeric, ← hbehind, ← ih, ← List.filterMap_append, List.singleton_append]

end Symbol

end Scanner

/-- **The places of the characters that are read as square roots**, from left to right. -/
def rootPlaces (root : Char) (line : String) : List Nat :=
  ((Scanner.start line).taken root).filterMap Scanner.rootPlace?

/-- A symbol that is read as a square root where it stands alone means nothing else. -/
theorem free_of_rootPlaces (h : rootPlaces root (String.singleton root) ≠ []) :
    isNumeric root = false ∧ fixedTokens.lookup root = none := by
  obtain ⟨place, hplace⟩ := List.exists_mem_of_ne_nil _ h
  obtain ⟨⟨entry, behind⟩, htaken, hplace⟩ := List.mem_filterMap.1 hplace
  have hentry : entry ∈ entriesFrom root 0 [root] := by
    have hentries := List.mem_map_of_mem (f := Prod.fst) htaken
    rwa [Scanner.map_fst_taken, entries_eq_entriesFrom, Scanner.start, String.toList_singleton] at hentries
  cases hnumeric : isNumeric root with
  | true =>
    rw [entriesFrom_of_isNumeric 0 [] hnumeric, List.dropWhile_nil, entriesFrom_nil, List.mem_singleton] at hentry
    rw [hentry, Scanner.rootPlace?_number] at hplace
    cases hplace
  | false =>
    rw [entriesFrom_of_not_isNumeric 0 [] hnumeric, symbol?_eq_meaning?] at hentry
    cases hmeaning : meaning? root root with
    | none => simp [hmeaning] at hentry
    | some t =>
      obtain rfl : entry = .ok t := by simpa [hmeaning] using hentry
      obtain rfl : t = .squareRoot := by
        by_contra hne
        rw [Scanner.rootPlace?_of_ne hne] at hplace
        cases hplace
      exact ⟨rfl, (eq_of_meaning?_squareRoot hmeaning).2⟩

/-- **A symbol is free exactly if it is no white space and every line is read with it**: square roots stand where it
stands, and nowhere else. -/
theorem isReserved_eq_false_iff_rootPlaces : Settings.isReserved root = false ↔
    Text.isBlank root = false ∧ ∀ line : String, rootPlaces root line = line.toList.idxsOf root := by
  rw [isReserved_eq_false_iff]
  refine and_congr_right fun _ => ⟨?_, fun h => free_of_rootPlaces ?_⟩
  · rintro ⟨hnumeric, hlookup⟩ line
    exact Scanner.filterMap_taken hlookup hnumeric (.start line)
  · rw [h]
    simp

-- a symbol that is an operator stays one
example : rootPlaces '^' "2^3" = [] := by decide +kernel

end Line
end Reckoner

import Reckoner.Proofs.Flat.Idempotent
import Reckoner.Proofs.Group.Brackets
import Reckoner.Proofs.Outcome

/-!
# Group.Longhand — root prefixes and runs of signs written out

In longhand a root prefix is the root of degree two and a run of signs is one sign (`Flat.longhand`).  The first two
passes towards a canonical form write this way and have nothing to do a second time, so a bracket-free expression and
its longhand have one value.  A token that is no sign divides what is written out (`Flat.merged_append`), a bracket as
well as the number that takes a group's place.  So lists with brackets keep their value too, group by group
(`Group.resolve_longhand`).
-/
namespace Reckoner
namespace Flat

/-- **What a token is written out as**; of a run of signs the first stands for all. -/
def writtenOut (before : List Token) (t : Token) (behind : List Token) : List Token :=
  if t.isSign then
    if before.head?.any Token.isSign then [] else [.op (counted (t :: behind.takeWhile Token.isSign))]
  else spelt t

def longhand (ts : List Token) : List Token := inPlace writtenOut [] ts

/-- **Induction by runs of signs**, each with all of its signs. -/
theorem signs_induction {motive : List Token → Prop} (nil : motive [])
    (token : ∀ t ts, t.isSign = false → motive ts → motive (t :: ts))
    (run : ∀ s run rest, (∀ u ∈ s :: run, u.isSign = true) → SignlessHead rest → motive rest →
      motive (s :: run ++ rest)) : ∀ ts, motive ts := by
  intro ts
  generalize hn : ts.length = n
  induction n using Nat.strongRecOn generalizing ts with
  | ind n ih =>
    rcases exists_run Token.isSign ts with ⟨signs, rest, rfl, hrun, hrest⟩
    rcases signs with _ | ⟨s, signs⟩
    · cases rest with
      | nil => exact nil
      | cons t ts =>
        refine token t ts (hrest t rfl) (ih ts.length ?_ ts rfl)
        simp only [← hn, List.nil_append, List.length_cons]
        omega
    · refine run s signs rest hrun hrest (ih rest.length ?_ rest rfl)
      simp only [← hn, List.length_append, List.length_cons]
      omega

/-! ## The passes write longhand -/

theorem writtenOut_of_not_isSign {t : Token} (ht : t.isSign = false) (before behind : List Token) :
    writtenOut before t behind = spelt t := if_neg (by simp [ht])

theorem inPlace_writtenOut_signs {s : Token} {before run rest : List Token} (hbefore : SignlessHead before)
    (hrun : ∀ u ∈ s :: run, u.isSign = true) (hrest : SignlessHead rest) :
    inPlace writtenOut before (s :: run ++ rest) =
      .op (counted (s :: run)) :: inPlace writtenOut ((s :: run).reverse ++ before) rest := by
  have hinside : ∀ before u behind, before.head?.any Token.isSign = true → u.isSign = true →
      writtenOut before u behind = [] := by
    intro before u behind hhead hu
    simp [writtenOut, hhead, hu]
  rcases List.forall_mem_cons.1 hrun with ⟨hs, htail⟩
  rw [inPlace_cons_run hinside rest before hrun, writtenOut, if_pos hs, if_neg (by simp [hbefore.head?_any]),
    (takeWhile_run htail hrest).1]
  rfl

theorem merged_eq_inPlace (ts : List Token) : ∀ before, SignlessHead before ∨ SignlessHead ts →
    merged ts = inPlace writtenOut before ts := by
  induction ts using signs_induction with
  | nil => exact fun _ _ => rfl
  | token t ts ht ih =>
    intro before _
    rw [merged_cons ht, inPlace_cons, writtenOut_of_not_isSign ht, ih (t :: before) (.inl (signlessHead_cons.2 ht))]
  | run s run rest hrun hrest ih =>
    intro before h
    have hbefore : SignlessHead before := h.resolve_right fun hhead => by
      have hs := signlessHead_cons.1 hhead
      rw [hrun s List.mem_cons_self] at hs
      cases hs
    rw [merged_run hrun hrest, inPlace_writtenOut_signs hbefore hrun hrest, ih _ (.inr hrest)]

/-- **Root prefixes spelt out and signs merged are longhand.** -/
theorem merged_eq_longhand (ts : List Token) : merged ts = longhand ts :=
  merged_eq_inPlace ts [] (.inl signlessHead_nil)

/-! ## What is written out falls apart, and is written out -/

theorem merged_append (front : List Token) {back : List Token} (h : SignlessHead back) :
    merged (front ++ back) = merged front ++ merged back := by
  induction front using signs_induction with
  | nil => rfl
  | token t ts ht ih => rw [List.cons_append, merged_cons ht, merged_cons ht, ih, List.append_assoc]
  | run s run rest hrun hrest ih =>
    have hhead : SignlessHead (rest ++ back) := by
      cases rest with
      | nil => exact h
      | cons u rest => exact hrest
    rw [List.append_assoc, merged_run hrun hhead, merged_run hrun hrest, ih, List.cons_append]

/-- A token that is neither a sign nor a root prefix stays where it is. -/
theorem merged_append_cons {t : Token} (ht : t.isSign = false) (hspelt : spelt t = [t]) (front back : List Token) :
    merged (front ++ t :: back) = merged front ++ t :: merged back := by
  rw [merged_append front (signlessHead_cons.2 ht), merged_cons ht, hspelt, List.singleton_append]

theorem signlessHead_merged {ts : List Token} (h : SignlessHead ts) : SignlessHead (merged ts) :=
  signlessHead_mergeSigns (signlessHead_spellRoots h)

theorem merged_spelt {t : Token} (ht : t.isSign = false) (ts : List Token) :
    merged (spelt t ++ ts) = spelt t ++ merged ts := by
  cases t with
  | squareRoot =>
    have hsigns : (Token.number 2).isSign = false ∧ (Token.op .root).isSign = false := ⟨rfl, rfl⟩
    exact (merged_cons hsigns.1 _).trans (congrArg _ (merged_cons hsigns.2 ts))
  | _ => exact merged_cons ht ts

/-- **Longhand is written out already.** -/
theorem merged_merged (ts : List Token) : merged (merged ts) = merged ts := by
  induction ts using signs_induction with
  | nil => rfl
  | token t ts ht ih => rw [merged_cons ht, merged_spelt ht, ih]
  | run s run rest hrun hrest ih =>
    have hsign := isSign_counted (s :: run)
    have hone : ∀ u ∈ [Token.op (counted (s :: run))], u.isSign = true := by simpa [Token.isSign_op] using hsign
    rw [merged_run hrun hrest]
    refine (merged_run hone (signlessHead_merged hrest)).trans ?_
    rw [counted_singleton _ hsign, ih]

theorem merged_ne_nil {ts : List Token} (h : ts ≠ []) : merged ts ≠ [] := by
  induction ts using signs_induction with
  | nil => exact absurd rfl h
  | token t ts ht ih =>
    rw [merged_cons ht]
    cases t <;> exact List.cons_ne_nil _ _
  | run s run rest hrun hrest ih =>
    rw [merged_run hrun hrest]
    exact List.cons_ne_nil _ _

theorem mem_merged {t : Token} {ts : List Token} (h : t ∈ merged ts) : t.isFoldable = true ∨ t ∈ ts :=
  (within_mergeSigns _ t h).elim .inl fun hmem => (mem_spellRoots hmem).imp_right And.left

/-! ## The value of an expression without brackets -/

theorem canonical_merged (ts : List Token) : canonical (merged ts) = canonical ts := by
  by_cases hts : ts = []
  · rw [hts]
    rfl
  · have hpasses : mergeSigns (spellRoots (merged ts)) = mergeSigns (spellRoots ts) := merged_merged ts
    have hempty : (merged ts).isEmpty = ts.isEmpty := by
      rw [List.isEmpty_eq_false_iff.2 (merged_ne_nil hts), List.isEmpty_eq_false_iff.2 hts]
    rw [canonical, canonical, hpasses, hempty]

theorem evaluate_merged (checks : Bool) (ts : List Token) : evaluate checks (merged ts) = evaluate checks ts := by
  rw [evaluate, evaluate, canonical_merged]

end Flat

namespace Group

open Flat (merged merged_append_cons)

theorem bracketless_merged {ts : List Token} (h : Bracketless ts) : Bracketless (merged ts) := by
  intro t ht
  rcases Flat.mem_merged ht with hfoldable | hmem
  · cases t <;> first | rfl | cases hfoldable
  · exact h t hmem

theorem closing_not_mem_merged {ts : List Token} (h : .closing ∉ ts) : .closing ∉ merged ts := by
  intro hmem
  rcases Flat.mem_merged hmem with hfoldable | hmem
  · cases hfoldable
  · exact h hmem

/-- **Writing out changes no outcome**, neither a value nor what fails first. -/
theorem resolve_merged (checks : Bool) (ts : List Token) : resolve checks (merged ts) = resolve checks ts := by
  induction ts using resolve_induction with
  | none ts h =>
    rw [resolve_bracketless checks h, resolve_bracketless checks (bracketless_merged h), Flat.evaluate_merged]
  | group pre inside post hpre hinside ih =>
    rw [merged_append_cons rfl rfl, merged_append_cons rfl rfl, resolve_group checks post hpre hinside,
      resolve_group checks _ (closing_not_mem_merged hpre) (bracketless_merged hinside), Flat.evaluate_merged]
    refine Outcome.bind_congr fun value _ => ?_
    rw [← ih value, merged_append_cons rfl rfl]
  | unopened pre post hpre =>
    rw [merged_append_cons rfl rfl, resolve_unopened checks post hpre,
      resolve_unopened checks _ (bracketless_merged hpre)]
  | unclosed pre post hpre hpost =>
    rw [merged_append_cons rfl rfl, resolve_unclosed checks hpre hpost,
      resolve_unclosed checks (closing_not_mem_merged hpre) (closing_not_mem_merged hpost)]

/-- **Root prefixes and runs of signs are shorthand everywhere.**  Written out, inside groups and around them, whether
brackets match or not, an expression has the same value or fails in the same way. -/
theorem resolve_longhand (checks : Bool) (ts : List Token) : resolve checks (Flat.longhand ts) = resolve checks ts := by
  rw [← Flat.merged_eq_longhand, resolve_merged]

-- a root prefix between two runs of signs, and a run on each side of a bracket
example : Flat.longhand [.op .subtract, .squareRoot, .op .subtract, .op .subtract, .opening, .op .add, .op .subtract,
    .number 4] =
    [.op .subtract, .number 2, .op .root, .op .add, .opening, .op .subtract, .number 4] := by decide

end Group
end Reckoner

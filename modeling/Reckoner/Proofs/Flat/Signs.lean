import Reckoner.Proofs.Flat.Spacing
import Reckoner.Proofs.Runs

/-!
# Flat.Signs — what becomes of the signs

The canonical form in one pass: every token becomes something that depends on the signs next to it only (`becomes`).  A
run of signs counts as one; behind a number it is an operator, at the beginning too but with a zero in front, and
behind an operator or a root prefix it goes into the number that follows.  Merging signs and attaching them does just
this (`attachSigns_merged`).
-/
namespace Reckoner

namespace Token

def isMinus : Token → Bool
  | op .subtract => true
  | _ => false

/-- A token that leaves the signs behind it to the next number: an operator that is no sign, and the root prefix. -/
def handsOnSigns : Token → Bool
  | op operator => !operator.isSign
  | squareRoot => true
  | _ => false

theorem isSign_op (operator : Operator) : (op operator).isSign = operator.isSign := rfl

end Token

namespace Flat

/-! ## The rule -/

/-- **What a run of signs counts as**: a minus if there is an odd number of them in it. -/
def counted (run : List Token) : Operator := if run.countP Token.isMinus % 2 = 1 then .subtract else .add

/-- The signs right in front count as a minus, and what stands before them hands them on. -/
def isNegated (before : List Token) : Bool :=
  counted (before.takeWhile Token.isSign) == .subtract &&
    (before.dropWhile Token.isSign).head?.any Token.handsOnSigns

/-- A token that is no sign, with a minus or without one; only numbers take it, and the degree of a root prefix. -/
def signed (negated : Bool) : Token → List Token
  | .number value => [.number (if negated then -value else value)]
  | .squareRoot => [.number (if negated then -2 else 2), .op .root]
  | t => [t]

/-- What a run of signs becomes by itself. -/
def runBecomes (before run : List Token) : List Token :=
  match before.head? with
  | none => [.number 0, .op (counted run)]
  | some t => if t.handsOnSigns then [] else [.op (counted run)]

theorem runBecomes_cons (t : Token) (before run : List Token) :
    runBecomes (t :: before) run = if t.handsOnSigns then [] else [.op (counted run)] := rfl

/-- **What a token becomes**; of a run of signs the first stands for all. -/
def becomes (before : List Token) (t : Token) (behind : List Token) : List Token :=
  if t.isSign then
    if before.head?.any Token.isSign then [] else runBecomes before (t :: behind.takeWhile Token.isSign)
  else signed (isNegated before) t

def settle (ts : List Token) : List Token := inPlace becomes [] ts

/-! ## Runs of signs -/

theorem counted_cons (operator : Operator) (hsign : operator.isSign = true) (run : List Token) :
    counted (.op operator :: run) = signProduct operator (counted run) := by
  have hparity := Nat.mod_two_eq_zero_or_one (run.countP Token.isMinus)
  unfold counted
  rw [List.countP_cons]
  cases operator with
  | add => rcases hparity with h | h <;> simp [Token.isMinus, h, signProduct]
  | subtract => rcases hparity with h | h <;> simp [Token.isMinus, Nat.add_mod, h, signProduct]
  | _ => cases hsign

theorem isSign_counted (run : List Token) : (counted run).isSign = true := by
  unfold counted
  split <;> rfl

theorem counted_reverse (run : List Token) : counted run.reverse = counted run := by
  unfold counted
  rw [List.countP_reverse]

theorem counted_singleton (operator : Operator) (hsign : operator.isSign = true) :
    counted [.op operator] = operator := by
  cases operator <;> first | rfl | cases hsign

/-- No sign stands first. -/
def SignlessHead (ts : List Token) : Prop := ∀ t ∈ ts.head?, t.isSign = false

theorem signlessHead_nil : SignlessHead [] := by simp [SignlessHead]

theorem signlessHead_cons {t : Token} {ts : List Token} : SignlessHead (t :: ts) ↔ t.isSign = false := by
  simp [SignlessHead]

theorem SignlessHead.head?_any {ts : List Token} (h : SignlessHead ts) : ts.head?.any Token.isSign = false :=
  (Option.any_eq_false_iff_get _ _).2 fun hsome => h _ (Option.get_mem hsome)

theorem consSign_of_signlessHead {ts : List Token} (h : SignlessHead ts) (sign : Operator) :
    consSign sign ts = .op sign :: ts := by
  cases ts with
  | nil => rfl
  | cons t ts =>
    cases t with
    | op operator =>
      have hsign : operator.isSign = false := signlessHead_cons.1 h
      simp [consSign, hsign]
    | _ => rfl

theorem mergeSigns_cons {t : Token} (ht : t.isSign = false) (ts : List Token) :
    mergeSigns (t :: ts) = t :: mergeSigns ts := by
  cases t with
  | op operator =>
    have hsign : operator.isSign = false := ht
    simp [mergeSigns, hsign]
  | _ => rfl

theorem signlessHead_mergeSigns {ts : List Token} (h : SignlessHead ts) : SignlessHead (mergeSigns ts) := by
  cases ts with
  | nil => exact h
  | cons t ts =>
    rw [signlessHead_cons] at h
    rwa [mergeSigns_cons h, signlessHead_cons]

/-- **A run of signs is merged into what it counts as.** -/
theorem mergeSigns_run {rest : List Token} (h : SignlessHead rest) : ∀ (t : Token) (run : List Token),
    (∀ u ∈ t :: run, u.isSign = true) → mergeSigns (t :: run ++ rest) = .op (counted (t :: run)) :: mergeSigns rest
  | .op operator, [], hrun => by
    have hsign : operator.isSign = true := hrun _ List.mem_cons_self
    rw [List.singleton_append, mergeSigns, if_pos hsign, consSign_of_signlessHead (signlessHead_mergeSigns h),
      counted_singleton operator hsign]
  | .op operator, u :: run, hrun => by
    rcases List.forall_mem_cons.1 hrun with ⟨hsign, hrun⟩
    have ih := mergeSigns_run h u run hrun
    have hnext := isSign_counted (u :: run)
    rw [Token.isSign_op] at hsign
    rw [List.cons_append, mergeSigns, if_pos hsign, ih, consSign, if_pos hnext, counted_cons operator hsign]
  | .number _, _, hrun | .squareRoot, _, hrun | .opening, _, hrun | .closing, _, hrun | .answer, _, hrun => by
    cases hrun _ List.mem_cons_self

/-! ## The rule and the passes -/

theorem becomes_of_not_isSign {t : Token} (ht : t.isSign = false) (before behind : List Token) :
    becomes before t behind = signed (isNegated before) t := by
  simp [becomes, ht]

/-- **A run of signs becomes what its first says.** -/
theorem inPlace_signs {before run rest : List Token} (hbefore : SignlessHead before) (hrest : SignlessHead rest)
    (hrun : ∀ t ∈ run, t.isSign = true) (hne : run ≠ []) :
    inPlace becomes before (run ++ rest) = runBecomes before run ++ inPlace becomes (run.reverse ++ before) rest := by
  rcases run with _ | ⟨t, run⟩
  · exact absurd rfl hne
  rcases List.forall_mem_cons.1 hrun with ⟨ht, htail⟩
  have hinside : ∀ before u behind, before.head?.any Token.isSign = true → u.isSign = true →
      becomes before u behind = [] := by
    intro before u behind hhead hu
    simp [becomes, hhead, hu]
  rw [inPlace_cons_run hinside rest before hrun, becomes, if_pos ht, if_neg (by simp [hbefore.head?_any]),
    (takeWhile_run htail hrest).1]

theorem isNegated_run {before run : List Token} (hbefore : SignlessHead before) (hrun : ∀ t ∈ run, t.isSign = true) :
    isNegated (run.reverse ++ before) = (counted run == .subtract && before.head?.any Token.handsOnSigns) := by
  have hreverse : ∀ t ∈ run.reverse, t.isSign = true := fun t ht => hrun t (List.mem_reverse.1 ht)
  rw [isNegated, (takeWhile_run hreverse hbefore).1, (takeWhile_run hreverse hbefore).2, counted_reverse]

theorem attachSigns_false_cons (t : Token) (ts : List Token) :
    attachSigns false (t :: ts) = t :: attachSigns t.isOperator ts := by
  rw [attachSigns] <;> simp

theorem attachSigns_spelt {t : Token} (ht : t.isSign = false) (awaiting : Bool) (ts : List Token) :
    attachSigns awaiting (spelt t ++ ts) = signed false t ++ attachSigns t.handsOnSigns ts := by
  cases t with
  | op operator =>
    have hsign : operator.isSign = false := ht
    cases operator <;> first | (cases awaiting <;> rfl) | cases hsign
  | _ => cases awaiting <;> rfl

/-- A minus goes into the number behind it, and is dropped in front of anything else. -/
theorem attachSigns_minus {t : Token} (ht : t.isSign = false) (ts : List Token) :
    attachSigns true (.op .subtract :: (spelt t ++ ts)) = signed true t ++ attachSigns t.handsOnSigns ts := by
  cases t with
  | op operator =>
    have hsign : operator.isSign = false := ht
    cases operator <;> first | rfl | cases hsign
  | _ => rfl

def merged (ts : List Token) : List Token := mergeSigns (spellRoots ts)

theorem merged_cons {t : Token} (ht : t.isSign = false) (ts : List Token) : merged (t :: ts) = spelt t ++ merged ts := by
  have hspelt : spellRoots (t :: ts) = spelt t ++ spellRoots ts := rfl
  rw [merged, hspelt]
  cases t with
  | squareRoot => rfl
  | _ => exact mergeSigns_cons ht _

theorem spellRoots_run {run : List Token} (hrun : ∀ t ∈ run, t.isSign = true) (rest : List Token) :
    spellRoots (run ++ rest) = run ++ spellRoots rest := by
  induction run with
  | nil => rfl
  | cons t run ih =>
    rcases List.forall_mem_cons.1 hrun with ⟨ht, hrun⟩
    have hspelt : spellRoots (t :: run ++ rest) = spelt t ++ spellRoots (run ++ rest) := rfl
    rw [hspelt, ih hrun]
    cases t with
    | squareRoot => cases ht
    | _ => rfl

theorem signlessHead_spellRoots {ts : List Token} (h : SignlessHead ts) : SignlessHead (spellRoots ts) := by
  cases ts with
  | nil => exact h
  | cons t ts =>
    cases t with
    | squareRoot => exact signlessHead_cons.2 rfl
    | _ => exact signlessHead_cons.2 (signlessHead_cons.1 h)

theorem merged_run {t : Token} {run rest : List Token} (hrun : ∀ u ∈ t :: run, u.isSign = true)
    (hrest : SignlessHead rest) : merged (t :: run ++ rest) = .op (counted (t :: run)) :: merged rest := by
  rw [merged, spellRoots_run hrun, mergeSigns_run (signlessHead_spellRoots hrest) t run hrun, merged]

/-- Behind a run of signs, of which a minus is left if it goes into what follows. -/
theorem attachSigns_behind {before rest : List Token} (hrest : SignlessHead rest)
    (htail : ∀ u r, rest = u :: r → attachSigns u.handsOnSigns (merged r) = inPlace becomes (u :: before) r) :
    attachSigns true (if isNegated before then .op .subtract :: merged rest else merged rest) =
      inPlace becomes before rest := by
  cases rest with
  | nil => cases isNegated before <;> rfl
  | cons u r =>
    rw [signlessHead_cons] at hrest
    rw [merged_cons hrest, inPlace_cons, becomes_of_not_isSign hrest, ← htail u r rfl]
    cases isNegated before with
    | true => exact attachSigns_minus hrest _
    | false => exact attachSigns_spelt hrest true _

/-- **Attaching merged signs does what the rule says**, behind any token that is no sign. -/
theorem attachSigns_merged (ts before : List Token) {t : Token} (ht : t.isSign = false) :
    attachSigns t.handsOnSigns (merged ts) = inPlace becomes (t :: before) ts := by
  rcases exists_run Token.isSign ts with ⟨run, rest, rfl, hrun, hrest⟩
  have htail : ∀ before' u r, rest = u :: r →
      attachSigns u.handsOnSigns (merged r) = inPlace becomes (u :: before') r := by
    rintro before' u r rfl
    exact attachSigns_merged r before' (hrest u rfl)
  have hbefore : SignlessHead (t :: before) := signlessHead_cons.2 ht
  have hnegated := isNegated_run hbefore hrun
  have hbehind := attachSigns_behind hrest (htail (run.reverse ++ t :: before))
  rw [hnegated, List.head?_cons, Option.any_some] at hbehind
  rcases run with _ | ⟨s, run⟩
  · -- no sign stands behind the token
    cases rest with
    | nil => cases t.handsOnSigns <;> rfl
    | cons u r =>
      have hu : u.isSign = false := hrest u rfl
      have hplain : isNegated (t :: before) = false := hnegated
      rw [List.nil_append, merged_cons hu, inPlace_cons, becomes_of_not_isSign hu, hplain, ← htail _ u r rfl,
        attachSigns_spelt hu]
  · have hsign := isSign_counted (s :: run)
    rw [merged_run hrun hrest, inPlace_signs hbefore hrest hrun (by simp), ← hbehind, runBecomes_cons]
    generalize counted (s :: run) = sign at hsign
    cases t.handsOnSigns with
    | true => cases sign <;> first | rfl | cases hsign
    | false =>
      rw [attachSigns_false_cons, Bool.and_false]
      rfl
termination_by ts.length
decreasing_by simp_all; omega

end Flat
end Reckoner

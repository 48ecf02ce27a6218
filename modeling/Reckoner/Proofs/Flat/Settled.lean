import Reckoner.Proofs.Flat.Signs
import Reckoner.Proofs.Group.Brackets

/-!
# Flat.Settled — which expressions have a canonical form, and which

The last pass sees no operator at the end and none beside another exactly if the tokens as they were given end with a
number and have one in front of every operator that is no sign (`spaced_inPlace`).  So of tokens without brackets and
references it can be told which have a canonical form, and what it is (`canonical_eq_ok_iff_acceptable`).
-/
namespace Reckoner
namespace Flat

/-! ## The canonical form -/

theorem canonical_of_not_isSign {operator : Operator} (h : operator.isSign = false) (ts : List Token) :
    canonical (.op operator :: ts) = .error (.cannotStart operator) := by
  have hmerged : mergeSigns (spellRoots (.op operator :: ts)) = .op operator :: merged ts :=
    merged_cons (t := .op operator) h ts
  rw [canonical, if_neg (by simp), hmerged, supplyZero, if_neg (by simp [h])]

/-- **The passes do what the rule says**, and the last of them looks at the outcome. -/
theorem canonical_eq_check {ts : List Token} (h : ∀ operator, ts.head? = some (.op operator) → operator.isSign = true) :
    canonical ts = check (settle ts) := by
  rcases exists_run Token.isSign ts with ⟨run, rest, rfl, hrun, hrest⟩
  have hbehind := @attachSigns_behind (run.reverse ++ []) rest hrest fun u r hr =>
    attachSigns_merged r _ (hrest u (by rw [hr]; rfl))
  rw [isNegated_run signlessHead_nil hrun, List.head?_nil, Option.any_none, Bool.and_false] at hbehind
  rcases run with _ | ⟨s, run⟩
  · cases rest with
    | nil => rfl
    | cons t rest =>
      have ht : t.isSign = false := hrest t rfl
      have hled : supplyZero (spelt t ++ merged rest) = .ok (spelt t ++ merged rest) := by
        cases t with
        | op operator =>
          have hsign : operator.isSign = false := ht
          rw [h operator rfl] at hsign
          cases hsign
        | _ => rfl
      have hattached : attachSigns false (spelt t ++ merged rest) = attachSigns true (spelt t ++ merged rest) := by
        rw [attachSigns_spelt ht, attachSigns_spelt ht]
      have hmerged : mergeSigns (spellRoots (t :: rest)) = spelt t ++ merged rest := merged_cons ht rest
      rw [List.nil_append, canonical, if_neg (by simp), hmerged, hled, settle]
      simp only [hattached]
      rw [← merged_cons ht]
      exact congrArg check hbehind
  · have hsign := isSign_counted (s :: run)
    have hmerged : mergeSigns (spellRoots (s :: run ++ rest)) = .op (counted (s :: run)) :: merged rest :=
      merged_run hrun hrest
    rw [canonical, if_neg (by simp), hmerged, supplyZero, if_pos hsign, settle,
      inPlace_signs signlessHead_nil hrest hrun (by simp),
      ← hbehind]
    have hzero : (Token.number 0).isOperator = false := rfl
    simp only [attachSigns_false_cons, hzero]
    rfl

/-! ## Acceptance -/

def endsInNumber (ts : List Token) : Bool := ts.getLast?.any Token.isNumber

/-- **What has a canonical form**: it ends with a number, and every operator that is no sign stands right behind one. -/
def Acceptable (ts : List Token) : Prop :=
  endsInNumber ts = true ∧
    ∀ front operator back, ts = front ++ .op operator :: back → operator.isSign = false → endsInNumber front = true

theorem endsInNumber_append_cons (front : List Token) (t : Token) (back : List Token) :
    endsInNumber (front ++ t :: back) = endsInNumber (t :: back) := by
  cases h : (t :: back).getLast? with
  | none => cases List.getLast?_eq_none_iff.1 h
  | some u => rw [endsInNumber, endsInNumber, List.getLast?_append, h, Option.some_or]

/-- The same from left to right; the flag says that a number stands right in front. -/
def accepted : Bool → List Token → Bool
  | behindNumber, [] => behindNumber
  | behindNumber, .op operator :: rest => (operator.isSign || behindNumber) && accepted false rest
  | _, t :: rest => accepted t.isNumber rest

theorem forall_op_cons {p : List Token → Operator → Prop} {t : Token} {ts : List Token} :
    (∀ front operator back, t :: ts = front ++ .op operator :: back → p front operator) ↔
      (∀ operator, t = .op operator → p [] operator) ∧
        ∀ front operator back, ts = front ++ .op operator :: back → p (t :: front) operator := by
  constructor
  · intro h
    exact ⟨fun operator ht => h [] operator ts (by rw [ht]; rfl),
      fun front operator back hts => h (t :: front) operator back (by rw [hts]; rfl)⟩
  · rintro ⟨hhead, htail⟩ front operator back h
    rcases front with _ | ⟨u, front⟩
    · cases h
      exact hhead operator rfl
    · cases h
      exact htail front operator back rfl

theorem accepted_iff : ∀ (ts before : List Token),
    accepted (endsInNumber before) ts = true ↔ endsInNumber (before ++ ts) = true ∧
      ∀ front operator back, ts = front ++ .op operator :: back → operator.isSign = false →
        endsInNumber (before ++ front) = true
  | [], before => by simp [accepted]
  | t :: ts, before => by
    have ih := accepted_iff ts (before ++ [t])
    simp only [List.append_assoc, List.singleton_append] at ih
    have hlast : endsInNumber (before ++ [t]) = t.isNumber := endsInNumber_append_cons before t []
    rw [hlast] at ih
    rw [@forall_op_cons fun front operator => operator.isSign = false → endsInNumber (before ++ front) = true]
    simp only [List.append_nil]
    cases t with
    | op operator =>
      have hnone : (Token.op operator).isNumber = false := rfl
      rw [hnone] at ih
      rw [accepted, Bool.and_eq_true, Bool.or_eq_true, ih]
      cases hsign : operator.isSign with
      | true => simp [hsign]
      | false =>
        simp only [hsign, Bool.false_eq_true, false_or, Token.op.injEq, forall_eq', forall_const]
        exact and_left_comm
    | _ => simpa [accepted] using ih

theorem acceptable_iff (ts : List Token) : Acceptable ts ↔ accepted false ts = true := (accepted_iff ts []).symm

theorem accepted_sign (operator : Operator) (h : operator.isSign = true) (back : List Token) :
    ∀ (front : List Token) (behindNumber : Bool),
      accepted behindNumber (front ++ .op operator :: back) = accepted behindNumber (front ++ .op .add :: back)
  | [], _ => by
    have hplus : Operator.add.isSign = true := rfl
    simp [accepted, h, hplus]
  | t :: front, behindNumber => by
    have ih := accepted_sign operator h back front
    cases t with
    | op top => simp only [List.cons_append, accepted, ih]
    | _ => exact ih _

end Flat

/-- What stands in an expression without brackets and references. -/
def Token.isPlain : Token → Bool
  | number _ | op _ | squareRoot => true
  | _ => false

namespace Flat

def Plain (ts : List Token) : Prop := ∀ t ∈ ts, t.isPlain = true

theorem plain_of_bracketless {ts : List Token} (hflat : Group.Bracketless ts) (hanswer : .answer ∉ ts) : Plain ts := by
  intro t ht
  have hbracket := hflat t ht
  cases t with
  | answer => exact absurd ht hanswer
  | opening | closing => cases hbracket
  | _ => rfl

/-- **Operators stand between other tokens in what the rule gives exactly if the tokens are accepted.** -/
theorem spaced_inPlace : ∀ (ts before : List Token), Plain (before ++ ts) →
    spaced (!before.head?.any Token.isNumber) (inPlace becomes before ts) =
      accepted (before.head?.any Token.isNumber) ts
  | [], before, _ => by simp [spaced, accepted]
  | t :: ts, before, h => by
    have hplain : Plain (t :: before ++ ts) := fun u hu => h u (List.perm_middle.mem_iff.2 hu)
    have ih := spaced_inPlace ts (t :: before) hplain
    rw [List.head?_cons, Option.any_some] at ih
    rw [inPlace_cons]
    cases hsign : t.isSign with
    | false =>
      rw [becomes_of_not_isSign hsign]
      cases t with
      | op operator =>
        have hoperator : operator.isSign = false := hsign
        have hkept : ∀ negated, signed negated (.op operator) = [.op operator] := fun _ => rfl
        rw [accepted, hoperator, hkept, List.singleton_append, spaced_op, Bool.not_not, Bool.false_or]
        exact congrArg _ ih
      | number value => exact ih
      | squareRoot => exact ih
      | _ => cases h _ (List.mem_append_right _ List.mem_cons_self)
    | true =>
      cases t with
      | op operator =>
        have hoperator : operator.isSign = true := hsign
        rw [accepted, hoperator, Bool.true_or, Bool.true_and]
        refine Eq.trans ?_ ih
        rw [becomes, if_pos hsign]
        cases before with
        | nil => rfl
        | cons u before =>
          rw [List.head?_cons, Option.any_some, Option.any_some, runBecomes_cons]
          cases u with
          | op operator' => cases operator' <;> rfl
          | number value => rfl
          | squareRoot => rfl
          | _ => cases h _ List.mem_cons_self
      | _ => cases hsign

theorem eq_of_check {ts out : List Token} (h : check ts = .ok out) : out = ts := by
  unfold check at h
  split at h
  · cases h
  · split at h
    · cases h
    · cases h
      rfl
    · cases h

/-- **What has a canonical form is acceptable, and the form is what the rule gives.** -/
theorem canonical_eq_ok_iff_acceptable {ts out : List Token} (h : Plain ts) :
    canonical ts = .ok out ↔ Acceptable ts ∧ out = settle ts := by
  have hspaced : spaced true (settle ts) = accepted false ts := spaced_inPlace ts [] h
  rw [acceptable_iff, ← hspaced]
  by_cases hled : ∃ operator, ts.head? = some (.op operator) ∧ operator.isSign = false
  · rcases hled with ⟨operator, hhead, hsign⟩
    rcases ts with _ | ⟨t, ts⟩
    · cases hhead
    · cases hhead
      have hrefused : accepted false (.op operator :: ts) = false := by simp [accepted, hsign]
      rw [canonical_of_not_isSign hsign, hspaced, hrefused]
      simp
  · have hcheck := @canonical_eq_check ts fun operator hhead => by
      simpa using fun hsign => hled ⟨operator, hhead, hsign⟩
    constructor
    · intro hout
      have hsettle : out = settle ts := eq_of_check (hcheck ▸ hout)
      exact ⟨hsettle ▸ canonical_spaced hout, hsettle⟩
    · rintro ⟨hspaced, rfl⟩
      rcases exists_head_of_spaced hspaced with ⟨t, back, heq, -, -⟩
      rw [heq] at hspaced hcheck ⊢
      rw [hcheck]
      exact check_of_spaced hspaced

end Flat
end Reckoner

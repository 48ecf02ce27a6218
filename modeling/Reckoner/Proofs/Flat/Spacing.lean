import Reckoner.Flat.Canonical

/-!
# Flat.Spacing — operators stand between other tokens

In a canonical expression no operator stands first or last and no two stand side by side (`spaced`).  The last pass
refuses exactly the lists that are not of this form (`check_of_spaced`, `spaced_of_check`), and always with a syntax
error, so canonical expressions have it (`canonical_spaced`).  Apart from numbers and operators a canonical expression
holds only tokens that were there before (`mem_canonical`).
-/
namespace Reckoner

/-- Nothing where something has to stand, or an operator where none may. -/
def Failure.isMisplaced : Failure → Bool
  | emptyExpression | cannotStart _ | cannotFollow .. | cannotEnd _ => true
  | _ => false

theorem Failure.kind_of_isMisplaced {f : Failure} (h : f.isMisplaced = true) : f.kind = .syntaxError := by
  cases f <;> first | rfl | cases h

namespace Flat

/-- **Operators stand between other tokens**; the flag says that one of these has to come next. -/
def spaced : Bool → List Token → Bool
  | awaiting, [] => !awaiting
  | awaiting, t :: rest => if t.isOperator then !awaiting && spaced true rest else spaced false rest

theorem spaced_op (awaiting : Bool) (operator : Operator) (rest : List Token) :
    spaced awaiting (.op operator :: rest) = (!awaiting && spaced true rest) := rfl

theorem spaced_cons {t : Token} (ht : t.isOperator = false) (awaiting : Bool) (rest : List Token) :
    spaced awaiting (t :: rest) = spaced false rest := by
  rw [spaced, ht]
  rfl

/-- An operator divides a list in two that are spaced by themselves. -/
theorem spaced_append_op (operator : Operator) (post : List Token) : ∀ (pre : List Token) (awaiting : Bool),
    spaced awaiting (pre ++ .op operator :: post) = (spaced awaiting pre && spaced true post)
  | [], _ => rfl
  | t :: pre, awaiting => by
    rw [List.cons_append, spaced, spaced, spaced_append_op operator post pre, spaced_append_op operator post pre]
    split
    · rw [Bool.and_assoc]
    · rfl

theorem exists_last_of_spaced {pre : List Token} (h : spaced true pre = true) :
    ∃ (front : List Token) (t : Token), pre = front ++ [t] ∧ t.isOperator = false := by
  obtain rfl | ⟨front, t, rfl⟩ := pre.eq_nil_or_concat
  · cases h
  · refine ⟨front, t, List.concat_eq_append, ?_⟩
    rw [List.concat_eq_append] at h
    cases t with
    | op operator =>
      rw [spaced_append_op operator [] front true, Bool.and_eq_true] at h
      cases h.2
    | _ => rfl

theorem exists_head_of_spaced : ∀ {post : List Token}, spaced true post = true →
    ∃ (t : Token) (back : List Token), post = t :: back ∧ t.isOperator = false ∧ spaced false back = true
  | [], h => by cases h
  | t :: back, h => by
    rw [spaced] at h
    split at h
    · cases h
    · rename_i ht
      exact ⟨t, back, rfl, by simpa using ht, h⟩

/-! ## The last pass -/

/-- Spaced means no two operators side by side and none at the end. -/
theorem spaced_false_iff : ∀ ts : List Token,
    spaced false ts = true ↔ clash? ts = none ∧ ∀ operator, ts.getLast? ≠ some (.op operator)
  | [] => by simp [spaced, clash?]
  | t :: rest => by
    have ih := spaced_false_iff rest
    cases t with
    | op operator =>
      rw [spaced_op, Bool.not_false, Bool.true_and]
      cases rest with
      | nil => simp [spaced]
      | cons u rest =>
        cases u with
        | op second => simp [spaced_op, clash?]
        | _ => simpa [spaced, Token.isOperator, Token.operator?, clash?] using ih
    | _ =>
      rw [spaced_cons rfl, ih, clash?]
      · cases rest <;> simp
      · intro _ _ _ hc
        cases hc

theorem check_of_spaced {t : Token} {rest : List Token} (h : spaced true (t :: rest) = true) :
    check (t :: rest) = .ok (t :: rest) := by
  obtain ⟨u, back, heq, hu, _⟩ := exists_head_of_spaced h
  cases heq
  rw [spaced_cons hu, ← spaced_cons hu false, spaced_false_iff] at h
  unfold check
  rw [h.1]
  cases hlast : (t :: rest).getLast? with
  | none => cases List.getLast?_eq_none_iff.1 hlast
  | some last =>
    cases last with
    | op operator => exact absurd hlast (h.2 operator)
    | _ => rfl

theorem spaced_of_check {t : Token} {rest out : List Token} (ht : t.isOperator = false)
    (h : check (t :: rest) = .ok out) : out = t :: rest ∧ spaced true out = true := by
  unfold check at h
  split at h
  · cases h
  · rename_i hclash
    split at h
    · cases h
    · rename_i last hne hlast
      cases h
      refine ⟨rfl, ?_⟩
      rw [spaced_cons ht, ← spaced_cons ht false, spaced_false_iff]
      refine ⟨hclash, fun operator hop => ?_⟩
      rw [hlast] at hop
      exact hne operator (Option.some.inj hop)
    · cases h

theorem isMisplaced_of_check {ts : List Token} {f : Failure} (h : check ts = .error f) : f.isMisplaced = true := by
  unfold check at h
  split at h
  · cases h
    rfl
  · split at h
    · cases h
      rfl
    · cases h
    · cases h
      rfl

/-! ## The passes together -/

theorem supplyZero_head {ts led : List Token} (h : supplyZero ts = .ok led) :
    led = [] ∨ ∃ (t : Token) (rest : List Token), led = t :: rest ∧ t.isOperator = false := by
  unfold supplyZero at h
  split at h
  · split at h
    · cases h
      exact .inr ⟨_, _, rfl, rfl⟩
    · cases h
  · rename_i hne
    cases h
    cases ts with
    | nil => exact .inl rfl
    | cons t rest =>
      refine .inr ⟨t, rest, rfl, ?_⟩
      cases t with
      | op operator => exact absurd rfl (hne operator rest)
      | _ => rfl

theorem isMisplaced_of_supplyZero {ts : List Token} {f : Failure} (h : supplyZero ts = .error f) :
    f.isMisplaced = true := by
  unfold supplyZero at h
  split at h
  · split at h
    · cases h
    · cases h
      rfl
  · cases h

/-- A token that is no operator stays where it leads. -/
theorem attachSigns_cons {t : Token} (ht : t.isOperator = false) (awaiting : Bool) (rest : List Token) :
    attachSigns awaiting (t :: rest) = t :: attachSigns false rest := by
  cases t with
  | op operator => cases ht
  | _ => rw [attachSigns] <;> first | rfl | (intros; simp_all)

/-- **How a canonical form comes about**: the passes up to the last one leave a list that starts with no operator, and
with its signs attached that list is the canonical form if it is spaced. -/
theorem canonical_eq_ok_iff {ts out : List Token} :
    canonical ts = .ok out ↔ ∃ (t : Token) (rest : List Token), supplyZero (mergeSigns (spellRoots ts)) = .ok (t :: rest) ∧
      t.isOperator = false ∧ out = t :: attachSigns false rest ∧ spaced true out = true := by
  constructor
  · intro h
    unfold canonical at h
    split at h
    · cases h
    · split at h
      · cases h
      · rename_i led hled
        obtain rfl | ⟨t, rest, rfl, ht⟩ := supplyZero_head hled
        · cases h
        · rw [attachSigns_cons ht] at h
          obtain ⟨rfl, hspaced⟩ := spaced_of_check ht h
          exact ⟨t, rest, hled, ht, rfl, hspaced⟩
  · rintro ⟨t, rest, hled, ht, rfl, hspaced⟩
    have hts : ts.isEmpty = false := by
      cases ts with
      | nil => cases hled
      | cons u us => rfl
    unfold canonical
    rw [if_neg (by simp [hts]), hled]
    simp only [attachSigns_cons ht]
    exact check_of_spaced hspaced

/-- **Canonical expressions are spaced.** -/
theorem canonical_spaced {ts out : List Token} (h : canonical ts = .ok out) : spaced true out = true := by
  obtain ⟨_, _, _, _, _, hspaced⟩ := canonical_eq_ok_iff.1 h
  exact hspaced

/-- **What has no canonical form has an operator in the wrong place**, or nothing at all. -/
theorem isMisplaced_of_canonical {ts : List Token} {f : Failure} (h : canonical ts = .error f) :
    f.isMisplaced = true := by
  unfold canonical at h
  split at h
  · cases h
    rfl
  · split at h
    · rename_i g hg
      cases h
      exact isMisplaced_of_supplyZero hg
    · exact isMisplaced_of_check h

theorem kind_of_canonical {ts : List Token} {f : Failure} (h : canonical ts = .error f) : f.kind = .syntaxError :=
  Failure.kind_of_isMisplaced (isMisplaced_of_canonical h)

/-! ## Where the tokens of a canonical expression come from -/

end Flat

/-- The tokens that folding deals with: numbers and operators. -/
def Token.isFoldable : Token → Bool
  | .number _ | .op _ => true
  | _ => false

namespace Flat

/-- Every token of `out` is one of `ts`, or a number or an operator. -/
def Within (ts out : List Token) : Prop := ∀ t ∈ out, t.isFoldable = true ∨ t ∈ ts

theorem Within.refl (ts : List Token) : Within ts ts := fun _ ht => .inr ht

theorem Within.trans {ts us out : List Token} (h : Within ts us) (hout : Within us out) : Within ts out :=
  fun t ht => (hout t ht).elim .inl (h t)

theorem Within.cons {ts out : List Token} (t : Token) (h : Within ts out) : Within (t :: ts) (t :: out) :=
  List.forall_mem_cons.2 ⟨.inr List.mem_cons_self, fun u hu => (h u hu).imp_right (List.mem_cons_of_mem t)⟩

theorem Within.foldable_cons {ts out : List Token} {t : Token} (ht : t.isFoldable = true) (h : Within ts out) :
    Within ts (t :: out) := List.forall_mem_cons.2 ⟨.inl ht, h⟩

theorem Within.of_tail {ts out : List Token} (t : Token) (h : Within ts out) : Within (t :: ts) out :=
  fun u hu => (h u hu).imp_right (List.mem_cons_of_mem t)

theorem within_consSign (sign : Operator) (ts : List Token) : Within ts (consSign sign ts) := by
  unfold consSign
  split
  · split
    · exact Within.foldable_cons rfl (Within.of_tail _ (Within.refl _))
    · exact Within.foldable_cons rfl (Within.refl _)
  · exact Within.foldable_cons rfl (Within.refl _)

theorem within_mergeSigns (ts : List Token) : Within ts (mergeSigns ts) := by
  fun_induction mergeSigns ts with
  | case1 => exact Within.refl []
  | case2 operator rest hsign ih => exact Within.of_tail _ (ih.trans (within_consSign operator _))
  | case3 operator rest hsign ih => exact Within.cons _ ih
  | case4 t rest hne ih => exact Within.cons t ih

theorem within_supplyZero {ts led : List Token} (h : supplyZero ts = .ok led) : Within ts led := by
  unfold supplyZero at h
  split at h
  · split at h
    · cases h
      exact Within.foldable_cons rfl (Within.refl _)
    · cases h
  · cases h
    exact Within.refl _

theorem within_attachSigns (awaiting : Bool) (ts : List Token) : Within ts (attachSigns awaiting ts) := by
  fun_induction attachSigns awaiting ts with
  | case1 => exact Within.refl []
  | case2 rest ih => exact Within.of_tail _ ih
  | case3 value rest ih => exact Within.foldable_cons rfl (Within.of_tail _ (Within.of_tail _ ih))
  | case4 rest hne ih => exact Within.of_tail _ ih
  | case5 awaiting t rest hplus hminus hnumber ih => exact Within.cons t ih

theorem mem_spellRoots {t : Token} {ts : List Token} (h : t ∈ spellRoots ts) :
    t.isFoldable = true ∨ t ∈ ts ∧ t ≠ .squareRoot := by
  obtain ⟨u, hu, ht⟩ := List.mem_flatMap.1 h
  cases u with
  | squareRoot =>
    obtain rfl | ht := List.mem_cons.1 ht
    · exact .inl rfl
    · obtain rfl := List.mem_singleton.1 ht
      exact .inl rfl
  | _ =>
    obtain rfl := List.mem_singleton.1 ht
    exact .inr ⟨hu, fun hne => (by cases hne)⟩

/-- **Apart from numbers and operators a canonical expression holds tokens of the given one only**, and no root
prefix. -/
theorem mem_canonical {ts out : List Token} {t : Token} (h : canonical ts = .ok out) (ht : t ∈ out) :
    t.isFoldable = true ∨ t ∈ ts ∧ t ≠ .squareRoot := by
  obtain ⟨u, rest, hled, hu, rfl, _⟩ := canonical_eq_ok_iff.1 h
  have hwithin : Within (spellRoots ts) (attachSigns false (u :: rest)) :=
    ((within_mergeSigns _).trans (within_supplyZero hled)).trans (within_attachSigns false _)
  rw [attachSigns_cons hu] at hwithin
  exact (hwithin t ht).elim .inl mem_spellRoots

end Flat
end Reckoner

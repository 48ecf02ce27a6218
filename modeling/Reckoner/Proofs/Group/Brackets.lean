import Reckoner.Group

/-!
# Group.Brackets — where the brackets of a list stand

Every list falls under one of four heads (`brackets`): no bracket at all, a group that closes first, a closing bracket
with no opening one before it, an opening bracket that is never closed.  The search finds the head (`innermost_group`
and its companions), so evaluation is known under each (`resolve_group`: a group closes, and its value takes its place
among the tokens around it, whatever these are).  `resolve_induction` is the induction that follows the evaluation.
-/
namespace Reckoner

def Token.isBracket : Token → Bool
  | .opening | .closing => true
  | _ => false

namespace Group

def Bracketless (ts : List Token) : Prop := ∀ t ∈ ts, t.isBracket = false

theorem bracketless_nil : Bracketless [] := fun t ht => by cases ht

theorem bracketless_cons {t : Token} {ts : List Token} :
    Bracketless (t :: ts) ↔ t.isBracket = false ∧ Bracketless ts := List.forall_mem_cons

/-- **Where the brackets of a list stand.** -/
inductive Brackets : List Token → Prop where
  | none (ts : List Token) (h : Bracketless ts) : Brackets ts
  | group (pre inside post : List Token) (hpre : .closing ∉ pre) (hinside : Bracketless inside) :
    Brackets (pre ++ .opening :: (inside ++ .closing :: post))
  | unopened (pre post : List Token) (hpre : Bracketless pre) : Brackets (pre ++ .closing :: post)
  | unclosed (pre post : List Token) (hpre : .closing ∉ pre) (hpost : .closing ∉ post) :
    Brackets (pre ++ .opening :: post)

theorem closing_not_mem {ts : List Token} (h : Bracketless ts) : .closing ∉ ts := fun hm => by cases h _ hm

theorem closing_not_mem_cons {t : Token} {ts : List Token} (ht : t ≠ .closing) (h : .closing ∉ ts) :
    .closing ∉ t :: ts := fun hm => (List.mem_cons.1 hm).elim (fun he => ht he.symm) h

theorem Brackets.cons {t : Token} {ts : List Token} (ht : t.isBracket = false) : Brackets ts → Brackets (t :: ts)
  | .none _ h => .none _ (bracketless_cons.2 ⟨ht, h⟩)
  | .group pre inside post hpre hinside =>
    .group (t :: pre) inside post (closing_not_mem_cons (fun he => by rw [he] at ht; cases ht) hpre) hinside
  | .unopened pre post hpre => .unopened (t :: pre) post (bracketless_cons.2 ⟨ht, hpre⟩)
  | .unclosed pre post hpre hpost =>
    .unclosed (t :: pre) post (closing_not_mem_cons (fun he => by rw [he] at ht; cases ht) hpre) hpost

/-- An opening bracket in front: it is closed by a bracket that had none, and else stays around everything. -/
theorem Brackets.cons_opening {ts : List Token} : Brackets ts → Brackets (.opening :: ts)
  | .none ts h => .unclosed [] ts List.not_mem_nil (closing_not_mem h)
  | .group pre inside post hpre hinside =>
    .group (.opening :: pre) inside post (closing_not_mem_cons (fun he => by cases he) hpre) hinside
  | .unopened pre post hpre => .group [] pre post List.not_mem_nil hpre
  | .unclosed pre post hpre hpost =>
    .unclosed (.opening :: pre) post (closing_not_mem_cons (fun he => by cases he) hpre) hpost

/-- **Every list falls under one of the four heads.** -/
theorem brackets : ∀ ts : List Token, Brackets ts
  | [] => .none [] bracketless_nil
  | .opening :: ts => (brackets ts).cons_opening
  | .closing :: ts => .unopened [] ts bracketless_nil
  | .number _ :: ts => (brackets ts).cons rfl
  | .op _ :: ts => (brackets ts).cons rfl
  | .squareRoot :: ts => (brackets ts).cons rfl
  | .answer :: ts => (brackets ts).cons rfl

theorem answer_not_mem_group {pre inside post : List Token}
    (h : .answer ∉ pre ++ .opening :: (inside ++ .closing :: post)) :
    .answer ∉ inside ∧ ∀ value, .answer ∉ pre ++ .number value :: post := by
  simp only [List.mem_append, List.mem_cons, not_or] at h ⊢
  exact ⟨h.2.2.1, fun value => ⟨h.1, nofun, h.2.2.2.2⟩⟩

/-! ## What the search finds -/

theorem innermostFrom_bracketless : ∀ (inside : List Token) (position : Nat) (opened : Option Nat)
    (rest : List Token), Bracketless inside →
      innermostFrom position opened (inside ++ rest) = innermostFrom (position + inside.length) opened rest
  | [], _, _, _, _ => rfl
  | t :: inside, position, opened, rest, h => by
    obtain ⟨ht, hinside⟩ := bracketless_cons.1 h
    have ih := innermostFrom_bracketless inside (position + 1) opened rest hinside
    rw [List.length_cons, ← Nat.add_assoc, Nat.add_right_comm, ← ih]
    cases t <;> first | rfl | cases ht

theorem innermostFrom_opening : ∀ (pre : List Token) (position : Nat) (opened : Option Nat) (rest : List Token),
    .closing ∉ pre →
      innermostFrom position opened (pre ++ .opening :: rest) =
        innermostFrom (position + pre.length + 1) (some (position + pre.length)) rest
  | [], _, _, _, _ => rfl
  | t :: pre, position, opened, rest, h => by
    have hpre : Token.closing ∉ pre := fun hm => h (List.mem_cons_of_mem t hm)
    have ih := fun o => innermostFrom_opening pre (position + 1) o rest hpre
    rw [List.length_cons, Nat.add_comm pre.length 1, ← Nat.add_assoc]
    cases t with
    | closing => exact absurd List.mem_cons_self h
    -- what was opened before does not matter, since another bracket opens later
    | opening => exact ih (some position)
    | _ => exact ih opened

theorem innermostFrom_unclosed : ∀ (post : List Token) (position start : Nat), .closing ∉ post →
    innermostFrom position (some start) post = .error .unclosedBracket
  | [], _, _, _ => rfl
  | t :: post, position, start, h => by
    have hpost : Token.closing ∉ post := fun hm => h (List.mem_cons_of_mem t hm)
    have ih := fun o => innermostFrom_unclosed post (position + 1) o hpost
    cases t with
    | closing => exact absurd List.mem_cons_self h
    | opening => exact ih position
    | _ => exact ih start

theorem innermost_none {ts : List Token} (h : Bracketless ts) : innermost ts = .ok none := by
  have := innermostFrom_bracketless ts 0 none [] h
  rwa [List.append_nil] at this

/-- **The search finds the group that closes first.** -/
theorem innermost_group {pre inside post : List Token} (hpre : .closing ∉ pre) (hinside : Bracketless inside) :
    innermost (pre ++ .opening :: (inside ++ .closing :: post)) =
      .ok (some (pre.length, pre.length + 1 + inside.length)) := by
  unfold innermost
  rw [innermostFrom_opening pre 0 none _ hpre, innermostFrom_bracketless inside _ _ _ hinside, Nat.zero_add]
  rfl

theorem innermost_unopened {pre post : List Token} (hpre : Bracketless pre) :
    innermost (pre ++ .closing :: post) = .error .unopenedBracket := by
  unfold innermost
  rw [innermostFrom_bracketless pre 0 none _ hpre]
  rfl

theorem innermost_unclosed {pre post : List Token} (hpre : .closing ∉ pre) (hpost : .closing ∉ post) :
    innermost (pre ++ .opening :: post) = .error .unclosedBracket := by
  unfold innermost
  rw [innermostFrom_opening pre 0 none _ hpre]
  exact innermostFrom_unclosed post _ _ hpost

theorem bracketless_of_innermost {ts : List Token} (h : innermost ts = .ok none) : Bracketless ts := by
  cases brackets ts with
  | none _ hts => exact hts
  | group pre inside post hpre hinside =>
    rw [innermost_group hpre hinside] at h
    cases h
  | unopened pre post hpre =>
    rw [innermost_unopened hpre] at h
    cases h
  | unclosed pre post hpre hpost =>
    rw [innermost_unclosed hpre hpost] at h
    cases h

theorem exists_group_of_innermost {ts : List Token} {start stop : Nat} (h : innermost ts = .ok (some (start, stop))) :
    ∃ pre inside post, ts = pre ++ .opening :: (inside ++ .closing :: post) ∧ Bracketless inside ∧
      start = pre.length ∧ stop = pre.length + 1 + inside.length := by
  cases brackets ts with
  | none _ hts =>
    rw [innermost_none hts] at h
    cases h
  | group pre inside post hpre hinside =>
    rw [innermost_group hpre hinside] at h
    cases h
    exact ⟨pre, inside, post, rfl, hinside, rfl, rfl⟩
  | unopened pre post hpre =>
    rw [innermost_unopened hpre] at h
    cases h
  | unclosed pre post hpre hpost =>
    rw [innermost_unclosed hpre hpost] at h
    cases h

/-! ## What evaluation does there -/

theorem between?_group (pre inside post : List Token) :
    Token.between? (pre ++ .opening :: (inside ++ .closing :: post)) pre.length (pre.length + 1 + inside.length) =
      some inside := by
  have hlength : pre.length + 1 + inside.length = (pre ++ .opening :: inside).length := by
    rw [List.length_append, List.length_cons, Nat.add_assoc, Nat.add_comm 1]
  have hsplit : pre ++ Token.opening :: (inside ++ .closing :: post) =
      (pre ++ .opening :: inside) ++ .closing :: post := by simp
  refine Token.between?_eq_some_iff.2 ⟨by omega, by rw [hsplit, hlength]; simp, ?_⟩
  rw [hsplit, hlength, List.take_left' rfl, List.drop_length_add_append]
  rfl

theorem splice?_group (pre inside post : List Token) (value : Float) :
    Token.splice? (pre ++ .opening :: (inside ++ .closing :: post)) pre.length (pre.length + 1 + inside.length) value =
      some (pre ++ .number value :: post) := by
  refine Token.splice?_eq_some_iff.2 ⟨by simp, by simp only [List.length_append, List.length_cons]; omega, ?_⟩
  have hdrop : (pre ++ .opening :: (inside ++ .closing :: post)).drop (pre.length + 1 + inside.length + 1) = post := by
    rw [Nat.add_assoc, Nat.add_assoc, List.drop_length_add_append, Nat.add_comm 1, List.drop_succ_cons,
      List.drop_length_add_append]
    rfl
  rw [List.take_left' rfl, hdrop]

theorem collapse_group (checks : Bool) (pre inside post : List Token) :
    collapse checks (pre ++ .opening :: (inside ++ .closing :: post)) pre.length (pre.length + 1 + inside.length) =
      (Flat.evaluate checks inside).map fun value => pre ++ .number value :: post := by
  unfold collapse
  rw [between?_group]
  cases hv : Flat.evaluate checks inside with
  | error f => simp only [hv]; rfl
  | ok value => simp only [hv, splice?_group]; rfl

theorem resolve_bracketless (checks : Bool) {ts : List Token} (h : Bracketless ts) :
    resolve checks ts = Flat.evaluate checks ts := resolve_of_none (innermost_none h)

/-- **A group that closes first is evaluated by itself, and its value takes its place.** -/
theorem resolve_group (checks : Bool) {pre inside : List Token} (post : List Token) (hpre : .closing ∉ pre)
    (hinside : Bracketless inside) :
    resolve checks (pre ++ .opening :: (inside ++ .closing :: post)) =
      (Flat.evaluate checks inside).bind fun value => resolve checks (pre ++ .number value :: post) := by
  rw [resolve_of_some (innermost_group hpre hinside), collapse_group]
  cases Flat.evaluate checks inside <;> rfl

theorem resolve_unopened (checks : Bool) {pre : List Token} (post : List Token) (hpre : Bracketless pre) :
    resolve checks (pre ++ .closing :: post) = .error .unopenedBracket :=
  resolve_of_error (innermost_unopened hpre)

theorem resolve_unclosed (checks : Bool) {pre post : List Token} (hpre : .closing ∉ pre) (hpost : .closing ∉ post) :
    resolve checks (pre ++ .opening :: post) = .error .unclosedBracket :=
  resolve_of_error (innermost_unclosed hpre hpost)

/-- **Induction along the evaluation**: what holds under the three heads that end it, and of a list with a group once
it holds with any number in the group's place, holds of every list. -/
theorem resolve_induction {motive : List Token → Prop} (none : ∀ ts, Bracketless ts → motive ts)
    (group : ∀ pre inside post, .closing ∉ pre → Bracketless inside →
      (∀ value, motive (pre ++ .number value :: post)) → motive (pre ++ .opening :: (inside ++ .closing :: post)))
    (unopened : ∀ pre post, Bracketless pre → motive (pre ++ .closing :: post))
    (unclosed : ∀ pre post, .closing ∉ pre → .closing ∉ post → motive (pre ++ .opening :: post)) :
    ∀ ts, motive ts := by
  intro ts
  generalize hn : ts.length = n
  induction n using Nat.strongRecOn generalizing ts with
  | ind n ih =>
    cases brackets ts with
    | none _ h => exact none ts h
    | unopened pre post hpre => exact unopened pre post hpre
    | unclosed pre post hpre hpost => exact unclosed pre post hpre hpost
    | group pre inside post hpre hinside =>
      refine group pre inside post hpre hinside fun value => ih _ ?_ _ rfl
      simp only [← hn, List.length_append, List.length_cons]
      omega

end Group
end Reckoner

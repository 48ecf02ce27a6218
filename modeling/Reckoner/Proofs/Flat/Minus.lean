import Reckoner.Proofs.Flat.Settled

/-!
# Flat.Minus — no minus is lost

A run of signs leaves its mark in one token: an operator of its own, or the number behind it (`settle_signs`).  So with a
plus in place of one minus, one token of the canonical form is the opposite of what it was, and no other is touched
(`settle_minus`).  With what was said about acceptance this is all there is to say about canonical forms
(`canonical_settled`).
-/
namespace Reckoner
namespace Flat

/-! ## Where a run of signs shows -/

theorem inPlace_append (back : List Token) : ∀ (front before : List Token), SignlessHead front.reverse →
    inPlace becomes before (front ++ back) =
      inPlace becomes before front ++ inPlace becomes (front.reverse ++ before) back
  | [], before, _ => rfl
  | t :: front, before, h => by
    rw [List.reverse_cons] at h
    have hfront : SignlessHead front.reverse := by
      cases hreverse : front.reverse with
      | nil => exact signlessHead_nil
      | cons v rest =>
        rw [hreverse] at h
        exact signlessHead_cons.2 (signlessHead_cons.1 h)
    have hbecomes : becomes before t (front ++ back) = becomes before t front := by
      cases hsign : t.isSign with
      | false => rw [becomes_of_not_isSign hsign, becomes_of_not_isSign hsign]
      | true =>
        -- the run that the token begins does not reach the end of the front
        rcases exists_run Token.isSign front with ⟨run, rest, rfl, hrun, hrest⟩
        rcases rest with _ | ⟨u, rest⟩
        · rw [List.append_nil] at hfront h
          rcases run.eq_nil_or_concat with rfl | ⟨run, v, rfl⟩
          · rw [signlessHead_cons.1 h] at hsign
            cases hsign
          · have hv : v.isSign = false := by simpa [SignlessHead] using hfront
            rw [hrun v (by simp)] at hv
            cases hv
        · have hback : SignlessHead (u :: rest ++ back) := hrest
          unfold becomes
          rw [List.append_assoc, (takeWhile_run hrun hback).1, (takeWhile_run hrun hrest).1]
    have ih := inPlace_append back front (t :: before) hfront
    rw [List.cons_append, inPlace_cons, inPlace_cons, hbecomes, ih]
    simp

theorem becomes_local {t : Token} (ht : t.isSign = false) (near before before' : List Token) (u : Token)
    (behind : List Token) : becomes (near ++ t :: before) u behind = becomes (near ++ t :: before') u behind := by
  have hhead : (near ++ t :: before).head? = (near ++ t :: before').head? := by cases near <;> rfl
  have hnegated : isNegated (near ++ t :: before) = isNegated (near ++ t :: before') := by
    rcases exists_run Token.isSign near with ⟨run, rest, rfl, hrun, hrest⟩
    have hsignless : ∀ before, SignlessHead (rest ++ t :: before) := fun before => by
      cases rest with
      | nil => exact signlessHead_cons.2 ht
      | cons v rest => exact hrest
    unfold isNegated
    rw [List.append_assoc, List.append_assoc, (takeWhile_run hrun (hsignless _)).1, (takeWhile_run hrun (hsignless _)).1,
      (takeWhile_run hrun (hsignless _)).2, (takeWhile_run hrun (hsignless _)).2]
    cases rest <;> rfl
  unfold becomes runBecomes
  rw [hhead, hnegated]

/-- What stands in front of a token that is no sign does not matter behind it. -/
theorem inPlace_local {t : Token} (ht : t.isSign = false) (before before' : List Token) : ∀ (ts near : List Token),
    inPlace becomes (near ++ t :: before) ts = inPlace becomes (near ++ t :: before') ts
  | [], _ => rfl
  | u :: ts, near => by
    have ih := inPlace_local ht before before' ts (u :: near)
    rw [List.cons_append, List.cons_append] at ih
    rw [inPlace_cons, inPlace_cons, becomes_local ht near before before', ih]

/-- **A run of signs shows in one place**: in an operator of its own, or in the token behind it. -/
theorem settle_signs {front run : List Token} {t : Token} (back : List Token) (hfront : SignlessHead front.reverse)
    (hrun : ∀ u ∈ run, u.isSign = true) (hne : run ≠ []) (ht : t.isSign = false) :
    settle (front ++ (run ++ t :: back)) = settle front ++ (runBecomes front.reverse run ++
      (signed (counted run == .subtract && front.reverse.head?.any Token.handsOnSigns) t ++
        inPlace becomes [t] back)) := by
  have hback : SignlessHead (t :: back) := signlessHead_cons.2 ht
  have hlocal := inPlace_local ht (run.reverse ++ front.reverse) [] back []
  rw [settle, inPlace_append _ _ _ hfront, List.append_nil, inPlace_signs hfront hback hrun hne, inPlace_cons,
    becomes_of_not_isSign ht, isNegated_run hfront hrun]
  exact congrArg (fun rest => settle front ++ (_ ++ (_ ++ rest))) hlocal

/-! ## No minus is lost -/

/-- Two tokens that differ by one minus. -/
inductive Opposite : Token → Token → Prop where
  | plus : Opposite (.op .add) (.op .subtract)
  | minus : Opposite (.op .subtract) (.op .add)
  | number (value : Float) : Opposite (.number value) (.number (-value))
  | negated (value : Float) : Opposite (.number (-value)) (.number value)

theorem counted_append_cons (front back : List Token) :
    (counted (front ++ .op .add :: back) = .add ∧ counted (front ++ .op .subtract :: back) = .subtract) ∨
      counted (front ++ .op .add :: back) = .subtract ∧ counted (front ++ .op .subtract :: back) = .add := by
  have hplus : (front ++ .op .add :: back).countP Token.isMinus =
      front.countP Token.isMinus + back.countP Token.isMinus := by simp [Token.isMinus]
  have hminus : (front ++ .op .subtract :: back).countP Token.isMinus =
      front.countP Token.isMinus + back.countP Token.isMinus + 1 := by
    rw [List.countP_append, List.countP_cons_of_pos rfl, Nat.add_assoc]
  unfold counted
  rw [hplus, hminus]
  rcases Nat.mod_two_eq_zero_or_one (front.countP Token.isMinus + back.countP Token.isMinus) with h | h
  · exact .inl ⟨if_neg (by omega), if_pos (by omega)⟩
  · exact .inr ⟨if_pos h, if_neg (by omega)⟩

theorem endsInNumber_run {run : List Token} (hrun : ∀ t ∈ run, t.isSign = true) (hne : run ≠ []) (front : List Token) :
    endsInNumber (front ++ run) = false := by
  rcases run.eq_nil_or_concat with rfl | ⟨run, t, rfl⟩
  · exact absurd rfl hne
  have ht := hrun t (by simp)
  have hlast : endsInNumber (front ++ (run ++ [t])) = t.isNumber := by
    rw [← List.append_assoc]
    exact endsInNumber_append_cons (front ++ run) t []
  rw [List.concat_eq_append, hlast]
  cases t with
  | number value => cases ht
  | _ => rfl

/-- What stands behind a run of signs in an acceptable expression takes a sign. -/
theorem exists_behind_run {front run back : List Token} (hplain : Plain back) (hrun : ∀ t ∈ run, t.isSign = true)
    (hne : run ≠ []) (hback : SignlessHead back) (h : Acceptable (front ++ (run ++ back))) :
    ∃ t rest, back = t :: rest ∧ (t = .squareRoot ∨ ∃ value, t = .number value) := by
  rcases back with _ | ⟨t, rest⟩
  · have hlast := h.1
    rw [List.append_nil, endsInNumber_run hrun hne] at hlast
    cases hlast
  · refine ⟨t, rest, rfl, ?_⟩
    cases t with
    | number value => exact .inr ⟨value, rfl⟩
    | squareRoot => exact .inl rfl
    | op operator =>
      have hnumber := h.2 (front ++ run) operator rest (List.append_assoc ..).symm (hback _ rfl)
      rw [endsInNumber_run hrun hne] at hnumber
      cases hnumber
    | _ => cases hplain _ List.mem_cons_self

/-- Two runs that count differently become opposites, in themselves or in the token behind them. -/
theorem exists_opposite {plus minus : List Token} {t : Token}
    (hcounted : (counted plus = .add ∧ counted minus = .subtract) ∨ counted plus = .subtract ∧ counted minus = .add)
    (ht : t = .squareRoot ∨ ∃ value, t = .number value) (front before back : List Token) :
    ∃ pre u u' post,
      front ++ (runBecomes before plus ++
        (signed (counted plus == .subtract && before.head?.any Token.handsOnSigns) t ++ back)) = pre ++ u :: post ∧
      front ++ (runBecomes before minus ++
        (signed (counted minus == .subtract && before.head?.any Token.handsOnSigns) t ++ back)) = pre ++ u' :: post ∧
      Opposite u u' := by
  have hoperators : Opposite (.op (counted plus)) (.op (counted minus)) := by
    rcases hcounted with ⟨hplus, hminus⟩ | ⟨hplus, hminus⟩ <;> rw [hplus, hminus] <;> constructor
  rcases before with _ | ⟨w, before⟩
  · refine ⟨front ++ [.number 0], _, _, signed false t ++ back, ?_, ?_, hoperators⟩ <;> simp [runBecomes]
  rw [List.head?_cons, Option.any_some, runBecomes_cons, runBecomes_cons]
  cases w.handsOnSigns with
  | false => refine ⟨front, _, _, signed false t ++ back, ?_, ?_, hoperators⟩ <;> simp
  | true =>
    -- the runs themselves disappear, and one of the two negates the number behind it
    rcases ht with rfl | ⟨value, rfl⟩ <;> rcases hcounted with ⟨hplus, hminus⟩ | ⟨hplus, hminus⟩ <;>
      rw [hplus, hminus]
    · exact ⟨front, _, _, .op .root :: back, rfl, rfl, .number 2⟩
    · exact ⟨front, _, _, .op .root :: back, rfl, rfl, .negated 2⟩
    · exact ⟨front, _, _, back, rfl, rfl, .number value⟩
    · exact ⟨front, _, _, back, rfl, rfl, .negated value⟩

/-- **A minus shows in one token**: with a plus in its place that token is its opposite, and all others are the same. -/
theorem settle_minus {front back : List Token} (hplain : Plain (front ++ .op .subtract :: back))
    (h : Acceptable (front ++ .op .subtract :: back)) :
    ∃ pre t t' post, settle (front ++ .op .add :: back) = pre ++ t :: post ∧
      settle (front ++ .op .subtract :: back) = pre ++ t' :: post ∧ Opposite t t' := by
  rcases exists_run Token.isSign front.reverse with ⟨near, far, hfront, hnear, hfar⟩
  rcases exists_run Token.isSign back with ⟨run, rest, rfl, hrun, hrest⟩
  rw [List.reverse_eq_iff, List.reverse_append] at hfront
  have hfar : SignlessHead far.reverse.reverse := by rwa [List.reverse_reverse]
  have hsplit : ∀ sign : Operator, front ++ .op sign :: (run ++ rest) =
      far.reverse ++ ((near.reverse ++ .op sign :: run) ++ rest) := fun sign => by simp [hfront]
  have hsigns : ∀ sign : Operator, sign.isSign = true → ∀ t ∈ near.reverse ++ .op sign :: run, t.isSign = true := by
    intro sign hsign t ht
    rcases List.mem_append.1 ht with ht | ht
    · exact hnear t (List.mem_reverse.1 ht)
    · rcases List.mem_cons.1 ht with rfl | ht
      · exact hsign
      · exact hrun t ht
  rw [hsplit] at h hplain
  have hplainRest : Plain rest := fun t ht => hplain t (List.mem_append_right _ (List.mem_append_right _ ht))
  rcases exists_behind_run hplainRest (hsigns .subtract rfl) (by simp) hrest h with ⟨t, rest, rfl, ht⟩
  rw [hsplit, hsplit, settle_signs rest hfar (hsigns .add rfl) (by simp) (hrest t rfl),
    settle_signs rest hfar (hsigns .subtract rfl) (by simp) (hrest t rfl)]
  exact exists_opposite (counted_append_cons near.reverse run) ht _ _ _

/-- **Which expressions have a canonical form, and which.**  Without brackets and references an expression has one
exactly if it ends with a number and has one in front of every operator that is no sign, and else it is a syntax error.
The form is what the rule gives, and every minus shows in just one of its tokens. -/
theorem canonical_settled {ts : List Token} (hflat : Group.Bracketless ts) (hanswer : .answer ∉ ts) :
    ((∃ out, canonical ts = .ok out) ↔ Acceptable ts) ∧
    (∀ f, canonical ts = .error f → f.kind = .syntaxError) ∧
    (∀ out, canonical ts = .ok out → out = settle ts) ∧
    ∀ front back out, ts = front ++ .op .subtract :: back → canonical ts = .ok out →
      ∃ pre t t' post, canonical (front ++ .op .add :: back) = .ok (pre ++ t :: post) ∧ out = pre ++ t' :: post ∧
        Opposite t t' := by
  have hplain := plain_of_bracketless hflat hanswer
  refine ⟨⟨?_, fun h => ⟨_, (canonical_eq_ok_iff_acceptable hplain).2 ⟨h, rfl⟩⟩⟩, fun f => kind_of_canonical,
    fun out h => ((canonical_eq_ok_iff_acceptable hplain).1 h).2, ?_⟩
  · rintro ⟨out, hout⟩
    exact ((canonical_eq_ok_iff_acceptable hplain).1 hout).1
  · rintro front back out rfl hout
    rcases (canonical_eq_ok_iff_acceptable hplain).1 hout with ⟨hacceptable, rfl⟩
    rcases settle_minus hplain hacceptable with ⟨pre, t, t', post, hplus, hminus, hopposite⟩
    have hplainPlus : Plain (front ++ .op .add :: back) := by
      intro u hu
      rcases List.mem_append.1 hu with hu | hu
      · exact hplain u (List.mem_append_left _ hu)
      · rcases List.mem_cons.1 hu with rfl | hu
        · rfl
        · exact hplain u (List.mem_append_right _ (List.mem_cons_of_mem _ hu))
    have hacceptablePlus : Acceptable (front ++ .op .add :: back) := by
      rwa [acceptable_iff, ← accepted_sign .subtract rfl back front, ← acceptable_iff]
    exact ⟨pre, t, t', post, (canonical_eq_ok_iff_acceptable hplainPlus).2 ⟨hacceptablePlus, hplus.symm⟩, hminus,
      hopposite⟩

/-- A minus in front of everything, two that cancel out, and one that goes through a root prefix into its degree. -/
theorem canonical_settled_signs :
    let ts : List Token := [.op .subtract, .number 3, .op .subtract, .op .add, .op .subtract, .number 4, .op .divide,
      .op .subtract, .squareRoot, .number 9]
    Group.Bracketless ts ∧ .answer ∉ ts ∧ canonical ts = .ok (settle ts) ∧
      settle ts = [.number 0, .op .subtract, .number 3, .op .add, .number 4, .op .divide, .number (-2), .op .root,
        .number 9] := by
  intro ts
  have hflat : Group.Bracketless ts := by simp [ts, Group.Bracketless, Token.isBracket]
  have hanswer : .answer ∉ ts := by simp [ts]
  have hacceptable : Acceptable ts := (acceptable_iff ts).2 (by decide)
  rcases (canonical_settled hflat hanswer).1.2 hacceptable with ⟨out, hout⟩
  have hsettle := (canonical_settled hflat hanswer).2.2.1 out hout
  exact ⟨hflat, hanswer, hsettle ▸ hout, by decide⟩

end Flat
end Reckoner

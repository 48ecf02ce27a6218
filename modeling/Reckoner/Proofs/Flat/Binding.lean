import Reckoner.Token.Range
import Reckoner.Proofs.Flat.Settled
import Reckoner.Proofs.Outcome

/-!
# Flat.Binding — the last answer bound before the canonical form is taken, or after

Every token of a canonical form has a place in the expression that it comes from (`placed`).  Before it is bound a
reference takes no minus: one that is handed on to it is dropped, and a number bound later knows nothing of it
(`settle_bindAnswer`).  No other token depends on when the answer is bound, and neither does the last pass, which looks
at operators only (`check_congr`).  So the two orders differ in the sign of just these references
(`canonical_bindAnswer`).
-/
namespace Reckoner
namespace Flat

open Token (bind bindAnswer)

/-- A token of an expression, with what stands in front of it, nearest first. -/
structure Place where
  before : List Token
  token : Token

/-- **Where a minus gets lost**: it is handed on to a reference. -/
def Place.losesMinus : Place → Bool
  | ⟨before, .answer⟩ => isNegated before
  | _ => false

/-- The tokens of a canonical form, each with the place it comes from. -/
def placed (ts : List Token) : List (Place × Token) :=
  inPlace (fun before t behind => (becomes before t behind).map (⟨before, t⟩, ·)) [] ts

/-- What stands where something was placed, if the answer was bound at the beginning. -/
def boundEarly (answer : Float) (p : Place × Token) : Token :=
  if p.1.losesMinus then .number (-answer) else p.2.bind answer

theorem map_snd_placed (ts : List Token) : (placed ts).map Prod.snd = settle ts := by
  have hsnd : ∀ (place : Place) (us : List Token), (us.map (place, ·)).map Prod.snd = us := fun place us => by
    rw [List.map_map]
    exact List.map_id us
  rw [placed, map_inPlace]
  simp only [hsnd]
  rfl

theorem exists_of_mem_placed {p : Place × Token} {ts : List Token} (h : p ∈ placed ts) :
    ∃ front back, ts = front ++ p.1.token :: back ∧ p.1.before = front.reverse ∧
      p.2 ∈ becomes p.1.before p.1.token back := by
  obtain ⟨front, t, back, hts, hpiece⟩ := mem_inPlace_iff.1 h
  obtain ⟨u, hu, rfl⟩ := List.mem_map.1 hpiece
  exact ⟨front, back, hts, List.append_nil _, hu⟩

theorem eq_answer_of_losesMinus {p : Place × Token} {ts : List Token} (h : p ∈ placed ts)
    (hloses : p.1.losesMinus = true) : p.2 = .answer := by
  obtain ⟨-, back, -, -, hbecomes⟩ := exists_of_mem_placed h
  obtain ⟨⟨before, t⟩, u⟩ := p
  cases t with
  | answer => exact List.mem_singleton.1 hbecomes
  | _ => cases hloses

theorem answer_mem_placed (front back : List Token) :
    (⟨front.reverse, .answer⟩, .answer) ∈ placed (front ++ .answer :: back) := by
  refine mem_inPlace_iff.2 ⟨front, .answer, back, rfl, ?_⟩
  rw [List.append_nil]
  exact List.mem_singleton.2 rfl

/-! ## What a token becomes, bound -/

section Bound

variable (answer : Float)

theorem isSign_bind (t : Token) : (t.bind answer).isSign = t.isSign := by cases t <;> rfl

theorem isMinus_bind (t : Token) : (t.bind answer).isMinus = t.isMinus := by cases t <;> rfl

theorem handsOnSigns_bind (t : Token) : (t.bind answer).handsOnSigns = t.handsOnSigns := by cases t <;> rfl

theorem operator?_bind (t : Token) : (t.bind answer).operator? = t.operator? := by cases t <;> rfl

theorem bind_of_isSign {t : Token} (h : t.isSign = true) : t.bind answer = t := by
  cases t with
  | answer => cases h
  | _ => rfl

theorem isSign_comp_bind : Token.isSign ∘ bind answer = Token.isSign := funext (isSign_bind answer)

theorem bindAnswer_cons (t : Token) (ts : List Token) :
    bindAnswer answer (t :: ts) = t.bind answer :: bindAnswer answer ts := rfl

theorem head?_any_bind {p : Token → Bool} (hp : ∀ t, p (t.bind answer) = p t) (ts : List Token) :
    (bindAnswer answer ts).head?.any p = ts.head?.any p := by
  cases ts with
  | nil => rfl
  | cons t ts => exact hp t

theorem takeWhile_isSign_bindAnswer (ts : List Token) :
    (bindAnswer answer ts).takeWhile Token.isSign = bindAnswer answer (ts.takeWhile Token.isSign) := by
  rw [bindAnswer, List.takeWhile_map, isSign_comp_bind]
  rfl

theorem dropWhile_isSign_bindAnswer (ts : List Token) :
    (bindAnswer answer ts).dropWhile Token.isSign = bindAnswer answer (ts.dropWhile Token.isSign) := by
  rw [bindAnswer, List.dropWhile_map, isSign_comp_bind]
  rfl

theorem counted_bindAnswer (run : List Token) : counted (bindAnswer answer run) = counted run := by
  have hminus : Token.isMinus ∘ bind answer = Token.isMinus := funext (isMinus_bind answer)
  rw [counted, counted, bindAnswer, List.countP_map, hminus]

theorem isNegated_bindAnswer (before : List Token) : isNegated (bindAnswer answer before) = isNegated before := by
  rw [isNegated, isNegated, takeWhile_isSign_bindAnswer, dropWhile_isSign_bindAnswer, counted_bindAnswer,
    head?_any_bind answer (handsOnSigns_bind answer)]

theorem runBecomes_bindAnswer (before run : List Token) :
    runBecomes (bindAnswer answer before) (bindAnswer answer run) = runBecomes before run := by
  cases before with
  | nil =>
    have hnil : ∀ run, runBecomes [] run = [.number 0, .op (counted run)] := fun _ => rfl
    exact (hnil _).trans (by rw [counted_bindAnswer, hnil])
  | cons t before =>
    rw [bindAnswer_cons, runBecomes_cons, runBecomes_cons, handsOnSigns_bind, counted_bindAnswer]

theorem bindAnswer_runBecomes (before run : List Token) :
    bindAnswer answer (runBecomes before run) = runBecomes before run := by
  cases before with
  | nil => rfl
  | cons t before =>
    rw [runBecomes_cons]
    split <;> rfl

/-- **What a bound token becomes** is what the token becomes, bound, unless a minus gets lost there. -/
theorem becomes_bindAnswer (before : List Token) (t : Token) (behind : List Token) :
    becomes (bindAnswer answer before) (t.bind answer) (bindAnswer answer behind) =
      (becomes before t behind).map fun u => boundEarly answer (⟨before, t⟩, u) := by
  by_cases ht : t.isSign = true
  · have hself : ∀ u, boundEarly answer (⟨before, t⟩, u) = u.bind answer := fun u => by
      cases t with
      | answer => cases ht
      | _ => rfl
    have hrun : t :: bindAnswer answer (behind.takeWhile Token.isSign) =
        bindAnswer answer (t :: behind.takeWhile Token.isSign) := by
      rw [bindAnswer_cons, bind_of_isSign answer ht]
    simp only [hself]
    rw [bind_of_isSign answer ht, becomes, becomes, if_pos ht, if_pos ht, head?_any_bind answer (isSign_bind answer),
      takeWhile_isSign_bindAnswer, hrun, runBecomes_bindAnswer]
    split
    · rfl
    · exact (bindAnswer_runBecomes answer before _).symm
  · rw [Bool.not_eq_true] at ht
    rw [becomes_of_not_isSign ((isSign_bind answer t).trans ht), becomes_of_not_isSign ht, isNegated_bindAnswer]
    cases t with
    | answer =>
      have hplace : (Place.mk before .answer).losesMinus = isNegated before := rfl
      simp only [boundEarly, hplace]
      cases isNegated before <;> rfl
    | _ => rfl

theorem settle_bindAnswer (ts : List Token) :
    settle (bindAnswer answer ts) = (placed ts).map (boundEarly answer) := by
  have hbefore : bindAnswer answer [] = [] := rfl
  have hpieces : (fun before t behind =>
      becomes (bindAnswer answer before) (t.bind answer) (bindAnswer answer behind)) =
        fun before t behind => ((becomes before t behind).map (⟨before, t⟩, ·)).map (boundEarly answer) := by
    funext before t behind
    rw [List.map_map]
    exact becomes_bindAnswer answer before t behind
  rw [placed, map_inPlace, ← hpieces]
  exact inPlace_map (bind answer) ts []

end Bound

/-! ## The last pass -/

theorem clash?_cons_cons (t u : Token) (rest : List Token) :
    clash? (t :: u :: rest) = ((t.operator?.bind fun first => u.operator?.map (first, ·)).or (clash? (u :: rest))) := by
  cases t <;> cases u <;> rfl

theorem clash?_congr : ∀ {ts us : List Token}, ts.map Token.operator? = us.map Token.operator? → clash? ts = clash? us
  | [], [], _ => rfl
  | [], _ :: _, h | _ :: _, [], h | [_], _ :: _ :: _, h | _ :: _ :: _, [_], h => by simp at h
  | [t], [u], _ => by cases t <;> cases u <;> rfl
  | t :: t' :: ts, u :: u' :: us, h => by
    rw [List.map_cons, List.map_cons, List.map_cons, List.map_cons, List.cons.injEq, List.cons.injEq] at h
    have ih := @clash?_congr (t' :: ts) (u' :: us) (by rw [List.map_cons, List.map_cons, h.2.1, h.2.2])
    rw [clash?_cons_cons, clash?_cons_cons, h.1, h.2.1, ih]

/-- **The last pass looks at operators only**: two lists with the same ones in the same places are refused for the same
reason, or both are kept. -/
theorem check_congr {ts us : List Token} (h : ts.map Token.operator? = us.map Token.operator?) :
    (∃ f, check ts = .error f ∧ check us = .error f) ∨ (check ts = .ok ts ∧ check us = .ok us) := by
  have hlast : ts.getLast?.map Token.operator? = us.getLast?.map Token.operator? := by
    rw [← List.getLast?_map, ← List.getLast?_map, h]
  unfold check
  rw [clash?_congr h]
  cases clash? us with
  | some pair => exact .inl ⟨_, rfl, rfl⟩
  | none =>
    cases ht : ts.getLast? with
    | none =>
      cases hu : us.getLast? with
      | none => exact .inl ⟨_, rfl, rfl⟩
      | some u => simp [ht, hu] at hlast
    | some t =>
      cases hu : us.getLast? with
      | none => simp [ht, hu] at hlast
      | some u =>
        rw [ht, hu, Option.map_some, Option.map_some, Option.some.injEq] at hlast
        cases t <;> cases u <;> first | exact .inr ⟨rfl, rfl⟩ | (cases hlast; exact .inl ⟨_, rfl, rfl⟩) | cases hlast

/-! ## Both orders -/

theorem map_operator?_boundEarly (ts : List Token) (answer : Float) :
    ((placed ts).map (boundEarly answer)).map Token.operator? = (settle ts).map Token.operator? := by
  rw [← map_snd_placed, List.map_map, List.map_map]
  refine List.map_congr_left fun p hp => ?_
  by_cases hloses : p.1.losesMinus = true
  · have hanswer := eq_answer_of_losesMinus hp hloses
    simp [boundEarly, hloses, hanswer, Token.operator?]
  · simp [boundEarly, hloses, operator?_bind]

theorem canonical_bindAnswer_cases (ts : List Token) (answer : Float) :
    (∃ f, canonical ts = .error f ∧ canonical (bindAnswer answer ts) = .error f) ∨
      (canonical ts = .ok ((placed ts).map Prod.snd) ∧
        canonical (bindAnswer answer ts) = .ok ((placed ts).map (boundEarly answer))) := by
  have hbound : (bindAnswer answer ts).head? = ts.head?.map (bind answer) := List.head?_map
  by_cases hled : ∃ operator, ts.head? = some (.op operator) ∧ operator.isSign = false
  · obtain ⟨operator, hhead, hsign⟩ := hled
    obtain ⟨rest, rfl⟩ := List.head?_eq_some_iff.1 hhead
    exact .inl ⟨_, canonical_of_not_isSign hsign rest, canonical_of_not_isSign hsign (bindAnswer answer rest)⟩
  · have hhead : ∀ operator, ts.head? = some (.op operator) → operator.isSign = true := fun operator ho => by
      simpa using fun hsign => hled ⟨operator, ho, hsign⟩
    have hheadBound : ∀ operator, (bindAnswer answer ts).head? = some (.op operator) → operator.isSign = true := by
      intro operator ho
      obtain ⟨t, ht, hop⟩ := Option.map_eq_some_iff.1 (hbound.symm.trans ho)
      cases t with
      | op operator' =>
        cases hop
        exact hhead operator ht
      | _ => cases hop
    rw [canonical_eq_check hhead, canonical_eq_check hheadBound, settle_bindAnswer, map_snd_placed]
    rcases check_congr (map_operator?_boundEarly ts answer) with ⟨f, hearly, hlate⟩ | ⟨hearly, hlate⟩
    · exact .inl ⟨f, hlate, hearly⟩
    · exact .inr ⟨hlate, hearly⟩

/-- **Two lists that differ where a minus got lost**, and nowhere else: there the first holds the opposite of the answer
and the second the answer. -/
def DifferAt (answer : Float) (places : List Place) (early late : List Token) : Prop :=
  early.length = places.length ∧ late.length = places.length ∧ ∀ (i : Nat) (place : Place), places[i]? = some place →
    if place.losesMinus then early[i]? = some (.number (-answer)) ∧ late[i]? = some (.number answer)
    else early[i]? = late[i]?

theorem differAt_placed (ts : List Token) (answer : Float) :
    DifferAt answer ((placed ts).map Prod.fst) ((placed ts).map (boundEarly answer))
      (bindAnswer answer ((placed ts).map Prod.snd)) := by
  refine ⟨by simp, by simp, fun i place hplace => ?_⟩
  rw [List.getElem?_map, Option.map_eq_some_iff] at hplace
  obtain ⟨p, hp, rfl⟩ := hplace
  have hmem : p ∈ placed ts := List.mem_of_getElem? hp
  rw [bindAnswer, List.getElem?_map, List.getElem?_map, List.getElem?_map, hp, Option.map_some, Option.map_some,
    Option.map_some]
  split
  · rename_i hloses
    rw [boundEarly, if_pos hloses, eq_answer_of_losesMinus hmem hloses]
    exact ⟨rfl, rfl⟩
  · rename_i hkept
    rw [boundEarly, if_neg hkept]

theorem boundEarly_eq_bind_iff (ts : List Token) :
    (∀ answer, (placed ts).map (boundEarly answer) = bindAnswer answer ((placed ts).map Prod.snd)) ↔
      ∀ front back, ts = front ++ .answer :: back → isNegated front.reverse = false := by
  constructor
  · rintro h front back rfl
    cases hnegated : isNegated front.reverse with
    | false => rfl
    | true =>
      -- any answer that is not its own opposite tells the two lists apart
      have hbound := h 1
      rw [bindAnswer, List.map_map, List.map_inj_left] at hbound
      have hone : boundEarly 1 (⟨front.reverse, .answer⟩, .answer) = .number 1 :=
        hbound _ (answer_mem_placed front back)
      have hplace : (Place.mk front.reverse .answer).losesMinus = true := hnegated
      rw [boundEarly, if_pos hplace] at hone
      exact absurd hone (by decide +kernel)
  · intro h answer
    rw [bindAnswer, List.map_map]
    refine List.map_congr_left fun p hp => if_neg fun hloses => ?_
    obtain ⟨front, back, hts, hbefore, -⟩ := exists_of_mem_placed hp
    obtain ⟨⟨before, t⟩, u⟩ := p
    cases t with
    | answer =>
      have hnegated : isNegated before = true := hloses
      obtain rfl : before = front.reverse := hbefore
      rw [h front back hts] at hnegated
      cases hnegated
    | _ => cases hloses

/-- **When binding may be delayed.**  Before the canonical form is taken or after, binding the answer fails alike, or
gives lists that differ just where a minus was handed on to a reference: bound after, it is lost.  So of an expression
with a canonical form the order matters to no answer exactly if no reference in it is handed a minus. -/
theorem canonical_bindAnswer (ts : List Token) (answer : Float) :
    Outcome.Alike (DifferAt answer ((placed ts).map Prod.fst)) (canonical (bindAnswer answer ts))
      ((canonical ts).map (bindAnswer answer)) ∧
    ∀ out, canonical ts = .ok out → out = (placed ts).map Prod.snd ∧
      ((∀ any, canonical (bindAnswer any ts) = .ok (bindAnswer any out)) ↔
        ∀ front back, ts = front ++ .answer :: back → isNegated front.reverse = false) := by
  constructor
  · rcases canonical_bindAnswer_cases ts answer with ⟨f, hlate, hearly⟩ | ⟨hlate, hearly⟩ <;> rw [hlate, hearly]
    · exact .error f
    · exact .ok (differAt_placed ts answer)
  · intro out hout
    have hboth : ∀ any, out = (placed ts).map Prod.snd ∧
        canonical (bindAnswer any ts) = .ok ((placed ts).map (boundEarly any)) := by
      intro any
      rcases canonical_bindAnswer_cases ts any with ⟨f, hlate, -⟩ | ⟨hlate, hearly⟩ <;> rw [hout] at hlate <;>
        cases hlate
      exact ⟨rfl, hearly⟩
    obtain rfl := (hboth answer).1
    refine ⟨rfl, ?_⟩
    simp only [(hboth _).2, Except.ok.injEq]
    exact boundEarly_eq_bind_iff ts

/-- `2 * -a - a` with three for the answer: the first reference is handed its minus, the second is not. -/
theorem canonical_bindAnswer_product :
    let ts : List Token := [.number 2, .op .multiply, .op .subtract, .answer, .op .subtract, .answer]
    let out : List Token := [.number 2, .op .multiply, .answer, .op .subtract, .answer]
    canonical ts = .ok out ∧
      canonical (bindAnswer 3 ts) = .ok [.number 2, .op .multiply, .number (-3), .op .subtract, .number 3] ∧
      Outcome.Alike (DifferAt 3 ((placed ts).map Prod.fst)) (canonical (bindAnswer 3 ts))
        ((canonical ts).map (bindAnswer 3)) ∧
      out = (placed ts).map Prod.snd ∧ ¬∀ any, canonical (bindAnswer any ts) = .ok (bindAnswer any out) := by
  intro ts out
  have hout : canonical ts = .ok out := by decide +kernel
  have hbound := canonical_bindAnswer ts 3
  refine ⟨hout, by decide +kernel, hbound.1, (hbound.2 out hout).1, fun hall => ?_⟩
  have hkept := (hbound.2 out hout).2.1 hall [.number 2, .op .multiply, .op .subtract] [.op .subtract, .answer] rfl
  exact absurd hkept (by decide)

end Flat
end Reckoner

import Reckoner.Proofs.Precedence

/-!
# Conserved — tokens that only steps use up

On the way to a value signs are merged, zeros and degrees come in and brackets go, but a token that is neither a sign
nor a finite number is only ever used up by a step: as its operator or as one of its operands.  So if an evaluation
comes to a value and everything it passed is finite, such tokens of the list are exactly those that the steps used
(`Group.usesUp_traced`).
-/
namespace Reckoner

/-- **A kind of tokens that nothing but a step makes or loses**: no sign and no finite number is of it, the sign of a
number makes no difference, and the root prefix is of it if the root is. -/
structure Token.Conserved (p : Token → Bool) : Prop where
  sign : ∀ operator : Operator, operator.isSign = true → p (.op operator) = false
  finite : ∀ x : Float, x.isFinite = true → p (.number x) = false
  neg : ∀ x : Float, p (.number (-x)) = p (.number x)
  root : p .squareRoot = p (.op .root)
  opening : p .opening = false
  closing : p .closing = false

/-- The tokens that a step uses up. -/
def Flat.Step.tokens (s : Flat.Step) : List Token := [.number s.x, .op s.operator, .number s.y]

def Event.tokens : Event → List Token
  | step s => s.tokens
  | value _ => []

namespace Traced

variable {α β : Type} {p : Token → Bool}

/-- **What has been used up once a value is there**, if everything passed on the way is finite. -/
def UsesUp (p : Token → Bool) (n : Nat) (x : Traced α) : Prop :=
  ∀ a, x.outcome = .ok a → (∀ e ∈ x.events, e.isFinite = true) → (x.events.flatMap Event.tokens).countP p = n

theorem usesUp_error (n : Nat) (events : List Event) (f : Failure) : UsesUp (α := α) p n ⟨events, .error f⟩ :=
  fun _ h => (by cases h)

theorem usesUp_bind {n : Nat} {x : Traced α} {k : α → Traced β}
    (h : ∀ a, x.outcome = .ok a → (∀ e ∈ x.events, e.isFinite = true) →
      ∃ m, (k a).UsesUp p m ∧ (x.events.flatMap Event.tokens).countP p + m = n) : (x.bind k).UsesUp p n := by
  intro b hb hfinite
  unfold bind at hb hfinite ⊢
  cases houtcome : x.outcome with
  | error f =>
    rw [houtcome] at hb
    cases hb
  | ok a =>
    simp only [houtcome] at hb hfinite ⊢
    rw [List.forall_mem_append] at hfinite
    obtain ⟨m, huses, hsum⟩ := h a houtcome hfinite.1
    rw [List.flatMap_append, List.countP_append, huses b hb hfinite.2, hsum]

end Traced

namespace Flat

variable {p : Token → Bool} (hp : Token.Conserved p)
include hp

/-! ## The canonical form -/

theorem countP_spellRoots (ts : List Token) : (spellRoots ts).countP p = ts.countP p := by
  have hspelt : ∀ t, (spelt t).countP p = [t].countP p := by
    intro t
    cases t with
    | squareRoot => simp [spelt, hp.root, hp.finite 2 (by decide +kernel)]
    | _ => rfl
  induction ts with
  | nil => rfl
  | cons t rest ih =>
    have hcons : spellRoots (t :: rest) = spelt t ++ spellRoots rest := rfl
    rw [hcons, List.countP_append, hspelt, ih, ← List.countP_append, List.singleton_append]

theorem countP_op_cons {operator : Operator} (hsign : operator.isSign = true) (ts : List Token) :
    (.op operator :: ts).countP p = ts.countP p :=
  List.countP_cons_of_neg (by rw [hp.sign operator hsign]; exact Bool.false_ne_true)

theorem countP_consSign {sign : Operator} (hsign : sign.isSign = true) (ts : List Token) :
    (consSign sign ts).countP p = ts.countP p := by
  unfold consSign
  split
  · split
    · rename_i hnext
      rw [countP_op_cons hp (isSign_signProduct _ _), countP_op_cons hp hnext]
    · exact countP_op_cons hp hsign _
  · exact countP_op_cons hp hsign _

theorem countP_mergeSigns (ts : List Token) : (mergeSigns ts).countP p = ts.countP p := by
  fun_induction mergeSigns ts with
  | case1 => rfl
  | case2 operator rest hsign ih => rw [countP_consSign hp hsign, countP_op_cons hp hsign, ih]
  | case3 operator rest hsign ih => rw [List.countP_cons, List.countP_cons, ih]
  | case4 t rest hne ih => rw [List.countP_cons, List.countP_cons, ih]

theorem countP_supplyZero {ts led : List Token} (h : supplyZero ts = .ok led) : led.countP p = ts.countP p := by
  unfold supplyZero at h
  split at h
  · split at h
    · cases h
      exact List.countP_cons_of_neg (by rw [hp.finite 0 (by decide +kernel)]; exact Bool.false_ne_true)
    · cases h
  · cases h
    rfl

theorem countP_attachSigns (kept : Bool) (ts : List Token) : (attachSigns kept ts).countP p = ts.countP p := by
  fun_induction attachSigns kept ts with
  | case1 => rfl
  | case2 rest ih => rw [ih, countP_op_cons hp rfl]
  | case3 value rest ih => rw [countP_op_cons hp rfl, List.countP_cons, List.countP_cons, ih, hp.neg]
  | case4 rest hne ih => rw [ih, countP_op_cons hp rfl]
  | case5 kept t rest _ _ _ ih => rw [List.countP_cons, List.countP_cons, ih]

theorem countP_canonical {ts out : List Token} (h : canonical ts = .ok out) : out.countP p = ts.countP p := by
  obtain ⟨t, rest, hled, ht, rfl, _⟩ := canonical_eq_ok_iff.1 h
  have hcons : attachSigns false (t :: rest) = t :: attachSigns false rest := attachSigns_cons ht false rest
  rw [← hcons, countP_attachSigns hp, countP_supplyZero hp hled, countP_mergeSigns hp, countP_spellRoots hp]

/-! ## Folding -/

theorem countP_step {ts shorter : List Token} {s : Step} (hstep : nextStep ts = .ok s) (hrun : s.run ts = .ok shorter)
    (hfinite : s.result.isFinite = true) : s.tokens.countP p + shorter.countP p = ts.countP p := by
  obtain ⟨front, back, rfl, hposition⟩ := exists_append_of_nextStep hstep
  obtain ⟨position, operator, x, y⟩ := s
  cases hposition
  rw [run_append] at hrun
  cases hrun
  have hresult : p (.number (operator.apply x y)) = false := hp.finite _ hfinite
  simp only [Step.tokens, List.countP_append, List.countP_cons, List.countP_nil, hresult, Bool.false_eq_true, if_false]
  omega

theorem usesUp_tracedFinal {ts : List Token} (hlength : ts.length ≤ 1) :
    (tracedFinal ts).UsesUp p (ts.countP p) := by
  intro v hv hfinite
  unfold tracedFinal at hv hfinite ⊢
  split at hv
  · rename_i value rest
    obtain rfl : rest = [] := List.eq_nil_of_length_eq_zero (by simpa using hlength)
    have hvalue : p (.number value) = false := hp.finite _ (hfinite (.value value) List.mem_cons_self)
    rw [List.countP_singleton, hvalue]
    rfl
  · rename_i hne
    unfold final at hv
    split at hv <;> first | exact absurd rfl (hne _ _) | cases hv

/-- **Folding uses up what the list has.** -/
theorem usesUp_tracedValue (ts : List Token) : (tracedValue ts).UsesUp p (ts.countP p) := by
  induction ts using tracedValue.induct with
  | case1 ts hlength =>
    rw [tracedValue_of_length_le_one hlength]
    exact usesUp_tracedFinal hp hlength
  | case2 ts hlength f hf =>
    rw [tracedValue_of_one_lt_length (by omega), Traced.bind, hf]
    exact Traced.usesUp_error _ _ f
  | case3 ts hlength shorter hshorter ih =>
    rw [tracedValue_of_one_lt_length (by omega)]
    refine Traced.usesUp_bind fun a ha hfinite => ?_
    rw [hshorter] at ha
    cases ha
    refine ⟨_, ih, ?_⟩
    unfold tracedAdvance at hshorter hfinite ⊢
    cases hstep : nextStep ts with
    | error f =>
      rw [hstep] at hshorter
      cases hshorter
    | ok s =>
      rw [hstep] at hshorter hfinite
      exact countP_step hp hstep hshorter (hfinite (.step s) List.mem_cons_self)

theorem usesUp_tracedEvaluate (ts : List Token) : (tracedEvaluate ts).UsesUp p (ts.countP p) := by
  unfold tracedEvaluate
  refine Traced.usesUp_bind fun out hout _ => ⟨_, usesUp_tracedValue hp out, ?_⟩
  rw [countP_canonical hp hout]
  exact Nat.zero_add _

end Flat

namespace Group

variable {p : Token → Bool}

/-- **Evaluation uses up what the list has**: a token that is neither a sign nor a finite number is used by a step before
there is a value, and every such token that a step uses was there. -/
theorem usesUp_traced (hp : Token.Conserved p) (ts : List Token) : (traced ts).UsesUp p (ts.countP p) := by
  induction ts using resolve_induction with
  | none ts hts =>
    rw [traced_of_none (innermost_none hts)]
    exact Flat.usesUp_tracedEvaluate hp ts
  | group pre inside post hpre hinside ih =>
    rw [traced_group post hpre hinside]
    refine Traced.usesUp_bind fun value hvalue hfinite => ⟨_, ih value, ?_⟩
    -- the value of the group was passed, so it is finite
    have hlands : (Flat.tracedEvaluate inside).Lands := Traced.lands_bind Flat.tracedValue_lands
    have hpassed := hfinite (.value value) (List.mem_of_getLast? (hlands value hvalue))
    have hnumber : p (.number value) = false := hp.finite value hpassed
    rw [Flat.usesUp_tracedEvaluate hp inside value hvalue hfinite]
    simp only [List.countP_append, List.countP_cons, hnumber, hp.opening, hp.closing, Bool.false_eq_true, if_false]
    omega
  | unopened pre post hpre =>
    rw [traced_of_error (innermost_unopened hpre)]
    exact Traced.usesUp_error _ _ _
  | unclosed pre post hpre hpost =>
    rw [traced_of_error (innermost_unclosed hpre hpost)]
    exact Traced.usesUp_error _ _ _

end Group
end Reckoner

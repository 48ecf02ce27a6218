import Reckoner.Proofs.Flat.Passes

/-!
# Flat.Tree — the tree of an expression

Of all trees that can be read off the same numbers and operators, just one binds by rank and equal ranks to the left
(`Tree.eq_of_tokens_eq`).  The three passes build it, and its value is what folding comes to (`value_chain`).
-/
namespace Reckoner
namespace Flat

inductive Tree where
  | number (value : Float)
  | node (operator : Operator) (left right : Tree)

namespace Tree

def tokens : Tree → List Token
  | number value => [.number value]
  | node operator left right => left.tokens ++ .op operator :: right.tokens

def value : Tree → Float
  | number value => value
  | node operator left right => operator.apply left.value right.value

/-- What joins the whole, if anything does, binds at least so tightly. -/
def Binds (level : Nat) : Tree → Prop
  | number _ => True
  | node operator _ _ => level ≤ operator.rank.level

/-- **Operators bind by their rank, and those of equal rank to the left.** -/
def Ordered : Tree → Prop
  | number _ => True
  | node operator left right =>
    (left.Ordered ∧ left.Binds operator.rank.level) ∧ right.Ordered ∧ right.Binds (operator.rank.level + 1)

/-- A tree that may stand below an operator of this level. -/
def Fits (level : Nat) (t : Tree) : Prop := t.Ordered ∧ t.Binds level

theorem Fits.mono {level level' : Nat} {t : Tree} (h : t.Fits level') (hle : level ≤ level') : t.Fits level := by
  cases t with
  | number _ => exact h
  | node operator left right => exact ⟨h.1, Nat.le_trans hle h.2⟩

/-! ## One tree -/

theorem level_le_of_mem {operator : Operator} {t : Tree} : ∀ {level : Nat}, t.Fits level →
    .op operator ∈ t.tokens → level ≤ operator.rank.level := by
  induction t with
  | number value => simp [tokens]
  | node top left right ihl ihr =>
    rintro level ⟨⟨hleft, hright⟩, hbinds⟩ hmem
    rw [tokens, List.mem_append, List.mem_cons] at hmem
    rcases hmem with hmem | htop | hmem
    · exact ihl (Fits.mono hleft hbinds) hmem
    · cases htop
      exact hbinds
    · exact ihr (Fits.mono hright (Nat.le_succ_of_le hbinds)) hmem

/-- The whole is joined at the last of the operators that bind least, so not earlier in one tree than in another. -/
theorem length_left_le {operator operator' : Operator} {left right left' right' : Tree}
    (h : (node operator left right).Ordered) (h' : (node operator' left' right').Ordered)
    (htokens : (node operator left right).tokens = (node operator' left' right').tokens) :
    left'.tokens.length ≤ left.tokens.length := by
  rcases h with ⟨-, hright⟩
  rcases h' with ⟨hleft', -⟩
  rw [tokens, tokens] at htokens
  rcases List.append_eq_append_iff.1 htokens with ⟨middle, hleft, hmiddle⟩ | ⟨middle, hleft, -⟩
  · rcases middle with _ | ⟨t, middle⟩
    · simp [hleft]
    · -- each of the two operators would stand in a part that the other one joins
      rw [List.cons_append, List.cons.injEq] at hmiddle
      rcases hmiddle with ⟨rfl, hmiddle⟩
      have hmem : .op operator ∈ left'.tokens := by simp [hleft]
      have hmem' : .op operator' ∈ right.tokens := by simp [hmiddle]
      have hle := level_le_of_mem hleft' hmem
      have hlt := level_le_of_mem hright hmem'
      omega
  · simp [hleft]

/-- **Tokens have one ordered tree at most.** -/
theorem eq_of_tokens_eq : ∀ {t t' : Tree}, t.Ordered → t'.Ordered → t.tokens = t'.tokens → t = t'
  | number value, number value', _, _, htokens => by
    cases htokens
    rfl
  | number value, node operator left right, _, _, htokens => by
    have hmem : .op operator ∈ (node operator left right).tokens := by simp [tokens]
    rw [← htokens] at hmem
    simp [tokens] at hmem
  | node operator left right, number value, _, _, htokens => by
    have hmem : .op operator ∈ (node operator left right).tokens := by simp [tokens]
    rw [htokens] at hmem
    simp [tokens] at hmem
  | node operator left right, node operator' left' right', h, h', htokens => by
    have hlength := Nat.le_antisymm (length_left_le h' h htokens.symm) (length_left_le h h' htokens)
    rcases List.append_inj htokens hlength with ⟨hleft, hrest⟩
    rw [List.cons.injEq] at hrest
    rcases hrest with ⟨hoperator, hright⟩
    cases hoperator
    rw [eq_of_tokens_eq h.1.1 h'.1.1 hleft, eq_of_tokens_eq h.2.1 h'.2.1 hright]

end Tree

/-! ## The passes build it -/

namespace Chain

variable {α β : Type}

def map (f : α → β) (c : Chain α) : Chain β := ⟨f c.head, c.tail.map fun link => (link.1, f link.2)⟩

/-- **The tree of a chain**, built in three passes. -/
def tree (c : Chain Float) : Tree := ((c.map Tree.number).passes Tree.node).head

end Chain

theorem map_pass {α β : Type} {f : α → β} {join : Operator → α → α → α} {join' : Operator → β → β → β}
    (hjoin : ∀ o x y, f (join o x y) = join' o (f x) (f y)) (rank : Rank) : ∀ (tail : List (Operator × α)) (x : α),
      (pass join rank x tail).map f = pass join' rank (f x) (tail.map fun link => (link.1, f link.2))
  | [], x => rfl
  | (operator, y) :: tail, x => by
    rw [pass, List.map_cons, pass]
    by_cases hrank : operator.rank = rank
    · rw [if_pos hrank, if_pos hrank, map_pass hjoin rank tail, hjoin]
    · rw [if_neg hrank, if_neg hrank, ← map_pass hjoin rank tail]
      rfl

theorem map_passes {α β : Type} {f : α → β} {join : Operator → α → α → α} {join' : Operator → β → β → β}
    (hjoin : ∀ o x y, f (join o x y) = join' o (f x) (f y)) (c : Chain α) :
    (c.passes join).map f = (c.map f).passes join' := by
  have hpass : ∀ (rank : Rank) (c : Chain α), (c.pass join rank).map f = (c.map f).pass join' rank :=
    fun rank c => map_pass hjoin rank c.tail c.head
  simp only [Chain.passes, hpass]

theorem written_pass (rank : Rank) : ∀ (tail : List (Operator × Tree)) (x : Tree),
    (pass Tree.node rank x tail).written Tree.tokens = Chain.written Tree.tokens ⟨x, tail⟩
  | [], x => rfl
  | (operator, y) :: tail, x => by
    rw [pass]
    by_cases hrank : operator.rank = rank
    · rw [if_pos hrank, written_pass rank tail]
      simp [Chain.written, Tree.tokens]
    · have ih := written_pass rank tail y
      rw [if_neg hrank]
      simp only [Chain.written] at ih
      simp [Chain.written, ih]

def Chain.Fits (level : Nat) (c : Chain Tree) : Prop := c.head.Fits level ∧ ∀ link ∈ c.tail, link.2.Fits level

/-- **A pass joins trees that bind tighter than its operators.** -/
theorem fits_pass (rank : Rank) : ∀ (tail : List (Operator × Tree)) (x : Tree), x.Fits rank.level →
    (∀ link ∈ tail, link.2.Fits (rank.level + 1)) → (pass Tree.node rank x tail).Fits rank.level
  | [], x, hx, _ => ⟨hx, by simp [pass]⟩
  | (operator, y) :: tail, x, hx, htail => by
    rcases List.forall_mem_cons.1 htail with ⟨hy, htail⟩
    rw [pass]
    by_cases hrank : operator.rank = rank
    · rw [if_pos hrank]
      subst hrank
      exact fits_pass _ tail (.node operator x y) ⟨⟨hx, hy⟩, Nat.le_refl _⟩ htail
    · rw [if_neg hrank]
      rcases fits_pass rank tail y (hy.mono (Nat.le_succ _)) htail with ⟨hhead, hrest⟩
      exact ⟨hx, List.forall_mem_cons.2 ⟨hhead, hrest⟩⟩

namespace Chain

theorem Fits.pass {c : Chain Tree} {rank : Rank} (h : c.Fits (rank.level + 1)) :
    (c.pass Tree.node rank).Fits rank.level :=
  fits_pass rank c.tail c.head (h.1.mono (Nat.le_succ _)) h.2

variable (c : Chain Float)

theorem ordered_tree : c.tree.Ordered := by
  have hleaves : (c.map Tree.number).Fits (Rank.exponent.level + 1) := by
    refine ⟨⟨trivial, trivial⟩, fun link hlink => ?_⟩
    rcases List.mem_map.1 hlink with ⟨link, -, rfl⟩
    exact ⟨trivial, trivial⟩
  have hfirst : Fits (Rank.multiplicative.level + 1) _ := hleaves.pass
  have hsecond : Fits (Rank.additive.level + 1) _ := hfirst.pass
  exact hsecond.pass.1.1

theorem tokens_tree : c.tree.tokens = c.tokens := by
  have hpass : ∀ (rank : Rank) (c : Chain Tree), (c.pass Tree.node rank).written Tree.tokens = c.written Tree.tokens :=
    fun rank c => written_pass rank c.tail c.head
  have hwritten : ((c.map Tree.number).passes Tree.node).written Tree.tokens = c.tokens := by
    simp only [passes, hpass]
    simp [written, tokens, map, Tree.tokens, List.flatMap_map]
  rw [written, tail_passes, List.flatMap_nil, List.append_nil] at hwritten
  exact hwritten

theorem value_tree : c.tree.value = c.value := by
  have hmap := @map_passes _ _ Tree.value Tree.node Operator.apply (fun _ _ _ => rfl) (c.map Tree.number)
  have hleaves : (c.map Tree.number).map Tree.value = c := by simp [map, Function.comp_def, Tree.value]
  rw [hleaves] at hmap
  exact congrArg head hmap

end Chain

/-- **Folding is three passes, and the tree they build.**  There is a value only where numbers and operators take turns.
Unchecked it is what the passes leave, which is the value of the one tree that binds by rank and to the left.  Checks
refuse the first step that is not finite, in the order of the passes, and else a value that is not finite. -/
theorem value_chain :
    (∀ (checks : Bool) (ts : List Token) (v : Float), value checks ts = .ok v → ∃ c : Chain Float, ts = c.tokens) ∧
    ∀ c : Chain Float,
      value false c.tokens = .ok c.value ∧
      (∃ t : Tree, (t.Ordered ∧ t.tokens = c.tokens ∧ t.value = c.value) ∧
        ∀ t' : Tree, t'.Ordered → t'.tokens = c.tokens → t' = t) ∧
      match c.steps.find? fun s => !s.result.isFinite with
      | some s => ∃ f, s.refusal? = some f ∧ value true c.tokens = .error f
      | none => value true c.tokens = if c.value.isFinite then .ok c.value else .error (.valueNotFinite c.value) := by
  refine ⟨fun checks ts v h => exists_chain_of_value h, fun c => ⟨value_false_tokens c, ?_, value_true_tokens c⟩⟩
  refine ⟨c.tree, ⟨c.ordered_tree, c.tokens_tree, c.value_tree⟩, fun t' hordered htokens => ?_⟩
  exact Tree.eq_of_tokens_eq hordered c.ordered_tree (htokens.trans c.tokens_tree.symm)

-- the sum overflows, but the quotient behind it is looked at first
example : value true [.number (.ofBits 0x7fefffffffffffff), .op .add, .number (.ofBits 0x7fefffffffffffff),
    .op .subtract, .number 1, .op .divide, .number 0] = .error (.divisionByZero 1) := by decide +kernel

/-- Two differences one after the other: the left one is taken first. -/
theorem value_chain_left :
    let c : Chain Float := ⟨10, [(.subtract, 2), (.subtract, 3)]⟩
    value true c.tokens = .ok 5 ∧ (∃ c' : Chain Float, c.tokens = c'.tokens) ∧
      ∃ t : Tree, t.Ordered ∧ t.tokens = c.tokens ∧ value false c.tokens = .ok t.value := by
  intro c
  have hfive : value true c.tokens = .ok 5 := by decide +kernel
  rcases value_chain.2 c with ⟨hvalue, ⟨t, ⟨hordered, htokens, htree⟩, -⟩, -⟩
  exact ⟨hfive, value_chain.1 true c.tokens 5 hfive, t, hordered, htokens, by rw [hvalue, htree]⟩

end Flat
end Reckoner

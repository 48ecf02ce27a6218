import Reckoner.Proofs.Group.Brackets
import Reckoner.Proofs.Outcome

/-!
# Group.Forest — evaluation along the bracket tree

A list whose brackets match is the writing of one forest: tokens and groups side by side, and a forest inside every
group.  The value of a forest is defined by its structure, groups from left to right and what is inside a group before
the group (`Forest.value`).  Evaluation that always takes the group that closes first comes to the same value, or to
the same first failure (`resolve_context`, in the middle of any other tokens), and fails on every list whose brackets
do not match (`exists_error_of_not_balanced`).
-/
namespace Reckoner

/-- Brackets match: `depth` counts the ones still open. -/
def Token.balancedFrom : Nat → List Token → Bool
  | depth, [] => depth == 0
  | depth, .opening :: rest => balancedFrom (depth + 1) rest
  | 0, .closing :: _ => false
  | depth + 1, .closing :: rest => balancedFrom depth rest
  | depth, _ :: rest => balancedFrom depth rest

/-- **Brackets match**: none closes that was not opened before, and none stays open. -/
def Token.balanced (ts : List Token) : Bool := balancedFrom 0 ts

/-- Tokens and groups side by side. -/
inductive Forest where
  | nil
  | leaf (token : Token) (plain : token.isBracket = false) (rest : Forest)
  | group (inside rest : Forest)

namespace Forest

def tokens : Forest → List Token
  | nil => []
  | leaf token _ rest => token :: rest.tokens
  | group inside rest => .opening :: (inside.tokens ++ .closing :: rest.tokens)

/-- **The tokens of a forest with every group as one number**, its value: from left to right, and what is inside a
group before the group. -/
def settled (checks : Bool) : Forest → Except Failure (List Token)
  | nil => .ok []
  | leaf token _ rest => do
    let after ← rest.settled checks
    return token :: after
  | group inside rest => do
    let content ← inside.settled checks
    let value ← Flat.evaluate checks content
    let after ← rest.settled checks
    return .number value :: after

/-- **The value of a forest**: that of its tokens once every group is a number. -/
def value (checks : Bool) (forest : Forest) : Except Failure Float := do
  let content ← forest.settled checks
  Flat.evaluate checks content

theorem settled_leaf (checks : Bool) (token : Token) (plain : token.isBracket = false) (rest : Forest) :
    (leaf token plain rest).settled checks = (rest.settled checks).bind fun after => .ok (token :: after) := rfl

theorem settled_group (checks : Bool) (inside rest : Forest) :
    (group inside rest).settled checks =
      (inside.settled checks).bind fun content => (Flat.evaluate checks content).bind fun value =>
        (rest.settled checks).bind fun after => .ok (.number value :: after) := rfl

theorem value_eq (checks : Bool) (forest : Forest) :
    forest.value checks = (forest.settled checks).bind (Flat.evaluate checks) := rfl

theorem settled_bracketless {checks : Bool} : ∀ {forest : Forest} {out : List Token},
    forest.settled checks = .ok out → Group.Bracketless out
  | nil, out, h => by
    cases h
    exact Group.bracketless_nil
  | leaf token plain rest, out, h => by
    rw [settled_leaf] at h
    obtain ⟨after, hafter, hout⟩ := Outcome.bind_eq_ok_iff.1 h
    cases hout
    exact Group.bracketless_cons.2 ⟨plain, settled_bracketless hafter⟩
  | group inside rest, out, h => by
    rw [settled_group] at h
    obtain ⟨content, _, h⟩ := Outcome.bind_eq_ok_iff.1 h
    obtain ⟨value, _, h⟩ := Outcome.bind_eq_ok_iff.1 h
    obtain ⟨after, hafter, hout⟩ := Outcome.bind_eq_ok_iff.1 h
    cases hout
    exact Group.bracketless_cons.2 ⟨rfl, settled_bracketless hafter⟩

/-- **A forest among other tokens**: evaluation first makes numbers of its groups, as long as nothing in front of it
closes. -/
theorem resolve_context (checks : Bool) : ∀ (forest : Forest) (pre post : List Token), .closing ∉ pre →
    Group.resolve checks (pre ++ (forest.tokens ++ post)) =
      (forest.settled checks).bind fun out => Group.resolve checks (pre ++ (out ++ post))
  | nil, _, _, _ => rfl
  | leaf token plain rest, pre, post, hpre => by
    have hpre' : Token.closing ∉ pre ++ [token] := by
      refine fun hm => (List.mem_append.1 hm).elim hpre fun ht => ?_
      rw [← List.mem_singleton.1 ht] at plain
      cases plain
    have ih := resolve_context checks rest (pre ++ [token]) post hpre'
    simp only [List.append_assoc, List.singleton_append] at ih
    rw [settled_leaf, tokens, List.cons_append, ih, Outcome.bind_assoc]
    rfl
  | group inside rest, pre, post, hpre => by
    have ihInside := resolve_context checks inside (pre ++ [.opening])
      (.closing :: (rest.tokens ++ post)) (by simp [hpre])
    have ihRest := fun value => resolve_context checks rest (pre ++ [.number value]) post (by simp [hpre])
    simp only [List.append_assoc, List.singleton_append] at ihInside ihRest
    calc
      Group.resolve checks (pre ++ ((group inside rest).tokens ++ post))
        = Group.resolve checks (pre ++ .opening :: (inside.tokens ++ .closing :: (rest.tokens ++ post))) := by
          rw [tokens, List.cons_append, List.append_assoc, List.cons_append]
      _ = (inside.settled checks).bind fun content =>
            Group.resolve checks (pre ++ .opening :: (content ++ .closing :: (rest.tokens ++ post))) := ihInside
      -- what is inside has no bracket any more, so its group is the one that closes first
      _ = (inside.settled checks).bind fun content => (Flat.evaluate checks content).bind fun value =>
            Group.resolve checks (pre ++ .number value :: (rest.tokens ++ post)) :=
          Outcome.bind_congr fun content hcontent => Group.resolve_group checks _ hpre (settled_bracketless hcontent)
      _ = (inside.settled checks).bind fun content => (Flat.evaluate checks content).bind fun value =>
            (rest.settled checks).bind fun after =>
              Group.resolve checks (pre ++ .number value :: (after ++ post)) := by
          simp only [ihRest]
      _ = ((group inside rest).settled checks).bind fun out => Group.resolve checks (pre ++ (out ++ post)) := by
          simp only [settled_group, Outcome.bind_assoc]
          rfl

/-- **Evaluation of a forest written out is the value of the forest.** -/
theorem resolve_tokens (checks : Bool) (forest : Forest) :
    Group.resolve checks forest.tokens = forest.value checks := by
  have h := resolve_context checks forest [] [] List.not_mem_nil
  simp only [List.nil_append, List.append_nil] at h
  rw [h, value_eq]
  exact Outcome.bind_congr fun out hout => Group.resolve_bracketless checks (settled_bracketless hout)

/-! ## Which lists are forests -/

/-- Forests with a closing bracket between any two: what is still to come once so many brackets are open. -/
def stacked : Forest → List Forest → List Token
  | forest, [] => forest.tokens
  | forest, next :: rest => forest.tokens ++ .closing :: stacked next rest

theorem stacked_leaf (token : Token) (plain : token.isBracket = false) (forest : Forest) (rest : List Forest) :
    stacked (leaf token plain forest) rest = token :: stacked forest rest := by
  cases rest <;> rfl

theorem stacked_group (inside next : Forest) (rest : List Forest) :
    stacked (group inside next) rest = .opening :: stacked inside (next :: rest) := by
  cases rest with
  | nil => rfl
  | cons other rest =>
    simp only [stacked, tokens, List.cons_append, List.append_assoc]

/-- **Read at a depth, a list that balances is one forest more than brackets are open.** -/
theorem exists_stacked : ∀ (ts : List Token) (depth : Nat), Token.balancedFrom depth ts = true →
    ∃ (forest : Forest) (rest : List Forest), rest.length = depth ∧ ts = stacked forest rest
  | [], _, h => ⟨nil, [], (eq_of_beq h).symm, rfl⟩
  | .opening :: ts, depth, h => by
    obtain ⟨inside, rest, hlength, hts⟩ := exists_stacked ts (depth + 1) h
    cases rest with
    | nil => cases hlength
    | cons next rest =>
      exact ⟨group inside next, rest, Nat.succ.inj hlength, by rw [stacked_group, hts]⟩
  | .closing :: ts, 0, h => by cases h
  | .closing :: ts, depth + 1, h => by
    obtain ⟨forest, rest, hlength, hts⟩ := exists_stacked ts depth h
    exact ⟨nil, forest :: rest, by rw [List.length_cons, hlength], by rw [hts]; rfl⟩
  | .number value :: ts, depth, h => exists_stacked_leaf (.number value) rfl (exists_stacked ts depth h)
  | .op operator :: ts, depth, h => exists_stacked_leaf (.op operator) rfl (exists_stacked ts depth h)
  | .squareRoot :: ts, depth, h => exists_stacked_leaf .squareRoot rfl (exists_stacked ts depth h)
  | .answer :: ts, depth, h => exists_stacked_leaf .answer rfl (exists_stacked ts depth h)
where
  exists_stacked_leaf {ts : List Token} {depth : Nat} (token : Token) (plain : token.isBracket = false)
      (h : ∃ (forest : Forest) (rest : List Forest), rest.length = depth ∧ ts = stacked forest rest) :
      ∃ (forest : Forest) (rest : List Forest), rest.length = depth ∧ token :: ts = stacked forest rest := by
    obtain ⟨forest, rest, hlength, hts⟩ := h
    exact ⟨leaf token plain forest, rest, hlength, by rw [stacked_leaf, hts]⟩

theorem balancedFrom_tokens : ∀ (forest : Forest) (depth : Nat) (rest : List Token),
    Token.balancedFrom depth (forest.tokens ++ rest) = Token.balancedFrom depth rest
  | nil, _, _ => rfl
  | leaf token plain next, depth, rest => by
    rw [tokens, List.cons_append, ← balancedFrom_tokens next depth rest]
    cases token <;> first | rfl | cases plain
  | group inside next, depth, rest => by
    rw [tokens, List.cons_append, List.append_assoc, List.cons_append]
    exact (balancedFrom_tokens inside (depth + 1) _).trans (balancedFrom_tokens next depth rest)

/-- **The lists whose brackets match are the forests written out.** -/
theorem balanced_iff_exists_forest (ts : List Token) :
    Token.balanced ts = true ↔ ∃ forest : Forest, forest.tokens = ts := by
  constructor
  · intro h
    obtain ⟨forest, rest, hlength, hts⟩ := exists_stacked ts 0 h
    obtain rfl := List.length_eq_zero_iff.1 hlength
    exact ⟨forest, hts.symm⟩
  · rintro ⟨forest, rfl⟩
    have h := balancedFrom_tokens forest 0 []
    rwa [List.append_nil] at h

theorem balancedFrom_bracketless : ∀ (inside : List Token) (depth : Nat) (rest : List Token),
    Group.Bracketless inside → Token.balancedFrom depth (inside ++ rest) = Token.balancedFrom depth rest
  | [], _, _, _ => rfl
  | t :: inside, depth, rest, h => by
    obtain ⟨ht, hinside⟩ := Group.bracketless_cons.1 h
    rw [List.cons_append, ← balancedFrom_bracketless inside depth rest hinside]
    cases t <;> first | rfl | cases ht

theorem balancedFrom_group {inside : List Token} (post : List Token) (value : Float)
    (hinside : Group.Bracketless inside) : ∀ (pre : List Token) (depth : Nat),
      Token.balancedFrom depth (pre ++ .opening :: (inside ++ .closing :: post)) =
        Token.balancedFrom depth (pre ++ .number value :: post)
  | [], depth => balancedFrom_bracketless inside (depth + 1) (.closing :: post) hinside
  | .opening :: pre, depth => balancedFrom_group post value hinside pre (depth + 1)
  | .closing :: _, 0 => rfl
  | .closing :: pre, depth + 1 => balancedFrom_group post value hinside pre depth
  | .number _ :: pre, depth => balancedFrom_group post value hinside pre depth
  | .op _ :: pre, depth => balancedFrom_group post value hinside pre depth
  | .squareRoot :: pre, depth => balancedFrom_group post value hinside pre depth
  | .answer :: pre, depth => balancedFrom_group post value hinside pre depth

/-- **Brackets that do not match are found out**, if nothing fails before. -/
theorem exists_error_of_not_balanced (checks : Bool) (ts : List Token) :
    Token.balanced ts = false → ∃ f, Group.resolve checks ts = .error f := by
  induction ts using Group.resolve_induction with
  | none ts h =>
    have htrue : Token.balanced ts = true := by
      have := balancedFrom_bracketless ts 0 [] h
      rwa [List.append_nil] at this
    rw [htrue]
    intro hfalse
    cases hfalse
  | group pre inside post hpre hinside ih =>
    intro h
    rw [Group.resolve_group checks post hpre hinside]
    cases Flat.evaluate checks inside with
    | error f => exact ⟨f, rfl⟩
    | ok value => exact ih value (by rw [← h]; exact (balancedFrom_group post value hinside pre 0).symm)
  | unopened _ post hpre => exact fun _ => ⟨_, Group.resolve_unopened checks post hpre⟩
  | unclosed _ _ hpre hpost => exact fun _ => ⟨_, Group.resolve_unclosed checks hpre hpost⟩

/-- **Evaluation is that of the bracket tree.**  On the writing of a forest, which is any list whose brackets match, it
gives the forest's value or its first failure; a list whose brackets do not match has no value. -/
theorem resolve_eq_forest_value (checks : Bool) :
    (∀ forest : Forest, Group.resolve checks forest.tokens = forest.value checks) ∧
      (∀ ts, Token.balanced ts = true ↔ ∃ forest : Forest, forest.tokens = ts) ∧
      ∀ ts, Token.balanced ts = false → ∃ f, Group.resolve checks ts = .error f :=
  ⟨resolve_tokens checks, balanced_iff_exists_forest, exists_error_of_not_balanced checks⟩

/-- A closing bracket before the opening one. -/
theorem resolve_eq_forest_value_turned :
    Token.balanced [.closing, .number 2, .opening] = false ∧
      ∃ f, Group.resolve true [.closing, .number 2, .opening] = .error f :=
  ⟨rfl, (resolve_eq_forest_value true).2.2 _ rfl⟩

end Forest
end Reckoner

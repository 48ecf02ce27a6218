import Reckoner.Proofs.Acceptance
import Reckoner.Proofs.Group.Forest
import Reckoner.Proofs.Line.Parts

/-!
# Answer — what the reference to the last answer stands for

It stands for the line before, in brackets.  An expression that has a value may be put in brackets anywhere among other
tokens, closed, open or failing ones, and evaluation comes to what it comes to with the value itself there
(`Group.resolve_group_of_ok`): groups that close before it are evaluated first either way, and brackets that do not
match are found out at the same place.  A line falls apart at a bracket just as it does at the letter of the reference,
so the same holds of lines (`Calculator.evaluate_group_alike`).
-/
namespace Reckoner

namespace Group

/-- **A group that has a value by itself has that value among any other tokens.** -/
theorem resolve_group_of_ok {checks : Bool} {inside : List Token} {value : Float}
    (h : resolve checks inside = .ok value) (pre : List Token) :
    ∀ post, resolve checks (pre ++ .opening :: (inside ++ .closing :: post)) =
      resolve checks (pre ++ .number value :: post) := by
  have hbalanced : Token.balanced inside = true := by
    cases hb : Token.balanced inside with
    | true => rfl
    | false =>
      obtain ⟨f, hf⟩ := Forest.exists_error_of_not_balanced checks inside hb
      rw [h] at hf
      cases hf
  obtain ⟨forest, rfl⟩ := (Forest.balanced_iff_exists_forest inside).1 hbalanced
  rw [Forest.resolve_tokens, Forest.value_eq] at h
  obtain ⟨content, hcontent, hvalue⟩ := Outcome.bind_eq_ok_iff.1 h
  -- as long as nothing in front closes, the group is the first thing to be evaluated
  have hfirst : ∀ pre post : List Token, .closing ∉ pre →
      resolve checks (pre ++ .opening :: (forest.tokens ++ .closing :: post)) =
        resolve checks (pre ++ .number value :: post) := by
    intro pre post hpre
    have hcontext := Forest.resolve_context checks (.group forest .nil) pre post hpre
    have hsettled : (Forest.group forest .nil).settled checks = .ok [.number value] := by
      rw [Forest.settled_group, hcontent]
      simp only [Except.bind, hvalue]
      rfl
    rw [hsettled] at hcontext
    simpa [Forest.tokens, Except.bind] using hcontext
  induction pre using resolve_induction with
  | none pre hpre => exact fun post => hfirst pre post (closing_not_mem hpre)
  | unclosed pre rest hpre hrest =>
    exact fun post => hfirst _ post (by simp [hpre, hrest])
  | unopened pre rest hpre =>
    intro post
    rw [List.append_assoc, List.append_assoc, List.cons_append, List.cons_append, resolve_unopened checks _ hpre,
      resolve_unopened checks _ hpre]
  | group pre within rest hpre hwithin ih =>
    intro post
    have hassoc : ∀ tail : List Token, (pre ++ .opening :: (within ++ .closing :: rest)) ++ tail =
        pre ++ .opening :: (within ++ .closing :: (rest ++ tail)) := fun tail => by simp
    rw [hassoc, hassoc, resolve_group checks _ hpre hwithin, resolve_group checks _ hpre hwithin]
    refine Outcome.bind_congr fun first _ => ?_
    have := ih first post
    simpa using this

end Group

theorem Token.bindAnswer_append (value : Float) (ts us : List Token) :
    bindAnswer value (ts ++ us) = bindAnswer value ts ++ bindAnswer value us := List.map_append

theorem Token.bindAnswer_eq_self {ts : List Token} (h : .answer ∉ ts) (value : Float) : bindAnswer value ts = ts := by
  refine (List.map_congr_left fun t ht => ?_).trans (List.map_id ts)
  cases t with
  | answer => exact absurd ht h
  | _ => rfl

/-- Between tokens that are no references, only what stands there is bound. -/
theorem Token.bindAnswer_between {pre post : List Token} (hpre : .answer ∉ pre) (hpost : .answer ∉ post) (value : Float)
    (middle : List Token) : bindAnswer value (pre ++ (middle ++ post)) = pre ++ (bindAnswer value middle ++ post) := by
  rw [bindAnswer_append, bindAnswer_append, bindAnswer_eq_self hpre, bindAnswer_eq_self hpost]

namespace Line

/-- What is written around something, read on both sides of it. -/
def frame? (root : Char) (before behind : List Char) : Option (List Token × List Token) :=
  (read? root before).bind fun pre => (read? root behind).map (pre, ·)

variable {root : Char} {before behind : List Char}

theorem read?_group {inside : List Char} {ts : List Token} (h : read? root inside = some ts) :
    read? root (before ++ '(' :: (inside ++ ')' :: behind)) =
      (frame? root before behind).map fun frame => frame.1 ++ (.opening :: (ts ++ [.closing]) ++ frame.2) := by
  rw [read?_append_cons rfl, read?_symbol_cons rfl rfl, read?_append_cons rfl, read?_symbol_cons rfl rfl, h, frame?]
  cases read? root before <;> cases read? root behind <;> simp

theorem read?_answer (root : Char) (before behind : List Char) :
    read? root (before ++ 'a' :: behind) =
      (frame? root before behind).map fun frame => frame.1 ++ ([.answer] ++ frame.2) := by
  rw [read?_append_cons rfl, read?_symbol_cons rfl rfl, frame?]
  cases read? root before <;> cases read? root behind <;> simp

theorem answer_not_mem_of_frame? {pre post : List Token} (h : frame? root before behind = some (pre, post))
    (hbefore : 'a' ∉ before) (hbehind : 'a' ∉ behind) : .answer ∉ pre ∧ .answer ∉ post := by
  obtain ⟨_, hpre, h⟩ := Option.bind_eq_some_iff.1 h
  obtain ⟨_, hpost, h⟩ := Option.map_eq_some_iff.1 h
  cases h
  exact ⟨answer_not_mem_of_read? hpre hbefore, answer_not_mem_of_read? hpost hbehind⟩

end Line

namespace Calculator

/-- A line that reads as tokens comes to what they come to, with the last answer bound. -/
theorem outcome_of_read? {c : Calculator} {line : String} {ts : List Token}
    (h : Line.read? c.settings.rootSymbol line.toList = some ts) (hne : ts ≠ []) :
    c.outcome line = Group.resolve c.settings.domainChecks (Token.bindAnswer c.lastAnswer ts) := by
  have htokens : Line.tokens c.settings.rootSymbol line = .ok ts := Line.tokens_eq_ok_iff.2 ⟨h, hne⟩
  rw [outcome, htokens]

theorem exists_read?_of_outcome {c : Calculator} {line : String} {value : Float} (h : c.outcome line = .ok value) :
    ∃ ts, Line.read? c.settings.rootSymbol line.toList = some ts ∧
      Group.resolve c.settings.domainChecks (Token.bindAnswer c.lastAnswer ts) = .ok value := by
  unfold outcome at h
  split at h
  · cases h
  · rename_i ts htokens
    exact ⟨ts, (Line.tokens_eq_ok_iff.1 htokens).1, h⟩

theorem evaluate_of_outcome_eq_error {c : Calculator} {line : String} {f : Failure} (h : c.outcome line = .error f) :
    c.evaluate line = (.error f, c) := by
  unfold evaluate
  rw [h]
  rfl

theorem kind_of_read?_eq_none {c : Calculator} {line : String}
    (h : Line.read? c.settings.rootSymbol line.toList = none) :
    (c.outcome line).mapError Failure.kind = .error .syntaxError := by
  unfold outcome
  cases htokens : Line.tokens c.settings.rootSymbol line with
  | error f => exact congrArg _ (Line.kind_of_tokens htokens)
  | ok ts =>
    rw [(Line.tokens_eq_ok_iff.1 htokens).1] at h
    cases h

/-- **The reference to the last answer stands for the line before, in brackets.**  Whatever is written around it, as
long as no other reference is: a line with a valued line in brackets comes to the same value, or to a failure of the
same kind, as evaluating the valued line first and then the line with the reference in place of the brackets. -/
theorem evaluate_group_alike (c : Calculator) (line before behind : String) {value : Float}
    (hline : (c.evaluate line).1 = .ok value) (hbefore : 'a' ∉ before.toList) (hbehind : 'a' ∉ behind.toList) :
    (c.evaluate (before ++ "(" ++ line ++ ")" ++ behind)).1.mapError Failure.kind =
      ((c.evaluate line).2.evaluate (before ++ "a" ++ behind)).1.mapError Failure.kind := by
  have houtcome : c.outcome line = .ok value := hline
  have hsettings : (c.evaluate line).2.settings = c.settings := by rw [evaluate, houtcome, after]
  have hremembered : (c.evaluate line).2.lastAnswer = value := by rw [evaluate, houtcome, after]
  generalize (c.evaluate line).2 = next at hsettings hremembered ⊢
  show (c.outcome _).mapError Failure.kind = (next.outcome _).mapError Failure.kind
  obtain ⟨inside, hinside, hvalue⟩ := exists_read?_of_outcome houtcome
  have hgroupChars : (before ++ "(" ++ line ++ ")" ++ behind).toList =
      before.toList ++ '(' :: (line.toList ++ ')' :: behind.toList) := by simp
  have hanswerChars : (before ++ "a" ++ behind).toList = before.toList ++ 'a' :: behind.toList := by simp
  have hgroup := @Line.read?_group _ before.toList behind.toList _ _ hinside
  have hanswer := Line.read?_answer next.settings.rootSymbol before.toList behind.toList
  have hframes : Line.frame? next.settings.rootSymbol before.toList behind.toList =
      Line.frame? c.settings.rootSymbol before.toList behind.toList := by rw [hsettings]
  rw [← hgroupChars] at hgroup
  rw [← hanswerChars, hframes] at hanswer
  cases hframe : Line.frame? c.settings.rootSymbol before.toList behind.toList with
  | none =>
    rw [hframe, Option.map_none] at hgroup hanswer
    rw [kind_of_read?_eq_none hgroup, kind_of_read?_eq_none hanswer]
  | some frame =>
    obtain ⟨pre, post⟩ := frame
    obtain ⟨hpre, hpost⟩ := Line.answer_not_mem_of_frame? hframe hbefore hbehind
    have hbound : Token.bindAnswer c.lastAnswer (.opening :: (inside ++ [.closing])) ++ post =
        .opening :: (Token.bindAnswer c.lastAnswer inside ++ .closing :: post) := by
      simp [Token.bindAnswer, Token.bind]
    rw [hframe, Option.map_some] at hgroup hanswer
    rw [outcome_of_read? hgroup (by simp), outcome_of_read? hanswer (by simp), Token.bindAnswer_between hpre hpost,
      Token.bindAnswer_between hpre hpost, hbound, hremembered, hsettings, Group.resolve_group_of_ok hvalue pre post]
    rfl

/-- A line with a group and a reference of its own, put in the middle of another group. -/
theorem evaluate_group_alike_nested :
    let c : Calculator := ⟨{}, 4⟩
    (c.evaluate "(2+3)*a").1 = .ok 20 ∧ 'a' ∉ "7-(1+".toList ∧ 'a' ∉ ")/2".toList ∧
      (c.evaluate ("7-(1+" ++ "(" ++ "(2+3)*a" ++ ")" ++ ")/2")).1.mapError Failure.kind =
        ((c.evaluate "(2+3)*a").2.evaluate ("7-(1+" ++ "a" ++ ")/2")).1.mapError Failure.kind := by
  intro c
  have hline : (c.evaluate "(2+3)*a").1 = .ok 20 := by decide +kernel
  have hbefore : 'a' ∉ "7-(1+".toList := by decide
  have hbehind : 'a' ∉ ")/2".toList := by decide
  exact ⟨hline, hbefore, hbehind, evaluate_group_alike c _ _ _ hline hbefore hbehind⟩

end Calculator
end Reckoner

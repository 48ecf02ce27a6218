import Reckoner.Token

/-!
# Grammar — which lists of tokens are expressions

An expression is an atom with signs and root prefixes in front, and behind it any number of further atoms, each with an
operator and again signs and root prefixes in front.  An atom is a number, the last answer, or an expression in
brackets.  A scan that remembers only the open brackets and whether an atom is awaited recognizes exactly the
expressions (`expression_iff_recognizes`).
-/
namespace Reckoner
namespace Grammar

/-- A token that may stand in front of an atom: a sign or a root prefix. -/
def isLead : Token → Bool
  | .op operator => operator.isSign
  | .squareRoot => true
  | _ => false

def Leads (ts : List Token) : Prop := ∀ t ∈ ts, isLead t = true

mutual

/-- **An expression**: an atom, what leads up to it, and what it is joined to. -/
inductive Expression : List Token → Prop where
  | intro (leads atom tail : List Token) (hleads : Leads leads) (hatom : Atom atom) (htail : Tail tail) :
    Expression (leads ++ (atom ++ tail))

inductive Atom : List Token → Prop where
  | number (value : Float) : Atom [.number value]
  | answer : Atom [.answer]
  | group (inside : List Token) (hinside : Expression inside) : Atom (.opening :: (inside ++ [.closing]))

/-- Any number of further atoms, each behind exactly one operator and what leads up to it. -/
inductive Tail : List Token → Prop where
  | nil : Tail []
  | cons (operator : Operator) (leads atom tail : List Token) (hleads : Leads leads) (hatom : Atom atom)
    (htail : Tail tail) : Tail (.op operator :: (leads ++ (atom ++ tail)))

end

/-- **The recognizer**: it counts the brackets that are open and knows whether an atom is awaited. -/
def recognizes : Nat → Bool → List Token → Bool
  | depth, awaiting, [] => depth == 0 && !awaiting
  | depth, awaiting, .number _ :: rest => awaiting && recognizes depth false rest
  | depth, awaiting, .answer :: rest => awaiting && recognizes depth false rest
  | depth, awaiting, .op operator :: rest => (!awaiting || operator.isSign) && recognizes depth true rest
  | depth, awaiting, .squareRoot :: rest => awaiting && recognizes depth true rest
  | depth, awaiting, .opening :: rest => awaiting && recognizes (depth + 1) true rest
  | 0, _, .closing :: _ => false
  | depth + 1, awaiting, .closing :: rest => !awaiting && recognizes depth false rest

/-- Two lists that the recognizer tells apart nowhere. -/
def ReadAlike (ts us : List Token) : Prop :=
  ∀ (depth : Nat) (awaiting : Bool), recognizes depth awaiting ts = recognizes depth awaiting us

theorem ReadAlike.refl (ts : List Token) : ReadAlike ts ts := fun _ _ => rfl

theorem ReadAlike.trans {ts us vs : List Token} (h : ReadAlike ts us) (h' : ReadAlike us vs) : ReadAlike ts vs :=
  fun depth awaiting => (h depth awaiting).trans (h' depth awaiting)

theorem ReadAlike.cons {ts us : List Token} (t : Token) (h : ReadAlike ts us) : ReadAlike (t :: ts) (t :: us) := by
  intro depth awaiting
  have hts : ∀ d w, recognizes d w ts = recognizes d w us := h
  cases t with
  | closing => cases depth <;> simp only [recognizes, hts]
  | _ => simp only [recognizes, hts]

theorem ReadAlike.append {ts us : List Token} (h : ReadAlike ts us) : ∀ pre : List Token,
    ReadAlike (pre ++ ts) (pre ++ us)
  | [] => h
  | t :: pre => (append h pre).cons t

/-! ## Every expression is recognized -/

theorem recognizes_leads (depth : Nat) (rest : List Token) : ∀ leads : List Token, Leads leads →
    recognizes depth true (leads ++ rest) = recognizes depth true rest
  | [], _ => rfl
  | t :: leads, h => by
    obtain ⟨ht, hleads⟩ := List.forall_mem_cons.1 h
    rw [List.cons_append, ← recognizes_leads depth rest leads hleads]
    cases t with
    | op operator =>
      have hsign : operator.isSign = true := ht
      simp [recognizes, hsign]
    | squareRoot => rfl
    | _ => cases ht

mutual

theorem recognizes_expression : ∀ {ts : List Token}, Expression ts → ∀ (depth : Nat) (rest : List Token),
    recognizes depth true (ts ++ rest) = recognizes depth false rest
  | _, .intro leads atom tail hleads hatom htail, depth, rest => by
    rw [List.append_assoc, List.append_assoc, recognizes_leads depth _ leads hleads, recognizes_atom hatom depth,
      recognizes_tail htail depth]

theorem recognizes_atom : ∀ {ts : List Token}, Atom ts → ∀ (depth : Nat) (rest : List Token),
    recognizes depth true (ts ++ rest) = recognizes depth false rest
  | _, .number _, _, _ => rfl
  | _, .answer, _, _ => rfl
  | _, .group inside hinside, depth, rest => by
    rw [List.cons_append, List.append_assoc, List.singleton_append]
    exact recognizes_expression hinside (depth + 1) (.closing :: rest)

theorem recognizes_tail : ∀ {ts : List Token}, Tail ts → ∀ (depth : Nat) (rest : List Token),
    recognizes depth false (ts ++ rest) = recognizes depth false rest
  | _, .nil, _, _ => rfl
  | _, .cons operator leads atom tail hleads hatom htail, depth, rest => by
    rw [List.cons_append, List.append_assoc, List.append_assoc]
    calc
      recognizes depth false (.op operator :: (leads ++ (atom ++ (tail ++ rest))))
        = recognizes depth true (leads ++ (atom ++ (tail ++ rest))) := rfl
      _ = recognizes depth false rest := by
        rw [recognizes_leads depth _ leads hleads, recognizes_atom hatom depth, recognizes_tail htail depth]

end

/-! ## Nothing else is -/

/-- What may follow a finished part at a depth: so many brackets close, and behind each of them further atoms. -/
inductive Closes : Nat → List Token → Prop where
  | done : Closes 0 []
  | close (depth : Nat) (tail rest : List Token) (htail : Tail tail) (hrest : Closes depth rest) :
    Closes (depth + 1) (.closing :: (tail ++ rest))

/-- The part that is read next: an expression while an atom is awaited, further atoms otherwise. -/
def Part : Bool → List Token → Prop
  | true => Expression
  | false => Tail

theorem Expression.cons {t : Token} {ts : List Token} (ht : isLead t = true) : Expression ts → Expression (t :: ts)
  | .intro leads atom tail hleads hatom htail =>
    .intro (t :: leads) atom tail (List.forall_mem_cons.2 ⟨ht, hleads⟩) hatom htail

theorem Atom.append {atom tail : List Token} (hatom : Atom atom) (htail : Tail tail) : Expression (atom ++ tail) :=
  .intro [] atom tail (fun _ h => (by cases h)) hatom htail

theorem Expression.tail {ts : List Token} (operator : Operator) : Expression ts → Tail (.op operator :: ts)
  | .intro leads atom tail hleads hatom htail => .cons operator leads atom tail hleads hatom htail

/-- **What is recognized is a part, and behind it all brackets close.** -/
theorem exists_part : ∀ (ts : List Token) (depth : Nat) (awaiting : Bool), recognizes depth awaiting ts = true →
    ∃ part rest : List Token, ts = part ++ rest ∧ Part awaiting part ∧ Closes depth rest
  | [], 0, false, _ => ⟨[], [], rfl, Tail.nil, Closes.done⟩
  | .number value :: ts, depth, awaiting, h => by
    obtain ⟨rfl, h⟩ := Bool.and_eq_true_iff.1 h
    obtain ⟨tail, rest, rfl, htail, hrest⟩ := exists_part ts depth false h
    exact ⟨.number value :: tail, rest, rfl, (Atom.number value).append htail, hrest⟩
  | .answer :: ts, depth, awaiting, h => by
    obtain ⟨rfl, h⟩ := Bool.and_eq_true_iff.1 h
    obtain ⟨tail, rest, rfl, htail, hrest⟩ := exists_part ts depth false h
    exact ⟨.answer :: tail, rest, rfl, Atom.answer.append htail, hrest⟩
  | .op operator :: ts, depth, awaiting, h => by
    obtain ⟨hlead, h⟩ := Bool.and_eq_true_iff.1 h
    obtain ⟨part, rest, rfl, hpart, hrest⟩ := exists_part ts depth true h
    refine ⟨.op operator :: part, rest, rfl, ?_, hrest⟩
    cases awaiting with
    | true => exact Expression.cons hlead hpart
    | false => exact Expression.tail operator hpart
  | .squareRoot :: ts, depth, awaiting, h => by
    obtain ⟨rfl, h⟩ := Bool.and_eq_true_iff.1 h
    obtain ⟨part, rest, rfl, hpart, hrest⟩ := exists_part ts depth true h
    exact ⟨.squareRoot :: part, rest, rfl, Expression.cons rfl hpart, hrest⟩
  | .opening :: ts, depth, awaiting, h => by
    obtain ⟨rfl, h⟩ := Bool.and_eq_true_iff.1 h
    obtain ⟨inside, _, rfl, hinside, hcloses⟩ := exists_part ts (depth + 1) true h
    cases hcloses with
    | close _ tail rest htail hrest =>
      refine ⟨.opening :: (inside ++ [.closing]) ++ tail, rest, by simp, ?_, hrest⟩
      exact (Atom.group inside hinside).append htail
  | .closing :: ts, depth + 1, false, h => by
    obtain ⟨tail, rest, rfl, htail, hrest⟩ := exists_part ts depth false h
    exact ⟨[], .closing :: (tail ++ rest), rfl, Tail.nil, .close depth tail rest htail hrest⟩

/-- **The recognizer accepts the expressions and nothing else.** -/
theorem expression_iff_recognizes (ts : List Token) : Expression ts ↔ recognizes 0 true ts = true := by
  constructor
  · intro h
    have hread := recognizes_expression h 0 []
    rwa [List.append_nil] at hread
  · intro h
    obtain ⟨part, rest, rfl, hpart, hrest⟩ := exists_part ts 0 true h
    cases hrest
    rw [List.append_nil]
    exact hpart

end Grammar
end Reckoner

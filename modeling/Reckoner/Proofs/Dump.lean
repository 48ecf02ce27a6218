import Reckoner.Calculator
import Reckoner.Proofs.Line.Written

/-!
# Dump — a token list that was written out, read again

With a symbol that can be chosen, a space stands for nothing and ends every number, so a list that was written out is
read token by token (`Line.read?_dump`).  Every token of a line is read as itself, except an overflowed number: its
text is a word, and a word has no number in it.  So the list comes back exactly when its numbers are finite
(`Calculator.evaluate_dump`).
-/
namespace Reckoner

open Binary64 (isNegative)

namespace Token

/-- A number that is written without a sign; every other token. -/
def isUnsigned : Token → Bool
  | number value => !isNegative value
  | _ => true

/-- Every number among the tokens is finite. -/
def Finite (ts : List Token) : Prop := ∀ value, number value ∈ ts → value.isFinite = true

/-- **What the text of a token is read as**: the token, or for a number that is not finite what stands for the letters
of its text. -/
def echo (root : Char) : Token → List Token
  | number value =>
    if value.isFinite then [number value] else (Numeral.plainChars value).filterMap (Line.symbol? root)
  | t => [t]

theorem toList_dumpWith_cons (root : Char) (t u : Token) (us : List Token) :
    (dumpWith root (t :: u :: us)).toList = (t.textWith root).toList ++ ' ' :: (dumpWith root (u :: us)).toList := by
  simp [dumpWith]

theorem echo_number_of_isFinite {value : Float} (root : Char) (h : value.isFinite = true) :
    echo root (number value) = [number value] := if_pos h

theorem countP_echo_of_not_isFinite {value : Float} (root : Char) (h : value.isFinite = false) :
    (echo root (number value)).countP isNumber = 0 := by
  rw [echo, h, List.countP_eq_zero]
  intro t ht hnumber
  obtain ⟨c, _, hc⟩ := List.mem_filterMap.1 ht
  cases t with
  | number other => exact Line.symbol?_ne_number hc
  | _ => cases hnumber

theorem countP_echo_le (root : Char) (t : Token) : (echo root t).countP isNumber ≤ [t].countP isNumber := by
  cases t with
  | number value =>
    cases h : value.isFinite with
    | true => rw [echo_number_of_isFinite root h]
    | false => rw [countP_echo_of_not_isFinite root h]; exact Nat.zero_le _
  | _ => exact Nat.le_refl _

theorem countP_flatMap_echo_le (root : Char) : ∀ ts : List Token,
    (ts.flatMap (echo root)).countP isNumber ≤ ts.countP isNumber
  | [] => Nat.le_refl 0
  | t :: ts => by
    rw [List.flatMap_cons, List.countP_append, ← List.singleton_append, List.countP_append]
    exact Nat.add_le_add (countP_echo_le root t) (countP_flatMap_echo_le root ts)

/-- **A list is its own echo exactly when its numbers are finite**: the echo of another number has no number in it. -/
theorem flatMap_echo_eq_self_iff (root : Char) (ts : List Token) : ts.flatMap (echo root) = ts ↔ Finite ts := by
  constructor
  · intro h value hmem
    cases hfinite : value.isFinite with
    | true => rfl
    | false =>
      obtain ⟨pre, post, rfl⟩ := List.append_of_mem hmem
      have hcount := congrArg (List.countP isNumber) h
      have hpre := countP_flatMap_echo_le root pre
      have hpost := countP_flatMap_echo_le root post
      have hone : isNumber (number value) = true := rfl
      rw [List.flatMap_append, List.flatMap_cons, List.countP_append, List.countP_append, List.countP_append,
        List.countP_cons_of_pos hone, countP_echo_of_not_isFinite root hfinite] at hcount
      omega
  · intro h
    have hself : ∀ t ∈ ts, echo root t = [t] := by
      intro t ht
      cases t with
      | number value => exact echo_number_of_isFinite root (h value ht)
      | _ => rfl
    rw [List.flatMap_congr hself, List.flatMap_singleton']

end Token

namespace Line

/-- The text of a token, alone on a line. -/
theorem read?_textWith {s : Settings} (h : s.isValid = true) {t : Token} (ht : t.isUnsigned = true) :
    read? s.rootSymbol (t.textWith s.rootSymbol).toList = some (t.echo s.rootSymbol) := by
  have hsymbol {t : Token} {c : Char} (hchars : (t.textWith s.rootSymbol).toList = [c]) (hc : isNumeric c = false)
      (ht : symbol? s.rootSymbol c = some t) : read? s.rootSymbol (t.textWith s.rootSymbol).toList = some [t] := by
    rw [hchars]
    exact read?_symbol hc ht
  cases t with
  | number value =>
    have hchars : ((Token.number value).textWith s.rootSymbol).toList = Numeral.plainChars value :=
      String.toList_ofList
    have hsign : isNegative value = false := by simpa [Token.isUnsigned] using ht
    rw [hchars]
    cases hfinite : value.isFinite with
    | true => rw [read?_plainChars _ hfinite hsign, Token.echo_number_of_isFinite _ hfinite]
    | false =>
      have hwords : ∀ word ∈ ["NaN".toList, "-inf".toList, "inf".toList], word.all (!isNumeric ·) = true := by decide
      have hword := List.all_eq_true.1 (hwords _ (Numeral.plainChars_of_not_isFinite hfinite))
      have hnumeric : ∀ c ∈ Numeral.plainChars value, isNumeric c = false :=
        fun c hc => by simpa using hword c hc
      rw [read?_symbols hnumeric, Token.echo, hfinite]
      rfl
  | op operator => exact hsymbol (by simp [Token.textWith]) (isNumeric_symbol operator) (symbol?_symbol operator)
  | squareRoot => exact hsymbol (by simp [Token.textWith]) (isNumeric_rootSymbol h) (symbol?_rootSymbol h)
  | opening => exact hsymbol (c := '(') (by simp [Token.textWith]) rfl rfl
  | closing => exact hsymbol (c := ')') (by simp [Token.textWith]) rfl rfl
  | answer => exact hsymbol (c := 'a') (by simp [Token.textWith]) rfl rfl

/-- **A list that was written out is read token by token.** -/
theorem read?_dump {s : Settings} (h : s.isValid = true) : ∀ {ts : List Token}, (∀ t ∈ ts, t.isUnsigned = true) →
    read? s.rootSymbol (Token.dumpWith s.rootSymbol ts).toList = some (ts.flatMap (Token.echo s.rootSymbol))
  | [], _ => read?_nil s.rootSymbol
  | [t], hts => by
    have hchars : Token.dumpWith s.rootSymbol [t] = t.textWith s.rootSymbol := String.intercalate_singleton
    rw [hchars, read?_textWith h (hts t List.mem_cons_self), List.flatMap_singleton]
  | t :: u :: us, hts => by
    have hspace : isNumeric ' ' = false := rfl
    obtain ⟨ht, hus⟩ := List.forall_mem_cons.1 hts
    rw [Token.toList_dumpWith_cons, read?_append_cons hspace, read?_cons hspace, symbol?_space h, read?_textWith h ht,
      read?_dump h hus, List.flatMap_cons]
    rfl

theorem isUnsigned_of_read? {root : Char} {cs : List Char} {ts : List Token} (h : read? root cs = some ts) :
    ∀ t ∈ ts, t.isUnsigned = true := by
  intro t ht
  cases t with
  | number value =>
    obtain ⟨literal, hliteral⟩ := exists_numeral_of_read? h ht
    rw [Token.isUnsigned, Numeral.isNegative_of_read? hliteral]
    rfl
  | _ => rfl

/-- **The tokens of a line come back from their list exactly when no number has overflowed.** -/
theorem tokens_dump_eq_ok_iff {s : Settings} (h : s.isValid = true) {line : String} {ts : List Token}
    (htokens : tokens s.rootSymbol line = .ok ts) :
    tokens s.rootSymbol (Token.dumpWith s.rootSymbol ts) = .ok ts ↔ Token.Finite ts := by
  obtain ⟨hread, hne⟩ := tokens_eq_ok_iff.1 htokens
  rw [tokens_eq_ok_iff, read?_dump h (isUnsigned_of_read? hread), Option.some_inj, Token.flatMap_echo_eq_self_iff]
  exact and_iff_left hne

end Line

namespace Calculator

/-- **A token list reads back.**  Whatever symbol the settings accept, the tokens of a line that were written out with
it are the tokens of what was written, exactly when no number of the line has overflowed; and then the written list is
evaluated as the line was: to the same value or failure, leaving the same calculator. -/
theorem evaluate_dump {c : Calculator} (hvalid : c.settings.isValid = true) {line : String} {ts : List Token}
    (htokens : Line.tokens c.settings.rootSymbol line = .ok ts) :
    (Line.tokens c.settings.rootSymbol (Token.dumpWith c.settings.rootSymbol ts) = .ok ts ↔ Token.Finite ts) ∧
      (Token.Finite ts → c.evaluate (Token.dumpWith c.settings.rootSymbol ts) = c.evaluate line) := by
  have hiff := Line.tokens_dump_eq_ok_iff hvalid htokens
  refine ⟨hiff, fun hfinite => ?_⟩
  have houtcome : c.outcome (Token.dumpWith c.settings.rootSymbol ts) = c.outcome line := by
    unfold outcome
    rw [hiff.2 hfinite, htokens]
  unfold evaluate
  rw [houtcome]

/-- A line that has a value with everything on it that a token can be, on a calculator with another symbol. -/
theorem evaluate_dump_everything :
    let c : Calculator := ⟨⟨'~', true⟩, 3⟩
    let ts : List Token := [.number 2.5, .op .multiply, .opening, .answer, .op .subtract, .squareRoot, .number 16,
      .closing]
    c.settings.isValid = true ∧ Line.tokens c.settings.rootSymbol "2,5*(a -~16)" = .ok ts ∧ Token.Finite ts ∧
      c.evaluate (Token.dumpWith c.settings.rootSymbol ts) = c.evaluate "2,5*(a -~16)" := by
  intro c ts
  have hvalid : c.settings.isValid = true := by decide
  have htokens : Line.tokens c.settings.rootSymbol "2,5*(a -~16)" = .ok ts := by decide +kernel
  have hfinite : Token.Finite ts := by
    refine (evaluate_dump hvalid htokens).1.1 ?_
    decide +kernel
  exact ⟨hvalid, htokens, hfinite, (evaluate_dump hvalid htokens).2 hfinite⟩

end Calculator
end Reckoner

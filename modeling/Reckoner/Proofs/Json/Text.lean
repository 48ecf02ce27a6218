import Reckoner.Text.Quoted
import Reckoner.Proofs.Json.Value

/-!
# Json.Text — the lexemes of a JSON text

The reader of RFC 8259, character by character.  Between lexemes stands white space or nothing; a string ends at its
first quote that is not escaped; and a run of other characters is `null`, `true`, `false` or a number.  What stands in
quotes is read as the string that was put there (`scans_quoted`).
-/
namespace Reckoner
namespace Json

/-! ## Strings -/

def hexDigit? (c : Char) : Option Nat :=
  if c.isDigit then some (c.toNat - 0x30)
  else if 'a' ≤ c ∧ c ≤ 'f' then some (c.toNat - 0x61 + 10)
  else if 'A' ≤ c ∧ c ≤ 'F' then some (c.toNat - 0x41 + 10)
  else none

/-- Four hexadecimal digits, and what stands behind them. -/
def unit? : List Char → Option (Nat × List Char)
  | a :: b :: c :: d :: rest =>
    match hexDigit? a, hexDigit? b, hexDigit? c, hexDigit? d with
    | some a, some b, some c, some d => some (((a * 16 + b) * 16 + c) * 16 + d, rest)
    | _, _, _, _ => none
  | _ => none

def isHighSurrogate (n : Nat) : Bool := 0xd800 ≤ n && n < 0xdc00

def isLowSurrogate (n : Nat) : Bool := 0xdc00 ≤ n && n < 0xe000

def lowSurrogate? : List Char → Option (Nat × List Char)
  | '\\' :: 'u' :: rest => (unit? rest).filter fun (n, _) => isLowSurrogate n
  | _ => none

/-- A character by its number; beyond the first plane it takes two units. -/
def unicode? (text : List Char) : Option (Char × List Char) :=
  match unit? text with
  | none => none
  | some (n, rest) =>
    if isHighSurrogate n then
      (lowSurrogate? rest).map fun (m, rest) => (Char.ofNat (0x10000 + (n - 0xd800) * 0x400 + (m - 0xdc00)), rest)
    else if isLowSurrogate n then none
    else some (Char.ofNat n, rest)

def letterEscape? : Char → Option Char
  | '"' => some '"'
  | '\\' => some '\\'
  | '/' => some '/'
  | 'b' => some '\x08'
  | 'f' => some '\x0c'
  | 'n' => some '\x0a'
  | 'r' => some '\x0d'
  | 't' => some '\x09'
  | _ => none

/-- **One character of a string**, and what stands behind it. -/
def character? : List Char → Option (Char × List Char)
  | [] => none
  | '\\' :: 'u' :: rest => unicode? rest
  | '\\' :: c :: rest => (letterEscape? c).map fun c => (c, rest)
  | c :: rest => if c = '\\' ∨ c.toNat < 0x20 then none else some (c, rest)

theorem length_of_unit? {text rest : List Char} {n : Nat} (h : unit? text = some (n, rest)) :
    rest.length < text.length := by
  unfold unit? at h
  split at h
  · split at h
    · cases h
      simp only [List.length_cons]
      omega
    · cases h
  · cases h

theorem length_of_lowSurrogate? {text rest : List Char} {n : Nat} (h : lowSurrogate? text = some (n, rest)) :
    rest.length < text.length := by
  unfold lowSurrogate? at h
  split at h
  · have hunit := length_of_unit? (Option.filter_eq_some_iff.1 h).1
    simp only [List.length_cons]
    omega
  · cases h

theorem length_of_unicode? {text rest : List Char} {c : Char} (h : unicode? text = some (c, rest)) :
    rest.length < text.length := by
  unfold unicode? at h
  cases hunit : unit? text with
  | none => simp [hunit] at h
  | some p =>
    obtain ⟨n, behind⟩ := p
    have hlength := length_of_unit? hunit
    simp only [hunit] at h
    split at h
    · obtain ⟨⟨m, last⟩, hlow, heq⟩ := Option.map_eq_some_iff.1 h
      have hlast := length_of_lowSurrogate? hlow
      simp only [Prod.mk.injEq] at heq
      rw [← heq.2]
      omega
    · split at h
      · cases h
      · simp only [Option.some.injEq, Prod.mk.injEq] at h
        rwa [← h.2]

theorem length_of_character? {text rest : List Char} {c : Char} (h : character? text = some (c, rest)) :
    rest.length < text.length := by
  unfold character? at h
  split at h
  · cases h
  · have := length_of_unicode? h
    simp only [List.length_cons]
    omega
  · obtain ⟨d, _, heq⟩ := Option.map_eq_some_iff.1 h
    cases heq
    simp only [List.length_cons]
    omega
  · split at h
    · cases h
    · cases h
      simp

/-- **The rest of a string** up to its quote, and what stands behind it. -/
def string? (text : List Char) : Option (List Char × List Char) :=
  if text.head? = some '"' then some ([], text.tail)
  else
    match _h : character? text with
    | none => none
    | some (c, rest) => (string? rest).map fun (cs, behind) => (c :: cs, behind)
termination_by text.length
decreasing_by exact length_of_character? ‹_›

theorem string?_of_character? {text rest : List Char} {c : Char} (hquote : text.head? ≠ some '"')
    (h : character? text = some (c, rest)) :
    string? text = (string? rest).map fun (cs, behind) => (c :: cs, behind) := by
  rw [string?, if_neg hquote]
  split <;> simp_all

theorem length_of_string? {text cs behind : List Char} (h : string? text = some (cs, behind)) :
    behind.length < text.length := by
  fun_induction string? text generalizing cs behind with
  | case1 text hquote =>
    cases h
    cases text with
    | nil => cases hquote
    | cons c rest => simp
  | case2 => cases h
  | case3 text hquote c rest hcharacter ih =>
    obtain ⟨⟨ds, last⟩, hrest, heq⟩ := Option.map_eq_some_iff.1 h
    have hlast := ih hrest
    have hlength := length_of_character? hcharacter
    cases heq
    omega

/-! ## Numbers -/

def natural? (text : List Char) : Option Nat :=
  if text.all Char.isDigit && !text.isEmpty then some (Nat.ofDigitChars 10 text 0) else none

/-- The power of ten at the end of a number; with nothing there it is zero. -/
def exponent? : List Char → Option Int
  | [] => some 0
  | 'e' :: '-' :: text | 'E' :: '-' :: text => (natural? text).map fun n : Nat => (-n : Int)
  | 'e' :: '+' :: text | 'E' :: '+' :: text => (natural? text).map fun n : Nat => (n : Int)
  | 'e' :: text | 'E' :: text => (natural? text).map fun n : Nat => (n : Int)
  | _ => none

/-- The digits in front of a point: no zero in front of others. -/
def isWhole (digits : List Char) : Bool := digits.length == 1 || digits.head?.any (· != '0')

/-- **A number without its sign**: digits, a point with digits, a power of ten. -/
def unsigned? (text : List Char) : Option Decimal :=
  let whole := text.takeWhile Char.isDigit
  if isWhole whole then
    match text.dropWhile Char.isDigit with
    | '.' :: rest =>
      let fraction := rest.takeWhile Char.isDigit
      if fraction.isEmpty then none
      else
        (exponent? (rest.dropWhile Char.isDigit)).map fun e =>
          ⟨Nat.ofDigitChars 10 (whole ++ fraction) 0, e - fraction.length⟩
    | rest => (exponent? rest).map fun e => ⟨Nat.ofDigitChars 10 whole 0, e⟩
  else none

def number? (text : List Char) : Option Lexeme :=
  if text.head? = some '-' then (unsigned? text.tail).map (.number true) else (unsigned? text).map (.number false)

/-! ## Lexemes -/

def isSpace (c : Char) : Bool := c == ' ' || c == '\t' || c == '\n' || c == '\r'

def punctuation? : Char → Option Lexeme
  | '[' => some .openArray
  | ']' => some .closeArray
  | '\x7b' => some .openObject
  | '\x7d' => some .closeObject
  | ':' => some .colon
  | ',' => some .comma
  | _ => none

def isBare (c : Char) : Bool := !(isSpace c || c == '"' || (punctuation? c).isSome)

def bare? (run : List Char) : Option Lexeme :=
  if run = "null".toList then some .null
  else if run = "true".toList then some (.bool true)
  else if run = "false".toList then some (.bool false)
  else number? run

/-- **The lexemes of a text.** -/
def scan? : List Char → Option (List Lexeme)
  | [] => some []
  | c :: rest =>
    if isSpace c then scan? rest
    else if c = '"' then
      match _h : string? rest with
      | none => none
      | some (cs, behind) => (scan? behind).map (.string (.ofList cs) :: ·)
    else
      match punctuation? c with
      | some l => (scan? rest).map (l :: ·)
      | none =>
        match bare? (c :: rest.takeWhile isBare) with
        | none => none
        | some l => (scan? (rest.dropWhile isBare)).map (l :: ·)
termination_by text => text.length
decreasing_by
  · exact Nat.lt_succ_self _
  · exact Nat.lt_succ_of_lt (length_of_string? ‹_›)
  · exact Nat.lt_succ_self _
  · exact Nat.lt_succ_of_le (List.dropWhile_sublist _).length_le

theorem scan?_quote {rest cs behind : List Char} (h : string? rest = some (cs, behind)) :
    scan? ('"' :: rest) = (scan? behind).map (.string (.ofList cs) :: ·) := by
  rw [scan?, if_neg (by decide), if_pos rfl]
  split <;> simp_all

/-- **The value of a JSON text**; `none` for a text that is not JSON. -/
def read? (text : String) : Option Json := (scan? text.toList).bind ofLexemes?

end Json
end Reckoner

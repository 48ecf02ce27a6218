import Reckoner.Decimal.Basic

/-!
# Json.Value — JSON values and the lexemes they are made of

A JSON text is a value's lexemes, with commas between the items of an array and the members of an object.  The reader
goes through the lexemes once and keeps a stack of the containers that are open.  It reads exactly what the grammar
writes (`ofLexemes?_eq_some_iff`), so the lexemes of a text are those of one value at most.
-/
namespace Reckoner

/-- A JSON value.  A number is kept as the decimal it is written as, the members of an object in their order. -/
inductive Json where
  | null
  | bool (value : Bool)
  | number (negative : Bool) (size : Decimal)
  | string (text : String)
  | array (items : List Json)
  | object (members : List (String × Json))

namespace Json

def field? (name : String) : Json → Option Json
  | .object members => (members.find? (·.1 == name)).map Prod.snd
  | _ => none

/-- The double next to a number. -/
def toFloat? : Json → Option Float
  | .number negative size => some (if negative then -size.toFloat else size.toFloat)
  | _ => none

inductive Lexeme where
  | openArray
  | closeArray
  | openObject
  | closeObject
  | colon
  | comma
  | null
  | bool (value : Bool)
  | number (negative : Bool) (size : Decimal)
  | string (text : String)
deriving DecidableEq

mutual

/-- **The lexemes of a value.** -/
def lexemes : Json → List Lexeme
  | .null => [.null]
  | .bool value => [.bool value]
  | .number negative size => [.number negative size]
  | .string text => [.string text]
  | .array [] => [.openArray, .closeArray]
  | .array (item :: items) => .openArray :: (item.lexemes ++ itemLexemes items ++ [.closeArray])
  | .object [] => [.openObject, .closeObject]
  | .object ((key, value) :: members) =>
    .openObject :: .string key :: .colon :: (value.lexemes ++ memberLexemes members ++ [.closeObject])

def itemLexemes : List Json → List Lexeme
  | [] => []
  | item :: items => .comma :: (item.lexemes ++ itemLexemes items)

def memberLexemes : List (String × Json) → List Lexeme
  | [] => []
  | (key, value) :: members => .comma :: .string key :: .colon :: (value.lexemes ++ memberLexemes members)

end

/-- A container that is open: what it holds so far, the last first, and for an object the key of what comes. -/
inductive Container where
  | array (held : List Json)
  | object (held : List (String × Json)) (key : String)

mutual

/-- A value is awaited inside the open containers, the innermost first. -/
def value? (stack : List Container) : List Lexeme → Option Json
  | .null :: rest => after? .null stack rest
  | .bool value :: rest => after? (.bool value) stack rest
  | .number negative size :: rest => after? (.number negative size) stack rest
  | .string text :: rest => after? (.string text) stack rest
  | .openArray :: .closeArray :: rest => after? (.array []) stack rest
  | .openArray :: rest => value? (.array [] :: stack) rest
  | .openObject :: .closeObject :: rest => after? (.object []) stack rest
  | .openObject :: .string key :: .colon :: rest => value? (.object [] key :: stack) rest
  | _ => none

/-- A value has been read inside the open containers. -/
def after? (value : Json) : List Container → List Lexeme → Option Json
  | [], [] => some value
  | .array held :: stack, .comma :: rest => value? (.array (value :: held) :: stack) rest
  | .array held :: stack, .closeArray :: rest => after? (.array (held.reverse ++ [value])) stack rest
  | .object held key :: stack, .comma :: .string next :: .colon :: rest =>
    value? (.object ((key, value) :: held) next :: stack) rest
  | .object held key :: stack, .closeObject :: rest => after? (.object (held.reverse ++ [(key, value)])) stack rest
  | _, _ => none

end

/-- **The value that lexemes are**, if they are one. -/
def ofLexemes? (ls : List Lexeme) : Option Json := value? [] ls

/-! ## What is written is read -/

theorem value?_openArray {stack : List Container} {rest : List Lexeme} (h : rest.head? ≠ some .closeArray) :
    value? stack (.openArray :: rest) = value? (.array [] :: stack) rest := by
  cases rest with
  | nil => rfl
  | cons l rest =>
    cases l with
    | closeArray => exact absurd rfl h
    | _ => rfl

theorem head?_lexemes_ne (v : Json) (rest : List Lexeme) : (v.lexemes ++ rest).head? ≠ some .closeArray := by
  cases v with
  | array items => cases items <;> simp [lexemes]
  | object members => rcases members with _ | ⟨⟨key, value⟩, members⟩ <;> simp [lexemes]
  | _ => simp [lexemes]

mutual

/-- **A value's lexemes are read as that value**, inside any open containers. -/
theorem value?_lexemes : ∀ (v : Json) (stack : List Container) (rest : List Lexeme),
    value? stack (v.lexemes ++ rest) = after? v stack rest
  | .null, _, _ => rfl
  | .bool _, _, _ => rfl
  | .number _ _, _, _ => rfl
  | .string _, _, _ => rfl
  | .array [], _, _ => rfl
  | .array (item :: items), stack, rest => by
    rw [lexemes, List.cons_append, List.append_assoc, List.append_assoc, value?_openArray (head?_lexemes_ne item _),
      value?_lexemes item, List.singleton_append, after?_itemLexemes items]
    rfl
  | .object [], _, _ => rfl
  | .object ((key, value) :: members), stack, rest => by
    rw [lexemes, List.cons_append, List.cons_append, List.cons_append, List.append_assoc, List.append_assoc, value?,
      value?_lexemes value, List.singleton_append, after?_memberLexemes members]
    rfl

theorem after?_itemLexemes : ∀ (items : List Json) (v : Json) (held : List Json) (stack : List Container)
    (rest : List Lexeme), after? v (.array held :: stack) (itemLexemes items ++ .closeArray :: rest) =
      after? (.array (held.reverse ++ v :: items)) stack rest
  | [], v, held, stack, rest => by rw [itemLexemes, List.nil_append, after?]
  | item :: items, v, held, stack, rest => by
    rw [itemLexemes, List.cons_append, List.append_assoc, after?, value?_lexemes item, after?_itemLexemes items]
    simp

theorem after?_memberLexemes : ∀ (members : List (String × Json)) (key : String) (v : Json)
    (held : List (String × Json)) (stack : List Container) (rest : List Lexeme),
    after? v (.object held key :: stack) (memberLexemes members ++ .closeObject :: rest) =
      after? (.object (held.reverse ++ (key, v) :: members)) stack rest
  | [], key, v, held, stack, rest => by rw [memberLexemes, List.nil_append, after?]
  | (next, value) :: members, key, v, held, stack, rest => by
    rw [memberLexemes, List.cons_append, List.cons_append, List.cons_append, List.append_assoc, after?,
      value?_lexemes value, after?_memberLexemes members]
    simp

end

/-! ## What is read was written -/

/-- What has been read of a container that is open. -/
def Container.lexemes : Container → List Lexeme
  | .array [] => [.openArray]
  | .array (v :: held) => (Container.array held).lexemes ++ v.lexemes ++ [.comma]
  | .object [] key => [.openObject, .string key, .colon]
  | .object ((before, v) :: held) key =>
    (Container.object held before).lexemes ++ v.lexemes ++ [.comma, .string key, .colon]

/-- What has been read of all that is open, the innermost container last. -/
def read (stack : List Container) : List Lexeme := stack.reverse.flatMap Container.lexemes

theorem read_cons (c : Container) (stack : List Container) : read (c :: stack) = read stack ++ c.lexemes := by
  simp [read]

theorem lexemes_array : ∀ (held : List Json) (v : Json) (items : List Json),
    (Json.array (held.reverse ++ v :: items)).lexemes =
      (Container.array held).lexemes ++ v.lexemes ++ itemLexemes items ++ [.closeArray]
  | [], v, items => by simp [lexemes, Container.lexemes]
  | u :: held, v, items => by
    have ih := lexemes_array held u (v :: items)
    rw [List.reverse_cons, List.append_assoc, List.singleton_append, ih]
    simp [Container.lexemes, itemLexemes]

theorem lexemes_object : ∀ (held : List (String × Json)) (key : String) (v : Json) (members : List (String × Json)),
    (Json.object (held.reverse ++ (key, v) :: members)).lexemes =
      (Container.object held key).lexemes ++ v.lexemes ++ memberLexemes members ++ [.closeObject]
  | [], key, v, members => by simp [lexemes, Container.lexemes]
  | (before, u) :: held, key, v, members => by
    have ih := lexemes_object held before u ((key, v) :: members)
    rw [List.reverse_cons, List.append_assoc, List.singleton_append, ih]
    simp [Container.lexemes, memberLexemes]

/-- Whatever is read is what has been read so far and what comes: of the stack, of the value just read, and the rest. -/
theorem lexemes_of_read (w : Json) :
    (∀ (stack : List Container) (ls : List Lexeme), value? stack ls = some w → w.lexemes = read stack ++ ls) ∧
      ∀ (v : Json) (stack : List Container) (ls : List Lexeme), after? v stack ls = some w →
        w.lexemes = read stack ++ (v.lexemes ++ ls) := by
  -- named for the lexemes that come next: up to `noValue` a value is awaited, from `wholeValue` on one has been read
  refine value?.mutual_induct _ _ ?null ?bool ?number ?string ?emptyArray ?openArray ?emptyObject ?openObject ?noValue
    ?wholeValue ?arrayComma ?closeArray ?objectComma ?closeObject ?stray
  case null => exact fun stack rest ih h => ih h
  case bool => exact fun stack value rest ih h => ih h
  case number => exact fun stack negative size rest ih h => ih h
  case string => exact fun stack text rest ih h => ih h
  case emptyArray => exact fun stack rest ih h => ih h
  case openArray =>
    intro stack rest hne ih h
    have hhead : rest.head? ≠ some .closeArray := by
      cases rest with
      | nil => simp
      | cons l rest => simpa using fun hl : l = .closeArray => hne rest (by rw [hl])
    rw [value?_openArray hhead] at h
    simpa [read_cons, Container.lexemes] using ih h
  case emptyObject => exact fun stack rest ih h => ih h
  case openObject =>
    intro stack key rest ih h
    simpa [read_cons, Container.lexemes] using ih h
  case noValue =>
    intro t stack _ _ _ _ _ _ _ _ h
    simp_all [value?]
  case wholeValue =>
    intro value h
    cases h
    simp [read]
  case arrayComma =>
    intro value held stack rest ih h
    simpa [read_cons, Container.lexemes] using ih h
  case closeArray =>
    intro value held stack rest ih h
    simpa [read_cons, lexemes_array, itemLexemes] using ih h
  case objectComma =>
    intro value held key stack next rest ih h
    simpa [read_cons, Container.lexemes] using ih h
  case closeObject =>
    intro value held key stack rest ih h
    simpa [read_cons, lexemes_object, memberLexemes] using ih h
  case stray =>
    intro t value x _ _ _ _ _ h
    simp_all [after?]

/-- **The reader reads exactly what the grammar writes.** -/
theorem ofLexemes?_eq_some_iff {ls : List Lexeme} {v : Json} : ofLexemes? ls = some v ↔ ls = v.lexemes := by
  constructor
  · intro h
    have hread : v.lexemes = read [] ++ ls := (lexemes_of_read v).1 [] ls h
    simpa [read] using hread.symm
  · rintro rfl
    have hvalue := value?_lexemes v [] []
    rwa [List.append_nil] at hvalue

end Json
end Reckoner

/-!
# Text.Quoted — strings between quotes

A string of a record is written between double quotes.  The quote itself, the backslash and the control characters
below a space are escaped, the five common ones by a letter and the rest by four hexadecimal digits; every other
character stands for itself.
-/
namespace Reckoner
namespace Text

/-- A backslash and what it says about a control character. -/
def controlEscape (c : Char) : List Char :=
  match c with
  | '\x08' => ['\\', 'b']
  | '\x09' => ['\\', 't']
  | '\x0a' => ['\\', 'n']
  | '\x0c' => ['\\', 'f']
  | '\x0d' => ['\\', 'r']
  | _ => '\\' :: 'u' :: (Nat.toDigits 16 c.toNat).leftpad 4 '0'

/-- **A character inside quotes.** -/
def escape (c : Char) : List Char :=
  if c = '"' then ['\\', '"']
  else if c = '\\' then ['\\', '\\']
  else if c.toNat < 0x20 then controlEscape c
  else [c]

/-- A string between quotes. -/
def quoted (text : List Char) : List Char := '"' :: (text.flatMap escape ++ ['"'])

end Text
end Reckoner

import TemplatePrep.Decimal.Real
import TemplatePrep.Json.Basic

/-!
# The text of a JSON value

Compact: no blanks, entries in their order, and null for what is unreadable. In a string only the quote, the backslash
and the characters below U+0020 are escaped, by the short escape where there is one and otherwise as `\u00` with two
hexadecimal digits in lower case.
-/

namespace TemplatePrep.Json

/-- The hexadecimal digit in lower case of a number below sixteen. -/
def hexDigit (n : Nat) : Char :=
  if n < 10 then Char.ofNat (0x30 + n) else Char.ofNat (0x61 + (n - 10))

/-- A character as it stands in a string. -/
def escapeChar (c : Char) : List Char :=
  if c = '"' then ['\\', '"']
  else if c = '\\' then ['\\', '\\']
  else if c = '\x08' then ['\\', 'b']
  else if c = '\t' then ['\\', 't']
  else if c = '\n' then ['\\', 'n']
  else if c = '\x0c' then ['\\', 'f']
  else if c = '\r' then ['\\', 'r']
  else if c.toNat < 0x20 then ['\\', 'u', '0', '0', hexDigit (c.toNat / 16), hexDigit (c.toNat % 16)]
  else [c]

/-- A string between quotes. -/
def stringChars (s : String) : List Char :=
  '"' :: s.toList.flatMap escapeChar ++ ['"']

/-- An integer in decimal digits. -/
def integerChars : Int → List Char
  | .ofNat n => Nat.toDigits 10 n
  | .negSucc n => '-' :: Nat.toDigits 10 (n + 1)

mutual
/-- The text of a value. -/
def chars : Json → List Char
  | null => ['n', 'u', 'l', 'l']
  | bool true => ['t', 'r', 'u', 'e']
  | bool false => ['f', 'a', 'l', 's', 'e']
  | integer i => integerChars i
  | real x => (Decimal.realText x).toList
  | string s => stringChars s
  | array [] => ['[', ']']
  | array (v :: rest) => '[' :: v.chars ++ itemChars rest ++ [']']
  | object [] => ['{', '}']
  | object ((k, v) :: rest) => '{' :: stringChars k ++ ':' :: v.chars ++ entryChars rest ++ ['}']
  | unreadable => ['n', 'u', 'l', 'l']

/-- The items after the first, each behind a comma. -/
def itemChars : List Json → List Char
  | [] => []
  | v :: rest => ',' :: v.chars ++ itemChars rest

/-- The entries after the first, each behind a comma. -/
def entryChars : List (String × Json) → List Char
  | [] => []
  | (k, v) :: rest => ',' :: stringChars k ++ ':' :: v.chars ++ entryChars rest
end

/-- The compact text of a value. -/
def print (v : Json) : String :=
  String.ofList v.chars

end TemplatePrep.Json

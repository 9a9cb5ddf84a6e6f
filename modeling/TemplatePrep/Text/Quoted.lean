import TemplatePrep.Text.Unprintable

/-!
# Quoted text

The form in which error messages show a string: between double quotes, with short escapes for the quote, the
backslash, NUL, tab, line feed and carriage return, and every other unprintable character by its number.
-/

namespace TemplatePrep.Text

/-- A character as it stands inside quotes. -/
def quoteChar (c : Char) : List Char :=
  if c = '"' then ['\\', '"']
  else if c = '\\' then ['\\', '\\']
  else if c = '\x00' then ['\\', '0']
  else if c = '\t' then ['\\', 't']
  else if c = '\n' then ['\\', 'n']
  else if c = '\r' then ['\\', 'r']
  else if isUnprintable c then '\\' :: 'u' :: '{' :: Nat.toDigits 16 c.toNat ++ ['}']
  else [c]

/-- A string between quotes. -/
def quote (s : String) : String :=
  String.ofList ('"' :: s.toList.flatMap quoteChar ++ ['"'])

end TemplatePrep.Text

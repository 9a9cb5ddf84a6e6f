/-!
# Percent encoding of a URI component

Letters, digits and `- _ . ! ~ * ' ( )` stand for themselves. Every other character is written byte by byte of its
UTF-8 form, each byte as a percent sign and two hexadecimal digits in upper case.
-/

namespace TemplatePrep.Text

/-- Whether a character stands for itself in a URI component. -/
def isUnreserved (c : Char) : Bool :=
  c.isAlphanum || c ∈ ['-', '_', '.', '!', '~', '*', '\'', '(', ')']

/-- The hexadecimal digit in upper case of a number below sixteen. -/
def upperHexDigit (n : Nat) : Char :=
  if n < 10 then Char.ofNat (0x30 + n) else Char.ofNat (0x41 + (n - 10))

/-- A byte as a percent sign and two digits. -/
def percentByte (b : UInt8) : List Char :=
  ['%', upperHexDigit (b.toNat / 16), upperHexDigit (b.toNat % 16)]

/-- A character in a URI component. -/
def percentChar (c : Char) : List Char :=
  if isUnreserved c then [c] else (String.utf8EncodeChar c).flatMap percentByte

/-- A string as a URI component. -/
def percentEncode (s : String) : String :=
  String.ofList (s.toList.flatMap percentChar)

end TemplatePrep.Text

import TemplatePrep.Decimal.Real
import TemplatePrep.Json.Basic

/-!
# Strings and numbers in JSON text

The strict grammar: a number has no sign but a minus, no needless leading zero, and digits on both sides of its point; a
string holds no raw control character. Every reader takes the text in front of it and returns what it read with the text
that is left.

Grammar comes first and meaning after it. A string is read as its pieces, and only then are the pieces joined to text,
which fails where half of a surrogate pair stands without its other half. In the same way a number is read as its
digits, and fails to be a double where it is too large.
-/

namespace TemplatePrep.Json

/-! ## Strings -/

/-- The value of a hexadecimal digit of either case. -/
def hexValue? (c : Char) : Option Nat :=
  if '0' ≤ c ∧ c ≤ '9' then some (c.toNat - 0x30)
  else if 'a' ≤ c ∧ c ≤ 'f' then some (c.toNat - 0x61 + 10)
  else if 'A' ≤ c ∧ c ≤ 'F' then some (c.toNat - 0x41 + 10)
  else none

/-- The number of four hexadecimal digits. -/
def hexFour? (a b c d : Char) : Option Nat := do
  let w ← hexValue? a
  let x ← hexValue? b
  let y ← hexValue? c
  let z ← hexValue? d
  some (((w * 16 + x) * 16 + y) * 16 + z)

/-- The character that a backslash and one more character stand for. -/
def shortEscape? : Char → Option Char
  | '"' => some '"'
  | '\\' => some '\\'
  | '/' => some '/'
  | 'b' => some '\x08'
  | 'f' => some '\x0c'
  | 'n' => some '\n'
  | 'r' => some '\r'
  | 't' => some '\t'
  | _ => none

/-- A piece of a string. -/
inductive Piece where
  /-- A character, as itself or by its short escape. -/
  | char (c : Char)
  /-- A code unit of 16 bits, by its number. -/
  | unit (n : Nat)
deriving DecidableEq

/-- Puts a piece in front of what was read after it. -/
def consPiece (p : Piece) : List Piece × List Char → List Piece × List Char
  | (pieces, rest) => (p :: pieces, rest)

/-- Reads the pieces of a string and its closing quote. -/
def readPieces : List Char → Option (List Piece × List Char)
  | [] => none
  | '"' :: rest => some ([], rest)
  | '\\' :: 'u' :: a :: b :: c :: d :: rest =>
    match hexFour? a b c d with
    | none => none
    | some n => (readPieces rest).map (consPiece (.unit n))
  | '\\' :: e :: rest =>
    match shortEscape? e with
    | none => none
    | some c => (readPieces rest).map (consPiece (.char c))
  | c :: rest => if c = '\\' ∨ c.toNat < 0x20 then none else (readPieces rest).map (consPiece (.char c))

/-- Whether a code unit is the first half of a surrogate pair. -/
def isHighHalf (n : Nat) : Bool := 0xD800 ≤ n && n ≤ 0xDBFF

/-- Whether a code unit is the second half of a surrogate pair. -/
def isLowHalf (n : Nat) : Bool := 0xDC00 ≤ n && n ≤ 0xDFFF

/-- The character that two halves of a surrogate pair stand for. -/
def ofHalves (high low : Nat) : Char :=
  Char.ofNat (0x10000 + (high - 0xD800) * 0x400 + (low - 0xDC00))

/-- The text that pieces stand for, or nothing where half of a surrogate pair stands alone. -/
def joinPieces? : List Piece → Option (List Char)
  | [] => some []
  | .char c :: rest => (joinPieces? rest).map (c :: ·)
  | .unit n :: rest =>
    if isHighHalf n then
      match rest with
      | .unit m :: rest => if isLowHalf m then (joinPieces? rest).map (ofHalves n m :: ·) else none
      | _ => none
    else if isLowHalf n then none
    else (joinPieces? rest).map (Char.ofNat n :: ·)

/-- Reads a string after its opening quote: its text, if it has one. -/
def readString (cs : List Char) : Option (Option String × List Char) :=
  match readPieces cs with
  | none => none
  | some (pieces, rest) => some ((joinPieces? pieces).map String.ofList, rest)

/-! ## Numbers -/

/-- The decimal digits at the front of a text, as numbers, and the rest. -/
def spanDigits : List Char → List Nat × List Char
  | [] => ([], [])
  | c :: rest =>
    if '0' ≤ c ∧ c ≤ '9' then
      let (digits, rest) := spanDigits rest
      ((c.toNat - 0x30) :: digits, rest)
    else ([], c :: rest)

/-- The number that digits write, the first being the most significant. -/
def ofDigits (digits : List Nat) : Nat :=
  digits.foldl (fun n d => n * 10 + d) 0

/-- Reads a point and its digits, if there is a point. -/
def readFraction : List Char → Option (Option (List Nat) × List Char)
  | '.' :: cs =>
    match spanDigits cs with
    | ([], _) => none
    | (digits, rest) => some (some digits, rest)
  | cs => some (none, cs)

/-- Reads the optional sign of an exponent: whether it is a minus. -/
def readExponentSign : List Char → Bool × List Char
  | '+' :: cs => (false, cs)
  | '-' :: cs => (true, cs)
  | cs => (false, cs)

/-- Reads an exponent, if there is one. -/
def readExponent : List Char → Option (Option Int × List Char)
  | c :: cs =>
    if c = 'e' ∨ c = 'E' then
      let (negative, cs) := readExponentSign cs
      match spanDigits cs with
      | ([], _) => none
      | (digits, rest) => some (some (if negative then -(ofDigits digits : Int) else ofDigits digits), rest)
    else some (none, c :: cs)
  | [] => some (none, [])

/-- A real as a value. -/
def ofReal? : Option Float → Json
  | some x => real x
  | none => unreadable

/-- The value of a number from its parts. Without point and exponent it is an integer where it fits 64 bits; minus
zero is a real. -/
def ofParts (negative : Bool) (whole : List Nat) (fractional : Option (List Nat)) (exponent : Option Int) : Json :=
  let n := ofDigits whole
  match fractional, exponent with
  | none, none =>
    if negative = false ∧ n < Nat.pow 2 64 then integer n
    else if negative = true ∧ 0 < n ∧ n ≤ Nat.pow 2 63 then integer (-n)
    else ofReal? (Decimal.real? negative whole [] 0)
  | _, _ => ofReal? (Decimal.real? negative whole (fractional.getD []) (exponent.getD 0))

/-- Reads a number after its sign. -/
def readUnsigned (negative : Bool) (cs : List Char) : Option (Json × List Char) :=
  match spanDigits cs with
  | ([], _) => none
  | (0 :: _ :: _, _) => none
  | (whole, rest) => do
    let (fractional, rest) ← readFraction rest
    let (exponent, rest) ← readExponent rest
    some (ofParts negative whole fractional exponent, rest)

/-- Reads a number. -/
def readNumber : List Char → Option (Json × List Char)
  | '-' :: cs => readUnsigned true cs
  | cs => readUnsigned false cs

end TemplatePrep.Json

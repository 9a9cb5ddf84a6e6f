import TemplatePrep.Decimal.Shortest

/-!
# Reals as decimal text

Reading: the leading digits that fit 64 bits, as a double, are scaled by one rounded multiplication or division with
a power of ten. Writing: the shortest decimal, positional from `10^(-5)` up to `10^16` and with a signed exponent
outside, so always with a point or an exponent.
-/

namespace TemplatePrep.Decimal

/-- The largest number of 64 bits. -/
def maxWord : Nat := Nat.pow 2 64 - 1

/-- Reads whole digits into a significand and counts those that no longer fit 64 bits. -/
def takeWhole : Nat → List Nat → Nat × Nat
  | significand, [] => (significand, 0)
  | significand, d :: rest =>
    if significand * 10 + d ≤ maxWord then takeWhole (significand * 10 + d) rest
    else (significand, rest.length + 1)

/-- Appends fraction digits to a significand as long as they fit 64 bits, and counts them. The rest is dropped. -/
def takeFraction : Nat → List Nat → Nat × Nat
  | significand, [] => (significand, 0)
  | significand, d :: rest =>
    if significand * 10 + d ≤ maxWord then
      let (s, n) := takeFraction (significand * 10 + d) rest
      (s, n + 1)
    else (significand, 0)

/-- The double nearest to `10^n`. -/
def powerOfTen (n : Nat) : Float := Float.ofScientific 1 false n

/-- Divides by `10^n`, by at most `10^308` at a time. A double is zero after the second such step, so three suffice. -/
def scaleDown : Nat → Float → Nat → Float
  | 0, x, _ => x
  | steps + 1, x, n => if n ≤ 308 then x / powerOfTen n else scaleDown steps (x / powerOfTen 308) (n - 308)

/-- `significand · 10^exponent` as a double, or nothing where it is too large. -/
def scale? (significand : Nat) (exponent : Int) : Option Float :=
  let x := significand.toUInt64.toFloat
  if significand = 0 then some x
  else if exponent < 0 then some (if (-exponent).toNat ≤ 1000 then scaleDown 4 x (-exponent).toNat else 0.0)
  else if exponent ≤ 308 then
    let y := x * powerOfTen exponent.toNat
    if y.isInf then none else some y
  else none

/-- The real written with the given sign, whole digits, fraction digits and exponent, or nothing where it is too
large. -/
def real? (negative : Bool) (whole fractional : List Nat) (exponent : Int) : Option Float :=
  let (s, skipped) := takeWhole 0 whole
  let (s, taken) := takeFraction s fractional
  (scale? s (exponent + skipped - taken)).map fun x => if negative then -x else x

/-- An exponent as it is written, always with its sign. -/
def exponentMark : Int → List Char
  | .ofNat n => 'e' :: '+' :: Nat.toDigits 10 n
  | .negSucc n => 'e' :: '-' :: Nat.toDigits 10 (n + 1)

/-- The layout of a positive decimal whose shortest digits are `digits` and whose last digit stands at `10^k`. -/
def layout (digits : List Char) (k : Int) : List Char :=
  let length := digits.length
  let point := k + length
  if 0 ≤ k ∧ point ≤ 16 then digits ++ List.replicate k.toNat '0' ++ ['.', '0']
  else if 0 < point ∧ point ≤ 16 then digits.take point.toNat ++ '.' :: digits.drop point.toNat
  else if -5 < point ∧ point ≤ 0 then '0' :: '.' :: List.replicate (-point).toNat '0' ++ digits
  else
    let mark := exponentMark (point - 1)
    match digits with
    | [] => mark
    | [d] => d :: mark
    | d :: rest => d :: '.' :: rest ++ mark

/-- The text of a double. Reading never makes one that is not finite; such a one would be null. -/
def realText (x : Float) : String :=
  if x.isFinite then
    let bits := x.toBits
    let sign := if bits.toNat < Nat.pow 2 63 then [] else ['-']
    let digits :=
      if x == 0.0 then ['0', '.', '0']
      else
        let s := (Binary.ofBits bits).shortest
        layout (Nat.toDigits 10 s.digits) s.exponent
    String.ofList (sign ++ digits)
  else "null"

end TemplatePrep.Decimal

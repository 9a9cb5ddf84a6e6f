/-!
# The shortest decimal of a double

A finite double is `m · 2^q` with `m < 2^53`. The reals that round to it form an interval around it, ends included
exactly when `m` is even. Its shortest decimal is `c · 10^k` for the coarsest grid of multiples of `10^k` that meets
the interval, and on that grid the point nearest to the double, of two equally near ones the one with even `c`. All
comparisons are made in exact natural numbers.
-/

namespace TemplatePrep.Decimal

/-- A positive double taken apart: its value is `mantissa · 2^exponent`. `narrow` says that the next double below is
half as far away as the next one above. -/
structure Binary where
  mantissa : Nat
  exponent : Int
  narrow : Bool

/-- Takes the bits of a double apart, leaving out the sign. -/
def Binary.ofBits (bits : UInt64) : Binary :=
  let fraction : Nat := bits.toNat % Nat.pow 2 52
  let field : Nat := bits.toNat / Nat.pow 2 52 % Nat.pow 2 11
  if field = 0 then ⟨fraction, -1074, false⟩
  else ⟨fraction + Nat.pow 2 52, (field : Int) - 1075, fraction = 0 && 1 < field⟩

/-- A decimal `digits · 10^exponent`. -/
structure Scaled where
  digits : Nat
  exponent : Int
deriving DecidableEq

/-- The numerator and denominator of `n · base^e`. -/
def fraction (n base : Nat) (e : Int) : Nat × Nat :=
  if 0 ≤ e then (n * Nat.pow base e.toNat, 1) else (n, Nat.pow base (-e).toNat)

/-- The two cross products that compare `quarters / 4 · 2^q` with `c · 10^k`. -/
def cross (quarters : Nat) (q : Int) (c : Nat) (k : Int) : Nat × Nat :=
  let (a, b) := fraction quarters 2 (q - 2)
  let (x, y) := fraction c 10 k
  (a * y, x * b)

/-- Whether `c · 10^k` rounds to the double. -/
def Binary.holds (v : Binary) (c : Nat) (k : Int) : Bool :=
  let below := if v.narrow then 4 * v.mantissa - 1 else 4 * v.mantissa - 2
  let (low, point) := cross below v.exponent c k
  let (high, point') := cross (4 * v.mantissa + 2) v.exponent c k
  if v.mantissa % 2 = 0 then low ≤ point && point' ≤ high else low < point && point' < high

/-- The distance of the double from `c · 10^k`, in a unit that depends on `k` alone. -/
def Binary.distance (v : Binary) (c : Nat) (k : Int) : Nat :=
  let (value, point) := cross (4 * v.mantissa) v.exponent c k
  max value point - min value point

/-- Whether `c` is to be taken rather than `c + 1`: the nearer point, or of two equally near ones the even one. -/
def Binary.takesLower (v : Binary) (c : Nat) (k : Int) : Bool :=
  let lower := v.distance c k
  let upper := v.distance (c + 1) k
  lower < upper || (lower == upper && c % 2 == 0)

/-- The better of the double's two neighbours among the multiples of `10^k`, if one of them rounds to the double. -/
def Binary.onGrid? (v : Binary) (k : Int) : Option Scaled :=
  let (value, unit) := cross (4 * v.mantissa) v.exponent 1 k
  let c := value / unit
  match v.holds c k && c != 0, v.holds (c + 1) k with
  | true, true => some (if v.takesLower c k then ⟨c, k⟩ else ⟨c + 1, k⟩)
  | true, false => some ⟨c, k⟩
  | false, true => some ⟨c + 1, k⟩
  | false, false => none

/-- The shortest decimal of a positive double: the coarsest grid with a hit. The grids run from `10^309` down to
`10^(-324)`, the finest that any double needs. -/
def Binary.shortest (v : Binary) : Scaled :=
  ((List.range 634).findSome? fun i : Nat => v.onGrid? (309 - (i : Int))).getD ⟨0, 0⟩

end TemplatePrep.Decimal

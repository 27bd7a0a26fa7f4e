import DataBinding.Number.Binary64

/-!
# The shortest decimal of a double

A double is written with the fewest significant digits that still read back as the same double.
Every number strictly inside the interval between the midpoints to its two neighbours reads back;
the midpoints themselves do exactly when the mantissa is even, because a tie goes to the even
mantissa.  `Interval.shortest` tries the decimal grids with one digit, two digits, and so on.  On
each grid only the two points around the value can be in the interval if any point is, so two tests
settle a grid.  When both are and the value lies exactly midway, both decimals are as short and as
near as can be; which of them is written is a `Tie`, a decision of whoever writes the number.

All comparisons are between products of whole numbers; nothing is rounded on the way.
-/

set_option autoImplicit false

namespace DataBinding

/-- A positive decimal `digits * 10 ^ exponent`. -/
structure Decimal where
  digits : Nat
  exponent : Int
  deriving DecidableEq, Repr

namespace Decimal

/-- The digits, most significant first. -/
def text (d : Decimal) : List Char := Nat.toDigits 10 d.digits

/-- The power of ten of the first digit. -/
def leading (d : Decimal) : Int := d.exponent + ((d.text.length : Int) - 1)

/-- Drops zeros at the end of the digits, at most `fuel` of them. -/
def trimZeros : Nat → Decimal → Decimal
  | 0, d => d
  | fuel + 1, d =>
    if d.digits ≠ 0 ∧ d.digits % 10 = 0 then trimZeros fuel ⟨d.digits / 10, d.exponent + 1⟩ else d

end Decimal

/-- Where a value goes that lies exactly midway between two whole numbers. -/
inductive Tie where
  /-- To the even one. -/
  | even
  /-- To the greater one. -/
  | up
  deriving DecidableEq, Repr

namespace Tie

/-- The whole number nearest to a quotient. -/
def round (tie : Tie) (num den : Nat) : Nat :=
  match tie with
  | .even => Binary64.roundHalfEven num den
  | .up => if 2 * (num % den) < den then num / den else num / den + 1

end Tie

/-- The numbers that round to one positive double: the double is `value * scale`, its interval runs
from `low * scale` to `high * scale`, where `scale = num / den`, and `closed` says whether the two
ends belong to it. -/
structure Interval where
  low : Nat
  value : Nat
  high : Nat
  closed : Bool
  num : Nat
  den : Nat

namespace Interval

/-- The interval of the double `mantissa * 2 ^ exponent`.  Below a power of two the neighbour is
only half as far away. -/
def ofParts (mantissa : Nat) (exponent : Int) : Interval where
  low := 4 * mantissa - (if mantissa = Nat.pow 2 52 ∧ exponent ≠ -1074 then 1 else 2)
  value := 4 * mantissa
  high := 4 * mantissa + 2
  closed := mantissa % 2 == 0
  num := Nat.pow 2 (exponent - 2).toNat
  den := Nat.pow 2 (2 - exponent).toNat

/-- Whether the decimal lies in the interval. -/
def contains (i : Interval) (d : Decimal) : Bool :=
  let point := d.digits * Nat.pow 10 d.exponent.toNat * i.den
  let low := i.low * i.num * Nat.pow 10 (-d.exponent).toNat
  let high := i.high * i.num * Nat.pow 10 (-d.exponent).toNat
  if i.closed then decide (low ≤ point ∧ point ≤ high) else decide (low < point ∧ point < high)

/-- The power of ten of the value's first digit. -/
def leading (i : Interval) : Int :=
  let num := i.value * i.num
  let guess : Int := ((Nat.toDigits 10 num).length : Int) - ((Nat.toDigits 10 i.den).length : Int)
  if i.den * Nat.pow 10 guess.toNat ≤ num * Nat.pow 10 (-guess).toNat then guess else guess - 1

/-- The point of the grid `10 ^ exponent` that stands for the value, if one lies in the interval:
of the two around the value the one in the interval, of two the nearer. -/
def onGrid (tie : Tie) (i : Interval) (exponent : Int) : Option Decimal :=
  let num := i.value * i.num * Nat.pow 10 (-exponent).toNat
  let den := i.den * Nat.pow 10 exponent.toNat
  let below : Decimal := ⟨num / den, exponent⟩
  let above : Decimal := ⟨num / den + 1, exponent⟩
  let nearer : Decimal := ⟨tie.round num den, exponent⟩
  match i.contains below, i.contains above with
  | true, true => some nearer
  | true, false => some below
  | false, true => some above
  | false, false => none

/-- The first grid with a point in the interval, from one digit to seventeen. -/
def shortest (tie : Tie) (i : Interval) : Decimal :=
  let first := i.leading
  let found := (List.range 17).findSome? fun (n : Nat) ↦ i.onGrid tie (first - (n : Int))
  (found.getD ⟨i.value * i.num / i.den, 0⟩).trimZeros 400

end Interval

/-- The shortest decimal that reads back as a positive double with these parts. -/
def shortestDecimal (tie : Tie) (mantissa : Nat) (exponent : Int) : Decimal :=
  (Interval.ofParts mantissa exponent).shortest tie

end DataBinding

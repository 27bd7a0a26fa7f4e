import DataBinding.Number.Shortest

/-!
# How a number is written

The digits of a number are always a shortest decimal; what differs from one kind of text to the next
is which of two equally near ones is taken and how the digits are laid out.  A `Layout` is those
decisions as data: where ties go, for which sizes the number is written positionally, whether a
whole number keeps its point, and how the special numbers are spelled.
-/

set_option autoImplicit false

namespace DataBinding

/-- The decisions that turn the digits of a number into text. -/
structure Layout where
  /-- Which decimal is taken when two are as short and as near. -/
  tie : Tie
  /-- The least power of ten of the first digit that is still written positionally. -/
  least : Option Int
  /-- The greatest power of ten of the first digit that is still written positionally. -/
  greatest : Option Int
  /-- Whether a whole number written positionally ends in `.0`. -/
  keepsPoint : Bool
  /-- Whether negative zero shows its sign. -/
  signsZero : Bool
  nan : String
  infinity : String

namespace Layout

/-- Whether a first digit of this power of ten is written positionally. -/
def isPositional (l : Layout) (leading : Int) : Bool :=
  l.least.all (fun x ↦ decide (x ≤ leading)) && l.greatest.all (fun x ↦ decide (leading ≤ x))

/-- Positional notation.  Zeros fill the places between the digits and the point. -/
def positional (l : Layout) (d : Decimal) : List Char :=
  let digits := d.text
  let whole := d.leading + 1
  if 0 ≤ d.exponent then
    digits ++ List.replicate d.exponent.toNat '0' ++ (if l.keepsPoint then ['.', '0'] else [])
  else if 0 < whole then digits.take whole.toNat ++ '.' :: digits.drop whole.toNat
  else '0' :: '.' :: List.replicate (-whole).toNat '0' ++ digits

/-- Exponent notation: one digit before the point, and an exponent that always shows its sign. -/
def scientific (d : Decimal) : List Char :=
  let mantissa := match d.text with
    | [] => []
    | [c] => [c]
    | c :: rest => c :: '.' :: rest
  let sign := if d.leading < 0 then '-' else '+'
  mantissa ++ 'e' :: sign :: Nat.toDigits 10 d.leading.natAbs

/-- The text of a positive number with the given parts; zero has only one layout. -/
def magnitude (l : Layout) (mantissa : Nat) (exponent : Int) : List Char :=
  if mantissa = 0 then '0' :: (if l.keepsPoint then ['.', '0'] else [])
  else
    let d := shortestDecimal l.tie mantissa exponent
    if l.isPositional d.leading then l.positional d else scientific d

/-- The text of a number. -/
def write (l : Layout) : Binary64 → String
  | .nan => l.nan
  | .infinite negative => if negative then "-" ++ l.infinity else l.infinity
  | .finite negative m e _ =>
    let sign := if negative && (l.signsZero || m != 0) then ['-'] else []
    String.ofList (sign ++ l.magnitude m e)

/-- Numbers as bound text shows them: positional from a millionth up to below 10^21, zero without a
sign. -/
def shown : Layout := ⟨.up, some (-6), some 20, false, false, "NaN", "Infinity"⟩

/-- Numbers as diagnostics show them: always positional, zero with its sign. -/
def diagnostic : Layout := ⟨.up, none, none, false, true, "NaN", "inf"⟩

/-- Fractional numbers as JSON text has them: positional from a hundred-thousandth up to below
10^16, whole numbers with `.0`.  JSON has no text for the special numbers. -/
def json : Layout := ⟨.even, some (-5), some 15, true, true, "null", "null"⟩

end Layout

end DataBinding

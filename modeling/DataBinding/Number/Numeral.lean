import DataBinding.Number.Binary64

/-!
# Numbers written by hand

A numeral is an optional sign, digits with at most one point among them, and an optional exponent;
at least one digit must stand before the exponent.  The words `inf`, `infinity` and `nan` are
numerals, too, in upper or lower case.  A numeral stands for **the double nearest to its exact
value**.  Where a word of fixed width is asked for, a whole number that the word cannot hold is no
numeral.
-/

set_option autoImplicit false

namespace DataBinding.Numeral

/-- The value of digits. -/
def digitsValue (digits : List Char) : Nat :=
  digits.foldl (fun n c ↦ 10 * n + (c.toNat - '0'.toNat)) 0

/-- A text without its sign, and whether the sign was a minus. -/
def splitSign : List Char → Bool × List Char
  | '-' :: rest => (true, rest)
  | '+' :: rest => (false, rest)
  | rest => (false, rest)

/-- The digits at the start of a text, and what follows them. -/
def splitDigits (s : List Char) : List Char × List Char :=
  (s.takeWhile Char.isDigit, s.dropWhile Char.isDigit)

/-- A whole number without a point or exponent. -/
def readInt? (s : List Char) : Option Int :=
  let (negative, rest) := splitSign s
  let (digits, rest) := splitDigits rest
  if digits.isEmpty || !rest.isEmpty then none
  else some (if negative then -(digitsValue digits : Int) else digitsValue digits)

/-- The exponent at the end of a numeral, zero if there is none. -/
def readExponent? : List Char → Option Int
  | [] => some 0
  | 'e' :: rest => readInt? rest
  | 'E' :: rest => readInt? rest
  | _ => none

/-- The fraction digits after a point, if there is a point, and what follows. -/
def splitFraction : List Char → List Char × List Char
  | '.' :: rest => splitDigits rest
  | rest => ([], rest)

/-- The value of a numeral without its sign. -/
def readMagnitude? (negative : Bool) (s : List Char) : Option Binary64 :=
  let word := String.ofList (s.map Char.toLower)
  if word = "inf" ∨ word = "infinity" then some (.infinite negative)
  else if word = "nan" then some .nan
  else
    let (whole, rest) := splitDigits s
    let (fraction, rest) := splitFraction rest
    if whole.isEmpty && fraction.isEmpty then none
    else (readExponent? rest).map fun exponent ↦
      Binary64.ofDecimal negative (digitsValue (whole ++ fraction)) (exponent - fraction.length)

/-- The value of a numeral. -/
def toBinary64? (text : String) : Option Binary64 :=
  let (negative, rest) := splitSign text.toList
  readMagnitude? negative rest

/-- Whether a whole number fits into a signed word of the given width. -/
def fits (width : Nat) (n : Int) : Bool :=
  decide (-(Nat.pow 2 (width - 1) : Int) ≤ n ∧ n < (Nat.pow 2 (width - 1) : Int))

/-- The value of a numeral that is a whole number without a point or exponent and fits into a signed
word of the given width. -/
def toInt? (width : Nat) (text : String) : Option Int := (readInt? text.toList).filter (fits width)

end DataBinding.Numeral

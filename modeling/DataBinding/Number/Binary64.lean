/-!
# Double precision numbers

The numbers of the state tree are IEEE 754 doubles.  They are kept here as exact data — a sign, a
whole mantissa and a power of two — rather than as the machine's floating point words, so that every
statement about them is a statement about whole numbers.

## What is here

* `Binary64`, whose finite members carry a proof that their mantissa is in canonical form; two
  finite numbers are therefore the same number exactly when their parts agree, the two zeros apart.
* `Binary64.ofRatio`, the one place where rounding happens: to nearest, ties to even.  The
  conversions and the arithmetic compute an exact quotient and round it once.
* `Binary64.toInt?`, which recovers a whole number exactly.
* `Binary64.same`, numeric equality: a NaN is the same as nothing, the two zeros are the same.
-/

set_option autoImplicit false

namespace DataBinding

/-- A mantissa and an exponent in the form every finite double has exactly once: 53 bits at most,
and all 53 of them in use unless the exponent is the smallest there is. -/
def IsCanonical (mantissa : Nat) (exponent : Int) : Prop :=
  mantissa < Nat.pow 2 53 ∧ -1074 ≤ exponent ∧ exponent ≤ 971 ∧
    (Nat.pow 2 52 ≤ mantissa ∨ exponent = -1074)

instance (mantissa : Nat) (exponent : Int) : Decidable (IsCanonical mantissa exponent) := by
  unfold IsCanonical; infer_instance

/-- A double precision number.  The value of `finite s m e` is `± m * 2 ^ e`. -/
inductive Binary64 where
  | nan
  | infinite (negative : Bool)
  | finite (negative : Bool) (mantissa : Nat) (exponent : Int)
      (canonical : IsCanonical mantissa exponent)
  deriving DecidableEq

namespace Binary64

/-- The finite number with the given parts.  Parts that no double has are too large, and give an
infinity. -/
def pack (negative : Bool) (mantissa : Nat) (exponent : Int) : Binary64 :=
  if h : IsCanonical mantissa exponent then .finite negative mantissa exponent h
  else .infinite negative

/-- Zero, with a sign. -/
def zero (negative : Bool) : Binary64 := pack negative 0 (-1074)

/-! ## Rounding -/

/-- The quotient of two whole numbers, rounded to the nearest whole number; of two equally near ones
the even one is taken. -/
def roundHalfEven (num den : Nat) : Nat :=
  let q := num / den
  let twice := 2 * (num % den)
  if twice < den then q else if den < twice then q + 1 else q + q % 2

/-- The largest power of two that does not exceed a positive quotient, as an exponent. -/
def floorLog2 (num den : Nat) : Int :=
  let guess : Int := (num.log2 : Int) - (den.log2 : Int)
  if den * Nat.pow 2 guess.toNat ≤ num * Nat.pow 2 (-guess).toNat then guess else guess - 1

/-- The double nearest to a quotient, ties going to the even mantissa. -/
def ofRatio (negative : Bool) (num den : Nat) : Binary64 :=
  if num = 0 then zero negative
  else
    let exponent := max (-1074) (floorLog2 num den - 52)
    let mantissa :=
      roundHalfEven (num * Nat.pow 2 (-exponent).toNat) (den * Nat.pow 2 exponent.toNat)
    if mantissa = Nat.pow 2 53 then pack negative (Nat.pow 2 52) (exponent + 1)
    else pack negative mantissa exponent

/-- The double nearest to a whole number. -/
def ofInt (i : Int) : Binary64 := ofRatio (decide (i < 0)) i.natAbs 1

/-- The double nearest to `± mantissa * 2 ^ exponent`. -/
def ofScaled (negative : Bool) (mantissa : Nat) (exponent : Int) : Binary64 :=
  ofRatio negative (mantissa * Nat.pow 2 exponent.toNat) (Nat.pow 2 (-exponent).toNat)

/-- The double nearest to `± digits * 10 ^ exponent`.  Decimals far outside the range of doubles are
settled by their size alone, so that no power of ten is computed for them. -/
def ofDecimal (negative : Bool) (digits : Nat) (exponent : Int) : Binary64 :=
  let size : Int := ((Nat.toDigits 10 digits).length : Int) + exponent
  if digits = 0 ∨ size < -330 then zero negative
  else if 330 < size then .infinite negative
  else ofRatio negative (digits * Nat.pow 10 exponent.toNat) (Nat.pow 10 (-exponent).toNat)

/-! ## Arithmetic -/

/-- The sign of a number that is not a NaN. -/
def isNegative : Binary64 → Bool
  | .nan => false
  | .infinite s => s
  | .finite s _ _ _ => s

/-- The number with the opposite sign. -/
def neg : Binary64 → Binary64
  | .nan => .nan
  | .infinite s => .infinite (!s)
  | .finite s m e h => .finite (!s) m e h

/-- The exact sum, rounded once.  An exact zero is positive unless both summands are negative. -/
def add : Binary64 → Binary64 → Binary64
  | .nan, _ => .nan
  | _, .nan => .nan
  | .infinite s, .infinite t => if s = t then .infinite s else .nan
  | .infinite s, .finite .. => .infinite s
  | .finite .., .infinite t => .infinite t
  | .finite s m e _, .finite t n f _ =>
    let low := min e f
    let a : Int := (if s then -1 else 1) * (m * Nat.pow 2 (e - low).toNat : Nat)
    let b : Int := (if t then -1 else 1) * (n * Nat.pow 2 (f - low).toNat : Nat)
    if a + b = 0 then zero (s && t)
    else ofScaled (decide (a + b < 0)) (a + b).natAbs low

/-- The exact product, rounded once. -/
def mul : Binary64 → Binary64 → Binary64
  | .nan, _ => .nan
  | _, .nan => .nan
  | .infinite s, .infinite t => .infinite (s != t)
  | .infinite s, .finite t n _ _ => if n = 0 then .nan else .infinite (s != t)
  | .finite s m _ _, .infinite t => if m = 0 then .nan else .infinite (s != t)
  | .finite s m e _, .finite t n f _ => ofScaled (s != t) (m * n) (e + f)

/-- The exact quotient, rounded once. -/
def div : Binary64 → Binary64 → Binary64
  | .nan, _ => .nan
  | _, .nan => .nan
  | .infinite _, .infinite _ => .nan
  | .infinite s, .finite t _ _ _ => .infinite (s != t)
  | .finite s _ _ _, .infinite t => zero (s != t)
  | .finite s m e _, .finite t n f _ =>
    if n = 0 then (if m = 0 then .nan else .infinite (s != t))
    else ofRatio (s != t) (m * Nat.pow 2 (e - f).toNat) (n * Nat.pow 2 (f - e).toNat)

/-! ## Reading a number back -/

/-- The whole number a double stands for, if it stands for one. -/
def toInt? : Binary64 → Option Int
  | .nan => none
  | .infinite _ => none
  | .finite s m e _ =>
    let scale := Nat.pow 2 (-e).toNat
    if m % scale = 0 then
      let magnitude : Int := (m / scale * Nat.pow 2 e.toNat : Nat)
      some (if s then -magnitude else magnitude)
    else none

/-- Numeric equality.  **A NaN is not the same as itself**, and the two zeros are the same. -/
def same : Binary64 → Binary64 → Bool
  | .infinite s, .infinite t => s == t
  | .finite s m e _, .finite t n f _ => (m == 0 && n == 0) || (s == t && m == n && e == f)
  | _, _ => false

/-- Whether the number is a NaN. -/
def isNaN : Binary64 → Bool
  | .nan => true
  | _ => false

theorem same_self_iff (x : Binary64) : x.same x = true ↔ x.isNaN = false := by
  cases x <;> simp [same, isNaN]

theorem same_comm (x y : Binary64) : x.same y = y.same x := by
  cases x <;> cases y <;> simp [same, Bool.and_comm, BEq.comm]

theorem same_trans {x y z : Binary64} (hxy : x.same y = true) (hyz : y.same z = true) :
    x.same z = true := by
  cases x <;> cases y <;> cases z <;> simp_all [same]
  grind

end Binary64

end DataBinding

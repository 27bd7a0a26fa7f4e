/-!
# Sets of characters given by their runs

A Unicode property holds on runs of consecutive code points.  A set of characters is therefore kept
as the ascending list of the code points at which membership changes, starting from "not a member";
a character is a member when the number of changes at or below it is odd.
-/

set_option autoImplicit false

namespace DataBinding.Text

/-- A set of characters, as the ascending code points at which membership changes. -/
structure Runs where
  changes : Array Nat

/-- How many changes lie at or below `code`, given that all of those before `low` do and none of
those from `high` on does.  The interval is halved, so ten or eleven steps settle any table. -/
def Runs.countFrom (r : Runs) (code : Nat) : Nat → Nat → Nat → Nat
  | 0, low, _ => low
  | fuel + 1, low, high =>
    if high ≤ low then low
    else
      let middle := (low + high) / 2
      if r.changes.getD middle 0 ≤ code then r.countFrom code fuel (middle + 1) high
      else r.countFrom code fuel low middle

/-- Membership of a character. -/
def Runs.contains (r : Runs) (c : Char) : Bool :=
  r.countFrom c.toNat r.changes.size 0 r.changes.size % 2 == 1

end DataBinding.Text

import DataBinding.Number.Layout

/-!
# Values

A `Value` is what a property of the state tree holds: a scalar, or a reference to an object of the
store.  References are what makes the tree a graph — one object may be held in several places, and
even inside itself.

`Value.identical` is the comparison on which all change detection rests.  Scalars are compared by
what they are, objects by which object it is.  It is symmetric and transitive, and **fails to be
reflexive only at NaN**.
-/

set_option autoImplicit false

namespace DataBinding

/-- The number of an object in the store. -/
abbrev ObjectId := Nat

/-- What a property holds. -/
inductive Value where
  | null
  | bool (b : Bool)
  | number (x : Binary64)
  | string (s : String)
  | object (id : ObjectId)
  deriving DecidableEq

namespace Value

instance : Inhabited Value := ⟨null⟩

/-- Strict identity: scalars by value, objects by which object it is. -/
def identical : Value → Value → Bool
  | .null, .null => true
  | .bool a, .bool b => a == b
  | .number x, .number y => x.same y
  | .string s, .string t => s == t
  | .object a, .object b => a == b
  | _, _ => false

/-- Whether the value is the number NaN. -/
def isNaN : Value → Bool
  | .number x => x.isNaN
  | _ => false

/-- Whether the value is no object. -/
def isScalar : Value → Bool
  | .object _ => false
  | _ => true

theorem identical_self_iff (v : Value) : v.identical v = true ↔ v.isNaN = false := by
  cases v <;> simp [identical, isNaN, Binary64.same_self_iff]

theorem identical_comm (v w : Value) : v.identical w = w.identical v := by
  cases v <;> cases w <;> simp [identical, Binary64.same_comm, BEq.comm]

theorem identical_trans {u v w : Value} (huv : u.identical v = true) (hvw : v.identical w = true) :
    u.identical w = true := by
  cases u <;> cases v <;> cases w <;> simp_all [identical]
  exact Binary64.same_trans huv hvw

end Value

/-- What a value is, as error messages name it. -/
inductive Kind where
  | null
  | boolean
  | number
  | string
  | array
  | object
  deriving DecidableEq, Repr

/-- The name of a kind. -/
def Kind.name : Kind → String
  | .null => "null"
  | .boolean => "boolean"
  | .number => "number"
  | .string => "string"
  | .array => "array"
  | .object => "object"

/-- Why a path could not be followed. -/
inductive StateError where
  /-- The segment was looked up on a value that has no properties. -/
  | unresolved (path segment : String) (found : Kind)
  /-- The path was blank. -/
  | emptyExpression
  deriving DecidableEq, Repr

/-- The text of the error. -/
def StateError.message : StateError → String
  | .unresolved path segment found =>
    "cannot resolve `" ++ path ++ "`: segment `" ++ segment ++ "` was looked up on a " ++
      found.name ++ " value"
  | .emptyExpression => "empty expression"

end DataBinding

import DataBinding.Json.Printer
import DataBinding.State.Store

/-!
# Snapshots and texts of values

A snapshot is plain data again.  The state is a graph, so a snapshot unfolds it: an object that is
held twice is written twice, and **an object inside itself is cut at the repeat**, which becomes
null.

The recursion descends through objects that are not their own ancestors, and there are only so many
of those: `room` counts the objects of the store that are not among the ancestors, so when it has
run out every object is a repeat.
-/

set_option autoImplicit false

namespace DataBinding

/-- Whole numbers of magnitude below nine quadrillion are written without a point. -/
def wholeLimit : Nat := 9000000000000000

/-- A number as plain data.  Plain data has no NaN and no infinities; they become null. -/
def Binary64.toJson (x : Binary64) : Json :=
  match x.toInt? with
  | some n => if n.natAbs < wholeLimit then .int n else .float x
  | none =>
    match x with
    | .nan => .null
    | .infinite _ => .null
    | .finite .. => .float x

namespace Store

/-- The snapshot of a value inside the objects `ancestors`. -/
def snapshotWithin (s : Store) : Nat → List ObjectId → Value → Json
  | _, _, .null => .null
  | _, _, .bool b => .bool b
  | _, _, .number x => x.toJson
  | _, _, .string t => .string t
  | 0, _, .object _ => .null
  | room + 1, ancestors, .object o =>
    if ancestors.contains o then .null
    else match s.object? o with
      | none => .null
      | some object =>
        let inside := s.snapshotWithin room (o :: ancestors)
        match object.kind with
        | .array => .array (object.properties.map fun p ↦ inside p.value)
        | .map => Json.ofMembers (object.properties.map fun p ↦ (p.key, inside p.value))

/-- The snapshot of a value. -/
def snapshot (s : Store) (v : Value) : Json := s.snapshotWithin s.objects.size [] v

/-- The text that bound content shows for a value: nothing for null, a string as it is, the snapshot
of an object. -/
def display (s : Store) : Value → String
  | .null => ""
  | .bool true => "true"
  | .bool false => "false"
  | .number x => Layout.shown.write x
  | .string t => t
  | .object o => (s.snapshot (.object o)).text

end Store

end DataBinding

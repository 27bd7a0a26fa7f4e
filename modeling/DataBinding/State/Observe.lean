import DataBinding.Json.Basic
import DataBinding.State.Store

/-!
# Turning plain data into state

Observing a piece of plain data builds the objects it consists of, bottom up: the parts of an object
are in the store before the object itself is.  Every map and every list becomes an object of its
own, so that nothing is shared between what two observations build.
-/

set_option autoImplicit false

namespace DataBinding.Store

mutual

/-- The value that stands for a piece of plain data, and the store with its objects. -/
def observe : Json → Store → Value × Store
  | .null, s => (.null, s)
  | .bool b, s => (.bool b, s)
  | .int n, s => (.number (Binary64.ofInt n), s)
  | .float x, s => (.number x, s)
  | .string t, s => (.string t, s)
  | .array items, s =>
    let (properties, s) := observeItems 0 items s
    let (o, s) := s.push ⟨.array, properties⟩
    (.object o, s)
  | .object members, s =>
    let (properties, s) := observeMembers members s
    let (o, s) := s.push ⟨.map, properties⟩
    (.object o, s)

/-- The properties of a list, whose keys count from `index`. -/
def observeItems : Nat → List Json → Store → List Property × Store
  | _, [], s => ([], s)
  | index, item :: rest, s =>
    let (value, s) := observe item s
    let (properties, s) := observeItems (index + 1) rest s
    (⟨index.repr, value, []⟩ :: properties, s)

/-- The properties of a map. -/
def observeMembers : List (String × Json) → Store → List Property × Store
  | [], s => ([], s)
  | (name, item) :: rest, s =>
    let (value, s) := observe item s
    let (properties, s) := observeMembers rest s
    (⟨name, value, []⟩ :: properties, s)

end

end DataBinding.Store

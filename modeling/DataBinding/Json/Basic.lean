import DataBinding.Number.Layout

/-!
# Plain data

`Json` is the plain data that state is observed from and that snapshots of state are.  Its numbers
are of two kinds, because text distinguishes them: whole numbers written without a point or
exponent, and doubles.  The members of an object are kept in ascending order of their names, each
name once, which `Json.ofMembers` establishes.
-/

set_option autoImplicit false

namespace DataBinding

/-- Plain data. -/
inductive Json where
  | null
  | bool (b : Bool)
  | int (n : Int)
  | float (x : Binary64)
  | string (s : String)
  | array (items : List Json)
  | object (members : List (String × Json))

namespace Json

instance : Inhabited Json := ⟨null⟩

/-- Adds a member at its place in the order; a member of the same name is replaced. -/
def insertMember (name : String) (item : Json) : List (String × Json) → List (String × Json)
  | [] => [(name, item)]
  | (other, old) :: rest =>
    if name = other then (name, item) :: rest
    else if name < other then (name, item) :: (other, old) :: rest
    else (other, old) :: insertMember name item rest

/-- The members in ascending order; of members with one name the last is kept. -/
def sortMembers (members : List (String × Json)) : List (String × Json) :=
  members.foldl (fun acc (name, item) ↦ insertMember name item acc) []

/-- The object with these members. -/
def ofMembers (members : List (String × Json)) : Json := .object (sortMembers members)

/-- The member of an object with the given name. -/
def member? (name : String) : Json → Option Json
  | .object members => members.lookup name
  | _ => none

/-- The number of a piece of data as a double. -/
def toBinary64? : Json → Option Binary64
  | .int n => some (Binary64.ofInt n)
  | .float x => some x
  | _ => none

end Json

end DataBinding

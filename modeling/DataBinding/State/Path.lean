import DataBinding.State.Store
import DataBinding.Text.Blank

/-!
# Paths

An expression is a dotted path such as `person.name` or `items.0`, followed from a root value one
segment at a time.  Blanks around the path and around each segment do not count.  Every lookup is a
tracked read, so following a path while a subscriber is evaluating records that subscriber on each
property along the way.

A key that is missing gives null; looking up a segment on a scalar, and so also on a missing
parent, is an error that names the path, the segment and what was found.
-/

set_option autoImplicit false

namespace DataBinding

namespace Path

/-- The segments of a path, or an error when the path is blank. -/
def segments (path : String) : Except StateError (List String) :=
  let chars := Text.trimChars path.toList
  if chars.isEmpty then .error .emptyExpression
  else .ok ((Text.splitChars '.' chars).map fun piece ↦ String.ofList (Text.trimChars piece))

end Path

namespace Store

/-- Follows segments from a value.  `path` is the whole path, for the error. -/
def follow (path : String) : List String → Value → Store → Except StateError Value × Store
  | [], v, s => (.ok v, s)
  | segment :: rest, v, s =>
    match v with
    | .object o =>
      let (found, s) := s.get o segment
      follow path rest (found.getD .null) s
    | v => (.error (.unresolved (Text.trim path) segment (s.kindOf v)), s)

/-- The value at a path. -/
def getValue (path : String) (root : Value) (s : Store) : Except StateError Value × Store :=
  match Path.segments path with
  | .error e => (.error e, s)
  | .ok segments => follow path segments root s

/-- The object and the key that a write at a path goes to.  All segments but the last must lead to
an object. -/
def target (path : String) (root : Value) (s : Store) :
    Except StateError (ObjectId × String) × Store :=
  match Path.segments path with
  | .error e => (.error e, s)
  | .ok segments =>
    let last := segments.getLastD ""
    match follow path segments.dropLast root s with
    | (.error e, s) => (.error e, s)
    | (.ok (.object o), s) => (.ok (o, last), s)
    | (.ok v, s) => (.error (.unresolved (Text.trim path) last (s.kindOf v)), s)

/-- Follows segments from a value without recording anything.  Whatever is missing is null. -/
def peekSegments (s : Store) : List String → Value → Value
  | [], v => v
  | segment :: rest, .object o => s.peekSegments rest ((s.peek o segment).getD .null)
  | _ :: _, _ => .null

/-- What is at a path, without recording anything.  Here blanks count as they stand and empty
segments are passed over, so the empty path is the root itself. -/
def peekPath (s : Store) (path : String) (root : Value) : Value :=
  let pieces := (Text.splitChars '.' path.toList).filter fun piece ↦ !piece.isEmpty
  s.peekSegments (pieces.map String.ofList) root

/-- The value at a path, every read being recorded for the given subscriber. -/
def evaluate (id : SubscriberId) (path : String) (root : Value) (s : Store) :
    Except StateError Value × Store :=
  let (result, s) := (s.track id).getValue path root
  (result, s.untrack)

end Store

end DataBinding

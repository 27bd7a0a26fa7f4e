import DataBinding.Engine.Action
import DataBinding.Json.Reader

/-!
# Options of a view-model as text

The data part of the options of a view-model may be written as JSON: an object with the members
`attach`, `state` and `syntax`, any of which may be missing or null, or a list of their values in
that order.  The prefixes are an object with the members `directive_prefix` and `event_prefix`, or a
list of the two, and both are required.

The text is read in one pass that knows what to expect, and **the first fault met from the left is
the one reported**.  A member of an unknown name, or one that was there before, is a fault at its
name; a scalar of the wrong kind is read to its end before it is refused, an array or an object is
refused at its bracket.
-/

set_option autoImplicit false

namespace DataBinding

namespace Json

variable {α : Type}

/-- The fault of a text that starts with data of another kind than expected. -/
def mismatch : List Char → Fault
  | '[' :: _ => .unsuitable
  | '{' :: _ => .unsuitable
  | s =>
    match readAny none s with
    | .ok _ => .unsuitable
    | .error fault => fault

/-- Reads a string and nothing else. -/
def expectString : Reads String := fun s ↦
  match skipBlanks s with
  | [] => .error .truncated
  | '"' :: rest => readString rest
  | s => .error (mismatch s)

/-- Reads null, or what `reader` reads. -/
def readOptional (reader : Reads α) : Reads (Option α) := fun s ↦
  match skipBlanks s with
  | 'n' :: rest => do return (none, ← readWord ['u', 'l', 'l'] rest)
  | s => do
    let (a, rest) ← reader s
    return (some a, rest)

/-- Reads the members of a record whose opening brace has been read.  `field` says, from what has
been collected so far, how the member of a given name is to be read. -/
def readFields (field : String → α → Except Fault (Reads α)) : Nat → Bool → α → Reads α
  | 0, _, _ => fun _ ↦ .error .truncated
  | fuel + 1, first, collected => fun s ↦ do
    match ← nextMember first s with
    | .inr rest => return (collected, rest)
    | .inl (name, rest) =>
      let reader ← field name collected
      let (collected, rest) ← reader (← readColon rest)
      readFields field fuel false collected rest

/-- Reads the values of a record that is written as a list whose opening bracket has been read.  The
list may end early, and may not go on. -/
def readPositions : Bool → List (α → Reads α) → α → Reads α
  | _, [], collected => fun s ↦
    match skipBlanks s with
    | [] => .error .truncated
    | ']' :: rest => .ok (collected, rest)
    | _ => .error .malformed
  | first, reader :: readers, collected => fun s ↦ do
    match ← nextItem first s with
    | .inr rest => return (collected, rest)
    | .inl s =>
      let (collected, rest) ← reader collected s
      readPositions false readers collected rest

/-- Reads a record, written as an object or as a list. -/
def readRecord (field : String → α → Except Fault (Reads α)) (positions : List (α → Reads α))
    (start : α) : Reads α := fun s ↦
  match skipBlanks s with
  | [] => .error .truncated
  | '[' :: rest => readPositions true positions start rest
  | '{' :: rest => readFields field (rest.length + 1) true start rest
  | s => .error (mismatch s)

/-- A reader that puts what it reads into a record. -/
def readInto {β : Type} (reader : Reads β) (put : β → α → α) (collected : α) : Reads α := fun s ↦ do
  let (b, rest) ← reader s
  return (put b collected, rest)

end Json

namespace Configuration

open Json

/-- The prefixes, as far as they have been read. -/
structure Prefixes where
  directive : Option String
  event : Option String

/-- The data part of the options, as far as it has been read; a member that was null is there
without a value. -/
structure Fields where
  attach : Option (Option String)
  state : Option (Option Json)
  prefixes : Option (Option Prefixes)

/-- Reads the prefix of directives. -/
def readDirectivePrefix : Prefixes → Reads Prefixes :=
  readInto expectString fun text p ↦ { p with directive := some text }

/-- Reads the prefix of events. -/
def readEventPrefix : Prefixes → Reads Prefixes :=
  readInto expectString fun text p ↦ { p with event := some text }

/-- How a member of the prefixes is read. -/
def prefixField (name : String) (p : Prefixes) : Except Fault (Reads Prefixes) :=
  if name = "directive_prefix" ∧ p.directive.isNone then .ok (readDirectivePrefix p)
  else if name = "event_prefix" ∧ p.event.isNone then .ok (readEventPrefix p)
  else .error .unsuitable

/-- Reads the prefixes, both of which must be there. -/
def readPrefixes : Reads Prefixes := fun s ↦ do
  let (p, rest) ← readRecord prefixField [readDirectivePrefix, readEventPrefix] ⟨none, none⟩ s
  if p.directive.isNone || p.event.isNone then throw .unsuitable
  return (p, rest)

/-- Reads the selector to attach to. -/
def readAttach : Fields → Reads Fields :=
  readInto (readOptional expectString) fun text f ↦ { f with attach := some text }

/-- Reads the state, inside the bracket of the options. -/
def readState : Fields → Reads Fields :=
  readInto (readOptional (readValue (maxDepth - 1))) fun data f ↦ { f with state := some data }

/-- Reads the prefixes or null. -/
def readSyntax : Fields → Reads Fields :=
  readInto (readOptional readPrefixes) fun p f ↦ { f with prefixes := some p }

/-- How a member of the options is read. -/
def optionField (name : String) (f : Fields) : Except Fault (Reads Fields) :=
  if name = "attach" ∧ f.attach.isNone then .ok (readAttach f)
  else if name = "state" ∧ f.state.isNone then .ok (readState f)
  else if name = "syntax" ∧ f.prefixes.isNone then .ok (readSyntax f)
  else .error .unsuitable

/-- Reads the whole text of the options. -/
def readFields (text : String) : Except Fault Fields := do
  readEnd (← readRecord optionField [readAttach, readState, readSyntax] ⟨none, none, none⟩
    text.toList)

end Configuration

/-- Why options could not be had from a text. -/
inductive ConfigurationError where
  | fault (f : Json.Fault)
  | bind (e : BindError)
  deriving DecidableEq

namespace ViewModelOptions

/-- The options with nothing chosen: attached nowhere, with an empty state. -/
def standard : ViewModelOptions := ⟨none, .object [], .standard, []⟩

/-- The options that a text describes.  Methods are code and cannot be among them. -/
def ofText (text : String) : Except ConfigurationError ViewModelOptions := do
  let fields ← (Configuration.readFields text).mapError .fault
  let dialect ← match fields.prefixes.join with
    | some ⟨some directive, some event⟩ => (Dialect.ofPrefixes directive event).mapError .bind
    | _ => pure .standard
  return {
    attach := fields.attach.join.map .selector
    state := fields.state.join.getD standard.state
    dialect
    methods := [] }

end ViewModelOptions

end DataBinding

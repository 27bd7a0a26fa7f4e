import DataBinding.State.Value

/-!
# The store of objects

State lives in numbered objects that are never removed.  An object is a list of properties in the
order in which they were defined; a property has a value, and the list of the subscribers that have
read it.  A subscriber is a number, too; the store knows of it only how many handles hold it.  A
subscriber without handles is dead: it stays in the lists it entered until the next subscription or
notification of that property prunes it.

The tracking stack holds the subscribers that are evaluating at the moment, innermost first.
`Store.get` records the innermost one on the property it reads, and nothing else ever adds a
subscriber to a property.

## What is here

* `Store.peek` and `Store.get`, the untracked and the tracked read.
* `Store.write`, which defines a missing property or replaces the value of an existing one, and says
  which of the two happened, or that the value was already there.
* `Store.retain`, `Store.release`, `Store.track` and `Store.untrack`, which move handles.
-/

set_option autoImplicit false

namespace DataBinding

/-- The number of a subscriber. -/
abbrev SubscriberId := Nat

/-- One key of an object, its value, and who has read it. -/
structure Property where
  key : String
  value : Value
  subscribers : List SubscriberId
  deriving DecidableEq

/-- Whether an object came from a map or from a list. -/
inductive ObjectKind where
  | map
  | array
  deriving DecidableEq, Repr

/-- A composite value: properties in the order of their definition. -/
structure Object where
  kind : ObjectKind
  properties : List Property
  deriving DecidableEq

namespace Object

/-- The property with the given key. -/
def property? (o : Object) (key : String) : Option Property :=
  o.properties.find? fun p ↦ p.key == key

/-- The keys in the order of their definition. -/
def keys (o : Object) : List String := o.properties.map Property.key

/-- Changes the property with the given key. -/
def modify (o : Object) (key : String) (f : Property → Property) : Object :=
  { o with properties := o.properties.map fun p ↦ if p.key == key then f p else p }

/-- Adds a property that nobody has read yet. -/
def define (o : Object) (key : String) (value : Value) : Object :=
  { o with properties := o.properties ++ [⟨key, value, []⟩] }

end Object

/-- A list of subscribers after one more subscription: the dead are pruned, and a subscriber that is
there already keeps its place. -/
def subscribeTo (live : SubscriberId → Bool) (list : List SubscriberId) (id : SubscriberId) :
    List SubscriberId :=
  let kept := list.filter live
  if kept.contains id then kept else kept ++ [id]

/-- The objects, the handles on the subscribers, and the subscribers that are evaluating. -/
structure Store where
  objects : Array Object
  /-- How many handles hold each subscriber. -/
  handles : Array Nat
  /-- The subscribers that are evaluating, innermost first. -/
  tracking : List SubscriberId

/-- What a write did. -/
inductive Written where
  /-- The key was missing and is now defined. -/
  | defined
  /-- The property already held an identical value. -/
  | unchanged
  /-- The property has a new value. -/
  | replaced
  deriving DecidableEq, Repr

namespace Store

/-- The store before anything happened. -/
def empty : Store := ⟨#[], #[], []⟩

instance : Inhabited Store := ⟨empty⟩

/-! ## Objects -/

/-- The object with the given number. -/
def object? (s : Store) (o : ObjectId) : Option Object := s.objects[o]?

/-- The property of an object. -/
def property? (s : Store) (o : ObjectId) (key : String) : Option Property :=
  (s.object? o).bind fun object ↦ object.property? key

/-- Changes an object. -/
def modifyObject (s : Store) (o : ObjectId) (f : Object → Object) : Store :=
  { s with objects := s.objects.modify o f }

/-- Changes a property of an object. -/
def modifyProperty (s : Store) (o : ObjectId) (key : String) (f : Property → Property) : Store :=
  s.modifyObject o fun object ↦ object.modify key f

/-- Adds an object and gives its number. -/
def push (s : Store) (object : Object) : ObjectId × Store :=
  (s.objects.size, { s with objects := s.objects.push object })

/-- The kind of a value, in the words of error messages. -/
def kindOf (s : Store) : Value → Kind
  | .null => .null
  | .bool _ => .boolean
  | .number _ => .number
  | .string _ => .string
  | .object o => if ((s.object? o).map Object.kind) = some .array then .array else .object

/-! ## Subscribers -/

/-- Whether a subscriber is held by somebody. -/
def isLive (s : Store) (id : SubscriberId) : Bool := decide (0 < s.handles.getD id 0)

/-- Adds a subscriber held by one handle and gives its number. -/
def newSubscriber (s : Store) : SubscriberId × Store :=
  (s.handles.size, { s with handles := s.handles.push 1 })

/-- Takes one more handle on a subscriber. -/
def retain (s : Store) (id : SubscriberId) : Store :=
  { s with handles := s.handles.modify id (· + 1) }

/-- Gives a handle on a subscriber back. -/
def release (s : Store) (id : SubscriberId) : Store :=
  { s with handles := s.handles.modify id (· - 1) }

/-- Gives a handle on each of the subscribers back. -/
def releaseAll (s : Store) (ids : List SubscriberId) : Store := ids.foldl release s

/-- Makes a subscriber the evaluating one.  The stack holds it. -/
def track (s : Store) (id : SubscriberId) : Store :=
  { s.retain id with tracking := id :: s.tracking }

/-- Ends the innermost evaluation. -/
def untrack (s : Store) : Store :=
  match s.tracking with
  | [] => s
  | id :: rest => { s.release id with tracking := rest }

/-- How many live subscribers a list has. -/
def countLive (s : Store) (ids : List SubscriberId) : Nat := ids.countP s.isLive

/-- How many live subscribers a property has. -/
def subscriberCount? (s : Store) (o : ObjectId) (key : String) : Option Nat :=
  (s.property? o key).map fun p ↦ s.countLive p.subscribers

/-! ## Reading and writing -/

/-- Reads a property without recording anything. -/
def peek (s : Store) (o : ObjectId) (key : String) : Option Value :=
  (s.property? o key).map Property.value

/-- Records a subscriber on a property. -/
def subscribe (s : Store) (o : ObjectId) (key : String) (id : SubscriberId) : Store :=
  s.modifyProperty o key fun p ↦ { p with subscribers := subscribeTo s.isLive p.subscribers id }

/-- Reads a property and records the evaluating subscriber on it.  A key that is missing records
nothing. -/
def get (s : Store) (o : ObjectId) (key : String) : Option Value × Store :=
  match s.property? o key, s.tracking with
  | none, _ => (none, s)
  | some p, [] => (some p.value, s)
  | some p, id :: _ => (some p.value, s.subscribe o key id)

/-- Defines a property or replaces its value.  Nobody is told about it here. -/
def write (s : Store) (o : ObjectId) (key : String) (value : Value) : Written × Store :=
  match s.property? o key with
  | none => (.defined, s.modifyObject o fun object ↦ object.define key value)
  | some p =>
    if p.value.identical value then (.unchanged, s)
    else (.replaced, s.modifyProperty o key fun p ↦ { p with value := value })

/-- Prunes the dead subscribers of a property. -/
def prune (s : Store) (o : ObjectId) (key : String) : Store :=
  s.modifyProperty o key fun p ↦ { p with subscribers := p.subscribers.filter s.isLive }

/-- The live subscribers of a property, in the order of their subscription. -/
def liveSubscribers (s : Store) (o : ObjectId) (key : String) : List SubscriberId :=
  match s.property? o key with
  | none => []
  | some p => p.subscribers.filter s.isLive

end Store

end DataBinding

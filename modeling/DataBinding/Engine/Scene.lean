import DataBinding.Document.Selector
import DataBinding.State.Interpolation
import DataBinding.Template.Directive

/-!
# The scene

A `Scene` is everything that running code can look at: the store of objects, the watchers with the
values they saw last, the document, the listeners on its nodes, the view-models, and whatever data
the program that uses the library keeps of its own.

It is plain data.  The code that reacts to changes and events is kept apart from it, in
`World.code`, and a scene refers to that code by number only; so code may be given a scene to look
at without being given itself.
-/

set_option autoImplicit false

namespace DataBinding

/-- The number of a view-model. -/
abbrev ViewModelId := Nat

/-- An event as its listeners see it. -/
structure Event where
  /-- The node the listener stands on. -/
  target : NodeId
  name : String
  /-- What the event carries; for an input event, what the user entered. -/
  value : Value
  deriving DecidableEq

/-- An expression that is being watched, and the value it had when it was last looked at. -/
structure Watcher where
  expr : String
  root : Value
  observed : Value
  deriving DecidableEq

/-- Something that is told about changes: a watcher, which looks whether its expression has a new
value, or a probe, which does not look at anything. -/
inductive Subscriber where
  | watcher (w : Watcher)
  | probe
  deriving DecidableEq

/-- A listener on a node; its code has the number `handler`. -/
structure Listener where
  node : NodeId
  event : String
  handler : Nat
  deriving DecidableEq

/-- What a compilation counted. -/
structure CompileStats where
  elements : Nat
  /-- Text nodes with an expression in them. -/
  texts : Nat
  directives : Nat
  events : Nat
  deriving DecidableEq, Repr

/-- The counts of an empty template. -/
def CompileStats.zero : CompileStats := ⟨0, 0, 0, 0⟩

/-- A compiled template: the watchers it holds, in the order of their making. -/
structure Compiled where
  scope : List SubscriberId
  stats : CompileStats
  deriving DecidableEq, Repr

/-- A live binding between an object of state and a part of the document. -/
structure ViewModel where
  /-- How many handles hold it. -/
  handles : Nat
  /-- The node below which its template was compiled. -/
  root : Option NodeId
  state : ObjectId
  methods : List String
  compiled : Compiled
  deriving DecidableEq

/-- Everything that running code can look at.  `σ` is the data of the program that uses the
library. -/
structure Scene (σ : Type) where
  store : Store
  subscribers : Array Subscriber
  document : Document
  listeners : List Listener
  viewModels : Array ViewModel
  data : σ

namespace Scene

variable {σ : Type}

/-- The watcher with the given number. -/
def watcher? (s : Scene σ) (id : SubscriberId) : Option Watcher :=
  match s.subscribers[id]? with
  | some (.watcher w) => some w
  | _ => none

/-- The value that an event brings to a control: what it carries or, when that is null, what the
control of its target holds. -/
def controlValue (s : Scene σ) (e : Event) : Value :=
  match e.value with
  | .null =>
    match s.document.control? e.target with
    | some text => .string text
    | none => .null
  | v => v

/-- How many listeners a node has. -/
def listenerCount (s : Scene σ) (node : NodeId) : Nat :=
  s.listeners.countP fun l ↦ l.node == node

/-- Whether a view-model is held by somebody. -/
def isOpen (s : Scene σ) (vm : ViewModelId) : Bool :=
  (s.viewModels[vm]?).any fun v ↦ decide (0 < v.handles)

end Scene

end DataBinding

import DataBinding.Session.Step
import DataBinding.State.Snapshot

/-!
# What a session reports

The answers of the steps, and the log of what happened while they were carried out.
-/

set_option autoImplicit false

namespace DataBinding

/-- A value as it is shown: the name of its kind, its text, and the text of its snapshot. -/
structure Shown where
  kind : String
  text : String
  data : String
  deriving DecidableEq, Repr

/-- Shows a value. -/
def Store.shown (s : Store) (v : Value) : Shown :=
  ⟨(s.kindOf v).name, s.display v, (s.snapshot v).text⟩

/-- The watchers of a list, each with its expression and the text of the value it observed last. -/
def Scene.watched {σ : Type} (s : Scene σ) (ids : List SubscriberId) : List (String × String) :=
  ids.filterMap fun id ↦ (s.watcher? id).map fun w ↦ (w.expr, s.store.display w.observed)

namespace Session

/-- An object of state: its keys with the live subscribers of each, and its texts. -/
structure ObjectReport where
  rows : List (String × Nat)
  isArray : Bool
  data : String
  diagnostic : String
  deriving DecidableEq, Repr

/-- A scope. -/
structure ScopeReport where
  watched : List (String × String)
  diagnostic : String
  deriving DecidableEq, Repr

/-- A node of the document. -/
structure NodeReport where
  id : NodeId
  content : Option Content
  parent : Option NodeId
  children : List NodeId
  attributes : List (String × String)
  own : String
  control : Option String
  text : String
  listeners : Nat
  outer : String
  inner : String
  deriving DecidableEq, Repr

/-- A view-model. -/
structure ViewModelReport where
  keys : List String
  data : String
  root : Option NodeId
  bindings : Nat
  stats : CompileStats
  diagnostic : String
  /-- How many nodes its document has. -/
  nodes : Nat
  deriving DecidableEq, Repr

/-- The answer of a step. -/
inductive Reply where
  | done
  | flag (b : Bool)
  | text (t : String)
  | count (n : Option Nat)
  | node (id : Option NodeId)
  | nodes (ids : List NodeId)
  | value (v : Option Shown)
  | object (report : ObjectReport)
  | watcher (expr : String) (value : Shown)
  | scope (report : Option ScopeReport)
  | updates (results : List (Except StateError Unit))
  | subscribers (count : Nat) (diagnostic : String)
  | tracking (depth : Nat) (innermost : Option String)
  | compiled (stats : CompileStats) (bindings : Nat) (watched : List (String × String))
  | template (report : Option (CompileStats × List (String × String)))
  | attribute (value : Option String)
  | document (nodes : Nat) (diagnostic : String)
  | nodeReport (report : NodeReport)
  | opened (root : Option NodeId) (bindings : Nat) (stats : CompileStats) (methods : List String)
  | viewModel (report : ViewModelReport)

/-- Something that happened while a step was carried out. -/
inductive LogEntry where
  /-- The code of a watcher was called. -/
  | fired (name shown : String)
  /-- A probe was updated. -/
  | probed (name : String)
  /-- A listener was called. -/
  | event (name event : String) (target : NodeId) (shown : String)
  /-- A method was called. -/
  | method (name event : String) (target : NodeId) (shown : String)
  /-- A step of a script was carried out. -/
  | step (name : String) (result : Except Failure Reply)
  /-- A table of directives was built: which registrations replaced something, how many kinds the
  table has, and how it shows itself. -/
  | table (replaced : List Bool) (size : Nat) (diagnostic : String)
  /-- A binding did something to the document. -/
  | host (call : HostCall)

end Session

end DataBinding

import DataBinding.Document.Walk
import DataBinding.Engine.Dispatch

/-!
# Compiling a template

Compiling turns the nodes below a root into live bindings.  The children of the root are moved to a
fragment of their own, visited there in document order, and moved back, whether or not something
went wrong.

An element is visited by going over the attributes it had at the start of its visit.  An attribute
that is a marker makes the bindings it asks for and is taken away; every other one is left alone.  A
text with an expression in it is bound as if by the directive `text`.  Children are looked up after
the element itself has been dealt with, so a node that a binding makes is visited, too; but **the
content of an element with a `text` or `markup` directive belongs to that directive** and is not
visited.

The first error ends the compilation, and the watchers made so far are released.
-/

set_option autoImplicit false

namespace DataBinding

/-- What a compilation has made so far. -/
structure Progress where
  /-- The watchers, in the order of their making. -/
  scope : List SubscriberId
  stats : CompileStats
  deriving DecidableEq, Repr

/-- The progress of a compilation that has not begun. -/
def Progress.start : Progress := ⟨[], .zero⟩

/-- A step of a compilation, which may end it with an error. -/
abbrev Compilation (σ α : Type) : Type := ExceptT BindError (StateT Progress (Run σ)) α

namespace Compilation

variable {σ α : Type}

/-- A step that leaves the progress as it is. -/
def lift (r : Run σ α) : Compilation σ α := ExceptT.lift (StateT.lift r)

/-- A step that leaves the progress as it is and may fail. -/
def attempt (r : Run σ (Except BindError α)) : Compilation σ α := ExceptT.mk (StateT.lift r)

/-- A step that leaves the progress as it is and may fail for a reason of state. -/
def attemptState (r : Run σ (Except StateError α)) : Compilation σ α :=
  attempt do return (← r).mapError BindError.state

/-- Ends the compilation. -/
def refuse (e : BindError) : Compilation σ α := throw e

/-- Takes note of a watcher. -/
def hold (id : SubscriberId) : Compilation σ Unit :=
  modify fun p ↦ { p with scope := p.scope ++ [id] }

/-- Changes what has been counted. -/
def count (f : CompileStats → CompileStats) : Compilation σ Unit :=
  modify fun p ↦ { p with stats := f p.stats }

end Compilation

/-! ## The code of bindings -/

namespace CompileJob

variable {σ : Type}

/-- Code that shows a text in a slot. -/
def showing (job : CompileJob σ) (node : NodeId) (slot : Slot) (text : String) : Action σ :=
  .modify (job.note (.show node slot text)) <| .edit (slot.edit node text) <| .done (.ok ())

/-- Code that shows a value in a slot. -/
def showingValue (job : CompileJob σ) (node : NodeId) (slot : Slot) (value : Value) : Action σ :=
  .inspect fun s ↦ job.showing node slot (s.store.display value)

/-- Code that renders a template and shows it as the text of a node. -/
def showingTemplate (job : CompileJob σ) (node : NodeId) (template : String) : Action σ :=
  .render template job.state fun
    | .ok text => job.showing node .text text
    | .error e => .done (.error (.state e))

/-- Code that writes what the user has entered to a path. -/
def writing (job : CompileJob σ) (path : String) (event : Event) : Action σ :=
  .inspect fun s ↦ .setPath path job.state (s.controlValue event) fun r ↦
    .done (r.mapError BindError.state)

end CompileJob

namespace Compilation

variable {σ : Type}

/-! ## Making bindings -/

/-- Watches an expression of the state and holds the watcher. -/
def watch (job : CompileJob σ) (expr : String) (reaction : Value → Action σ) :
    Compilation σ Unit := do
  hold (← attemptState (Notification.watch expr job.state reaction))

/-- Puts a listener on a node. -/
def listen (job : CompileJob σ) (node : NodeId) (event : String) (handler : Event → Action σ) :
    Compilation σ Unit := lift do
  Run.editScene fun s ↦ { s with data := job.note (.listen node event) s.data }
  Dispatch.listen node event handler

/-- Shows a text in a slot. -/
def present (job : CompileJob σ) (node : NodeId) (slot : Slot) (text : String) :
    Compilation σ Unit := lift do
  Run.editScene fun s ↦ { s with data := job.note (.show node slot text) s.data }
  Run.editDocument fun d ↦ d.apply (slot.edit node text)

/-- Makes a binding on a node. -/
def bind (call : Call σ) (job : CompileJob σ) (methods : String → Event → Action σ)
    (node : NodeId) : Binding → Compilation σ Unit
  | .fixed slot text => present job node slot text
  | .live slot expr => do
    let value ← attemptState (Run.onStore (Store.getValue expr job.state))
    present job node slot ((← lift Run.scene).store.display value)
    watch job expr fun v ↦ job.showingValue node slot v
  | .template text => do
    present job node .text (← attemptState (Run.onStore (Store.render text job.state)))
    (Template.expressions text).forM fun expr ↦
      watch job expr fun _ ↦ job.showingTemplate node text
  | .writeBack expr => listen job node inputEvent (job.writing expr)
  | .listen event method => listen job node event (methods method)
  | .call method event value => attempt (call (methods method ⟨node, event, .string value⟩))
  | .refuse e => refuse e

/-- Makes the bindings that a directive asks for.  `unknown` is the name to complain about. -/
def direct (call : Call σ) (job : CompileJob σ) (methods : String → Event → Action σ)
    (node : NodeId) (unknown kind : String) (directive : Directive) : Compilation σ Unit :=
  match job.table.lookup kind with
  | none => refuse (.unknownDirective unknown)
  | some handler => (handler directive).forM (bind call job methods node)

/-- Whether a kind of directive owns the content of its element. -/
def ownsContent (kind : String) : Bool := kind == "text" || kind == "markup"

/-- Deals with one attribute of an element, and says whether it owns the content. -/
def visitAttribute (call : Call σ) (job : CompileJob σ) (methods : String → Event → Action σ)
    (node : NodeId) (name value : String) : Compilation σ Bool :=
  match job.dialect.classify name with
  | none => return false
  | some (.directive kind detail) => do
    direct call job methods node name kind ⟨value, detail⟩
    count fun s ↦ { s with directives := s.directives + 1 }
    lift (Run.editDocument fun d ↦ d.removeAttribute node name)
    return ownsContent kind
  | some (.event event) => do
    direct call job methods node name "on" ⟨value, if event.isEmpty then none else some event⟩
    count fun s ↦ { s with events := s.events + 1 }
    lift (Run.editDocument fun d ↦ d.removeAttribute node name)
    return false

/-- Deals with attributes of an element in order, and says whether one of them owns the content. -/
def visitAttributes (call : Call σ) (job : CompileJob σ) (methods : String → Event → Action σ)
    (node : NodeId) : List (String × String) → Compilation σ Bool
  | [] => return false
  | (name, value) :: rest => do
    let owned ← visitAttribute call job methods node name value
    let others ← visitAttributes call job methods node rest
    return owned || others

/-- Deals with one node, and says whether its content belongs to a binding. -/
def visitNode (call : Call σ) (job : CompileJob σ) (methods : String → Event → Action σ)
    (node : NodeId) : Compilation σ Bool := do
  match (← lift Run.scene).document.content? node with
  | some (.element e) =>
    count fun s ↦ { s with elements := s.elements + 1 }
    visitAttributes call job methods node e.attributes
  | some (.text text) =>
    if Template.hasExpression text then
      count fun s ↦ { s with texts := s.texts + 1 }
      direct call job methods node "text" "text" ⟨text, none⟩
    return false
  | _ => return false

/-- Visits the pending nodes and what is below them. -/
def visit (call : Call σ) (job : CompileJob σ) (methods : String → Event → Action σ) :
    Nat → List NodeId → Compilation σ Unit
  | _, [] => return ()
  | 0, _ :: _ => lift Run.tooDeep
  | fuel + 1, node :: pending => do
    if ← visitNode call job methods node then visit call job methods fuel pending
    else
      let children := (← lift Run.scene).document.children node
      visit call job methods fuel (children ++ pending)

/-- Compiles the template below a root.  `limit` bounds the number of nodes that are visited. -/
def compile (call : Call σ) (limit : Nat) (job : CompileJob σ)
    (methods : String → Event → Action σ) : Run σ (Except BindError Compiled) := do
  let staged ← Run.onDocument fun d ↦ d.stage job.root
  let (result, progress) ← (visit call job methods limit [staged]).run.run .start
  Run.editDocument fun d ↦ d.restore staged job.root
  match result with
  | .ok () => return .ok ⟨progress.scope, progress.stats⟩
  | .error e =>
    Run.editStore fun s ↦ s.releaseAll progress.scope
    return .error e

end Compilation

end DataBinding

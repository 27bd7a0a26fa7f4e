import DataBinding.Engine.Scene
import DataBinding.Json.Basic

/-!
# Code as data

The callbacks of watchers, the listeners of events and the methods of view-models are code that the
program using the library supplies, and while they run they may do anything the library offers:
write state, and so set off further callbacks; make and drop watchers; edit the document; fire
events.  An `Action` is such a piece of code as data — a tree with one constructor for each thing
the library offers, in which what happens next may depend on the answer.  **An action can do nothing
but what these constructors say**, so a fact about all actions is a fact about all code.

`Program` is the same thing as a monad, for writing actions down.
-/

set_option autoImplicit false

namespace DataBinding

/-- What a binding does to the document, as a program may take note of it. -/
inductive HostCall where
  | show (node : NodeId) (slot : Slot) (text : String)
  | listen (node : NodeId) (event : String)
  deriving DecidableEq, Repr

/-- What a template is compiled with.  `note` is told of everything its bindings do to the document
before they do it. -/
structure CompileJob (σ : Type) where
  root : NodeId
  state : Value
  dialect : Dialect
  table : DirectiveTable
  note : HostCall → σ → σ

/-- The node below which a view-model compiles its template. -/
inductive AttachTarget where
  | selector (text : String)
  | node (id : NodeId)
  deriving DecidableEq, Repr

/-- What a view-model is made from. -/
structure ViewModelOptions where
  attach : Option AttachTarget
  state : Json
  dialect : Dialect
  methods : List String

/-- Why a view-model could not be made. -/
inductive OpenError where
  | bind (e : BindError)
  | targetNotFound (selector : String)
  | stateNotObject (state : Json)

/-- A piece of code.  Each constructor but the first is something the library offers, with what to
do after it. -/
inductive Action (σ : Type) where
  /-- End, successfully or not. -/
  | done (result : Except BindError Unit)
  /-- Look at the scene. -/
  | inspect (next : Scene σ → Action σ)
  /-- Change the program's own data. -/
  | modify (f : σ → σ) (next : Action σ)
  /-- Turn plain data into state. -/
  | observe (data : Json) (next : Value → Action σ)
  /-- Read a property, tracked. -/
  | get (o : ObjectId) (key : String) (next : Option Value → Action σ)
  /-- Read the value at a path, tracked. -/
  | getPath (path : String) (root : Value) (next : Except StateError Value → Action σ)
  /-- Render a template, tracked. -/
  | render (template : String) (root : Value) (next : Except StateError String → Action σ)
  /-- Write a property and tell its subscribers. -/
  | set (o : ObjectId) (key : String) (value : Value) (next : Except StateError Unit → Action σ)
  /-- Write the property at a path and tell its subscribers. -/
  | setPath (path : String) (root : Value) (value : Value)
      (next : Except StateError Unit → Action σ)
  /-- Make a watcher, held by one handle. -/
  | watch (expr : String) (root : Value) (reaction : Value → Action σ)
      (next : Except StateError SubscriberId → Action σ)
  /-- Make a probe, held by one handle. -/
  | probe (reaction : Action σ) (next : SubscriberId → Action σ)
  /-- Take one more handle on a subscriber. -/
  | retain (id : SubscriberId) (next : Action σ)
  /-- Give a handle on a subscriber back. -/
  | release (id : SubscriberId) (next : Action σ)
  /-- Make a subscriber the evaluating one. -/
  | track (id : SubscriberId) (next : Action σ)
  /-- End the innermost evaluation. -/
  | untrack (next : Action σ)
  /-- Update subscribers now, in order. -/
  | notify (ids : List SubscriberId) (next : Except StateError Unit → Action σ)
  /-- Edit the document. -/
  | edit (e : Edit) (next : Action σ)
  /-- Put a listener on a node. -/
  | listen (node : NodeId) (event : String) (handler : Event → Action σ) (next : Action σ)
  /-- Take the listeners at and below a node away. -/
  | unlisten (root : NodeId) (next : Action σ)
  /-- Fire an event. -/
  | dispatch (node : NodeId) (event : String) (value : Value)
      (next : Except BindError Unit → Action σ)
  /-- Compile a template. -/
  | compile (job : CompileJob σ) (methods : String → Event → Action σ)
      (next : Except BindError Compiled → Action σ)
  /-- Make a view-model, held by one handle. -/
  | openViewModel (options : ViewModelOptions)
      (methods : String → ViewModelId → Event → Action σ)
      (next : Except OpenError ViewModelId → Action σ)
  /-- Take one more handle on a view-model. -/
  | retainViewModel (vm : ViewModelId) (next : Action σ)
  /-- Give a handle on a view-model back. -/
  | releaseViewModel (vm : ViewModelId) (next : Action σ)
  /-- Call a method of a view-model. -/
  | invoke (vm : ViewModelId) (method : String) (event : Event)
      (next : Except BindError Unit → Action σ)

/-- The code that has been supplied so far.  Nothing is ever taken away from it. -/
structure Code (σ : Type) where
  /-- What a subscriber does, by the number of the subscriber; a probe ignores the value. -/
  reactions : Array (Value → Action σ)
  /-- What the listeners do, by the number in `Listener.handler`. -/
  handlers : Array (Event → Action σ)
  /-- The methods, by the number of the view-model. -/
  methods : Array (String → ViewModelId → Event → Action σ)

/-- The scene and the code that acts on it. -/
structure World (σ : Type) where
  scene : Scene σ
  code : Code σ

namespace World

variable {σ : Type}

/-- A world with a document and the program's own data, in which nothing has happened. -/
def start (document : Document) (data : σ) : World σ where
  scene :=
    { store := .empty, subscribers := #[], document, listeners := [], viewModels := #[], data }
  code := ⟨#[], #[], #[]⟩

end World

/-! ## Writing actions down -/

/-- Code with a result: an action that still lacks its end. -/
def Program (σ α : Type) : Type := (α → Action σ) → Action σ

namespace Program

variable {σ α : Type}

instance : Monad (Program σ) where
  pure a := fun next ↦ next a
  bind p f := fun next ↦ p fun a ↦ f a next

/-- The action of a program that says itself how it ends. -/
def action (p : Program σ (Except BindError Unit)) : Action σ := p Action.done

/-- Looks at the scene. -/
def inspect : Program σ (Scene σ) := Action.inspect

/-- Looks at a part of the scene. -/
def inspects (f : Scene σ → α) : Program σ α := fun next ↦ Action.inspect fun s ↦ next (f s)

/-- Changes the program's own data. -/
def modify (f : σ → σ) : Program σ Unit := fun next ↦ Action.modify f (next ())

/-- Turns plain data into state. -/
def observe (data : Json) : Program σ Value := Action.observe data

/-- Reads a property, tracked. -/
def get (o : ObjectId) (key : String) : Program σ (Option Value) := Action.get o key

/-- Reads the value at a path, tracked. -/
def getPath (path : String) (root : Value) : Program σ (Except StateError Value) :=
  Action.getPath path root

/-- Renders a template, tracked. -/
def render (template : String) (root : Value) : Program σ (Except StateError String) :=
  Action.render template root

/-- Writes a property and tells its subscribers. -/
def set (o : ObjectId) (key : String) (value : Value) : Program σ (Except StateError Unit) :=
  Action.set o key value

/-- Writes the property at a path and tells its subscribers. -/
def setPath (path : String) (root value : Value) : Program σ (Except StateError Unit) :=
  Action.setPath path root value

/-- Makes a watcher. -/
def watch (expr : String) (root : Value) (reaction : Value → Program σ (Except BindError Unit)) :
    Program σ (Except StateError SubscriberId) :=
  Action.watch expr root fun v ↦ (reaction v).action

/-- Makes a probe. -/
def probe (reaction : Program σ (Except BindError Unit)) : Program σ SubscriberId :=
  Action.probe reaction.action

/-- Takes one more handle on a subscriber. -/
def retain (id : SubscriberId) : Program σ Unit := fun next ↦ Action.retain id (next ())

/-- Gives a handle on a subscriber back. -/
def release (id : SubscriberId) : Program σ Unit := fun next ↦ Action.release id (next ())

/-- Makes a subscriber the evaluating one. -/
def track (id : SubscriberId) : Program σ Unit := fun next ↦ Action.track id (next ())

/-- Ends the innermost evaluation. -/
def untrack : Program σ Unit := fun next ↦ Action.untrack (next ())

/-- Updates subscribers now, in order. -/
def notify (ids : List SubscriberId) : Program σ (Except StateError Unit) := Action.notify ids

/-- Edits the document. -/
def edit (e : Edit) : Program σ Unit := fun next ↦ Action.edit e (next ())

/-- Puts a listener on a node. -/
def listen (node : NodeId) (event : String) (handler : Event → Program σ (Except BindError Unit)) :
    Program σ Unit :=
  fun next ↦ Action.listen node event (fun e ↦ (handler e).action) (next ())

/-- Takes the listeners at and below a node away. -/
def unlisten (root : NodeId) : Program σ Unit := fun next ↦ Action.unlisten root (next ())

/-- Fires an event. -/
def dispatch (node : NodeId) (event : String) (value : Value) :
    Program σ (Except BindError Unit) :=
  Action.dispatch node event value

/-- What the user does to a control: the control gets the text of the value, then the input event
fires. -/
def input (node : NodeId) (value : Value) : Program σ (Except BindError Unit) := do
  let text ← inspects fun s ↦ s.store.display value
  edit (.setControl node text)
  dispatch node inputEvent value

/-- Compiles a template. -/
def compile (job : CompileJob σ) (methods : String → Event → Program σ (Except BindError Unit)) :
    Program σ (Except BindError Compiled) :=
  Action.compile job fun name e ↦ (methods name e).action

/-- Makes a view-model. -/
def openViewModel (options : ViewModelOptions)
    (methods : String → ViewModelId → Event → Program σ (Except BindError Unit)) :
    Program σ (Except OpenError ViewModelId) :=
  Action.openViewModel options fun name vm e ↦ (methods name vm e).action

/-- Takes one more handle on a view-model. -/
def retainViewModel (vm : ViewModelId) : Program σ Unit :=
  fun next ↦ Action.retainViewModel vm (next ())

/-- Gives a handle on a view-model back. -/
def releaseViewModel (vm : ViewModelId) : Program σ Unit :=
  fun next ↦ Action.releaseViewModel vm (next ())

/-- Calls a method of a view-model. -/
def invoke (vm : ViewModelId) (method : String) (event : Event) :
    Program σ (Except BindError Unit) :=
  Action.invoke vm method event

end Program

end DataBinding

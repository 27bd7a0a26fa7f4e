import DataBinding.Session.Reply
import DataBinding.State.Observe

/-!
# The desk of a session

A `Desk` is the data of a session: what it keeps under names, the log, and the outcome of the step
that is being carried out.  A `Task` is a program that works at a desk and may fail.

A name that is used again is given to the new thing at once; the old thing is released after that.
-/

set_option autoImplicit false

namespace DataBinding.Session

/-- Things kept under names, each name once. -/
abbrev Shelf (α : Type) : Type := List (String × α)

namespace Shelf

variable {α : Type}

/-- Puts a thing under a name, in the place of what was there. -/
def put (name : String) (a : α) : Shelf α → Shelf α
  | [] => [(name, a)]
  | (other, b) :: rest =>
    if other == name then (name, a) :: rest else (other, b) :: put name a rest

/-- Takes away what is under a name. -/
def remove (name : String) (s : Shelf α) : Shelf α := s.filter fun (other, _) ↦ other != name

end Shelf

/-- The data of a session. -/
structure Desk where
  /-- The root of the state. -/
  root : Value
  watchers : Shelf SubscriberId
  scopes : Shelf (List SubscriberId)
  probes : Shelf SubscriberId
  /-- Lists of subscribers that belong to no property. -/
  lists : Shelf (List SubscriberId)
  templates : Shelf Compiled
  viewModels : Shelf ViewModelId
  /-- The names under which probes were made. -/
  probeNames : List (SubscriberId × String)
  /-- How often each script has been called. -/
  calls : Array Nat
  /-- What has happened during the present step, latest first. -/
  log : List LogEntry
  /-- How the present step ended. -/
  outcome : Option (Except Failure Reply)

/-- A desk with nothing on it but a state. -/
def Desk.ofRoot (root : Value) : Desk := ⟨root, [], [], [], [], [], [], [], #[], [], none⟩

/-- The value that a source stands for when no callback is running, with the store that has its
objects. -/
def ValueSource.resolve (source : ValueSource) (root : Value) (s : Store) : Value × Store :=
  match source with
  | .data j => Store.observe j s
  | .number x => (.number x, s)
  | .stored path => (s.peekPath path root, s)
  | .event => (.null, s)

/-- What the running callback was called with. -/
structure Context where
  value : Option Value
  target : Option NodeId
  viewModel : Option ViewModelId

/-- The context outside of callbacks. -/
def Context.none : Context := ⟨.none, .none, .none⟩

/-- Work at the desk. -/
abbrev Work (α : Type) : Type := Program Desk α

/-- Work at the desk that may fail. -/
abbrev Task (α : Type) : Type := ExceptT Failure (Program Desk) α

namespace Work

/-- Looks at a part of the desk. -/
def desk {α : Type} (f : Desk → α) : Work α := Program.inspects fun s ↦ f s.data

/-- Writes an entry into the log. -/
def log (e : LogEntry) : Work Unit := Program.modify fun d ↦ { d with log := e :: d.log }

/-- The value that a source stands for. -/
def value (ctx : Context) : ValueSource → Work Value
  | .data j => Program.observe j
  | .number x => return .number x
  | .stored path => Program.inspects fun s ↦ s.store.peekPath path s.data.root
  | .event => return ctx.value.getD .null

/-- Shows a value. -/
def shown (v : Value) : Work Shown := Program.inspects fun s ↦ s.store.shown v

end Work

namespace Task

variable {α : Type}

/-- Work that cannot fail. -/
def lift (w : Work α) : Task α := ExceptT.lift w

/-- Work whose failure is of another type. -/
def attempt {ε : Type} (failure : ε → Failure) (w : Work (Except ε α)) : Task α :=
  ExceptT.mk do return (← w).mapError failure

/-- Fails. -/
def fail (e : Failure) : Task α := throw e

/-- Looks at the scene. -/
def scene (f : Scene Desk → α) : Task α := lift (Program.inspects f)

/-- Looks at a part of the desk. -/
def desk (f : Desk → α) : Task α := lift (Work.desk f)

/-- Changes the desk. -/
def edit (f : Desk → Desk) : Task Unit := lift (Program.modify f)

/-- Writes an entry into the log. -/
def log (e : LogEntry) : Task Unit := lift (Work.log e)

/-- The thing that is kept under a name. -/
def named (shelf : Desk → Shelf α) (name : String) : Task α := do
  match (← desk shelf).lookup name with
  | some a => return a
  | none => fail (.unknownName name)

/-- The value that a source stands for. -/
def value (ctx : Context) (source : ValueSource) : Task Value := lift (Work.value ctx source)

/-- The answer that shows a value. -/
def shown (v : Value) : Task Reply := do return .value (some (← lift (Work.shown v)))

/-- The answer that shows a value if there is one. -/
def shown? (v : Option Value) : Task Reply :=
  match v with
  | none => return .value none
  | some v => shown v

/-- The object at a path of the state. -/
def objectAt (place : String) : Task ObjectId := do
  match ← scene fun s ↦ s.store.peekPath place s.data.root with
  | .object o => return o
  | _ => fail .notAnObject

/-- The node that a field of a step names. -/
def node (ctx : Context) (field : String) : NodeSource → Task NodeId
  | .id n => return n
  | .selector text => do
    match ← scene fun s ↦ s.document.select? Document.root text with
    | some n => return n
    | none => fail (.noNode field)
  | .target =>
    match ctx.target with
    | some n => return n
    | none => fail (.noNode field)
  | .missing => fail (.noNode field)

/-- Keeps a watcher under a name; what had the name is released. -/
def keepWatcher (name : String) (id : SubscriberId) : Task Unit := do
  let old := (← desk Desk.watchers).lookup name
  edit fun d ↦ { d with watchers := Shelf.put name id d.watchers }
  match old with
  | none => return ()
  | some old => lift (Program.release old)

/-- Holds a view-model while something is done, whether or not that fails. -/
def holding (vm : ViewModelId) (t : Task α) : Task α :=
  ExceptT.mk do
    Program.retainViewModel vm
    let result ← t.run
    Program.releaseViewModel vm
    return result

/-- Gives back the handles on watchers. -/
def releaseAll (ids : List SubscriberId) : Task Unit := ids.forM fun id ↦ lift (Program.release id)

/-- The watchers of a scope, none if there is no scope of this name. -/
def scopeOf (name : String) : Task (List SubscriberId) := do
  return ((← desk Desk.scopes).lookup name).getD []

/-- Keeps a scope under a name.  The watchers that the name had before are not released. -/
def keepScope (name : String) (ids : List SubscriberId) : Task Unit :=
  edit fun d ↦ { d with scopes := Shelf.put name ids d.scopes }

end Task

end DataBinding.Session

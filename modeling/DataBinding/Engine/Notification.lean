import DataBinding.Engine.Action

/-!
# Telling subscribers about changes

A write that changes a property updates the live subscribers of that property, in the order in which
they subscribed.  Updating a watcher evaluates its expression again, which also subscribes it to
whatever the expression reaches now; its code is called when the value is not identical to the one
observed last, and **the observed value advances only after the code has succeeded**.  Updating a
probe calls its code.

The list of subscribers is fixed when the notification starts and every one of them is held until
its turn is over, so that neither subscriptions nor releases made by the code change who is told.
When some of the updates fail the others still happen, and the first error is the result.

Everything here takes the way to call code as an argument, since code may nest: what it means to
call it is said once, in `DataBinding.Engine.Run`.

## What is here

* `Run`, computations on a world that may run out of nesting depth.
* `Notification.update` and `Notification.notify`, for one subscriber and for several.
* `Notification.set` and `Notification.setPath`, a write with its notification.
* `Notification.watch` and `Notification.probe`, which make subscribers.
-/

set_option autoImplicit false

namespace DataBinding

/-- A computation on the world.  It has no result when code is nested too deeply. -/
abbrev Run (σ α : Type) : Type := StateT (World σ) Option α

/-- A way to call code. -/
abbrev Call (σ : Type) : Type := Action σ → Run σ (Except BindError Unit)

namespace Run

variable {σ α : Type}

/-- Code is nested too deeply. -/
def tooDeep : Run σ α := fun _ ↦ none

/-- Looks at the scene. -/
def scene : Run σ (Scene σ) := fun w ↦ some (w.scene, w)

/-- Changes the scene. -/
def editScene (f : Scene σ → Scene σ) : Run σ Unit :=
  fun w ↦ some ((), { w with scene := f w.scene })

/-- Changes the code. -/
def editCode (f : Code σ → Code σ) : Run σ Unit := fun w ↦ some ((), { w with code := f w.code })

/-- Does something with the store. -/
def onStore (f : Store → α × Store) : Run σ α := fun w ↦
  let (a, store) := f w.scene.store
  some (a, { w with scene := { w.scene with store := store } })

/-- Changes the store. -/
def editStore (f : Store → Store) : Run σ Unit := onStore fun s ↦ ((), f s)

/-- Does something with the document. -/
def onDocument (f : Document → α × Document) : Run σ α := fun w ↦
  let (a, document) := f w.scene.document
  some (a, { w with scene := { w.scene with document := document } })

/-- Changes the document. -/
def editDocument (f : Document → Document) : Run σ Unit := onDocument fun d ↦ ((), f d)

end Run

/-- The error as one of state.  Failures of code that have nothing to do with state count as an
empty expression. -/
def BindError.toState : BindError → StateError
  | .state e => e
  | _ => .emptyExpression

/-- The first error of two results. -/
def firstError {ε : Type} : Except ε Unit → Except ε Unit → Except ε Unit
  | .error e, _ => .error e
  | .ok (), r => r

namespace Notification

variable {σ : Type}

/-- Calls the code of a subscriber. -/
def react (call : Call σ) (id : SubscriberId) (value : Value) :
    Run σ (Except StateError Unit) := do
  match (← get).code.reactions[id]? with
  | none => return .ok ()
  | some reaction => return (← call (reaction value)).mapError BindError.toState

/-- Notes the value that a watcher has observed. -/
def observed (id : SubscriberId) (value : Value) : Run σ Unit :=
  Run.editScene fun s ↦
    { s with subscribers := s.subscribers.modify id fun
        | .watcher w => .watcher { w with observed := value }
        | .probe => .probe }

/-- Updates a subscriber. -/
def update (call : Call σ) (id : SubscriberId) : Run σ (Except StateError Unit) := do
  match (← Run.scene).subscribers[id]? with
  | none => return .ok ()
  | some .probe => react call id .null
  | some (.watcher w) =>
    match ← Run.onStore (Store.evaluate id w.expr w.root) with
    | .error e => return .error e
    | .ok value =>
      if w.observed.identical value then return .ok ()
      match ← react call id value with
      | .error e => return .error e
      | .ok () =>
        observed id value
        return .ok ()

/-- Updates subscribers in turn, giving back the handle on each when its turn is over. -/
def updateAll (call : Call σ) : List SubscriberId → Run σ (Except StateError Unit)
  | [] => return .ok ()
  | id :: rest => do
    let first ← update call id
    Run.editStore fun s ↦ s.release id
    let others ← updateAll call rest
    return firstError first others

/-- Updates subscribers in order, holding all of them from the start. -/
def notify (call : Call σ) (ids : List SubscriberId) : Run σ (Except StateError Unit) := do
  Run.editStore fun s ↦ ids.foldl Store.retain s
  updateAll call ids

/-- The live subscribers of a property that is about to be notified; the dead ones are pruned. -/
def audience (o : ObjectId) (key : String) (s : Store) : List SubscriberId × Store :=
  (s.liveSubscribers o key, s.prune o key)

/-- Writes a property.  Its subscribers are told if it had a value before and now has a different
one. -/
def set (call : Call σ) (o : ObjectId) (key : String) (value : Value) :
    Run σ (Except StateError Unit) := do
  match ← Run.onStore (Store.write · o key value) with
  | .defined | .unchanged => return .ok ()
  | .replaced => notify call (← Run.onStore (audience o key))

/-- Writes the property at a path. -/
def setPath (call : Call σ) (path : String) (root value : Value) :
    Run σ (Except StateError Unit) := do
  match ← Run.onStore (Store.target path root) with
  | .error e => return .error e
  | .ok (o, key) => set call o key value

/-- Adds a subscriber held by one handle, with its code. -/
def subscriber (s : Subscriber) (reaction : Value → Action σ) : Run σ SubscriberId := do
  let id ← Run.onStore Store.newSubscriber
  Run.editScene fun scene ↦ { scene with subscribers := scene.subscribers.push s }
  Run.editCode fun code ↦ { code with reactions := code.reactions.push reaction }
  return id

/-- Makes a watcher.  Nothing holds it when its expression does not resolve. -/
def watch (expr : String) (root : Value) (reaction : Value → Action σ) :
    Run σ (Except StateError SubscriberId) := do
  let expr := Text.trim expr
  let id ← subscriber (.watcher ⟨expr, root, .null⟩) reaction
  match ← Run.onStore (Store.evaluate id expr root) with
  | .error e =>
    Run.editStore fun s ↦ s.release id
    return .error e
  | .ok value =>
    observed id value
    return .ok id

/-- Makes a probe. -/
def probe (reaction : Action σ) : Run σ SubscriberId := subscriber .probe fun _ ↦ reaction

end Notification

end DataBinding

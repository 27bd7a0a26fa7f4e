import DataBinding.Proofs.State.Observation
import DataBinding.Proofs.State.Rendering
import DataBinding.Proofs.Engine.Inversion

/-!
# The chronicle of a run

What a run does to the watchers depends on what their code does while it is called, and so does what
can be said about them afterwards.  The *chronicle* of a run is a list of `Mark`s, in the order of
events: how each update of a watcher ended, whether the code of a watcher changed the state, and
whether anything happened that the theory does not cover.  It is computed beside the run, by
functions that follow the engine step by step, and it says nothing about the values that watchers
hold in the end; **the theorems derive those from the marks**.

## What is here

* `Mark` and `Ending`, and `lastEnding`, how the last update of a watcher ended.
* `Chronicle.ofUpdate`, `ofSet`, … , `ofAction`, the marks of the functions of the engine, and
  `chronicle`, the marks of an action that is run.
-/

set_option autoImplicit false

namespace DataBinding

variable {σ : Type}

instance (n : Nat) : DecidablePred (Value.Within n) := fun v ↦
  match v with
  | .object o => inferInstanceAs (Decidable (o < n))
  | .null | .bool _ | .number _ | .string _ => inferInstanceAs (Decidable True)

/-! ## Marks -/

/-- How an update ended in which the value was not the one observed last, or was. -/
inductive Ending where
  /-- The watcher has observed the value its expression has, if it has one. -/
  | settled
  /-- The code succeeded, but while it ran the expression took another value than the one the code
  was called with. -/
  | overtaken
  /-- The code failed. -/
  | failed
  deriving DecidableEq, Repr

/-- Something noteworthy that happened in a run. -/
inductive Mark where
  /-- The update of a watcher ended. -/
  | ended (id : SubscriberId) (how : Ending)
  /-- The code of a watcher returned and objects do not hold what they held when it was called. -/
  | meddled (id : SubscriberId)
  /-- A key was written that did not exist. -/
  | defined (o : ObjectId) (key : String)
  /-- Something was named that is not there: an object, or a subscriber that nobody holds. -/
  | stray
  /-- Something was done that is neither reading, writing nor watching. -/
  | outside
  deriving DecidableEq, Repr

namespace Mark

/-- How the update of this watcher ended, if that is what the mark says. -/
def ending? (id : SubscriberId) : Mark → Option Ending
  | .ended id' how => if id' = id then some how else none
  | _ => none

/-- Whether the theory covers what the mark notes. -/
def isCovered : Mark → Bool
  | .ended _ _ | .meddled _ => true
  | .defined _ _ | .stray | .outside => false

end Mark

/-- How the last update of a watcher ended. -/
def lastEnding (marks : List Mark) (id : SubscriberId) : Option Ending :=
  (marks.filterMap (Mark.ending? id)).getLast?

@[simp] theorem lastEnding_nil (id : SubscriberId) : lastEnding [] id = none := rfl

theorem lastEnding_append (marks more : List Mark) (id : SubscriberId) :
    lastEnding (marks ++ more) id = (lastEnding more id).or (lastEnding marks id) := by
  rw [lastEnding, List.filterMap_append, List.getLast?_append, lastEnding, lastEnding]

@[simp] theorem lastEnding_ended_self (id : SubscriberId) (how : Ending) :
    lastEnding [.ended id how] id = some how := by
  simp [lastEnding, Mark.ending?]

theorem lastEnding_ended_of_ne {id id' : SubscriberId} (h : id' ≠ id) (how : Ending) :
    lastEnding [.ended id how] id' = none := by
  simp [lastEnding, Mark.ending?, Ne.symm h]

/-! ## The marks of the engine -/

namespace Chronicle

section

variable (call : Call σ) (tell : Action σ → World σ → List Mark)

/-- The marks of what follows a computation. -/
def andThen {α : Type} (m : Run σ α) (w : World σ) (next : α → World σ → List Mark) : List Mark :=
  match m w with
  | none => []
  | some (a, w₁) => next a w₁

/-- The marks of the code of a subscriber. -/
def ofReact (id : SubscriberId) (v : Value) (w : World σ) : List Mark :=
  match w.code.reactions[id]? with
  | none => []
  | some reaction => tell (reaction v) w

/-- How an update ends whose code was called with a value and has returned. -/
def endingOf (x : Watcher) (v : Value) (s : Store) : Except StateError Unit → Ending
  | .error _ => .failed
  | .ok () =>
    match s.resolve x.expr x.root with
    | .ok u => if v.Alike u then .settled else .overtaken
    | .error _ => .settled

/-- Whether the objects of one store still hold the same in another one. -/
def isKept (s t : Store) : Bool := s.contents.toList.isPrefixOf t.contents.toList

/-- The marks of the update of a subscriber. -/
def ofUpdate (id : SubscriberId) (w : World σ) : List Mark :=
  match w.scene.subscribers[id]? with
  | none => []
  | some .probe => ofReact tell id .null w
  | some (.watcher x) =>
    match w.scene.store.resolve x.expr x.root with
    | .error _ => []
    | .ok v =>
      if x.observed.identical v then [.ended id .settled]
      else ofReact tell id v (w.evaluated id x) ++
        andThen (Notification.react call id v) (w.evaluated id x) fun r w₁ ↦
          (if isKept w.scene.store w₁.scene.store then [] else [.meddled id]) ++
            [.ended id (endingOf x v w₁.scene.store r)]

/-- The marks of updates in turn. -/
def ofUpdateAll : List SubscriberId → World σ → List Mark
  | [], _ => []
  | id :: rest, w =>
    ofUpdate call tell id w ++ andThen (Notification.update call id) w fun _ w₁ ↦
      ofUpdateAll rest (w₁.withStore (w₁.scene.store.release id))

/-- The marks of an update of several subscribers. -/
def ofNotify (ids : List SubscriberId) (w : World σ) : List Mark :=
  (if ids.all w.scene.store.isLive then [] else [.stray]) ++
    ofUpdateAll call tell ids (w.withStore (ids.foldl Store.retain w.scene.store))

/-- The marks of a write. -/
def ofSet (o : ObjectId) (key : String) (v : Value) (w : World σ) : List Mark :=
  (if v.Within w.scene.store.objects.size then [] else [.stray]) ++
    match (w.scene.store.write o key v).1 with
    | .unchanged => []
    | .defined => [.defined o key]
    | .replaced =>
      ofUpdateAll call tell ((w.scene.store.write o key v).2.liveSubscribers o key)
        (Notification.announced w o key v)

/-- The marks of a write at a path. -/
def ofSetPath (path : String) (root v : Value) (w : World σ) : List Mark :=
  match w.scene.store.destination path root with
  | .error _ => []
  | .ok (o, key) => ofSet call tell o key v w

/-- The marks of making a watcher. -/
def ofWatch (root : Value) (w : World σ) : List Mark :=
  if root.Within w.scene.store.objects.size then [.ended w.scene.store.handles.size .settled]
  else [.stray]

/-- The marks of an action. -/
def ofAction : Action σ → World σ → List Mark
  | .done _, _ => []
  | .inspect next, w => ofAction (next w.scene) w
  | .modify f next, w =>
    andThen (Run.editScene fun s ↦ { s with data := f s.data }) w fun _ ↦ ofAction next
  | .observe data next, w => andThen (Run.onStore (Store.observe data)) w fun v ↦ ofAction (next v)
  | .get o key next, w => andThen (Run.onStore (Store.get · o key)) w fun v ↦ ofAction (next v)
  | .getPath path root next, w =>
    andThen (Run.onStore (Store.getValue path root)) w fun v ↦ ofAction (next v)
  | .render template root next, w =>
    andThen (Run.onStore (Store.render template root)) w fun v ↦ ofAction (next v)
  | .set o key v next, w =>
    ofSet call tell o key v w ++
      andThen (Notification.set call o key v) w fun r ↦ ofAction (next r)
  | .setPath path root v next, w =>
    ofSetPath call tell path root v w ++
      andThen (Notification.setPath call path root v) w fun r ↦ ofAction (next r)
  | .watch expr root reaction next, w =>
    ofWatch root w ++
      andThen (Notification.watch expr root reaction) w fun r ↦ ofAction (next r)
  | .probe reaction next, w =>
    andThen (Notification.probe reaction) w fun id ↦ ofAction (next id)
  | .retain id next, w =>
    (if w.scene.store.isLive id then [] else [.stray]) ++
      andThen (Run.editStore (Store.retain · id)) w fun _ ↦ ofAction next
  | .release id next, w => andThen (Run.editStore (Store.release · id)) w fun _ ↦ ofAction next
  | .notify ids next, w =>
    ofNotify call tell ids w ++
      andThen (Notification.notify call ids) w fun r ↦ ofAction (next r)
  | .edit e next, w => andThen (Run.editDocument (Document.apply · e)) w fun _ ↦ ofAction next
  | .listen node event handler next, w =>
    andThen (Dispatch.listen node event handler) w fun _ ↦ ofAction next
  | .unlisten root next, w =>
    andThen (Run.editScene (Scene.clearListeners · root)) w fun _ ↦ ofAction next
  | .track .., _ | .untrack .., _ | .dispatch .., _ | .compile .., _ | .openViewModel .., _
  | .retainViewModel .., _ | .releaseViewModel .., _ | .invoke .., _ => [.outside]

end

theorem andThen_of_eq_some {α : Type} {m : Run σ α} {w w₁ : World σ} {a : α}
    (h : m w = some (a, w₁)) (next : α → World σ → List Mark) : andThen m w next = next a w₁ := by
  rw [andThen, h]

end Chronicle

/-- The marks of an action that is run to the given depth. -/
def chronicle : Nat → Action σ → World σ → List Mark
  | 0 => fun _ _ ↦ []
  | depth + 1 => Chronicle.ofAction (run depth) (chronicle depth)

end DataBinding

import DataBinding.Engine.Run
import DataBinding.Proofs.State.Evaluation

/-!
# What an update can do

The engine is written in a monad of computations on the world.  Proofs about it do not unfold that
monad: `Run.bind_eq_some_iff` takes a run apart at its binds, and this file uses it once for each
function of the engine to say what a finished run of the function has done.

The central one is `UpdateOutcome`, which lists the six ways in which the update of one subscriber
ends; `WatchOutcome` does so for the making of a watcher.  A fan-out is a list of updates, and
`updateAll_induction` is the induction over it: a fact about the subscribers that still wait for
their turn, kept by every turn, holds at the end with nobody waiting.
-/

set_option autoImplicit false

namespace DataBinding

variable {σ : Type}

/-! ## Results -/

namespace Except

variable {ε α : Type} {r : Except ε α}

theorem exists_eq_ok (h : r.isOk = true) : ∃ a, r = .ok a := by
  cases r with
  | error e => cases h
  | ok a => exact ⟨a, rfl⟩

theorem exists_eq_error (h : r.isOk = false) : ∃ e, r = .error e := by
  cases r with
  | error e => exact ⟨e, rfl⟩
  | ok a => cases h

theorem eq_ok_of_toOption {a : α} (h : r.toOption = some a) : r = .ok a := by
  cases r with
  | error e => cases h
  | ok b =>
    cases h
    rfl

end Except

/-! ## Taking runs apart -/

namespace Run

variable {α β : Type}

theorem bind_eq_some_iff {x : Run σ α} {f : α → Run σ β} {w : World σ} {b : β × World σ} :
    (x >>= f) w = some b ↔ ∃ a w₁, x w = some (a, w₁) ∧ f a w₁ = some b := by
  show (x w).bind (fun p ↦ f p.1 p.2) = some b ↔ _
  rw [Option.bind_eq_some_iff]
  exact ⟨fun ⟨p, h, h'⟩ ↦ ⟨p.1, p.2, h, h'⟩, fun ⟨a, w₁, h, h'⟩ ↦ ⟨(a, w₁), h, h'⟩⟩

theorem onStore_bind {f : Store → α × Store} {g : α → Run σ β} {w : World σ} :
    (onStore f >>= g) w =
      g (f w.scene.store).1 { w with scene := { w.scene with store := (f w.scene.store).2 } } :=
  rfl

theorem scene_bind {g : Scene σ → Run σ β} {w : World σ} : (scene >>= g) w = g w.scene w := rfl

theorem get_bind {g : World σ → Run σ β} {w : World σ} : (get >>= g) w = g w w := rfl

end Run

namespace World

/-- The world with another store. -/
def withStore (w : World σ) (s : Store) : World σ := { w with scene := { w.scene with store := s } }

@[simp] theorem store_withStore (w : World σ) (s : Store) : (w.withStore s).scene.store = s := rfl

@[simp] theorem watcher?_withStore (w : World σ) (s : Store) (id : SubscriberId) :
    (w.withStore s).scene.watcher? id = w.scene.watcher? id := rfl

@[simp] theorem subscribers_withStore (w : World σ) (s : Store) :
    (w.withStore s).scene.subscribers = w.scene.subscribers := rfl

@[simp] theorem code_withStore (w : World σ) (s : Store) : (w.withStore s).code = w.code := rfl

/-- The world after the expression of a watcher has been evaluated for a subscriber. -/
def evaluated (w : World σ) (id : SubscriberId) (x : Watcher) : World σ :=
  w.withStore (Store.evaluate id x.expr x.root w.scene.store).2

theorem contents_evaluated (w : World σ) (id : SubscriberId) (x : Watcher) :
    (w.evaluated id x).scene.store.contents = w.scene.store.contents :=
  Store.contents_evaluate id x.expr x.root w.scene.store

/-- An evaluation leaves every value as it is. -/
theorem resolve_evaluated (w : World σ) (id : SubscriberId) (x : Watcher) (path : String)
    (root : Value) :
    (w.evaluated id x).scene.store.resolve path root = w.scene.store.resolve path root :=
  Store.resolve_of_contents (w.contents_evaluated id x) path root

theorem handles_evaluated (w : World σ) (id : SubscriberId) (x : Watcher) :
    (w.evaluated id x).scene.store.handles = w.scene.store.handles :=
  Store.handles_evaluate id x.expr x.root w.scene.store

theorem tracking_evaluated (w : World σ) (id : SubscriberId) (x : Watcher) :
    (w.evaluated id x).scene.store.tracking = w.scene.store.tracking :=
  Store.tracking_evaluate id x.expr x.root w.scene.store

/-- The world after a watcher has taken note of a value. -/
def noting (w : World σ) (id : SubscriberId) (v : Value) : World σ :=
  { w with scene := { w.scene with
      subscribers := w.scene.subscribers.modify id fun
        | .watcher x => .watcher { x with observed := v }
        | .probe => .probe } }

@[simp] theorem store_noting (w : World σ) (id : SubscriberId) (v : Value) :
    (w.noting id v).scene.store = w.scene.store := rfl

@[simp] theorem code_noting (w : World σ) (id : SubscriberId) (v : Value) :
    (w.noting id v).code = w.code := rfl

/-- Only the watcher that takes note is changed, and of it only the value. -/
theorem watcher?_noting (w : World σ) (id : SubscriberId) (v : Value) (id' : SubscriberId) :
    (w.noting id v).scene.watcher? id' =
      if id' = id then (w.scene.watcher? id').map ({ · with observed := v })
      else w.scene.watcher? id' := by
  rw [Scene.watcher?, Scene.watcher?, noting, Array.getElem?_modify]
  by_cases h : id = id'
  · subst h
    rw [if_pos rfl, if_pos rfl]
    cases w.scene.subscribers[id]? with
    | none => rfl
    | some x => cases x <;> rfl
  · rw [if_neg h, if_neg (Ne.symm h)]

/-- The world with one more subscriber, held by one handle. -/
def enrolled (w : World σ) (s : Subscriber) (reaction : Value → Action σ) : World σ where
  scene := { w.scene with
    store := w.scene.store.newSubscriber.2
    subscribers := w.scene.subscribers.push s }
  code := { w.code with reactions := w.code.reactions.push reaction }

/-- Whoever was there before watches what it watched. -/
theorem watcher?_enrolled (w : World σ) (s : Subscriber) (reaction : Value → Action σ)
    {id : SubscriberId} (h : id ≠ w.scene.subscribers.size) :
    (w.enrolled s reaction).scene.watcher? id = w.scene.watcher? id := by
  rw [Scene.watcher?, Scene.watcher?, enrolled, Array.getElem?_push, if_neg h]

theorem watcher?_enrolled_self (w : World σ) (x : Watcher) (reaction : Value → Action σ) :
    (w.enrolled (.watcher x) reaction).scene.watcher? w.scene.subscribers.size = some x := by
  rw [Scene.watcher?, enrolled, Array.getElem?_push, if_pos rfl]

end World

theorem Scene.subscribers_of_watcher? {s : Scene σ} {id : SubscriberId} {x : Watcher}
    (h : s.watcher? id = some x) : s.subscribers[id]? = some (.watcher x) := by
  rw [Scene.watcher?] at h
  split at h
  · simp_all
  · simp at h

theorem Run.onStore_eq_some {α : Type} {f : Store → α × Store} {w w' : World σ} {a : α}
    (h : Run.onStore f w = some (a, w')) :
    a = (f w.scene.store).1 ∧ w' = w.withStore (f w.scene.store).2 := by
  cases h
  exact ⟨rfl, rfl⟩

namespace Notification

variable {call : Call σ} {id : SubscriberId} {w w' : World σ}

/-! ## One subscriber -/

theorem react_eq_some {v : Value} {r : Except StateError Unit}
    (h : react call id v w = some (r, w')) :
    (w.code.reactions[id]? = none ∧ r = .ok () ∧ w' = w) ∨
      ∃ reaction result, w.code.reactions[id]? = some reaction ∧
        call (reaction v) w = some (result, w') ∧ r = result.mapError BindError.toState := by
  rw [react] at h
  obtain ⟨w₀, w₁, hget, h⟩ := Run.bind_eq_some_iff.1 h
  cases hget
  cases hr : w.code.reactions[id]? with
  | none =>
    rw [hr] at h
    cases h
    exact .inl ⟨rfl, rfl, rfl⟩
  | some reaction =>
    rw [hr] at h
    obtain ⟨result, w₂, hcall, h⟩ := Run.bind_eq_some_iff.1 h
    cases h
    exact .inr ⟨reaction, result, rfl, hcall, rfl⟩

/-- The ways in which the update of a subscriber ends, with its result and the world after it. -/
inductive UpdateOutcome (call : Call σ) (id : SubscriberId) (w : World σ) :
    Except StateError Unit → World σ → Prop
  /-- There is no such subscriber. -/
  | absent (h : w.scene.subscribers[id]? = none) : UpdateOutcome call id w (.ok ()) w
  /-- A probe is told. -/
  | probe {r : Except StateError Unit} {w' : World σ}
      (h : w.scene.subscribers[id]? = some .probe) (hreact : react call id .null w = some (r, w')) :
      UpdateOutcome call id w r w'
  /-- The expression has no value. -/
  | unresolved {x : Watcher} {e : StateError} (h : w.scene.watcher? id = some x)
      (hvalue : w.scene.store.resolve x.expr x.root = .error e) :
      UpdateOutcome call id w (.error e) (w.evaluated id x)
  /-- The expression has the value that was observed last. -/
  | unchanged {x : Watcher} {v : Value} (h : w.scene.watcher? id = some x)
      (hvalue : w.scene.store.resolve x.expr x.root = .ok v)
      (hsame : x.observed.identical v = true) :
      UpdateOutcome call id w (.ok ()) (w.evaluated id x)
  /-- The expression has a new value, and the code that is told of it fails. -/
  | failed {x : Watcher} {v : Value} {e : StateError} {w' : World σ}
      (h : w.scene.watcher? id = some x)
      (hvalue : w.scene.store.resolve x.expr x.root = .ok v)
      (hnew : x.observed.identical v = false)
      (hreact : react call id v (w.evaluated id x) = some (.error e, w')) :
      UpdateOutcome call id w (.error e) w'
  /-- The expression has a new value, and the code that is told of it succeeds. -/
  | reacted {x : Watcher} {v : Value} {w₁ : World σ} (h : w.scene.watcher? id = some x)
      (hvalue : w.scene.store.resolve x.expr x.root = .ok v)
      (hnew : x.observed.identical v = false)
      (hreact : react call id v (w.evaluated id x) = some (.ok (), w₁)) :
      UpdateOutcome call id w (.ok ()) (w₁.noting id v)

/-- **An update ends in one of the listed ways.** -/
theorem update_outcome {r : Except StateError Unit} (h : update call id w = some (r, w')) :
    UpdateOutcome call id w r w' := by
  rw [update] at h
  obtain ⟨scene, w₀, hscene, h⟩ := Run.bind_eq_some_iff.1 h
  cases hscene
  cases hs : w.scene.subscribers[id]? with
  | none =>
    rw [hs] at h
    cases h
    exact .absent hs
  | some subscriber =>
    rw [hs] at h
    cases subscriber with
    | probe => exact .probe hs h
    | watcher x =>
      have hx : w.scene.watcher? id = some x := by rw [Scene.watcher?, hs]
      obtain ⟨result, w₁, heval, h⟩ := Run.bind_eq_some_iff.1 h
      have hresult : result = w.scene.store.resolve x.expr x.root := by
        cases heval
        exact Store.evaluate_fst id x.expr x.root w.scene.store
      have hw₁ : w₁ = w.evaluated id x := by
        cases heval
        rfl
      subst hresult hw₁
      cases hv : w.scene.store.resolve x.expr x.root with
      | error e =>
        rw [hv] at h
        cases h
        exact .unresolved hx hv
      | ok v =>
        rw [hv] at h
        cases hsame : x.observed.identical v with
        | true =>
          simp only [hsame, if_true] at h
          cases h
          exact .unchanged hx hv hsame
        | false =>
          simp only [hsame, Bool.false_eq_true, if_false] at h
          obtain ⟨result, w₂, hreact, h⟩ := Run.bind_eq_some_iff.1 h
          cases result with
          | error e =>
            cases h
            exact .failed hx hv hsame hreact
          | ok u =>
            obtain ⟨_, w₃, hnote, h⟩ := Run.bind_eq_some_iff.1 h
            cases hnote
            cases h
            exact .reacted hx hv hsame hreact

/-! ## Several subscribers -/

theorem updateAll_cons {rest : List SubscriberId} {r : Except StateError Unit}
    (h : updateAll call (id :: rest) w = some (r, w')) :
    ∃ first others w₁, update call id w = some (first, w₁) ∧
      updateAll call rest (w₁.withStore (w₁.scene.store.release id)) = some (others, w') ∧
      r = firstError first others := by
  rw [updateAll] at h
  obtain ⟨first, w₁, hfirst, h⟩ := Run.bind_eq_some_iff.1 h
  obtain ⟨_, w₂, hrelease, h⟩ := Run.bind_eq_some_iff.1 h
  cases hrelease
  obtain ⟨others, w₃, hothers, h⟩ := Run.bind_eq_some_iff.1 h
  cases h
  exact ⟨first, others, w₁, hfirst, hothers, rfl⟩

/-- **Induction over a fan-out.**  What holds of the subscribers that wait for their turn, and is
kept by each turn, holds at the end of nobody. -/
theorem updateAll_induction {P : List SubscriberId → World σ → Prop}
    (hturn : ∀ id rest w r w₁, P (id :: rest) w → update call id w = some (r, w₁) →
      P rest (w₁.withStore (w₁.scene.store.release id)))
    {ids : List SubscriberId} {r : Except StateError Unit} (h : P ids w)
    (hrun : updateAll call ids w = some (r, w')) : P [] w' := by
  induction ids generalizing w r with
  | nil =>
    cases hrun
    exact h
  | cons id rest ih =>
    obtain ⟨first, others, w₁, hfirst, hothers, -⟩ := updateAll_cons hrun
    exact ih (hturn id rest w first w₁ h hfirst) hothers

theorem notify_eq (ids : List SubscriberId) (w : World σ) :
    notify call ids w =
      updateAll call ids (w.withStore (ids.foldl Store.retain w.scene.store)) := rfl

/-! ## New subscribers -/

theorem subscriber_bind {α : Type} (s : Subscriber) (reaction : Value → Action σ)
    (g : SubscriberId → Run σ α) (w : World σ) :
    (subscriber s reaction >>= g) w =
      g w.scene.store.handles.size (w.enrolled s reaction) := rfl

/-- Making a watcher is adding it, evaluating its expression, and taking note of the value. -/
theorem watch_eq (expr : String) (root : Value) (reaction : Value → Action σ) (w : World σ) :
    watch expr root reaction w =
      let id := w.scene.store.handles.size
      let x : Watcher := ⟨Text.trim expr, root, .null⟩
      let w₁ := (w.enrolled (.watcher x) reaction).evaluated id x
      match w.scene.store.resolve x.expr root with
      | .error e => some (.error e, w₁.withStore (w₁.scene.store.release id))
      | .ok v => some (.ok id, w₁.noting id v) := by
  have hresolve : (Store.evaluate w.scene.store.handles.size (Text.trim expr) root
      w.scene.store.newSubscriber.2).1 = w.scene.store.resolve (Text.trim expr) root := by
    rw [Store.evaluate_fst]
    exact Store.resolve_of_contents (Store.contents_newSubscriber _) _ _
  simp only [← hresolve]
  rw [watch, subscriber_bind, Run.onStore_bind]
  cases h : (Store.evaluate w.scene.store.handles.size (Text.trim expr) root
    w.scene.store.newSubscriber.2).1 with
  | error e =>
    simp only [World.enrolled, h]
    rfl
  | ok v =>
    simp only [World.enrolled, h]
    rfl

/-- The ways in which the making of a watcher ends, with its result and the world after it, when the
watcher has been added and its expression evaluated in `w₁`. -/
inductive WatchOutcome (expr : String) (root : Value) (w w₁ : World σ) :
    Except StateError SubscriberId → World σ → Prop
  /-- The expression has no value, and the handle on the watcher is given back. -/
  | unresolved {e : StateError}
      (hvalue : w.scene.store.resolve (Text.trim expr) root = .error e) :
      WatchOutcome expr root w w₁ (.error e)
        (w₁.withStore (w₁.scene.store.release w.scene.store.handles.size))
  /-- The watcher takes note of the value. -/
  | observed {v : Value} (hvalue : w.scene.store.resolve (Text.trim expr) root = .ok v) :
      WatchOutcome expr root w w₁ (.ok w.scene.store.handles.size)
        (w₁.noting w.scene.store.handles.size v)

theorem watch_outcome {expr : String} {root : Value} {reaction : Value → Action σ} {w w' : World σ}
    {r : Except StateError SubscriberId} (h : watch expr root reaction w = some (r, w')) :
    WatchOutcome expr root w
      ((w.enrolled (.watcher ⟨Text.trim expr, root, .null⟩) reaction).evaluated
        w.scene.store.handles.size ⟨Text.trim expr, root, .null⟩) r w' := by
  rw [watch_eq] at h
  cases hv : w.scene.store.resolve (Text.trim expr) root with
  | error e =>
    simp only [hv, Option.some.injEq, Prod.mk.injEq] at h
    obtain ⟨rfl, rfl⟩ := h
    exact .unresolved hv
  | ok v =>
    simp only [hv, Option.some.injEq, Prod.mk.injEq] at h
    obtain ⟨rfl, rfl⟩ := h
    exact .observed hv

/-- Making a watcher leaves the objects as they are, and adds its code. -/
theorem watch_frame {expr : String} {root : Value} {reaction : Value → Action σ}
    {w w' : World σ} {r : Except StateError SubscriberId}
    (h : watch expr root reaction w = some (r, w')) :
    w'.scene.store.contents = w.scene.store.contents ∧
      w'.code.reactions = w.code.reactions.push reaction := by
  have hmade (id : SubscriberId) (x : Watcher) :
      ((w.enrolled (.watcher x) reaction).evaluated id x).scene.store.contents =
          w.scene.store.contents ∧
        ((w.enrolled (.watcher x) reaction).evaluated id x).code.reactions =
          w.code.reactions.push reaction := by
    refine ⟨World.contents_evaluated _ id x, ?_⟩
    rw [World.evaluated, World.code_withStore, World.enrolled]
  cases watch_outcome h with
  | unresolved _ =>
    rw [World.store_withStore, Store.contents_release, World.code_withStore]
    exact hmade ..
  | observed _ =>
    rw [World.store_noting, World.code_noting]
    exact hmade ..

theorem probe_eq (reaction : Action σ) (w : World σ) :
    probe reaction w =
      some (w.scene.store.handles.size, w.enrolled .probe fun _ ↦ reaction) := rfl

/-! ## Writing -/

/-- The world in which the fan-out of a write that replaced a value begins. -/
def announced (w : World σ) (o : ObjectId) (key : String) (v : Value) : World σ :=
  let s := (w.scene.store.write o key v).2
  w.withStore ((s.liveSubscribers o key).foldl Store.retain (s.prune o key))

/-- A fan-out begins with the objects as the write has left them. -/
theorem contents_announced (w : World σ) (o : ObjectId) (key : String) (v : Value) :
    (announced w o key v).scene.store.contents = (w.scene.store.write o key v).2.contents := by
  have hlive : ∀ id ∈ (w.scene.store.write o key v).2.liveSubscribers o key,
      ((w.scene.store.write o key v).2.prune o key).isLive id = true :=
    fun _ ↦ Store.isLive_of_mem_liveSubscribers
  obtain ⟨hobjects, -⟩ := Store.retainAll_of_live hlive
  rw [announced, World.store_withStore, Store.contents, hobjects, ← Store.contents,
    Store.contents_prune]

theorem set_eq (o : ObjectId) (key : String) (v : Value) (w : World σ) :
    set call o key v w =
      match (w.scene.store.write o key v).1 with
      | .defined | .unchanged => some (.ok (), w.withStore (w.scene.store.write o key v).2)
      | .replaced =>
        updateAll call ((w.scene.store.write o key v).2.liveSubscribers o key)
          (announced w o key v) := by
  rw [set, Run.onStore_bind, announced]
  cases (w.scene.store.write o key v).1 <;> rfl

end Notification

namespace World

variable (w : World σ) (o : ObjectId) (key : String) (v : Value)

/-- The subscribers that a write tells. -/
def told : List SubscriberId :=
  match (w.scene.store.write o key v).1 with
  | .replaced => (w.scene.store.write o key v).2.liveSubscribers o key
  | _ => []

/-- The world in which a property has been written and nobody has been told yet. -/
def written : World σ :=
  match (w.scene.store.write o key v).1 with
  | .replaced => Notification.announced w o key v
  | _ => w.withStore (w.scene.store.write o key v).2

@[simp] theorem watcher?_written (id : SubscriberId) :
    (w.written o key v).scene.watcher? id = w.scene.watcher? id := by
  rw [written]
  cases (w.scene.store.write o key v).1 <;> rfl

@[simp] theorem code_written : (w.written o key v).code = w.code := by
  rw [written]
  cases (w.scene.store.write o key v).1 <;> rfl

theorem contents_written :
    (w.written o key v).scene.store.contents = (w.scene.store.write o key v).2.contents := by
  rw [written]
  cases (w.scene.store.write o key v).1 with
  | replaced => exact Notification.contents_announced w o key v
  | _ => rfl

end World

namespace Notification

variable {call : Call σ}

/-- A write is a fan-out to those whom it tells. -/
theorem set_eq_updateAll {w : World σ} {o : ObjectId} {key : String} {v : Value} :
    set call o key v w = updateAll call (w.told o key v) (w.written o key v) := by
  rw [set_eq, World.told, World.written]
  cases (w.scene.store.write o key v).1 <;> rfl

theorem setPath_eq (path : String) (root v : Value) {w : World σ}
    (h : w.scene.store.tracking = []) :
    setPath call path root v w =
      match w.scene.store.destination path root with
      | .error e => some (.error e, w)
      | .ok (o, key) => set call o key v w := by
  rw [setPath, Run.onStore_bind, Store.target_of_tracking_nil h]
  cases w.scene.store.destination path root <;> rfl

end Notification

/-! ## Calling listeners -/

namespace Dispatch

variable {call : Call σ} {event : Event} {w w' : World σ} {handler : Nat}

theorem callOne_of_code {code : Event → Action σ} (h : w.code.handlers[handler]? = some code) :
    callOne call event handler w = call (code event) w := by
  rw [callOne, Run.get_bind, h]

theorem callAll_cons_eq_some {rest : List Nat} {r : Except BindError Unit} :
    callAll call event (handler :: rest) w = some (r, w') ↔ ∃ first w₁ others,
      callOne call event handler w = some (first, w₁) ∧
        callAll call event rest w₁ = some (others, w') ∧ r = firstError first others := by
  rw [callAll]
  constructor
  · intro h
    obtain ⟨first, w₁, hfirst, h⟩ := Run.bind_eq_some_iff.1 h
    obtain ⟨others, w₂, hrest, h⟩ := Run.bind_eq_some_iff.1 h
    cases h
    exact ⟨first, w₁, others, hfirst, hrest, rfl⟩
  · rintro ⟨first, w₁, others, hfirst, hrest, rfl⟩
    exact Run.bind_eq_some_iff.2 ⟨first, w₁, hfirst,
      Run.bind_eq_some_iff.2 ⟨others, w', hrest, rfl⟩⟩

end Dispatch

end DataBinding

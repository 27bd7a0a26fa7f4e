import DataBinding.Engine.Lifetime
import DataBinding.Proofs.Engine.Inversion

/-!
# Making view-models and giving them back

`OpenOutcome` lists the ways in which the making of a view-model ends: it has no state, it has no
place to be attached to, it is not attached at all, its template compiles, or it does not.  Giving a
handle back always succeeds, and `release_eq` says what it does.
-/

set_option autoImplicit false

namespace DataBinding

variable {σ : Type}

/-- The world with one more view-model, which has not been compiled yet. -/
def World.withViewModel (w : World σ) (options : ViewModelOptions)
    (methods : String → ViewModelId → Event → Action σ) (root : Option NodeId) (state : ObjectId)
    (s : Store) : World σ where
  scene := { w.scene with
    store := s
    viewModels := w.scene.viewModels.push ⟨1, root, state, options.methods, ⟨[], .zero⟩⟩ }
  code := { w.code with methods := w.code.methods.push methods }

/-- The world in which a view-model is changed. -/
def World.withEdited (w : World σ) (vm : ViewModelId) (f : ViewModel → ViewModel) : World σ :=
  { w with scene := { w.scene with viewModels := w.scene.viewModels.modify vm f } }

/-- Whether a node is the given root or below it. -/
def Scene.isUnder (s : Scene σ) (root : Option NodeId) (n : NodeId) : Bool :=
  root.any fun r ↦ s.document.isInclusiveAncestor r n

/-- The world after a handle on a view-model has been given back. -/
def World.released (w : World σ) (vm : ViewModelId) : World σ :=
  match w.scene.viewModels[vm]? with
  | none => w
  | some v =>
    if v.handles = 1 then
      { w with scene := { w.scene with
          store := w.scene.store.releaseAll v.compiled.scope
          listeners := w.scene.listeners.filter fun l ↦ !w.scene.isUnder v.root l.node
          viewModels := w.scene.viewModels.modify vm fun v ↦ { v with handles := v.handles - 1 } } }
    else w.withEdited vm fun v ↦ { v with handles := v.handles - 1 }

namespace Lifetime

theorem release_eq (vm : ViewModelId) (w : World σ) : release vm w = some ((), w.released vm) := by
  rw [release, Run.scene_bind, World.released]
  cases w.scene.viewModels[vm]? with
  | none => rfl
  | some v =>
    by_cases hlast : v.handles = 1
    · simp only [hlast, if_true]
      cases hroot : v.root with
      | none =>
        have hall : w.scene.listeners.filter (fun l ↦ !w.scene.isUnder none l.node) =
            w.scene.listeners := List.filter_eq_self.2 fun _ _ ↦ rfl
        rw [hall]
        rfl
      | some root => rfl
    · simp only [hlast, if_false]
      rfl

theorem exists_object_of_stateOf {j data : Json} (h : stateOf j = .ok data) :
    ∃ members, data = .object members := by
  cases j <;> cases h <;> exact ⟨_, rfl⟩

/-- The listeners of a view-model call its methods. -/
def listenersOf (vm : ViewModelId) (method : String) (event : Event) : Action σ :=
  .invoke vm method event .done

variable {call : Call σ} {limit : Nat} {options : ViewModelOptions}
  {methods : String → ViewModelId → Event → Action σ} {w w' : World σ}

/-- The ways in which the making of a view-model ends, with its result and the world after it. -/
inductive OpenOutcome (call : Call σ) (limit : Nat) (options : ViewModelOptions)
    (methods : String → ViewModelId → Event → Action σ) (w : World σ) :
    Except OpenError ViewModelId → World σ → Prop
  /-- The state is no object. -/
  | stateless {e : OpenError} (hstate : stateOf options.state = .error e) :
      OpenOutcome call limit options methods w (.error e) w
  /-- There is no node to be attached to. -/
  | astray {data : Json} {e : OpenError} (hstate : stateOf options.state = .ok data)
      (hlocate : locate w.scene.document options.attach = .error e) :
      OpenOutcome call limit options methods w (.error e)
        (w.withStore (Store.observe data w.scene.store).2)
  /-- It is not attached. -/
  | detached {data : Json} {state : ObjectId} (hstate : stateOf options.state = .ok data)
      (hlocate : locate w.scene.document options.attach = .ok none)
      (hobserve : (Store.observe data w.scene.store).1 = .object state) :
      OpenOutcome call limit options methods w (.ok w.scene.viewModels.size)
        (w.withViewModel options methods none state (Store.observe data w.scene.store).2)
  /-- Its template compiles. -/
  | compiled {data : Json} {state : ObjectId} {root : NodeId} {c : Compiled} {w₁ : World σ}
      (hstate : stateOf options.state = .ok data)
      (hlocate : locate w.scene.document options.attach = .ok (some root))
      (hobserve : (Store.observe data w.scene.store).1 = .object state)
      (hcompile : Compilation.compile call limit (job options root (.object state))
        (listenersOf w.scene.viewModels.size) (w.withViewModel options methods (some root) state
          (Store.observe data w.scene.store).2) = some (.ok c, w₁)) :
      OpenOutcome call limit options methods w (.ok w.scene.viewModels.size)
        (w₁.withEdited w.scene.viewModels.size fun v ↦ { v with compiled := c })
  /-- Its template does not compile. -/
  | failed {data : Json} {state : ObjectId} {root : NodeId} {e : BindError} {w₁ : World σ}
      (hstate : stateOf options.state = .ok data)
      (hlocate : locate w.scene.document options.attach = .ok (some root))
      (hobserve : (Store.observe data w.scene.store).1 = .object state)
      (hcompile : Compilation.compile call limit (job options root (.object state))
        (listenersOf w.scene.viewModels.size) (w.withViewModel options methods (some root) state
          (Store.observe data w.scene.store).2) = some (.error e, w₁)) :
      OpenOutcome call limit options methods w (.error (.bind e))
        (w₁.released w.scene.viewModels.size)

/-- **The making of a view-model ends in one of the listed ways.** -/
theorem open_outcome {x : Except OpenError ViewModelId}
    (hrun : openViewModel call limit options methods w = some (x, w')) :
    OpenOutcome call limit options methods w x w' := by
  rw [openViewModel] at hrun
  cases hstate : stateOf options.state with
  | error e =>
    rw [hstate] at hrun
    cases hrun
    exact .stateless hstate
  | ok data =>
    rw [hstate] at hrun
    obtain ⟨state, hobserve⟩ : ∃ state, (Store.observe data w.scene.store).1 = .object state := by
      obtain ⟨members, rfl⟩ := exists_object_of_stateOf hstate
      rw [Store.observe]
      exact ⟨_, rfl⟩
    simp only [Run.onStore_bind, hobserve] at hrun
    obtain ⟨s, w₀, hscene, hrun⟩ := Run.bind_eq_some_iff.1 hrun
    cases hscene
    cases hlocate : locate w.scene.document options.attach with
    | error e =>
      simp only [hlocate] at hrun
      cases hrun
      exact .astray hstate hlocate
    | ok root =>
      simp only [hlocate] at hrun
      obtain ⟨s, w₁, hscene, hrun⟩ := Run.bind_eq_some_iff.1 hrun
      cases hscene
      obtain ⟨_, w₁, hpush, hrun⟩ := Run.bind_eq_some_iff.1 hrun
      cases hpush
      obtain ⟨_, w₁, hsupply, hrun⟩ := Run.bind_eq_some_iff.1 hrun
      cases hsupply
      cases root with
      | none =>
        cases hrun
        exact .detached hstate hlocate hobserve
      | some root =>
        obtain ⟨result, w₁, hcompile, hrun⟩ := Run.bind_eq_some_iff.1 hrun
        cases result with
        | ok c =>
          cases hrun
          exact .compiled hstate hlocate hobserve hcompile
        | error e =>
          obtain ⟨_, w₂, hrelease, hrun⟩ := Run.bind_eq_some_iff.1 hrun
          rw [release_eq] at hrelease
          cases hrelease
          cases hrun
          exact .failed hstate hlocate hobserve hcompile

end Lifetime

end DataBinding

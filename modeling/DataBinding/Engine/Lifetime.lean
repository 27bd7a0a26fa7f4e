import DataBinding.Engine.Compilation
import DataBinding.State.Observe

/-!
# The life of a view-model

A view-model ties an object of state to a part of the document: its template is compiled below the
node it is attached to, and the listeners the template asks for call its methods.  It lives as long
as somebody holds it.  **When the last handle is given back its watchers are released and the
listeners at and below its root are taken away**; whatever listener is called after that finds
nobody and does nothing.

A method holds its view-model while it runs.
-/

set_option autoImplicit false

namespace DataBinding

/-- The text of the error. -/
def OpenError.message : OpenError → String
  | .bind e => e.message
  | .targetNotFound selector => "attach target `" ++ selector ++ "` matched no element"
  | .stateNotObject state =>
    "invalid options: state must be an object, got `" ++ state.text ++ "`"

namespace Lifetime

variable {σ : Type}

/-- Changes a view-model. -/
def edit (vm : ViewModelId) (f : ViewModel → ViewModel) : Run σ Unit :=
  Run.editScene fun s ↦ { s with viewModels := s.viewModels.modify vm f }

/-- Takes one more handle on a view-model. -/
def retain (vm : ViewModelId) : Run σ Unit := edit vm fun v ↦ { v with handles := v.handles + 1 }

/-- Gives a handle on a view-model back; the last one takes the bindings with it. -/
def release (vm : ViewModelId) : Run σ Unit := do
  match (← Run.scene).viewModels[vm]? with
  | none => return ()
  | some v =>
    edit vm fun v ↦ { v with handles := v.handles - 1 }
    if v.handles = 1 then
      match v.root with
      | none => pure ()
      | some root => Run.editScene fun s ↦ s.clearListeners root
      Run.editStore fun s ↦ s.releaseAll v.compiled.scope

/-- Calls a method of a view-model.  Nothing happens when nobody holds the view-model any more. -/
def invoke (call : Call σ) (vm : ViewModelId) (method : String) (event : Event) :
    Run σ (Except BindError Unit) := do
  let w ← get
  match w.scene.viewModels[vm]?, w.code.methods[vm]? with
  | some v, some methods =>
    if v.handles = 0 then return .ok ()
    if !v.methods.contains method then return .error (.missingHandler method)
    retain vm
    let result ← call (methods method vm event)
    release vm
    return result
  | _, _ => return .ok ()

/-- The object of state that data describes; null stands for an empty one. -/
def stateOf : Json → Except OpenError Json
  | .null => .ok (.object [])
  | .object members => .ok (.object members)
  | other => .error (.stateNotObject other)

/-- The node that a view-model is attached to. -/
def locate (d : Document) : Option AttachTarget → Except OpenError (Option NodeId)
  | none => .ok none
  | some (.node id) => .ok (some id)
  | some (.selector text) =>
    match d.select? Document.root text with
    | some id => .ok (some id)
    | none => .error (.targetNotFound text)

/-- What the template of a view-model is compiled with. -/
def job (options : ViewModelOptions) (root : NodeId) (state : Value) : CompileJob σ :=
  ⟨root, state, options.dialect, .standard, fun _ data ↦ data⟩

/-- Makes a view-model held by one handle.  The state is observed before the target is looked up,
and a template that does not compile leaves nothing of the view-model behind. -/
def openViewModel (call : Call σ) (limit : Nat) (options : ViewModelOptions)
    (methods : String → ViewModelId → Event → Action σ) :
    Run σ (Except OpenError ViewModelId) := do
  match stateOf options.state with
  | .error e => return .error e
  | .ok data =>
    match ← Run.onStore (Store.observe data) with
    | .object state =>
      match locate (← Run.scene).document options.attach with
      | .error e => return .error e
      | .ok root =>
        let vm := (← Run.scene).viewModels.size
        let fresh : ViewModel := ⟨1, root, state, options.methods, ⟨[], .zero⟩⟩
        Run.editScene fun s ↦ { s with viewModels := s.viewModels.push fresh }
        Run.editCode fun code ↦ { code with methods := code.methods.push methods }
        match root with
        | none => return .ok vm
        | some node =>
          match ← Compilation.compile call limit (job options node (.object state))
              fun method event ↦ .invoke vm method event .done with
          | .ok compiled =>
            edit vm fun v ↦ { v with compiled := compiled }
            return .ok vm
          | .error e =>
            release vm
            return .error (.bind e)
    | _ => return .error (.stateNotObject data)

end Lifetime

end DataBinding

import DataBinding.Proofs.Template.UpdatedBonds

/-!
# Code that only looks

Code that looks at the scene, reads state and keeps its own data cannot disturb a template.  So
**the actions that only look are bystanders of every template** (`Action.Onlooks.bystanding`), and a
program whose own callbacks, listeners and methods are of this kind may use every theorem about
bystanders.
-/

set_option autoImplicit false

namespace DataBinding

variable {σ : Type}

/-- The action looks and remembers, and does nothing else. -/
inductive Action.Onlooks : Action σ → Prop
  | done (r : Except BindError Unit) : Onlooks (.done r)
  | inspect {next : Scene σ → Action σ} (h : ∀ s, Onlooks (next s)) : Onlooks (.inspect next)
  | modify {f : σ → σ} {next : Action σ} (h : Onlooks next) : Onlooks (.modify f next)
  | getPath {path : String} {root : Value} {next : Except StateError Value → Action σ}
      (h : ∀ r, Onlooks (next r)) : Onlooks (.getPath path root next)
  | render {template : String} {root : Value} {next : Except StateError String → Action σ}
      (h : ∀ r, Onlooks (next r)) : Onlooks (.render template root next)

/-- The world with other data of the program. -/
def World.withData (w : World σ) (data : σ) : World σ :=
  { w with scene := { w.scene with data := data } }

namespace Action.Onlooks

/-- A read outside of evaluations changes nothing. -/
theorem onStore_eq {α : Type} {f : Store → α × Store} {w : World σ} {x : α}
    (h : f w.scene.store = (x, w.scene.store)) : Run.onStore f w = some (x, w) := by
  rw [Run.onStore, h]

/-- **Nothing but the data of the program is changed**, and there is nothing to be noted. -/
theorem follow_eq (call : Call σ) (limit : Nat) (tell : Action σ → World σ → List Mark)
    {a : Action σ} (h : a.Onlooks) {w : World σ} (hidle : w.scene.store.tracking = []) :
    Chronicle.ofAction call tell a w = [] ∧
      ∃ r data, follow call limit a w = some (r, w.withData data) := by
  induction h generalizing w with
  | done r => exact ⟨rfl, r, w.scene.data, rfl⟩
  | inspect _ ih => exact ih w.scene hidle
  | @modify f _ _ ih =>
    obtain ⟨hmarks, r, data, hrun⟩ := ih (w := w.withData (f w.scene.data)) hidle
    exact ⟨hmarks, r, data, hrun⟩
  | @getPath path root next _ ih =>
    have hread : Run.onStore (Store.getValue path root) w
        = some (w.scene.store.resolve path root, w) :=
      onStore_eq (by rw [Store.getValue_eq, Store.touch_of_tracking_nil hidle])
    obtain ⟨hmarks, r, data, hrun⟩ := ih (w.scene.store.resolve path root) hidle
    exact ⟨(Chronicle.andThen_of_eq_some hread _).trans hmarks, r, data,
      Run.bind_eq_some_iff.2 ⟨_, _, hread, hrun⟩⟩
  | @render template root next _ ih =>
    have hread : Run.onStore (Store.render template root) w
        = some (w.scene.store.filled template root, w) := onStore_eq (Store.render_eq hidle ..)
    obtain ⟨hmarks, r, data, hrun⟩ := ih (w.scene.store.filled template root) hidle
    exact ⟨(Chronicle.andThen_of_eq_some hread _).trans hmarks, r, data,
      Run.bind_eq_some_iff.2 ⟨_, _, hread, hrun⟩⟩

/-- **Code that only looks is a bystander**, whatever template it is. -/
theorem bystanding (edits : Document → Document → Prop) (scope : List SubscriberId) :
    Bystanding (Action.Onlooks : Action σ → Prop) edits scope where
  covered {depth a w} ha hidle := by
    cases depth with
    | zero => simp [chronicle, Covered]
    | succ depth =>
      have hmarks := (follow_eq (run depth) depth (chronicle depth) ha hidle).1
      rw [chronicle, hmarks]
      simp [Covered]
  spares {depth a w w' r} ha hidle hrun := by
    cases depth with
    | zero => cases hrun
    | succ depth =>
      obtain ⟨-, r', data, hfollow⟩ := follow_eq (run depth) depth (chronicle depth) ha hidle
      rw [run, hfollow] at hrun
      cases hrun
      exact .of_kept rfl (.of_contents rfl) rfl (fun _ _ ↦ rfl) rfl rfl

end Action.Onlooks

end DataBinding

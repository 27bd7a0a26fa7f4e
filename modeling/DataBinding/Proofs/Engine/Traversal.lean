import DataBinding.Engine.Compilation

/-!
# Going through a template

A visit of a template consists of a few sorts of steps: bindings are made, markers are taken away,
something is counted or looked at.  **A property of steps that goes through sequences of them holds
of the whole visit as soon as it holds of these** (`Compositional.visit`).
-/

set_option autoImplicit false

namespace DataBinding.Compilation

variable {σ : Type}

/-- What a step with another one after it does to the progress and the world. -/
theorem run_bind {α β : Type} (m : Compilation σ α) (f : α → Compilation σ β) (p : Progress) :
    (m >>= f).run.run p = (m.run.run p >>= fun x ↦ match x with
      | (.ok a, p') => (f a).run.run p'
      | (.error e, p') => pure (.error e, p')) := by
  refine funext fun w ↦ ?_
  show (m.run.run p w).bind _ = (m.run.run p w).bind _
  refine congrArg (Option.bind _) (funext fun ⟨⟨x, p'⟩, w'⟩ ↦ ?_)
  cases x <;> rfl

theorem run_lift {α : Type} (m : Run σ α) (p : Progress) :
    (lift m).run.run p = (m >>= fun a ↦ pure (.ok a, p)) := by
  refine funext fun w ↦ ?_
  show Option.bind (Option.bind (m w) _) _ = Option.bind (m w) _
  cases m w <;> rfl

theorem run_attempt {α : Type} (m : Run σ (Except BindError α)) (p : Progress) :
    (attempt m).run.run p = (m >>= fun x ↦ pure (x, p)) := by
  refine funext fun w ↦ ?_
  show Option.bind (m w) _ = Option.bind (m w) _
  cases m w <;> rfl

/-- A property of the steps of a compilation that sequences inherit, and that steps which only look
or count have. -/
structure Sequential (K : (α : Type) → Compilation σ α → Prop) : Prop where
  pure {α : Type} (a : α) : K α (pure a)
  bind {α β : Type} {m : Compilation σ α} {f : α → Compilation σ β} (hm : K α m)
    (hf : ∀ a, K β (f a)) : K β (m >>= f)
  refuse {α : Type} (e : BindError) : K α (refuse e)
  scene : K (Scene σ) (lift Run.scene)
  count (f : CompileStats → CompileStats) : K Unit (count f)

/-- Such a property that is not about coming to an end: a visit that has reached its limit has it,
too. -/
structure Compositional (K : (α : Type) → Compilation σ α → Prop) : Prop extends Sequential K where
  tooDeep : K Unit (lift Run.tooDeep)

section Sequences

variable {K : (α : Type) → Compilation σ α → Prop} {call : Call σ} {job : CompileJob σ}
  {methods : String → Event → Action σ}

theorem Sequential.forM {β : Type} (h : Sequential K) {xs : List β} {f : β → Compilation σ Unit}
    (hf : ∀ x ∈ xs, K Unit (f x)) : K Unit (xs.forM f) := by
  induction xs with
  | nil => exact h.pure ()
  | cons x xs ih =>
    exact h.bind (hf x List.mem_cons_self) fun _ ↦ ih fun y hy ↦ hf y (List.mem_cons_of_mem x hy)

section Node

variable {n : NodeId} (h : Sequential K) (hbind : ∀ {kind handler},
  job.table.lookup kind = some handler → ∀ directive, ∀ binding ∈ handler directive,
    K Unit (Compilation.bind call job methods n binding))

include h hbind

theorem Sequential.direct (unknown kind : String) (directive : Directive) :
    K Unit (Compilation.direct call job methods n unknown kind directive) := by
  rw [Compilation.direct]
  split
  · exact h.refuse _
  · rename_i handler hlookup
    exact h.forM (hbind hlookup directive)

variable (hstrip : ∀ name, K Unit (lift (Run.editDocument fun d ↦ d.removeAttribute n name)))

include hstrip

theorem Sequential.visitAttribute (name value : String) :
    K Bool (Compilation.visitAttribute call job methods n name value) := by
  rw [Compilation.visitAttribute]
  split
  · exact h.pure _
  · exact h.bind (h.direct hbind ..) fun _ ↦ h.bind (h.count _) fun _ ↦
      h.bind (hstrip name) fun _ ↦ h.pure _
  · exact h.bind (h.direct hbind ..) fun _ ↦ h.bind (h.count _) fun _ ↦
      h.bind (hstrip name) fun _ ↦ h.pure _

theorem Sequential.visitAttributes (attributes : List (String × String)) :
    K Bool (Compilation.visitAttributes call job methods n attributes) := by
  induction attributes with
  | nil => exact h.pure _
  | cons a attributes ih =>
    exact h.bind (h.visitAttribute hbind hstrip a.1 a.2) fun _ ↦ h.bind ih fun _ ↦ h.pure _

/-- **A visit of a node has what its bindings and the taking away of its markers have.** -/
theorem Sequential.visitNode : K Bool (Compilation.visitNode call job methods n) := by
  refine h.bind h.scene fun s ↦ ?_
  split
  · exact h.bind (h.count _) fun _ ↦ h.visitAttributes hbind hstrip _
  · split
    · exact h.bind (h.count _) fun _ ↦ h.bind (h.direct hbind ..) fun _ ↦ h.pure _
    · exact h.pure _
  · exact h.pure _

end Node

/-- **A visit has what the bindings of the table and the taking away of markers have.** -/
theorem Compositional.visit (h : Compositional K) (hbind : ∀ n {kind handler},
      job.table.lookup kind = some handler → ∀ directive, ∀ binding ∈ handler directive,
        K Unit (Compilation.bind call job methods n binding))
    (hstrip : ∀ n name, K Unit (lift (Run.editDocument fun d ↦ d.removeAttribute n name)))
    (fuel : Nat) (pending : List NodeId) :
    K Unit (Compilation.visit call job methods fuel pending) := by
  induction fuel generalizing pending with
  | zero =>
    cases pending with
    | nil => exact h.pure ()
    | cons n pending => exact h.tooDeep
  | succ fuel ih =>
    cases pending with
    | nil => exact h.pure ()
    | cons n pending =>
      rw [Compilation.visit]
      refine h.bind (h.visitNode (hbind n) (hstrip n)) fun owned ↦ ?_
      split
      · exact ih pending
      · exact h.bind h.scene fun _ ↦ ih _

end Sequences

end DataBinding.Compilation

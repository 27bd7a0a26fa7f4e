import DataBinding.Proofs.Engine.RuleKeepingCode
import DataBinding.Proofs.Lifetime.Opening

/-!
# Everyday code around one view-model

Everyday code writes state, fires events, edits the document and holds view-models.  It neither
makes watchers nor holds them, so while only everyday code is run, the watchers of a view-model are
held by the view-model, as long as it is held itself, and by the fan-outs that are running
(`World.Attended`).

**However deeply everyday code is nested, it keeps this account** (`run_keeps_attended`).  The step
that matters is the giving back of the last handle, which takes the watchers with it
(`World.Attended.released`).
-/

set_option autoImplicit false

namespace DataBinding

variable {σ : Type}

/-! ## Everyday code -/

/-- Code that writes state, fires events and edits the document, but makes neither watchers nor
listeners nor view-models, and holds no watchers. -/
inductive Action.Everyday : Action σ → Prop
  | done (result : Except BindError Unit) : Everyday (.done result)
  | inspect {next : Scene σ → Action σ} (h : ∀ s, Everyday (next s)) : Everyday (.inspect next)
  | modify {f : σ → σ} {next : Action σ} (h : Everyday next) : Everyday (.modify f next)
  | observe {data : Json} {next : Value → Action σ} (h : ∀ v, Everyday (next v)) :
      Everyday (.observe data next)
  | get {o : ObjectId} {key : String} {next : Option Value → Action σ}
      (h : ∀ v, Everyday (next v)) :
      Everyday (.get o key next)
  | getPath {path : String} {root : Value} {next : Except StateError Value → Action σ}
      (h : ∀ x, Everyday (next x)) : Everyday (.getPath path root next)
  | render {template : String} {root : Value} {next : Except StateError String → Action σ}
      (h : ∀ x, Everyday (next x)) : Everyday (.render template root next)
  | set {o : ObjectId} {key : String} {v : Value} {next : Except StateError Unit → Action σ}
      (h : ∀ x, Everyday (next x)) : Everyday (.set o key v next)
  | setPath {path : String} {root v : Value} {next : Except StateError Unit → Action σ}
      (h : ∀ x, Everyday (next x)) : Everyday (.setPath path root v next)
  | edit {e : Edit} {next : Action σ} (h : Everyday next) : Everyday (.edit e next)
  | unlisten {root : NodeId} {next : Action σ} (h : Everyday next) : Everyday (.unlisten root next)
  | dispatch {n : NodeId} {event : String} {v : Value} {next : Except BindError Unit → Action σ}
      (h : ∀ x, Everyday (next x)) : Everyday (.dispatch n event v next)
  | retainViewModel {vm : ViewModelId} {next : Action σ} (h : Everyday next) :
      Everyday (.retainViewModel vm next)
  | releaseViewModel {vm : ViewModelId} {next : Action σ} (h : Everyday next) :
      Everyday (.releaseViewModel vm next)
  | invoke {vm : ViewModelId} {method : String} {event : Event}
      {next : Except BindError Unit → Action σ} (h : ∀ x, Everyday (next x)) :
      Everyday (.invoke vm method event next)

/-- All code that has been supplied is everyday code. -/
structure Code.Everyday (c : Code σ) : Prop where
  reactions : ∀ reaction ∈ c.reactions, ∀ v, (reaction v).Everyday
  handlers : ∀ handler ∈ c.handlers, ∀ e, (handler e).Everyday
  methods : ∀ methods ∈ c.methods, ∀ name vm e, (methods name vm e).Everyday

/-! ## While a view-model is attended to -/

theorem Scene.isOpen_of_single {s : Scene σ} {v : ViewModel} (h : s.viewModels = #[v]) :
    s.isOpen 0 = decide (0 < v.handles) := by
  rw [isOpen, h]
  rfl

theorem World.viewModels_withEdited {w : World σ} {v : ViewModel} (h : w.scene.viewModels = #[v])
    (vm : ViewModelId) (f : ViewModel → ViewModel) :
    (w.withEdited vm f).scene.viewModels = #[if vm = 0 then f v else v] := by
  show w.scene.viewModels.modify vm f = _
  rw [h]
  by_cases hvm : vm = 0
  · subst hvm
    rfl
  · rw [if_neg hvm]
    refine Array.ext_getElem? fun i ↦ ?_
    rw [Array.getElem?_modify]
    split
    · rename_i heq
      subst heq
      rw [Array.getElem?_eq_none (Nat.pos_of_ne_zero hvm)]
      rfl
    · rfl

/-- Since `w₁` there has been one view-model, whose watchers are `scope`; it is the only one to hold
them while it is held itself, but for the fan-outs that are running, which hold `held`. -/
structure World.Attended (w₁ : World σ) (scope held : List SubscriberId) (w : World σ) : Prop where
  code_eq : w.code = w₁.code
  listeners : w.scene.listeners ⊆ w₁.scene.listeners
  viewModel : ∃ v, w.scene.viewModels = #[v] ∧ v.compiled.scope = scope
  holders_le : ∀ id, w.scene.store.holders id ≤
    (if w.scene.isOpen 0 then scope.count id else 0) + held.count id

namespace World.Attended

variable {w₁ w w' : World σ} {scope held : List SubscriberId}

theorem of_eq (h : Attended w₁ scope held w) (hcode : w'.code = w.code)
    (hlisteners : w'.scene.listeners ⊆ w.scene.listeners)
    (hviewModels : w'.scene.viewModels = w.scene.viewModels)
    (hhandles : w'.scene.store.handles = w.scene.store.handles) : Attended w₁ scope held w' where
  code_eq := hcode.trans h.code_eq
  listeners := List.Subset.trans hlisteners h.listeners
  viewModel := hviewModels ▸ h.viewModel
  holders_le := by
    simp only [Scene.isOpen, hviewModels, Store.holders, hhandles]
    exact h.holders_le

theorem retainAll (h : Attended w₁ scope held w) (ids : List SubscriberId) :
    Attended w₁ scope (ids ++ held) (w.withStore (ids.foldl Store.retain w.scene.store)) where
  code_eq := h.code_eq
  listeners := h.listeners
  viewModel := h.viewModel
  holders_le id := by
    have hle := h.holders_le id
    rw [List.count_append]
    rcases Nat.lt_or_ge id w.scene.store.handles.size with hlt | hge
    · have hretained := Store.holders_retainAll hlt ids
      show (ids.foldl Store.retain w.scene.store).holders id ≤
        (if w.scene.isOpen 0 then scope.count id else 0) + _
      omega
    · have hnobody : (ids.foldl Store.retain w.scene.store).holders id = 0 := by
        rw [Store.holders, Array.getD_eq_getD_getElem?, Array.getElem?_eq_none]
        · rfl
        · rw [(Store.MakesNobody.retainAll ids).size_eq w.scene.store]
          exact hge
      show (ids.foldl Store.retain w.scene.store).holders id ≤ _
      rw [hnobody]
      exact Nat.zero_le _

theorem release {id : SubscriberId} (h : Attended w₁ scope (id :: held) w) :
    Attended w₁ scope held (w.withStore (w.scene.store.release id)) where
  code_eq := h.code_eq
  listeners := h.listeners
  viewModel := h.viewModel
  holders_le id' := by
    have hle := h.holders_le id'
    rw [List.count_cons] at hle
    simp only [beq_iff_eq] at hle
    show (w.scene.store.release id).holders id' ≤
      (if w.scene.isOpen 0 then scope.count id' else 0) + held.count id'
    rw [Store.holders_release]
    omega

/-- The view-model is changed; if it was held, it still is. -/
theorem edited (h : Attended w₁ scope held w) (vm : ViewModelId) {f : ViewModel → ViewModel}
    (hscope : ∀ v, (f v).compiled = v.compiled)
    (hopen : ∀ v, w.scene.viewModels[vm]? = some v → 0 < v.handles → 0 < (f v).handles) :
    Attended w₁ scope held (w.withEdited vm f) := by
  obtain ⟨v, hv, hv'⟩ := h.viewModel
  have hsingle := World.viewModels_withEdited hv vm f
  refine ⟨h.code_eq, h.listeners, ⟨_, hsingle, ?_⟩, fun id ↦ Nat.le_trans (h.holders_le id) ?_⟩
  · split
    · rw [hscope, hv']
    · exact hv'
  · have hstays : w.scene.isOpen 0 = true → (w.withEdited vm f).scene.isOpen 0 = true := by
      rw [Scene.isOpen_of_single hv, Scene.isOpen_of_single hsingle]
      intro hpos
      rw [decide_eq_true_eq] at hpos ⊢
      split
      · rename_i hvm
        exact hopen v (by rw [hv, hvm]; rfl) hpos
      · exact hpos
    refine Nat.add_le_add_right ?_ _
    split
    · rename_i hpos
      exact Nat.le_of_eq (if_pos (hstays hpos)).symm
    · exact Nat.zero_le _

/-- **The last handle takes the watchers with it.** -/
theorem released (h : Attended w₁ scope held w) (vm : ViewModelId) :
    Attended w₁ scope held (w.released vm) := by
  obtain ⟨v, hv, hv'⟩ := h.viewModel
  rw [World.released]
  cases hvm : w.scene.viewModels[vm]? with
  | none => exact h
  | some u =>
    by_cases hlast : u.handles = 1
    · have hzero : vm = 0 ∧ u = v := by
        rw [hv, Array.getElem?_singleton] at hvm
        split at hvm
        · exact ⟨‹_›, (Option.some.inj hvm).symm⟩
        · cases hvm
      obtain ⟨rfl, rfl⟩ := hzero
      simp only [hlast, if_true]
      refine ⟨h.code_eq, List.Subset.trans List.filter_sublist.subset h.listeners,
        ⟨{ u with handles := u.handles - 1 }, by rw [hv]; rfl, hv'⟩, fun id ↦ ?_⟩
      have hle := h.holders_le id
      rw [Scene.isOpen_of_single hv, hlast] at hle
      show (w.scene.store.releaseAll u.compiled.scope).holders id ≤ _
      rw [hv', Store.holders_releaseAll]
      simp only [decide_true, Nat.lt_one_iff, if_true] at hle
      omega
    · simp only [hlast, if_false]
      refine h.edited vm (fun _ ↦ rfl) fun u' hu' hpos ↦ ?_
      cases hvm.symm.trans hu'
      show 0 < u.handles - 1
      omega

end World.Attended

/-! ## Running everyday code -/

section Steps

open Run

variable {w₁ : World σ} {scope held : List SubscriberId}

theorem keeps_attended_onStore {α : Type} {f : Store → α × Store}
    (h : ∀ s, (f s).2.handles = s.handles) : Keeps (w₁.Attended scope held) (onStore f : Run σ α) :=
  .change fun _ hw ↦ hw.of_eq rfl (List.Subset.refl _) rfl (h _)

end Steps

namespace Notification

open Run

variable {w₁ : World σ} {scope held : List SubscriberId} {call : Call σ} (hcode : w₁.code.Everyday)
  (hcall : ∀ a : Action σ, a.Everyday → ∀ held, Keeps (w₁.Attended scope held) (call a))

include hcode hcall

theorem keeps_attended_react (id : SubscriberId) (v : Value) :
    Keeps (w₁.Attended scope held) (react call id v) := by
  refine .get fun w hw ↦ ?_
  cases hreaction : w.code.reactions[id]? with
  | none => exact .pure _
  | some reaction =>
    rw [hw.code_eq] at hreaction
    exact .bind (hcall _ (hcode.reactions reaction (Array.mem_of_getElem? hreaction) v) held)
      fun _ ↦ .pure _

theorem keeps_attended_update (id : SubscriberId) :
    Keeps (w₁.Attended scope held) (update call id) := by
  refine .bind .look fun s ↦ ?_
  split
  · exact .pure _
  · exact keeps_attended_react hcode hcall id .null
  · refine .bind (keeps_attended_onStore fun _ ↦ Store.handles_evaluate ..) fun x ↦ ?_
    split
    · exact .pure _
    · split
      · exact .pure _
      · refine .bind (keeps_attended_react hcode hcall id _) fun x ↦ ?_
        split
        · exact .pure _
        · exact .bind (.change fun _ hw ↦ hw.of_eq rfl (List.Subset.refl _) rfl rfl) fun _ ↦ .pure _

/-- **A fan-out** gives everybody back whom it holds. -/
theorem keeps_attended_notify (ids : List SubscriberId) :
    Keeps (w₁.Attended scope held) (notify call ids) := by
  refine ⟨fun w r w' hrun hw ↦ ?_⟩
  rw [notify_eq] at hrun
  refine updateAll_induction (P := fun ids w ↦ w₁.Attended scope (ids ++ held) w) ?_
    (hw.retainAll ids) hrun
  exact fun id rest w r w₂ hturn hupdate ↦
    ((keeps_attended_update hcode hcall id).kept w r w₂ hupdate hturn).release

theorem keeps_attended_set (o : ObjectId) (key : String) (v : Value) :
    Keeps (w₁.Attended scope held) (set call o key v) := by
  refine .bind (keeps_attended_onStore fun _ ↦ Store.handles_write) fun r ↦ ?_
  split
  · exact .pure _
  · exact .pure _
  · exact .bind (keeps_attended_onStore fun _ ↦ rfl) fun ids ↦ keeps_attended_notify hcode hcall ids

theorem keeps_attended_setPath (path : String) (root v : Value) :
    Keeps (w₁.Attended scope held) (setPath call path root v) := by
  refine .bind (keeps_attended_onStore (Store.handles_target path root)) fun x ↦ ?_
  split
  · exact .pure _
  · exact keeps_attended_set hcode hcall ..

end Notification

namespace Dispatch

open Run

/-- **An event.** -/
theorem keeps_attended_fire {w₁ : World σ} {scope held : List SubscriberId} {call : Call σ}
    (hcode : w₁.code.Everyday)
    (hcall : ∀ a : Action σ, a.Everyday → ∀ held, Keeps (w₁.Attended scope held) (call a))
    (n : NodeId) (event : String) (v : Value) :
    Keeps (w₁.Attended scope held) (fire call n event v) := by
  refine keeps_fire_of_callOne (fun event k ↦ .get fun w hw ↦ ?_) n event v
  cases hhandler : w.code.handlers[k]? with
  | none => exact .pure _
  | some handler =>
    rw [hw.code_eq] at hhandler
    exact hcall _ (hcode.handlers handler (Array.mem_of_getElem? hhandler) _) held

end Dispatch

namespace Lifetime

open Run

variable {w₁ : World σ} {scope held : List SubscriberId}

theorem keeps_attended_retain (vm : ViewModelId) :
    Keeps (w₁.Attended scope held) (retain vm : Run σ Unit) :=
  .change fun _ hw ↦ hw.edited vm (fun _ ↦ rfl) fun _ _ hpos ↦ Nat.lt_succ_of_lt hpos

theorem keeps_attended_release (vm : ViewModelId) :
    Keeps (w₁.Attended scope held) (release vm : Run σ Unit) := by
  refine ⟨fun w _ w' hrun hw ↦ ?_⟩
  rw [release_eq] at hrun
  cases hrun
  exact hw.released vm

theorem keeps_attended_invoke {call : Call σ} (hcode : w₁.code.Everyday)
    (hcall : ∀ a : Action σ, a.Everyday → ∀ held, Keeps (w₁.Attended scope held) (call a))
    (vm : ViewModelId) (method : String) (event : Event) :
    Keeps (w₁.Attended scope held) (invoke call vm method event) := by
  refine .get fun w hw ↦ ?_
  split
  · rename_i methods _ hmethods
    rw [hw.code_eq] at hmethods
    split
    · exact .pure _
    · split
      · exact .pure _
      · exact .bind (keeps_attended_retain vm) fun _ ↦
          .bind (hcall _ (hcode.methods methods (Array.mem_of_getElem? hmethods) ..) held) fun _ ↦
            .bind (keeps_attended_release vm) fun _ ↦ .pure _
  · exact .pure _

end Lifetime

section Follow

open Run

variable {w₁ : World σ} {scope held : List SubscriberId} (hcode : w₁.code.Everyday)

include hcode

/-- **Following everyday code**, given that the code it calls keeps the account, too. -/
theorem follow_keeps_attended {call : Call σ}
    (hcall : ∀ a : Action σ, a.Everyday → ∀ held, Keeps (w₁.Attended scope held) (call a))
    (limit : Nat) {a : Action σ} (ha : a.Everyday) :
    Keeps (w₁.Attended scope held) (follow call limit a) := by
  induction ha with
  | done result => exact .pure result
  | inspect _ ih => exact .bind .look fun s ↦ ih s
  | modify _ ih =>
    exact .bind (.change fun _ hw ↦ hw.of_eq rfl (List.Subset.refl _) rfl rfl) fun _ ↦ ih
  | observe _ ih =>
    exact .bind (keeps_attended_onStore fun s ↦ (Store.extends_observe _ s).handles) fun v ↦ ih v
  | get _ ih => exact .bind (keeps_attended_onStore fun s ↦ s.handles_get ..) fun v ↦ ih v
  | getPath _ ih => exact .bind (keeps_attended_onStore (Store.handles_getValue _ _)) fun x ↦ ih x
  | render _ ih => exact .bind (keeps_attended_onStore (Store.handles_render _ _)) fun x ↦ ih x
  | set _ ih => exact .bind (Notification.keeps_attended_set hcode hcall ..) fun x ↦ ih x
  | setPath _ ih => exact .bind (Notification.keeps_attended_setPath hcode hcall ..) fun x ↦ ih x
  | edit _ ih =>
    exact .bind (.change fun _ hw ↦ hw.of_eq rfl (List.Subset.refl _) rfl rfl) fun _ ↦ ih
  | unlisten _ ih =>
    exact .bind (.change fun _ hw ↦ hw.of_eq rfl List.filter_sublist.subset rfl rfl) fun _ ↦ ih
  | dispatch _ ih => exact .bind (Dispatch.keeps_attended_fire hcode hcall ..) fun x ↦ ih x
  | retainViewModel _ ih => exact .bind (Lifetime.keeps_attended_retain _) fun _ ↦ ih
  | releaseViewModel _ ih => exact .bind (Lifetime.keeps_attended_release _) fun _ ↦ ih
  | invoke _ ih => exact .bind (Lifetime.keeps_attended_invoke hcode hcall ..) fun x ↦ ih x

/-- **Everyday code keeps the account of handles**, however deeply it is nested. -/
theorem run_keeps_attended (depth : Nat) {a : Action σ} (ha : a.Everyday) :
    Keeps (w₁.Attended scope held) (run depth a) := by
  induction depth generalizing a held with
  | zero => exact .tooDeep
  | succ depth ih => exact follow_keeps_attended hcode (fun b hb held ↦ ih hb) depth ha

end Follow

end DataBinding

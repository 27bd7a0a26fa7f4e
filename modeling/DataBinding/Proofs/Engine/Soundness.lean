import DataBinding.Proofs.Document.Forest
import DataBinding.Proofs.Engine.Inversion
import DataBinding.Proofs.Engine.Traversal
import DataBinding.Proofs.State.Observation
import DataBinding.Proofs.State.Rendering

/-!
# What running code keeps

`Run.Keeps` is about any property of worlds.  It goes through sequences of steps, so what has to be
looked at is the smallest ones: a change of the store that makes nobody, a new subscriber, a new
listener, a change of what is not spoken of, and an edit of the document.  A property that these
keep is *robust* (`World.Robust`), and **whatever code is run, it keeps a robust property**
(`run_keeps`).

Two properties are robust.  A world is *sound* when every subscriber has its handles and its code
and the document is a forest (`World.robust_sound`); and code that has been supplied stays supplied
(`Code.robust_grows`), so that every listener keeps its code (`World.robust_answered`).
-/

set_option autoImplicit false

namespace DataBinding

variable {σ : Type}

/-- Every subscriber has its handles and its code. -/
structure World.Aligned (w : World σ) : Prop where
  subscribers : w.scene.subscribers.size = w.scene.store.handles.size
  reactions : w.code.reactions.size = w.scene.subscribers.size

/-- A world in which everything has its place. -/
structure World.Sound (w : World σ) : Prop extends w.Aligned where
  forest : w.scene.document.IsForest

theorem World.sound_start {document : Document} (h : document.IsForest) (data : σ) :
    (World.start document data).Sound where
  subscribers := rfl
  reactions := rfl
  forest := h

/-- A world with some markup as its document, in which nothing has happened. -/
def World.ofMarkup (markup : String) : World Unit :=
  .start ((Document.parse markup).toOption.getD .empty) ()

theorem World.parse_ofMarkup {markup : String} (h : (Document.parse markup).isOk = true) :
    Document.parse markup = .ok (World.ofMarkup markup).scene.document := by
  rw [World.ofMarkup]
  cases hparse : Document.parse markup with
  | error e =>
    rw [hparse] at h
    cases h
  | ok d => rfl

theorem World.sound_ofMarkup (markup : String) : (World.ofMarkup markup).Sound :=
  World.sound_start (Document.isForest_parsed markup) ()

/-- A world with some markup as its document, and some state. -/
def World.ofTemplate (markup : String) (state : Json) : World Unit :=
  (World.ofMarkup markup).withStore (Store.observe state .empty).2

theorem World.aligned_ofTemplate (markup : String) (state : Json) :
    (World.ofTemplate markup state).Aligned where
  subscribers := congrArg Array.size (Store.extends_observe state .empty).handles.symm
  reactions := rfl

/-! ## Keeping a property -/

/-- A computation keeps a property of the world. -/
structure Run.Keeps {α : Type} (P : World σ → Prop) (m : Run σ α) : Prop where
  kept : ∀ w a w', m w = some (a, w') → P w → P w'

namespace Run.Keeps

variable {α β : Type} {P : World σ → Prop} {m : Run σ α}

protected theorem pure (a : α) : Run.Keeps P (pure a : Run σ α) := by
  refine ⟨fun w b w' hrun h ↦ ?_⟩
  cases hrun
  exact h

protected theorem bind {f : α → Run σ β} (hm : Run.Keeps P m) (hf : ∀ a, Run.Keeps P (f a)) :
    Run.Keeps P (m >>= f) := by
  refine ⟨fun w b w' hrun h ↦ ?_⟩
  obtain ⟨a, w₁, hrun₁, hrun₂⟩ := Run.bind_eq_some_iff.1 hrun
  exact (hf a).kept w₁ b w' hrun₂ (hm.kept w a w₁ hrun₁ h)

/-- A computation that only looks. -/
theorem look {f : World σ → α} : Run.Keeps P fun w ↦ some (f w, w) := by
  refine ⟨fun w b w' hrun h ↦ ?_⟩
  cases hrun
  exact h

/-- A computation that changes the world. -/
theorem change {f : World σ → α} {g : World σ → World σ} (hg : ∀ w, P w → P (g w)) :
    Run.Keeps P fun w ↦ some (f w, g w) := by
  refine ⟨fun w b w' hrun h ↦ ?_⟩
  cases hrun
  exact hg w h

/-- A computation that looks at the world and goes on by what it has seen. -/
theorem get {k : World σ → Run σ α} (h : ∀ w, P w → Run.Keeps P (k w)) :
    Run.Keeps P (MonadState.get >>= k) :=
  ⟨fun w b w' hrun hw ↦ (h w hw).kept w b w' hrun hw⟩

theorem tooDeep : Run.Keeps P (Run.tooDeep : Run σ α) := by
  refine ⟨fun w b w' hrun _ ↦ ?_⟩
  cases hrun

end Run.Keeps

/-! ## The smallest steps -/

namespace Store

theorem handles_getValue (path : String) (root : Value) (s : Store) :
    (getValue path root s).2.handles = s.handles := by
  rw [getValue_eq, handles_touch]

theorem handles_render (template : String) (root : Value) (s : Store) :
    (render template root s).2.handles = s.handles := by
  obtain ⟨reads, h⟩ := s.exists_render_eq template root
  rw [h, handles_touch]

theorem handles_target (path : String) (root : Value) (s : Store) :
    (target path root s).2.handles = s.handles := by
  rw [target]
  cases Path.segments path with
  | error e => rfl
  | ok segments =>
    simp only [follow_eq]
    cases s.resolveFrom path segments.dropLast root with
    | error e => rw [handles_touch]
    | ok v => cases v <;> exact handles_touch ..

end Store

/-- Something done with a store makes no subscriber. -/
structure Store.MakesNobody {α : Type} (f : Store → α × Store) : Prop where
  size_eq : ∀ s, (f s).2.handles.size = s.handles.size

namespace Store.MakesNobody

theorem of_handles {α : Type} {f : Store → α × Store} (h : ∀ s, (f s).2.handles = s.handles) :
    MakesNobody f :=
  ⟨fun s ↦ congrArg Array.size (h s)⟩

theorem retain (id : SubscriberId) : MakesNobody fun s ↦ ((), s.retain id) :=
  ⟨fun _ ↦ Array.size_modify⟩

theorem release (id : SubscriberId) : MakesNobody fun s ↦ ((), s.release id) :=
  ⟨fun s ↦ s.size_handles_release id⟩

theorem retainAll (ids : List SubscriberId) :
    MakesNobody fun s ↦ ((), ids.foldl Store.retain s) := by
  refine ⟨fun s ↦ ?_⟩
  induction ids generalizing s with
  | nil => rfl
  | cons id ids ih => exact (ih _).trans ((retain id).size_eq s)

theorem releaseAll (ids : List SubscriberId) : MakesNobody fun s ↦ ((), s.releaseAll ids) := by
  refine ⟨fun s ↦ ?_⟩
  induction ids generalizing s with
  | nil => rfl
  | cons id ids ih => exact (ih _).trans ((release id).size_eq s)

theorem track (id : SubscriberId) : MakesNobody fun s ↦ ((), s.track id) :=
  ⟨fun _ ↦ Array.size_modify⟩

theorem untrack : MakesNobody fun s ↦ ((), s.untrack) := by
  refine ⟨fun s ↦ ?_⟩
  show s.untrack.handles.size = s.handles.size
  rw [Store.untrack]
  split
  · rfl
  · exact s.size_handles_release _

theorem observe (data : Json) : MakesNobody (Store.observe data) :=
  .of_handles fun s ↦ (Store.extends_observe data s).handles

theorem get (o : ObjectId) (key : String) : MakesNobody fun s ↦ s.get o key :=
  .of_handles fun s ↦ s.handles_get o key

theorem getValue (path : String) (root : Value) : MakesNobody (Store.getValue path root) :=
  .of_handles (Store.handles_getValue path root)

theorem render (template : String) (root : Value) : MakesNobody (Store.render template root) :=
  .of_handles (Store.handles_render template root)

theorem target (path : String) (root : Value) : MakesNobody (Store.target path root) :=
  .of_handles (Store.handles_target path root)

theorem evaluate (id : SubscriberId) (path : String) (root : Value) :
    MakesNobody (Store.evaluate id path root) := .of_handles fun _ ↦ Store.handles_evaluate ..

theorem write (o : ObjectId) (key : String) (v : Value) : MakesNobody fun s ↦ s.write o key v :=
  .of_handles fun _ ↦ Store.handles_write

theorem audience (o : ObjectId) (key : String) : MakesNobody (Notification.audience o key) :=
  .of_handles fun _ ↦ rfl

end Store.MakesNobody

section Robust

open Run

/-- A property of worlds that the smallest steps of running code keep. -/
structure World.Robust (P : World σ → Prop) : Prop where
  /-- The store is changed, and nobody is made. -/
  store {w : World σ} {s : Store} (hsize : s.handles.size = w.scene.store.handles.size) (h : P w) :
    P (w.withStore s)
  /-- Neither the store nor the document is changed, and no listener is put. -/
  scene {w : World σ} {s : Scene σ} (hstore : s.store = w.scene.store)
    (hsubscribers : s.subscribers.size = w.scene.subscribers.size)
    (hdocument : s.document = w.scene.document) (hlisteners : s.listeners.Sublist w.scene.listeners)
    (h : P w) : P { w with scene := s }
  edited {w : World σ} (e : Edit) (h : P w) :
    P { w with scene := { w.scene with document := w.scene.document.apply e } }
  enrolled {w : World σ} (s : Subscriber) (reaction : Value → Action σ) (h : P w) :
    P (w.enrolled s reaction)
  /-- A listener is put, with its code. -/
  posted {w : World σ} (n : NodeId) (event : String) (handler : Event → Action σ) (h : P w) :
    P { scene := { w.scene with
          listeners := w.scene.listeners ++ [⟨n, event, w.code.handlers.size⟩] }
        code := { w.code with handlers := w.code.handlers.push handler } }
  /-- The methods of a view-model are supplied. -/
  supplied {w : World σ} (methods : String → ViewModelId → Event → Action σ) (h : P w) :
    P { w with code := { w.code with methods := w.code.methods.push methods } }

variable {α : Type} {P : World σ → Prop}

namespace World.Robust

theorem onStore (h : World.Robust P) {f : Store → α × Store} (hf : Store.MakesNobody f) :
    Keeps P (onStore f : Run σ α) :=
  .change fun w hw ↦ h.store (hf.size_eq w.scene.store) hw

/-- A change of the scene that leaves the store, the number of subscribers and the document
alone. -/
theorem editScene (h : World.Robust P) {f : Scene σ → Scene σ} (hstore : ∀ s, (f s).store = s.store)
    (hsubscribers : ∀ s, (f s).subscribers.size = s.subscribers.size)
    (hdocument : ∀ s, (f s).document = s.document)
    (hlisteners : ∀ s, (f s).listeners.Sublist s.listeners) : Keeps P (editScene f) :=
  .change fun w hw ↦ h.scene (hstore w.scene) (hsubscribers w.scene) (hdocument w.scene)
    (hlisteners w.scene) hw

/-- A change of the data. -/
theorem editData (h : World.Robust P) (f : σ → σ) :
    Keeps P (Run.editScene fun s ↦ { s with data := f s.data }) :=
  h.editScene (fun _ ↦ rfl) (fun _ ↦ rfl) (fun _ ↦ rfl) fun _ ↦ List.Sublist.refl _

theorem edit (h : World.Robust P) (e : Edit) :
    Keeps P (editDocument fun d ↦ d.apply e : Run σ Unit) :=
  .change fun _ hw ↦ h.edited e hw

/-- A view-model is changed, or one more is made. -/
theorem editViewModels (h : World.Robust P) (f : Scene σ → Array ViewModel) :
    Keeps P (Run.editScene fun s ↦ { s with viewModels := f s }) :=
  h.editScene (fun _ ↦ rfl) (fun _ ↦ rfl) (fun _ ↦ rfl) fun _ ↦ List.Sublist.refl _

/-- Listeners are taken away. -/
theorem clearListeners (h : World.Robust P) (root : NodeId) :
    Keeps P (Run.editScene fun s ↦ s.clearListeners root) :=
  h.editScene (fun _ ↦ rfl) (fun _ ↦ rfl) (fun _ ↦ rfl) fun _ ↦ List.filter_sublist

end World.Robust

end Robust

/-! ## Telling subscribers -/

namespace Notification

open Run

variable {call : Call σ} {P : World σ → Prop} {id : SubscriberId}

theorem keeps_react (hcall : ∀ a, Keeps P (call a)) (id : SubscriberId) (v : Value) :
    Keeps P (react call id v) := by
  refine .bind .look fun w ↦ ?_
  split
  · exact .pure _
  · exact .bind (hcall _) fun _ ↦ .pure _

variable (h : World.Robust P)

include h

theorem keeps_subscriber (s : Subscriber) (reaction : Value → Action σ) :
    Keeps P (subscriber s reaction) :=
  .change fun _ hw ↦ h.enrolled s reaction hw

theorem keeps_observed (id : SubscriberId) (v : Value) : Keeps P (observed id v : Run σ Unit) :=
  h.editScene (fun _ ↦ rfl) (fun _ ↦ Array.size_modify) (fun _ ↦ rfl) fun _ ↦ List.Sublist.refl _

theorem keeps_watch (expr : String) (root : Value) (reaction : Value → Action σ) :
    Keeps P (watch expr root reaction) := by
  refine .bind (keeps_subscriber h _ _) fun id ↦ .bind (h.onStore (.evaluate ..)) fun r ↦ ?_
  cases r with
  | error e => exact .bind (h.onStore (.release id)) fun _ ↦ .pure _
  | ok v => exact .bind (keeps_observed h id v) fun _ ↦ .pure _

variable (hcall : ∀ a, Keeps P (call a))

include hcall

/-- **One turn.** -/
theorem keeps_update (id : SubscriberId) : Keeps P (update call id) := by
  refine .bind .look fun s ↦ ?_
  split
  · exact .pure _
  · exact keeps_react hcall id .null
  · refine .bind (h.onStore (.evaluate ..)) fun r ↦ ?_
    split
    · exact .pure _
    · split
      · exact .pure _
      · refine .bind (keeps_react hcall id _) fun r ↦ ?_
        split
        · exact .pure _
        · exact .bind (keeps_observed h id _) fun _ ↦ .pure _

/-- **A fan-out.** -/
theorem keeps_updateAll (ids : List SubscriberId) : Keeps P (updateAll call ids) := by
  induction ids with
  | nil => exact .pure _
  | cons id ids ih =>
    exact .bind (keeps_update h hcall id) fun _ ↦ .bind (h.onStore (.release id)) fun _ ↦
      .bind ih fun _ ↦ .pure _

theorem keeps_notify (ids : List SubscriberId) : Keeps P (notify call ids) :=
  .bind (h.onStore (.retainAll ids)) fun _ ↦ keeps_updateAll h hcall ids

theorem keeps_set (o : ObjectId) (key : String) (v : Value) : Keeps P (set call o key v) := by
  refine .bind (h.onStore (.write o key v)) fun r ↦ ?_
  split
  · exact .pure _
  · exact .pure _
  · exact .bind (h.onStore (.audience o key)) fun ids ↦ keeps_notify h hcall ids

theorem keeps_setPath (path : String) (root v : Value) : Keeps P (setPath call path root v) := by
  refine .bind (h.onStore (.target path root)) fun r ↦ ?_
  split
  · exact .pure _
  · exact keeps_set h hcall ..

end Notification

namespace Dispatch

open Run

variable {call : Call σ} {P : World σ → Prop}

theorem keeps_listen (h : World.Robust P) (n : NodeId) (event : String)
    (handler : Event → Action σ) : Keeps P (listen n event handler) :=
  .change fun _ hw ↦ h.posted n event handler hw

theorem keeps_callOne (hcall : ∀ a, Keeps P (call a)) (event : Event) (handler : Nat) :
    Keeps P (callOne call event handler) := by
  refine .bind .look fun w ↦ ?_
  split
  · exact .pure _
  · exact hcall _

/-- What every call of a handler keeps, an event keeps. -/
theorem keeps_fire_of_callOne (hone : ∀ event handler, Keeps P (callOne call event handler))
    (n : NodeId) (event : String) (v : Value) : Keeps P (fire call n event v) := by
  have hall : ∀ handlers, Keeps P (callAll call ⟨n, event, v⟩ handlers) := by
    intro handlers
    induction handlers with
    | nil => exact .pure _
    | cons handler handlers ih => exact .bind (hone _ handler) fun _ ↦ .bind ih fun _ ↦ .pure _
  exact .bind .look fun _ ↦ hall _

/-- **An event.** -/
theorem keeps_fire (hcall : ∀ a, Keeps P (call a)) (n : NodeId) (event : String)
    (v : Value) : Keeps P (fire call n event v) :=
  keeps_fire_of_callOne (keeps_callOne hcall) n event v

end Dispatch

/-! ## Compiling -/

namespace Compilation

open Run

/-- A step of a compilation keeps a property of the progress and the world, whether it succeeds or
not. -/
structure Keeps {α : Type} (I : Progress → World σ → Prop) (m : Compilation σ α) : Prop where
  kept : ∀ {p w x p' w'}, m.run.run p w = some ((x, p'), w') → I p w → I p' w'

namespace Keeps

variable {α β : Type} {I : Progress → World σ → Prop} {m : Compilation σ α}

/-- A property of the world alone. -/
theorem run {P : World σ → Prop} (h : Keeps (fun _ ↦ P) m) (p : Progress) :
    Run.Keeps P (m.run.run p) :=
  ⟨fun _ _ _ hrun hw ↦ h.kept hrun hw⟩

protected theorem pure (a : α) : Keeps I (pure a : Compilation σ α) := by
  refine ⟨fun hrun h ↦ ?_⟩
  cases hrun
  exact h

protected theorem bind {f : α → Compilation σ β} (hm : Keeps I m) (hf : ∀ a, Keeps I (f a)) :
    Keeps I (m >>= f) := by
  refine ⟨fun hrun h ↦ ?_⟩
  rw [run_bind] at hrun
  obtain ⟨⟨r, p₁⟩, w₁, hrun₁, hrun₂⟩ := Run.bind_eq_some_iff.1 hrun
  have h₁ := hm.kept hrun₁ h
  cases r with
  | error e =>
    cases hrun₂
    exact h₁
  | ok a => exact (hf a).kept hrun₂ h₁

theorem refuse (e : BindError) : Keeps I (Compilation.refuse e : Compilation σ α) := by
  refine ⟨fun hrun h ↦ ?_⟩
  cases hrun
  exact h

theorem hold {id : SubscriberId} (h : ∀ p w, I p w → I { p with scope := p.scope ++ [id] } w) :
    Keeps I (Compilation.hold id : Compilation σ Unit) := by
  refine ⟨fun hrun hw ↦ ?_⟩
  cases hrun
  exact h _ _ hw

theorem count {f : CompileStats → CompileStats}
    (h : ∀ p w, I p w → I { p with stats := f p.stats } w) :
    Keeps I (Compilation.count f : Compilation σ Unit) := by
  refine ⟨fun hrun hw ↦ ?_⟩
  cases hrun
  exact h _ _ hw

theorem lift {r : Run σ α} (h : ∀ p, Run.Keeps (I p) r) : Keeps I (Compilation.lift r) := by
  refine ⟨fun hrun hw ↦ ?_⟩
  rw [run_lift] at hrun
  obtain ⟨a, w₁, hrun₁, hrun₂⟩ := Run.bind_eq_some_iff.1 hrun
  cases hrun₂
  exact (h _).kept _ _ _ hrun₁ hw

theorem attempt {r : Run σ (Except BindError α)} (h : ∀ p, Run.Keeps (I p) r) :
    Keeps I (Compilation.attempt r) := by
  refine ⟨fun hrun hw ↦ ?_⟩
  rw [run_attempt] at hrun
  obtain ⟨a, w₁, hrun₁, hrun₂⟩ := Run.bind_eq_some_iff.1 hrun
  cases hrun₂
  exact (h _).kept _ _ _ hrun₁ hw

theorem attemptState {r : Run σ (Except StateError α)} (h : ∀ p, Run.Keeps (I p) r) :
    Keeps I (Compilation.attemptState r) := attempt fun p ↦ .bind (h p) fun _ ↦ .pure _

/-- Properties that do not depend on what has been counted. -/
theorem compositional
    (h : ∀ p (f : CompileStats → CompileStats) w, I p w → I { p with stats := f p.stats } w) :
    Compositional fun _ (m : Compilation σ _) ↦ Keeps I m where
  pure := .pure
  bind := .bind
  refuse := refuse
  scene := lift fun _ ↦ .look
  count f := count fun p w ↦ h p f w
  tooDeep := lift fun _ ↦ .tooDeep

end Keeps

variable {call : Call σ} {job : CompileJob σ} {methods : String → Event → Action σ}
  {P : World σ → Prop} (h : World.Robust P)

include h

theorem keeps_present (n : NodeId) (slot : Slot) (text : String) :
    Keeps (fun _ ↦ P) (present job n slot text) :=
  .lift fun _ ↦ .bind (h.editData _) fun _ ↦ h.edit _

theorem keeps_listen (n : NodeId) (event : String) (handler : Event → Action σ) :
    Keeps (fun _ ↦ P) (listen job n event handler) :=
  .lift fun _ ↦ .bind (h.editData _) fun _ ↦ Dispatch.keeps_listen h ..

theorem keeps_watch (expr : String) (reaction : Value → Action σ) :
    Keeps (fun _ ↦ P) (watch job expr reaction) :=
  .bind (.attemptState fun _ ↦ Notification.keeps_watch h ..) fun _ ↦ .hold fun _ _ h ↦ h

variable (hcall : ∀ a, Run.Keeps P (call a))

include hcall

theorem keeps_bind (n : NodeId) (binding : Binding) :
    Keeps (fun _ ↦ P) (bind call job methods n binding) := by
  cases binding with
  | fixed slot text => exact keeps_present h ..
  | live slot expr =>
    exact .bind (.attemptState fun _ ↦ h.onStore (.getValue ..)) fun v ↦
      .bind (.lift fun _ ↦ .look) fun _ ↦ .bind (keeps_present h ..) fun _ ↦ keeps_watch h ..
  | template text =>
    exact .bind (.attemptState fun _ ↦ h.onStore (.render ..)) fun _ ↦
      .bind (keeps_present h ..) fun _ ↦
        (Keeps.compositional fun _ _ _ hw ↦ hw).forM fun _ _ ↦ keeps_watch h ..
  | writeBack expr => exact keeps_listen h ..
  | listen event method => exact keeps_listen h ..
  | call method event value => exact .attempt fun _ ↦ hcall _
  | refuse e => exact .refuse e

/-- **Compiling.** -/
theorem keeps_compile (limit : Nat) (job : CompileJob σ) (methods : String → Event → Action σ) :
    Run.Keeps P (compile call limit job methods) := by
  have hvisit : ∀ staged, Keeps (fun _ ↦ P) (visit call job methods limit [staged]) := fun staged ↦
    (Keeps.compositional fun _ _ _ hw ↦ hw).visit
      (fun n _ _ _ _ binding _ ↦ keeps_bind h hcall n binding)
      (fun n name ↦ .lift fun _ ↦ h.edit (.removeAttribute n name)) limit [staged]
  have hstage : Run.Keeps P (onDocument fun d ↦ d.stage job.root : Run σ NodeId) :=
    .change fun _ hw ↦ h.edited (.stage job.root) hw
  refine .bind hstage fun staged ↦ .bind ((hvisit staged).run .start) fun x ↦
    .bind (h.edit (.restore staged job.root)) fun _ ↦ ?_
  split
  · exact .pure _
  · exact .bind (h.onStore (.releaseAll _)) fun _ ↦ .pure _

end Compilation

/-! ## View-models -/

namespace Lifetime

open Run

variable {call : Call σ} {P : World σ → Prop} (h : World.Robust P)

include h

theorem keeps_edit (vm : ViewModelId) (f : ViewModel → ViewModel) :
    Keeps P (edit vm f : Run σ Unit) :=
  h.editViewModels _

theorem keeps_release (vm : ViewModelId) : Keeps P (release vm : Run σ Unit) := by
  refine .bind .look fun s ↦ ?_
  split
  · exact .pure _
  · rename_i v _
    refine .bind (keeps_edit h vm _) fun _ ↦ ?_
    have hreleased : Keeps P (Run.editStore fun s ↦ s.releaseAll v.compiled.scope : Run σ Unit) :=
      h.onStore (.releaseAll _)
    split
    · split
      · exact hreleased
      · exact .bind (h.clearListeners _) fun _ ↦ hreleased
    · exact .pure _

variable (hcall : ∀ a, Keeps P (call a))

include hcall

theorem keeps_invoke (vm : ViewModelId) (method : String) (event : Event) :
    Keeps P (invoke call vm method event) := by
  refine .bind .look fun w ↦ ?_
  split
  · split
    · exact .pure _
    · split
      · exact .pure _
      · exact .bind (keeps_edit h vm _) fun _ ↦ .bind (hcall _) fun _ ↦
          .bind (keeps_release h vm) fun _ ↦ .pure _
  · exact .pure _

/-- **Opening a view-model.** -/
theorem keeps_openViewModel (limit : Nat) (options : ViewModelOptions)
    (methods : String → ViewModelId → Event → Action σ) :
    Keeps P (openViewModel call limit options methods) := by
  rw [openViewModel]
  split
  · exact .pure _
  · refine .bind (h.onStore (.observe _)) fun v ↦ ?_
    split
    · refine .bind .look fun s ↦ ?_
      split
      · exact .pure _
      · refine .bind .look fun s ↦ .bind (h.editViewModels _) fun _ ↦
          .bind (.change fun _ hw ↦ h.supplied methods hw) fun _ ↦ ?_
        split
        · exact .pure _
        · refine .bind (Compilation.keeps_compile h hcall ..) fun r ↦ ?_
          split
          · exact .bind (keeps_edit h ..) fun _ ↦ .pure _
          · exact .bind (keeps_release h _) fun _ ↦ .pure _
    · exact .pure _

end Lifetime

/-! ## Running -/

section Follow

open Run

variable {P : World σ → Prop} (h : World.Robust P)

include h

/-- **Following an action keeps what is robust**, given that the code it calls does. -/
theorem follow_keeps {call : Call σ} (hcall : ∀ a, Keeps P (call a)) (limit : Nat) (a : Action σ) :
    Keeps P (follow call limit a) := by
  induction a with
  | done r => exact .pure r
  | inspect next ih => exact .bind .look fun s ↦ ih s
  | modify f next ih => exact .bind (h.editData f) fun _ ↦ ih
  | observe data next ih => exact .bind (h.onStore (.observe data)) fun v ↦ ih v
  | get o key next ih => exact .bind (h.onStore (.get o key)) fun v ↦ ih v
  | getPath path root next ih => exact .bind (h.onStore (.getValue path root)) fun r ↦ ih r
  | render template root next ih => exact .bind (h.onStore (.render template root)) fun r ↦ ih r
  | set o key v next ih => exact .bind (Notification.keeps_set h hcall o key v) fun r ↦ ih r
  | setPath path root v next ih =>
    exact .bind (Notification.keeps_setPath h hcall path root v) fun r ↦ ih r
  | watch expr root reaction next _ ih =>
    exact .bind (Notification.keeps_watch h expr root reaction) fun r ↦ ih r
  | probe reaction next _ ih => exact .bind (Notification.keeps_subscriber h ..) fun id ↦ ih id
  | retain id next ih => exact .bind (h.onStore (.retain id)) fun _ ↦ ih
  | release id next ih => exact .bind (h.onStore (.release id)) fun _ ↦ ih
  | track id next ih => exact .bind (h.onStore (.track id)) fun _ ↦ ih
  | untrack next ih => exact .bind (h.onStore .untrack) fun _ ↦ ih
  | notify ids next ih => exact .bind (Notification.keeps_notify h hcall ids) fun r ↦ ih r
  | edit e next ih => exact .bind (h.edit e) fun _ ↦ ih
  | listen n event handler next _ ih => exact .bind (Dispatch.keeps_listen h ..) fun _ ↦ ih
  | unlisten root next ih => exact .bind (h.clearListeners root) fun _ ↦ ih
  | dispatch n event v next ih => exact .bind (Dispatch.keeps_fire hcall n event v) fun r ↦ ih r
  | compile job methods next _ ih =>
    exact .bind (Compilation.keeps_compile h hcall limit job methods) fun r ↦ ih r
  | openViewModel options methods next _ ih =>
    exact .bind (Lifetime.keeps_openViewModel h hcall limit options methods) fun r ↦ ih r
  | retainViewModel vm next ih => exact .bind (Lifetime.keeps_edit h vm _) fun _ ↦ ih
  | releaseViewModel vm next ih => exact .bind (Lifetime.keeps_release h vm) fun _ ↦ ih
  | invoke vm method event next ih =>
    exact .bind (Lifetime.keeps_invoke h hcall vm method event) fun r ↦ ih r

/-- **Whatever code is run, it keeps what is robust.** -/
theorem run_keeps (depth : Nat) (a : Action σ) : Keeps P (run depth a) := by
  induction depth generalizing a with
  | zero => exact .tooDeep
  | succ depth ih => exact follow_keeps h ih depth a

end Follow

/-! ## What is robust -/

/-- **A sound world stays sound.** -/
theorem World.robust_sound : World.Robust (σ := σ) World.Sound where
  store hsize hw := ⟨⟨hw.subscribers.trans hsize.symm, hw.reactions⟩, hw.forest⟩
  scene hstore hsubscribers hdocument _ hw :=
    { subscribers := by rw [hsubscribers, hstore, hw.subscribers]
      reactions := by rw [hsubscribers, hw.reactions]
      forest := by rw [hdocument]; exact hw.forest }
  edited e hw := ⟨⟨hw.subscribers, hw.reactions⟩, hw.forest.apply e⟩
  enrolled s reaction hw :=
    ⟨⟨by simp [World.enrolled, Store.newSubscriber, hw.subscribers],
      by simp [World.enrolled, hw.reactions]⟩, hw.forest⟩
  posted _ _ _ hw := ⟨⟨hw.subscribers, hw.reactions⟩, hw.forest⟩
  supplied _ hw := ⟨⟨hw.subscribers, hw.reactions⟩, hw.forest⟩

/-- The second supply of code has everything that the first one has. -/
structure Code.Grows (c c' : Code σ) : Prop where
  reactions : c.reactions.toList <+: c'.reactions.toList
  handlers : c.handlers.toList <+: c'.handlers.toList
  methods : c.methods.toList <+: c'.methods.toList

namespace Code.Grows

variable {c c' c'' : Code σ}

theorem refl (c : Code σ) : c.Grows c := ⟨List.prefix_rfl, List.prefix_rfl, List.prefix_rfl⟩

theorem trans (h : c.Grows c') (h' : c'.Grows c'') : c.Grows c'' :=
  ⟨h.reactions.trans h'.reactions, h.handlers.trans h'.handlers, h.methods.trans h'.methods⟩

theorem of_reaction (c : Code σ) (reaction : Value → Action σ) :
    c.Grows { c with reactions := c.reactions.push reaction } :=
  { refl c with reactions := by simp }

theorem of_handler (c : Code σ) (handler : Event → Action σ) :
    c.Grows { c with handlers := c.handlers.push handler } :=
  { refl c with handlers := by simp }

theorem of_methods (c : Code σ) (methods : String → ViewModelId → Event → Action σ) :
    c.Grows { c with methods := c.methods.push methods } :=
  { refl c with methods := by simp }

/-- What has been supplied for a listener is there for good. -/
theorem handlers_eq (h : c.Grows c') {k : Nat} (hk : k < c.handlers.size) :
    c'.handlers[k]? = c.handlers[k]? := by
  obtain ⟨rest, hrest⟩ := h.handlers
  rw [← Array.getElem?_toList, ← Array.getElem?_toList, ← hrest,
    List.getElem?_append_left (by simpa using hk)]

end Code.Grows

/-- **Code that has been supplied stays supplied.** -/
theorem Code.robust_grows (c : Code σ) : World.Robust fun w : World σ ↦ c.Grows w.code where
  store _ hw := hw
  scene _ _ _ _ hw := hw
  edited _ hw := hw
  enrolled _ reaction hw := hw.trans (.of_reaction _ reaction)
  posted _ _ handler hw := hw.trans (.of_handler _ handler)
  supplied methods hw := hw.trans (.of_methods _ methods)

/-- Every listener has its code. -/
def World.Answered (w : World σ) : Prop := ∀ l ∈ w.scene.listeners, l.handler < w.code.handlers.size

/-- **Every listener keeps its code.** -/
theorem World.robust_answered : World.Robust (σ := σ) World.Answered where
  store _ hw := hw
  scene _ _ _ hlisteners hw l hl := hw l (hlisteners.subset hl)
  edited _ hw := hw
  enrolled _ _ hw := hw
  posted n event handler hw l hl := by
    rcases List.mem_append.1 hl with hl | hl
    · exact Nat.lt_of_lt_of_eq (Nat.lt_succ_of_lt (hw l hl)) (Array.size_push handler).symm
    · rw [List.mem_singleton.1 hl]
      simp
  supplied _ hw := hw

end DataBinding

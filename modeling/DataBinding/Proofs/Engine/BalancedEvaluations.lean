import DataBinding.Proofs.Engine.Soundness
import DataBinding.Proofs.State.Assignment

/-!
# Code that ends the evaluations it begins

The tracking stack changes in two ways: an evaluation pushes its subscriber and pops it again, and
code may do the same by hand.  Code is *balanced* if it ends every evaluation that it has begun,
whatever the answers it gets and however it comes to its own end (`Action.Balanced`); the number
says how many are still to be ended.  Code that creates, updates and drops watchers, writes state
and compiles, and never tracks by hand, is balanced.

`Store.Lasting` is about families of properties of stores, one for each stack: each operation on
stores has to keep the property of the stack, and tracking and untracking have to lead to that of
the stack which they make.  **Balanced code that is run keeps every such property** (`run_lasts`),
to any depth of nesting: the property before the run and after it is that of the same stack.
-/

set_option autoImplicit false

namespace DataBinding

variable {σ : Type}

/-! ## Balanced code -/

/-- The code, which has begun as many evaluations as the number says, ends them all, and begins no
other that it does not end.  The code that it supplies does so, too. -/
inductive Action.Balanced : Nat → Action σ → Prop
  | done (result : Except BindError Unit) : Balanced 0 (.done result)
  | inspect {n : Nat} {next : Scene σ → Action σ} (h : ∀ s, Balanced n (next s)) :
      Balanced n (.inspect next)
  | modify {n : Nat} (f : σ → σ) {next : Action σ} (h : Balanced n next) :
      Balanced n (.modify f next)
  | observe {n : Nat} (data : Json) {next : Value → Action σ} (h : ∀ v, Balanced n (next v)) :
      Balanced n (.observe data next)
  | get {n : Nat} (o : ObjectId) (key : String) {next : Option Value → Action σ}
      (h : ∀ v, Balanced n (next v)) : Balanced n (.get o key next)
  | getPath {n : Nat} (path : String) (root : Value) {next : Except StateError Value → Action σ}
      (h : ∀ x, Balanced n (next x)) : Balanced n (.getPath path root next)
  | render {n : Nat} (template : String) (root : Value)
      {next : Except StateError String → Action σ} (h : ∀ x, Balanced n (next x)) :
      Balanced n (.render template root next)
  | set {n : Nat} (o : ObjectId) (key : String) (v : Value)
      {next : Except StateError Unit → Action σ} (h : ∀ x, Balanced n (next x)) :
      Balanced n (.set o key v next)
  | setPath {n : Nat} (path : String) (root v : Value) {next : Except StateError Unit → Action σ}
      (h : ∀ x, Balanced n (next x)) : Balanced n (.setPath path root v next)
  | watch {n : Nat} (expr : String) (root : Value) {reaction : Value → Action σ}
      {next : Except StateError SubscriberId → Action σ} (hreaction : ∀ v, Balanced 0 (reaction v))
      (h : ∀ x, Balanced n (next x)) : Balanced n (.watch expr root reaction next)
  | probe {n : Nat} {reaction : Action σ} {next : SubscriberId → Action σ}
      (hreaction : Balanced 0 reaction) (h : ∀ id, Balanced n (next id)) :
      Balanced n (.probe reaction next)
  | retain {n : Nat} (id : SubscriberId) {next : Action σ} (h : Balanced n next) :
      Balanced n (.retain id next)
  | release {n : Nat} (id : SubscriberId) {next : Action σ} (h : Balanced n next) :
      Balanced n (.release id next)
  | track {n : Nat} (id : SubscriberId) {next : Action σ} (h : Balanced (n + 1) next) :
      Balanced n (.track id next)
  | untrack {n : Nat} {next : Action σ} (h : Balanced n next) : Balanced (n + 1) (.untrack next)
  | notify {n : Nat} (ids : List SubscriberId) {next : Except StateError Unit → Action σ}
      (h : ∀ x, Balanced n (next x)) : Balanced n (.notify ids next)
  | edit {n : Nat} (e : Edit) {next : Action σ} (h : Balanced n next) : Balanced n (.edit e next)
  | listen {n : Nat} (node : NodeId) (event : String) {handler : Event → Action σ}
      {next : Action σ} (hhandler : ∀ e, Balanced 0 (handler e)) (h : Balanced n next) :
      Balanced n (.listen node event handler next)
  | unlisten {n : Nat} (root : NodeId) {next : Action σ} (h : Balanced n next) :
      Balanced n (.unlisten root next)
  | dispatch {n : Nat} (node : NodeId) (event : String) (v : Value)
      {next : Except BindError Unit → Action σ} (h : ∀ x, Balanced n (next x)) :
      Balanced n (.dispatch node event v next)
  | compile {n : Nat} (job : CompileJob σ) {methods : String → Event → Action σ}
      {next : Except BindError Compiled → Action σ}
      (hmethods : ∀ name e, Balanced 0 (methods name e)) (h : ∀ x, Balanced n (next x)) :
      Balanced n (.compile job methods next)
  | openViewModel {n : Nat} (options : ViewModelOptions)
      {methods : String → ViewModelId → Event → Action σ}
      {next : Except OpenError ViewModelId → Action σ}
      (hmethods : ∀ name vm e, Balanced 0 (methods name vm e)) (h : ∀ x, Balanced n (next x)) :
      Balanced n (.openViewModel options methods next)
  | retainViewModel {n : Nat} (vm : ViewModelId) {next : Action σ} (h : Balanced n next) :
      Balanced n (.retainViewModel vm next)
  | releaseViewModel {n : Nat} (vm : ViewModelId) {next : Action σ} (h : Balanced n next) :
      Balanced n (.releaseViewModel vm next)
  | invoke {n : Nat} (vm : ViewModelId) (method : String) (event : Event)
      {next : Except BindError Unit → Action σ} (h : ∀ x, Balanced n (next x)) :
      Balanced n (.invoke vm method event next)

/-- All code that has been supplied is balanced. -/
structure Code.Balanced (c : Code σ) : Prop where
  reactions : ∀ (id : SubscriberId) reaction, c.reactions[id]? = some reaction →
    ∀ v, (reaction v).Balanced 0
  handlers : ∀ (k : Nat) handler, c.handlers[k]? = some handler → ∀ e, (handler e).Balanced 0
  methods : ∀ (vm : ViewModelId) methods, c.methods[vm]? = some methods →
    ∀ name vm' e, (methods name vm' e).Balanced 0

theorem World.balanced_start (document : Document) (data : σ) :
    (World.start document data).code.Balanced where
  reactions _ _ h := by simp [World.start] at h
  handlers _ _ h := by simp [World.start] at h
  methods _ _ h := by simp [World.start] at h

namespace Code.Balanced

variable {c : Code σ} (h : c.Balanced)

include h

theorem push_reaction {reaction : Value → Action σ} (hreaction : ∀ v, (reaction v).Balanced 0) :
    Code.Balanced { c with reactions := c.reactions.push reaction } where
  reactions id code hcode := by
    rw [Array.getElem?_push] at hcode
    split at hcode
    · cases hcode
      exact hreaction
    · exact h.reactions id code hcode
  handlers := h.handlers
  methods := h.methods

theorem push_handler {handler : Event → Action σ} (hhandler : ∀ e, (handler e).Balanced 0) :
    Code.Balanced { c with handlers := c.handlers.push handler } where
  reactions := h.reactions
  handlers k code hcode := by
    rw [Array.getElem?_push] at hcode
    split at hcode
    · cases hcode
      exact hhandler
    · exact h.handlers k code hcode
  methods := h.methods

theorem push_methods {methods : String → ViewModelId → Event → Action σ}
    (hmethods : ∀ name vm e, (methods name vm e).Balanced 0) :
    Code.Balanced { c with methods := c.methods.push methods } where
  reactions := h.reactions
  handlers := h.handlers
  methods vm code hcode := by
    rw [Array.getElem?_push] at hcode
    split at hcode
    · cases hcode
      exact hmethods
    · exact h.methods vm code hcode

end Code.Balanced

/-! ## Properties of stores that last -/

/-- Properties of stores, one for each tracking stack, that the operations on stores keep. -/
structure Store.Lasting (Q : List SubscriberId → Store → Prop) : Prop where
  observe {T : List SubscriberId} {s : Store} (data : Json) (h : Q T s) : Q T (observe data s).2
  get {T : List SubscriberId} {s : Store} (o : ObjectId) (key : String) (h : Q T s) :
    Q T (s.get o key).2
  write {T : List SubscriberId} {s : Store} (o : ObjectId) (key : String) (v : Value) (h : Q T s) :
    Q T (s.write o key v).2
  prune {T : List SubscriberId} {s : Store} (o : ObjectId) (key : String) (h : Q T s) :
    Q T (s.prune o key)
  newSubscriber {T : List SubscriberId} {s : Store} (h : Q T s) : Q T s.newSubscriber.2
  retain {T : List SubscriberId} {s : Store} (id : SubscriberId) (h : Q T s) : Q T (s.retain id)
  release {T : List SubscriberId} {s : Store} (id : SubscriberId) (h : Q T s) : Q T (s.release id)
  /-- One more is evaluating. -/
  track {T : List SubscriberId} {s : Store} (id : SubscriberId) (h : Q T s) :
    Q (id :: T) (s.track id)
  /-- The innermost evaluation ends. -/
  untrack {T : List SubscriberId} {s : Store} {id : SubscriberId} (h : Q (id :: T) s) :
    Q T s.untrack

/-- The property of a stack holds of the store, and all code is balanced. -/
structure World.Lasts (Q : List SubscriberId → Store → Prop) (T : List SubscriberId)
    (w : World σ) : Prop where
  store : Q T w.scene.store
  code : w.code.Balanced

namespace Store.Lasting

variable {Q : List SubscriberId → Store → Prop} {T : List SubscriberId} {s : Store} (h : Lasting Q)

include h

theorem touch (reads : List (ObjectId × String)) (hs : Q T s) : Q T (s.touch reads) := by
  induction reads generalizing s with
  | nil => exact hs
  | cons r rest ih => exact ih (h.get r.1 r.2 hs)

theorem retainAll (ids : List SubscriberId) (hs : Q T s) : Q T (ids.foldl Store.retain s) := by
  induction ids generalizing s with
  | nil => exact hs
  | cons id ids ih => exact ih (h.retain id hs)

theorem releaseAll (ids : List SubscriberId) (hs : Q T s) : Q T (s.releaseAll ids) := by
  induction ids generalizing s with
  | nil => exact hs
  | cons id ids ih => exact ih (h.release id hs)

/-- **An evaluation begins and ends**, whether or not the expression has a value. -/
theorem evaluate (id : SubscriberId) (path : String) (root : Value) (hs : Q T s) :
    Q T (Store.evaluate id path root s).2 := by
  rw [evaluate_eq]
  exact h.untrack (h.touch _ (h.track id hs))

theorem getValue (path : String) (root : Value) (hs : Q T s) :
    Q T (Store.getValue path root s).2 := by
  rw [getValue_eq]
  exact h.touch _ hs

theorem render (template : String) (root : Value) (hs : Q T s) :
    Q T (Store.render template root s).2 := by
  obtain ⟨reads, hreads⟩ := s.exists_render_eq template root
  rw [hreads]
  exact h.touch _ hs

theorem target (path : String) (root : Value) (hs : Q T s) : Q T (Store.target path root s).2 := by
  rw [target_eq]
  exact h.touch _ hs

end Store.Lasting

section Steps

open Run

variable {α : Type} {Q : List SubscriberId → Store → Prop} {T : List SubscriberId}

/-- Something done with the store. -/
theorem lasts_onStore {f : Store → α × Store} (h : ∀ s, Q T s → Q T (f s).2) :
    Keeps (World.Lasts Q T) (onStore f : Run σ α) :=
  .change fun w hw ↦ ⟨h w.scene.store hw.store, hw.code⟩

/-- A change of what is not the store. -/
theorem lasts_editScene {f : Scene σ → Scene σ} (h : ∀ s, (f s).store = s.store) :
    Keeps (World.Lasts Q T) (editScene f) :=
  .change fun w hw ↦ ⟨by rw [h]; exact hw.store, hw.code⟩

theorem lasts_onDocument (f : Document → α × Document) :
    Keeps (World.Lasts Q T) (onDocument f : Run σ α) :=
  .change fun _ hw ↦ ⟨hw.store, hw.code⟩

end Steps

/-! ## Telling subscribers -/

namespace Notification

open Run

variable {call : Call σ} {Q : List SubscriberId → Store → Prop} {T : List SubscriberId}

theorem lasts_react (hcall : ∀ a : Action σ, a.Balanced 0 → Keeps (World.Lasts Q T) (call a))
    (id : SubscriberId) (v : Value) : Keeps (World.Lasts Q T) (react call id v) := by
  refine .get fun w hw ↦ ?_
  split
  · exact .pure _
  · rename_i reaction hreaction
    exact .bind (hcall _ (hw.code.reactions id reaction hreaction v)) fun _ ↦ .pure _

variable (hQ : Store.Lasting Q)

include hQ

theorem lasts_subscriber (s : Subscriber) {reaction : Value → Action σ}
    (hreaction : ∀ v, (reaction v).Balanced 0) : Keeps (World.Lasts Q T) (subscriber s reaction) :=
  .change (f := fun w ↦ w.scene.store.handles.size) (g := fun w ↦ w.enrolled s reaction)
    fun _ hw ↦ ⟨hQ.newSubscriber hw.store, hw.code.push_reaction hreaction⟩

theorem lasts_watch (expr : String) (root : Value) {reaction : Value → Action σ}
    (hreaction : ∀ v, (reaction v).Balanced 0) :
    Keeps (World.Lasts Q T) (watch expr root reaction) := by
  refine .bind (lasts_subscriber hQ _ hreaction) fun id ↦
    .bind (lasts_onStore fun _ ↦ hQ.evaluate id _ root) fun r ↦ ?_
  cases r with
  | error e => exact .bind (lasts_onStore fun _ ↦ hQ.release id) fun _ ↦ .pure _
  | ok v => exact .bind (lasts_editScene fun _ ↦ rfl) fun _ ↦ .pure _

variable (hcall : ∀ a : Action σ, a.Balanced 0 → Keeps (World.Lasts Q T) (call a))

include hcall

/-- **One turn**, whether the evaluation or the code fails or not. -/
theorem lasts_update (id : SubscriberId) : Keeps (World.Lasts Q T) (update call id) := by
  refine .bind .look fun s ↦ ?_
  split
  · exact .pure _
  · exact lasts_react hcall id .null
  · rename_i x _
    refine .bind (lasts_onStore fun _ ↦ hQ.evaluate id x.expr x.root) fun r ↦ ?_
    split
    · exact .pure _
    · split
      · exact .pure _
      · refine .bind (lasts_react hcall id _) fun r ↦ ?_
        split
        · exact .pure _
        · exact .bind (lasts_editScene fun _ ↦ rfl) fun _ ↦ .pure _

/-- **A fan-out.** -/
theorem lasts_updateAll (ids : List SubscriberId) :
    Keeps (World.Lasts Q T) (updateAll call ids) := by
  induction ids with
  | nil => exact .pure _
  | cons id ids ih =>
    exact .bind (lasts_update hQ hcall id) fun _ ↦
      .bind (lasts_onStore fun _ ↦ hQ.release id) fun _ ↦ .bind ih fun _ ↦ .pure _

theorem lasts_notify (ids : List SubscriberId) : Keeps (World.Lasts Q T) (notify call ids) :=
  .bind (lasts_onStore fun _ ↦ hQ.retainAll ids) fun _ ↦ lasts_updateAll hQ hcall ids

/-- **A write.** -/
theorem lasts_set (o : ObjectId) (key : String) (v : Value) :
    Keeps (World.Lasts Q T) (set call o key v) := by
  refine .bind (lasts_onStore fun _ ↦ hQ.write o key v) fun r ↦ ?_
  split
  · exact .pure _
  · exact .pure _
  · exact .bind (lasts_onStore fun _ ↦ hQ.prune o key) fun ids ↦ lasts_notify hQ hcall ids

theorem lasts_setPath (path : String) (root v : Value) :
    Keeps (World.Lasts Q T) (setPath call path root v) := by
  refine .bind (lasts_onStore fun _ ↦ hQ.target path root) fun r ↦ ?_
  split
  · exact .pure _
  · exact lasts_set hQ hcall ..

end Notification

namespace Dispatch

open Run

variable {call : Call σ} {Q : List SubscriberId → Store → Prop} {T : List SubscriberId}

theorem lasts_listen (n : NodeId) (event : String) {handler : Event → Action σ}
    (hhandler : ∀ e, (handler e).Balanced 0) :
    Keeps (World.Lasts Q T) (listen n event handler) :=
  .change (f := fun _ ↦ ()) (g := fun w ↦
    { scene := { w.scene with listeners := w.scene.listeners ++ [⟨n, event, w.code.handlers.size⟩] }
      code := { w.code with handlers := w.code.handlers.push handler } })
    fun _ hw ↦ ⟨hw.store, hw.code.push_handler hhandler⟩

/-- **An event.** -/
theorem lasts_fire (hcall : ∀ a : Action σ, a.Balanced 0 → Keeps (World.Lasts Q T) (call a))
    (n : NodeId) (event : String) (v : Value) :
    Keeps (World.Lasts Q T) (fire call n event v) := by
  refine keeps_fire_of_callOne (fun event k ↦ .get fun w hw ↦ ?_) n event v
  cases hhandler : w.code.handlers[k]? with
  | none => exact .pure _
  | some handler => exact hcall _ (hw.code.handlers k handler hhandler _)

end Dispatch

/-! ## Compiling -/

namespace Compilation

open Run

variable {call : Call σ} {job : CompileJob σ} {methods : String → Event → Action σ}
  {Q : List SubscriberId → Store → Prop} {T : List SubscriberId}

theorem balanced_showing (n : NodeId) (slot : Slot) (text : String) :
    (job.showing n slot text).Balanced 0 :=
  .modify _ (.edit _ (.done _))

theorem balanced_showingValue (n : NodeId) (slot : Slot) (v : Value) :
    (job.showingValue n slot v).Balanced 0 :=
  .inspect fun _ ↦ balanced_showing ..

theorem balanced_showingTemplate (n : NodeId) (template : String) :
    (job.showingTemplate n template).Balanced 0 :=
  .render _ _ fun x ↦ match x with
    | .ok _ => balanced_showing ..
    | .error _ => .done _

theorem balanced_writing (path : String) (e : Event) : (job.writing path e).Balanced 0 :=
  .inspect fun _ ↦ .setPath _ _ _ fun _ ↦ .done _

theorem lasts_present (n : NodeId) (slot : Slot) (text : String) :
    Keeps (fun _ ↦ World.Lasts Q T) (present job n slot text) :=
  .lift fun _ ↦ .bind (lasts_editScene fun _ ↦ rfl) fun _ ↦ lasts_onDocument _

theorem lasts_listen (n : NodeId) (event : String) {handler : Event → Action σ}
    (hhandler : ∀ e, (handler e).Balanced 0) :
    Keeps (fun _ ↦ World.Lasts Q T) (listen job n event handler) :=
  .lift fun _ ↦ .bind (lasts_editScene fun _ ↦ rfl) fun _ ↦ Dispatch.lasts_listen n event hhandler

variable (hQ : Store.Lasting Q)

include hQ

theorem lasts_watch (expr : String) {reaction : Value → Action σ}
    (hreaction : ∀ v, (reaction v).Balanced 0) :
    Keeps (fun _ ↦ World.Lasts Q T) (watch job expr reaction) :=
  .bind (.attemptState fun _ ↦ Notification.lasts_watch hQ _ _ hreaction) fun _ ↦
    .hold fun _ _ h ↦ h

variable (hcall : ∀ a : Action σ, a.Balanced 0 → Run.Keeps (World.Lasts Q T) (call a))
  (hmethods : ∀ name e, (methods name e).Balanced 0)

include hcall hmethods

theorem lasts_bind (n : NodeId) (binding : Binding) :
    Keeps (fun _ ↦ World.Lasts Q T) (bind call job methods n binding) := by
  cases binding with
  | fixed slot text => exact lasts_present ..
  | live slot expr =>
    exact .bind (.attemptState fun _ ↦ lasts_onStore fun _ ↦ hQ.getValue expr job.state) fun v ↦
      .bind (.lift fun _ ↦ .look) fun _ ↦ .bind (lasts_present ..) fun _ ↦
        lasts_watch hQ expr fun v ↦ balanced_showingValue n slot v
  | template text =>
    exact .bind (.attemptState fun _ ↦ lasts_onStore fun _ ↦ hQ.render text job.state) fun _ ↦
      .bind (lasts_present ..) fun _ ↦ (Keeps.compositional fun _ _ _ hw ↦ hw).forM fun expr _ ↦
        lasts_watch hQ expr fun _ ↦ balanced_showingTemplate n text
  | writeBack expr => exact lasts_listen n _ fun e ↦ balanced_writing expr e
  | listen event method => exact lasts_listen n event fun e ↦ hmethods method e
  | call method event value => exact .attempt fun _ ↦ hcall _ (hmethods ..)
  | refuse e => exact .refuse e

/-- **Compiling**, to the end or up to an error. -/
theorem lasts_compile (limit : Nat) (job : CompileJob σ) :
    Run.Keeps (World.Lasts Q T) (compile call limit job methods) := by
  have hvisit : ∀ staged, Keeps (fun _ ↦ World.Lasts Q T) (visit call job methods limit [staged]) :=
    fun staged ↦ (Keeps.compositional fun _ _ _ hw ↦ hw).visit
      (fun n _ _ _ _ binding _ ↦ lasts_bind hQ hcall hmethods n binding)
      (fun n name ↦ .lift fun _ ↦ lasts_onDocument _) limit [staged]
  refine .bind (lasts_onDocument _) fun staged ↦ .bind ((hvisit staged).run .start) fun x ↦
    .bind (lasts_onDocument _) fun _ ↦ ?_
  split
  · exact .pure _
  · exact .bind (lasts_onStore fun _ ↦ hQ.releaseAll _) fun _ ↦ .pure _

end Compilation

/-! ## View-models -/

namespace Lifetime

open Run

variable {call : Call σ} {Q : List SubscriberId → Store → Prop} {T : List SubscriberId}

theorem lasts_edit (vm : ViewModelId) (f : ViewModel → ViewModel) :
    Keeps (World.Lasts Q T) (edit vm f : Run σ Unit) := lasts_editScene fun _ ↦ rfl

variable (hQ : Store.Lasting Q)

include hQ

theorem lasts_release (vm : ViewModelId) : Keeps (World.Lasts Q T) (release vm : Run σ Unit) := by
  refine .bind .look fun s ↦ ?_
  split
  · exact .pure _
  · rename_i v _
    refine .bind (lasts_edit vm _) fun _ ↦ ?_
    have hreleased : Keeps (World.Lasts Q T)
        (Run.editStore fun s ↦ s.releaseAll v.compiled.scope : Run σ Unit) :=
      lasts_onStore fun _ ↦ hQ.releaseAll _
    split
    · split
      · exact hreleased
      · exact .bind (lasts_editScene fun _ ↦ rfl) fun _ ↦ hreleased
    · exact .pure _

variable (hcall : ∀ a : Action σ, a.Balanced 0 → Keeps (World.Lasts Q T) (call a))

include hcall

theorem lasts_invoke (vm : ViewModelId) (method : String) (event : Event) :
    Keeps (World.Lasts Q T) (invoke call vm method event) := by
  refine .get fun w hw ↦ ?_
  split
  · rename_i v methods _ hmethods
    split
    · exact .pure _
    · split
      · exact .pure _
      · exact .bind (lasts_edit vm _) fun _ ↦
          .bind (hcall _ (hw.code.methods vm methods hmethods ..)) fun _ ↦
            .bind (lasts_release hQ vm) fun _ ↦ .pure _
  · exact .pure _

/-- **Opening a view-model.** -/
theorem lasts_openViewModel (limit : Nat) (options : ViewModelOptions)
    {methods : String → ViewModelId → Event → Action σ}
    (hmethods : ∀ name vm e, (methods name vm e).Balanced 0) :
    Keeps (World.Lasts Q T) (openViewModel call limit options methods) := by
  have hpush : Keeps (World.Lasts Q T) (editCode fun code ↦
      { code with methods := code.methods.push methods } : Run σ Unit) :=
    .change fun _ hw ↦ ⟨hw.store, hw.code.push_methods hmethods⟩
  rw [openViewModel]
  split
  · exact .pure _
  · refine .bind (lasts_onStore fun _ ↦ hQ.observe _) fun v ↦ ?_
    split
    · refine .bind .look fun s ↦ ?_
      split
      · exact .pure _
      · refine .bind .look fun s ↦ .bind (lasts_editScene fun _ ↦ rfl) fun _ ↦
          .bind hpush fun _ ↦ ?_
        split
        · exact .pure _
        · refine .bind (Compilation.lasts_compile hQ hcall
            (fun _ _ ↦ .invoke _ _ _ fun _ ↦ .done _) limit _) fun r ↦ ?_
          split
          · exact .bind (lasts_edit ..) fun _ ↦ .pure _
          · exact .bind (lasts_release hQ _) fun _ ↦ .pure _
    · exact .pure _

end Lifetime

/-! ## Running -/

/-- A computation takes a property of the world to another one. -/
structure Run.Takes {α : Type} (P P' : World σ → Prop) (m : Run σ α) : Prop where
  taken : ∀ w a w', m w = some (a, w') → P w → P' w'

namespace Run.Takes

variable {α β : Type} {P P' P'' : World σ → Prop} {m : Run σ α} {f : α → Run σ β}

protected theorem bind (hm : Run.Takes P P' m) (hf : ∀ a, Run.Takes P' P'' (f a)) :
    Run.Takes P P'' (m >>= f) := by
  refine ⟨fun w b w' hrun h ↦ ?_⟩
  obtain ⟨a, w₁, hrun₁, hrun₂⟩ := Run.bind_eq_some_iff.1 hrun
  exact (hf a).taken w₁ b w' hrun₂ (hm.taken w a w₁ hrun₁ h)

/-- What keeps a property comes first. -/
theorem after (hm : Run.Keeps P m) (hf : ∀ a, Run.Takes P P' (f a)) : Run.Takes P P' (m >>= f) :=
  .bind ⟨hm.kept⟩ hf

theorem onStore {Q : List SubscriberId → Store → Prop} {T T' : List SubscriberId}
    {f : Store → α × Store} (h : ∀ s, Q T s → Q T' (f s).2) :
    Run.Takes (World.Lasts Q T) (World.Lasts Q T') (Run.onStore f : Run σ α) := by
  refine ⟨fun w a w' hrun hw ↦ ?_⟩
  cases hrun
  exact ⟨h w.scene.store hw.store, hw.code⟩

end Run.Takes

section Follow

open Run

variable {Q : List SubscriberId → Store → Prop} (hQ : Store.Lasting Q)

include hQ

/-- **Following balanced code** ends the evaluations that it has begun: what holds then is the
property of the stack below them.  The induction is on the code; tracking adds to what it has begun,
and untracking takes from it. -/
theorem follow_takes {call : Call σ}
    (hcall : ∀ (a : Action σ) T, a.Balanced 0 → Keeps (World.Lasts Q T) (call a)) (limit : Nat)
    {n : Nat} {a : Action σ} (ha : a.Balanced n) (T : List SubscriberId) :
    ∀ begun : List SubscriberId, begun.length = n →
      Takes (World.Lasts Q (begun ++ T)) (World.Lasts Q T) (follow call limit a) := by
  induction ha with
  | done r =>
    intro begun hbegun
    cases List.eq_nil_of_length_eq_zero hbegun
    exact ⟨(Keeps.pure r).kept⟩
  | inspect _ ih => exact fun begun hbegun ↦ .after .look fun s ↦ ih s begun hbegun
  | modify f _ ih =>
    exact fun begun hbegun ↦ .after (lasts_editScene fun _ ↦ rfl) fun _ ↦ ih begun hbegun
  | observe data _ ih =>
    exact fun begun hbegun ↦ .after (lasts_onStore fun _ ↦ hQ.observe data) fun v ↦
      ih v begun hbegun
  | get o key _ ih =>
    exact fun begun hbegun ↦ .after (lasts_onStore fun _ ↦ hQ.get o key) fun v ↦ ih v begun hbegun
  | getPath path root _ ih =>
    exact fun begun hbegun ↦
      .after (lasts_onStore fun _ ↦ hQ.getValue path root) fun x ↦ ih x begun hbegun
  | render template root _ ih =>
    exact fun begun hbegun ↦
      .after (lasts_onStore fun _ ↦ hQ.render template root) fun x ↦ ih x begun hbegun
  | set o key v _ ih =>
    exact fun begun hbegun ↦
      .after (Notification.lasts_set hQ (hcall · _) o key v) fun x ↦ ih x begun hbegun
  | setPath path root v _ ih =>
    exact fun begun hbegun ↦
      .after (Notification.lasts_setPath hQ (hcall · _) path root v) fun x ↦ ih x begun hbegun
  | watch expr root hreaction _ _ ih =>
    exact fun begun hbegun ↦
      .after (Notification.lasts_watch hQ expr root hreaction) fun x ↦ ih x begun hbegun
  | probe hreaction _ _ ih =>
    exact fun begun hbegun ↦
      .after (Notification.lasts_subscriber hQ _ fun _ ↦ hreaction) fun id ↦ ih id begun hbegun
  | retain id _ ih =>
    exact fun begun hbegun ↦ .after (lasts_onStore fun _ ↦ hQ.retain id) fun _ ↦ ih begun hbegun
  | release id _ ih =>
    exact fun begun hbegun ↦ .after (lasts_onStore fun _ ↦ hQ.release id) fun _ ↦ ih begun hbegun
  | track id _ ih =>
    intro begun hbegun
    exact .bind (.onStore fun _ ↦ hQ.track id) fun _ ↦ ih (id :: begun) (congrArg (· + 1) hbegun)
  | untrack _ ih =>
    intro begun hbegun
    obtain ⟨id, rest, rfl⟩ := List.exists_cons_of_length_eq_add_one hbegun
    exact .bind (.onStore fun _ ↦ hQ.untrack) fun _ ↦ ih rest (Nat.succ.inj hbegun)
  | notify ids _ ih =>
    exact fun begun hbegun ↦
      .after (Notification.lasts_notify hQ (hcall · _) ids) fun x ↦ ih x begun hbegun
  | edit e _ ih => exact fun begun hbegun ↦ .after (lasts_onDocument _) fun _ ↦ ih begun hbegun
  | listen node event hhandler _ _ ih =>
    exact fun begun hbegun ↦
      .after (Dispatch.lasts_listen node event hhandler) fun _ ↦ ih begun hbegun
  | unlisten root _ ih =>
    exact fun begun hbegun ↦ .after (lasts_editScene fun _ ↦ rfl) fun _ ↦ ih begun hbegun
  | dispatch node event v _ ih =>
    exact fun begun hbegun ↦
      .after (Dispatch.lasts_fire (hcall · _) node event v) fun x ↦ ih x begun hbegun
  | compile job hmethods _ _ ih =>
    exact fun begun hbegun ↦
      .after (Compilation.lasts_compile hQ (hcall · _) hmethods limit job) fun x ↦ ih x begun hbegun
  | openViewModel options hmethods _ _ ih =>
    exact fun begun hbegun ↦
      .after (Lifetime.lasts_openViewModel hQ (hcall · _) limit options hmethods)
        fun x ↦ ih x begun hbegun
  | retainViewModel vm _ ih =>
    exact fun begun hbegun ↦ .after (Lifetime.lasts_edit vm _) fun _ ↦ ih begun hbegun
  | releaseViewModel vm _ ih =>
    exact fun begun hbegun ↦ .after (Lifetime.lasts_release hQ vm) fun _ ↦ ih begun hbegun
  | invoke vm method event _ ih =>
    exact fun begun hbegun ↦
      .after (Lifetime.lasts_invoke hQ (hcall · _) vm method event) fun x ↦ ih x begun hbegun

/-- **Whatever balanced code is run, it keeps the property of every stack.** -/
theorem run_lasts (depth : Nat) (a : Action σ) (T : List SubscriberId) (ha : a.Balanced 0) :
    Keeps (World.Lasts Q T) (run depth a) := by
  induction depth generalizing a T with
  | zero => exact .tooDeep
  | succ depth ih => exact ⟨(follow_takes hQ ih depth ha T [] rfl).taken⟩

end Follow

end DataBinding

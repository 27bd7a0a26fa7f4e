import DataBinding.Proofs.Lifetime.EverydayHistory
import DataBinding.Proofs.State.Subscription
import DataBinding.Proofs.Template.FailedCompilations
import DataBinding.Proofs.Template.DocumentOrderWork

/-!
# After the last handle

A view-model holds its watchers, and nobody else does, but for the fan-outs that are running.  So
when its last handle has been given back and nothing is running, all its watchers are dead
(`World.Attended.retired`): writes tell nobody.  Its listeners call its methods, and a method that
nobody holds is not invoked.

So **the world is quiet** (`quiet_after_last_handle`): writes leave the document alone, methods are
not invoked, and events are ignored at and below the root as it was when the last handle was given
back, since no listener is left there.  A field that was tied to a path and stood elsewhere at that
moment keeps writing to the state (`stray_field_still_writes`).
-/

set_option autoImplicit false

namespace DataBinding

variable {σ : Type}

/-! ## Quiet worlds -/

/-- The listener writes what the user has entered to a path. -/
def World.WritesBack (w : World σ) (l : Listener) : Prop :=
  ∃ (job : CompileJob σ) (path : String), w.code.handlers[l.handler]? = some (job.writing path)

/-- Nobody holds a watcher or a view-model, and the listeners that there are call methods or write
back. -/
structure World.Retired (w : World σ) : Prop where
  dead : ∀ id, w.scene.store.isLive id = false
  closed : ∀ (vm : ViewModelId) v, w.scene.viewModels[vm]? = some v → v.handles = 0
  listeners : ∀ l ∈ w.scene.listeners, w.WritesBack l ∨
    ∃ vm name, w.code.handlers[l.handler]? = some (Lifetime.listenersOf vm name)

/-- Nothing happens in a world but that state is written.  Where it says "for whatever `call`", code
is not called, since `call` may do anything with it. -/
structure World.Quiet (w : World σ) : Prop where
  /-- A write changes the store and nothing else. -/
  writes : ∀ (o : ObjectId) (key : String) (v : Value), ∃ s : Store, ∀ call : Call σ,
    Notification.set call o key v w = some (.ok (), w.withStore s)
  /-- So does a write at a path, if it is one. -/
  pathWrites : ∀ (path : String) (root v : Value), ∃ (r : Except StateError Unit) (s : Store),
    ∀ call : Call σ, Notification.setPath call path root v w = some (r, w.withStore s)
  /-- Methods are not invoked. -/
  methods : ∀ (call : Call σ) (vm : ViewModelId) (method : String) (e : Event),
    Lifetime.invoke call vm method e w = some (.ok (), w)
  /-- An event calls the listeners, and they call nothing and change the store at most. -/
  events : ∀ (n : NodeId) (event : String) (v : Value), ∃ (r : Except BindError Unit) (s : Store),
    ∀ (call : Call σ) (limit : Nat),
      Dispatch.fire (follow call limit) n event v w = some (r, w.withStore s)
  /-- An event on a node without a listener that writes back is ignored. -/
  ignored : ∀ (n : NodeId) (event : String) (v : Value),
    (∀ l ∈ w.scene.listeners, l.node = n → l.event = event → ¬w.WritesBack l) →
      ∀ (call : Call σ) (limit : Nat),
        Dispatch.fire (follow call limit) n event v w = some (.ok (), w)

namespace World.Retired

variable {w : World σ}

/-- What the objects hold does not matter. -/
theorem withStore (h : w.Retired) {s : Store} (hs : s.handles = w.scene.store.handles) :
    (w.withStore s).Retired :=
  ⟨fun id ↦ (Store.isLive_congr hs id).trans (h.dead id), h.closed, h.listeners⟩

/-- A write tells nobody. -/
theorem set_eq (h : w.Retired) (o : ObjectId) (key : String) (v : Value) :
    ∃ s : Store, s.handles = w.scene.store.handles ∧
      ∀ call : Call σ, Notification.set call o key v w = some (.ok (), w.withStore s) := by
  have hwrite : (w.scene.store.write o key v).2.handles = w.scene.store.handles :=
    Store.handles_write
  cases hwritten : (w.scene.store.write o key v).1 with
  | defined | unchanged =>
    refine ⟨_, hwrite, fun call ↦ ?_⟩
    rw [Notification.set_eq, hwritten]
  | replaced =>
    have hnobody : (w.scene.store.write o key v).2.liveSubscribers o key = [] := by
      rw [Store.liveSubscribers_eq, List.filter_eq_nil_iff]
      intro id _
      rw [Store.isLive_congr hwrite, h.dead id]
      exact Bool.false_ne_true
    refine ⟨(w.scene.store.write o key v).2.prune o key, hwrite, fun call ↦ ?_⟩
    rw [Notification.set_eq, hwritten, Notification.announced, hnobody]
    rfl

/-- A method that nobody holds is not invoked. -/
theorem invoke_eq (h : w.Retired) (call : Call σ) (vm : ViewModelId) (method : String) (e : Event) :
    Lifetime.invoke call vm method e w = some (.ok (), w) := by
  rw [Lifetime.invoke, Run.get_bind]
  cases hv : w.scene.viewModels[vm]? with
  | none => rfl
  | some v =>
    cases w.code.methods[vm]? with
    | none => rfl
    | some methods =>
      simp only [h.closed vm v hv, if_true]
      rfl

/-- A write at a path tells nobody, either. -/
theorem setPath_eq (h : w.Retired) (path : String) (root v : Value) :
    ∃ (r : Except StateError Unit) (s : Store), s.handles = w.scene.store.handles ∧
      ∀ call : Call σ, Notification.setPath call path root v w = some (r, w.withStore s) := by
  have htarget := Store.handles_target path root w.scene.store
  cases hreached : (Store.target path root w.scene.store).1 with
  | error e =>
    refine ⟨.error e, _, htarget, fun call ↦ ?_⟩
    rw [Notification.setPath, Run.onStore_bind, hreached]
    rfl
  | ok place =>
    obtain ⟨s, hs, hset⟩ := (h.withStore htarget).set_eq place.1 place.2 v
    refine ⟨.ok (), s, hs.trans htarget, fun call ↦ ?_⟩
    rw [Notification.setPath, Run.onStore_bind, hreached]
    exact hset call

/-- **A listener calls nothing**, and does nothing at all unless it writes back. -/
theorem listener_eq (h : w.Retired) {l : Listener} (hl : l ∈ w.scene.listeners) (e : Event) :
    ∃ (handler : Event → Action σ) (r : Except BindError Unit) (s : Store),
      w.code.handlers[l.handler]? = some handler ∧
      s.handles = w.scene.store.handles ∧
      (¬w.WritesBack l → r = .ok () ∧ s = w.scene.store) ∧
      ∀ (call : Call σ) (limit : Nat), follow call limit (handler e) w =
        some (r, w.withStore s) := by
  rcases h.listeners l hl with ⟨job, path, hhandler⟩ | ⟨vm, name, hhandler⟩
  · obtain ⟨r, s, hs, hset⟩ := h.setPath_eq path job.state (w.scene.controlValue e)
    refine ⟨_, r.mapError BindError.state, s, hhandler, hs,
      fun hnot ↦ absurd ⟨job, path, hhandler⟩ hnot, fun call limit ↦ ?_⟩
    show (Notification.setPath call path job.state (w.scene.controlValue e) >>= fun r ↦
      follow call limit (.done (r.mapError BindError.state))) w = _
    exact Run.bind_eq_some_iff.2 ⟨r, _, hset call, rfl⟩
  · refine ⟨_, .ok (), w.scene.store, hhandler, rfl, fun _ ↦ ⟨rfl, rfl⟩, fun call limit ↦ ?_⟩
    exact Run.bind_eq_some_iff.2 ⟨_, _, h.invoke_eq call vm name e, rfl⟩

/-- So do listeners in turn. -/
theorem callAll_eq (h : w.Retired) {ls : List Listener} (hls : ls ⊆ w.scene.listeners) (e : Event) :
    ∃ (r : Except BindError Unit) (s : Store),
      ((∀ l ∈ ls, ¬w.WritesBack l) → r = .ok () ∧ s = w.scene.store) ∧
      ∀ (call : Call σ) (limit : Nat),
        Dispatch.callAll (follow call limit) e (ls.map Listener.handler) w =
          some (r, w.withStore s) := by
  induction ls generalizing w with
  | nil => exact ⟨_, w.scene.store, fun _ ↦ ⟨rfl, rfl⟩, fun _ _ ↦ rfl⟩
  | cons l ls ih =>
    obtain ⟨hl, hls⟩ := List.cons_subset.1 hls
    obtain ⟨handler, first, s₁, hhandler, hs₁, hsilent₁, hfirst⟩ := h.listener_eq hl e
    obtain ⟨others, s₂, hsilent₂, hothers⟩ := ih (h.withStore hs₁) hls
    refine ⟨firstError first others, s₂, fun hnone ↦ ?_, fun call limit ↦ ?_⟩
    · obtain ⟨rfl, rfl⟩ := hsilent₁ (hnone l List.mem_cons_self)
      exact hsilent₂ fun l' hl' ↦ hnone l' (List.mem_cons_of_mem l hl')
    · exact Dispatch.callAll_cons_eq_some.2 ⟨first, _, others,
        (Dispatch.callOne_of_code hhandler).trans (hfirst call limit), hothers call limit, rfl⟩

/-- **In a retired world it is quiet.** -/
theorem quiet (h : w.Retired) : w.Quiet where
  writes o key v := by
    obtain ⟨s, -, hs⟩ := h.set_eq o key v
    exact ⟨s, hs⟩
  pathWrites path root v := by
    obtain ⟨r, s, -, hs⟩ := h.setPath_eq path root v
    exact ⟨r, s, hs⟩
  methods := h.invoke_eq
  events n event v := by
    obtain ⟨r, s, -, hs⟩ := h.callAll_eq List.filter_sublist.subset ⟨n, event, v⟩
    exact ⟨r, s, hs⟩
  ignored n event v hnone call limit := by
    have hsubset : (w.scene.listeners.filter fun l ↦ l.node == n && l.event == event) ⊆
        w.scene.listeners := List.filter_sublist.subset
    obtain ⟨r, s, hsilent, hs⟩ := h.callAll_eq hsubset ⟨n, event, v⟩
    obtain ⟨rfl, rfl⟩ := hsilent fun l hl ↦ by
      simp only [List.mem_filter, Bool.and_eq_true, beq_iff_eq] at hl
      exact hnone l hl.1 hl.2.1 hl.2.2
    exact hs call limit

end World.Retired

/-! ## From the making of a view-model on -/

/-- A world in which nothing watches or listens, and no view-model has been made. -/
structure World.Vacant (w : World σ) : Prop where
  forest : w.scene.document.IsForest
  handles : w.scene.store.handles = #[]
  subscribers : w.scene.subscribers = #[]
  listeners : w.scene.listeners = []
  viewModels : w.scene.viewModels = #[]
  code : w.code = ⟨#[], #[], #[]⟩

theorem World.vacant_start {document : Document} (h : document.IsForest) (data : σ) :
    (World.start document data).Vacant :=
  ⟨h, rfl, rfl, rfl, rfl, rfl⟩

/-- The listeners call methods of view-models or write back. -/
def World.Dutiful (w : World σ) : Prop :=
  ∀ l ∈ w.scene.listeners, w.WritesBack l ∨
    ∃ vm name, w.code.handlers[l.handler]? = some (Lifetime.listenersOf vm name)

/-- **Once the view-model is closed and nothing is running, the world is retired.** -/
theorem World.Attended.retired {w₁ w : World σ} {scope : List SubscriberId}
    (h : w₁.Attended scope [] w) (hlisteners : w₁.Dutiful) (hclosed : w.scene.isOpen 0 = false) :
    w.Retired where
  dead id := by
    have hle := h.holders_le id
    rw [hclosed] at hle
    have hnobody : w.scene.store.holders id = 0 := by simpa using hle
    rw [Store.isLive, ← Store.holders, hnobody]
    rfl
  closed vm u hu := by
    obtain ⟨v, hv, -⟩ := h.viewModel
    rw [Scene.isOpen_of_single hv, decide_eq_false_iff_not, Nat.not_lt, Nat.le_zero] at hclosed
    rw [hv, Array.getElem?_singleton] at hu
    split at hu
    · cases hu
      exact hclosed
    · cases hu
  listeners l hl := by
    rw [World.WritesBack, h.code_eq]
    exact hlisteners l (h.listeners hl)

theorem CompileJob.everyday_writing (job : CompileJob σ) (path : String) (e : Event) :
    (job.writing path e).Everyday :=
  .inspect fun _ ↦ .setPath fun _ ↦ .done _

theorem CompileJob.everyday_showing (job : CompileJob σ) (n : NodeId) (slot : Slot)
    (text : String) :
    (job.showing n slot text).Everyday :=
  .modify (.edit (.done _))

theorem CompileJob.everyday_showingTemplate (job : CompileJob σ) (n : NodeId) (template : String) :
    (job.showingTemplate n template).Everyday := by
  refine .render fun x ↦ ?_
  cases x with
  | error e => exact .done _
  | ok text => exact job.everyday_showing ..

namespace Compilation

/-- The watchers have everyday code. -/
def Reacting (w : World σ) : Prop := ∀ reaction ∈ w.code.reactions, ∀ v, (reaction v).Everyday

section Steps

variable {job : CompileJob σ}

theorem keeps_reacting_onStore {α : Type} (f : Store → α × Store) :
    Run.Keeps Reacting (Run.onStore f : Run σ α) :=
  .change fun _ hw ↦ hw

theorem keeps_reacting_present (n : NodeId) (slot : Slot) (text : String) :
    Keeps (fun _ ↦ Reacting) (present job n slot text) :=
  .lift fun _ ↦ .bind (.change fun _ hw ↦ hw) fun _ ↦ .change fun _ hw ↦ hw

theorem keeps_reacting_listen (n : NodeId) (event : String) (handler : Event → Action σ) :
    Keeps (fun _ ↦ Reacting) (listen job n event handler) :=
  .lift fun _ ↦ .bind (.change fun _ hw ↦ hw) fun _ ↦ .change fun _ hw ↦ hw

theorem keeps_reacting_watch (expr : String) {reaction : Value → Action σ}
    (hreaction : ∀ v, (reaction v).Everyday) :
    Keeps (fun _ ↦ Reacting) (watch job expr reaction) := by
  have hsubscriber : ∀ s, Run.Keeps Reacting (Notification.subscriber s reaction) := fun _ ↦
    .change fun w hw made hmade v ↦ by
      rcases Array.mem_push.1 hmade with hmade | rfl
      · exact hw made hmade v
      · exact hreaction v
  have hobserved : ∀ id v, Run.Keeps Reacting (Notification.observed id v : Run σ Unit) :=
    fun _ _ ↦ .change fun _ hw ↦ hw
  refine .bind (.attemptState fun _ ↦ .bind (hsubscriber _) fun id ↦
    .bind (keeps_reacting_onStore _) fun x ↦ ?_) fun _ ↦ .hold fun _ _ h ↦ h
  cases x with
  | error e => exact .bind (keeps_reacting_onStore _) fun _ ↦ .pure _
  | ok v => exact .bind (hobserved id v) fun _ ↦ .pure _

/-- **Bindings make watchers that show something.** -/
theorem keeps_reacting_bind {call : Call σ} {methods : String → Event → Action σ} (n : NodeId)
    {binding : Binding} (hsilent : binding.isCall = false) :
    Keeps (fun _ ↦ Reacting) (bind call job methods n binding) := by
  cases binding with
  | fixed slot text => exact keeps_reacting_present ..
  | live slot expr =>
    exact .bind (.attemptState fun _ ↦ keeps_reacting_onStore _) fun _ ↦ .bind (.lift fun _ ↦ .look)
      fun _ ↦ .bind (keeps_reacting_present ..) fun _ ↦
        keeps_reacting_watch expr fun v ↦ .inspect fun s ↦ job.everyday_showing ..
  | template text =>
    exact .bind (.attemptState fun _ ↦ keeps_reacting_onStore _) fun _ ↦
      .bind (keeps_reacting_present ..) fun _ ↦
        (Keeps.compositional fun _ _ _ h ↦ h).forM fun expr _ ↦
          keeps_reacting_watch expr fun _ ↦ job.everyday_showingTemplate ..
  | writeBack expr => exact keeps_reacting_listen ..
  | listen event method => exact keeps_reacting_listen ..
  | call method event value => cases hsilent
  | refuse e => exact .refuse e

theorem reacting_of_compile {call : Call σ} {limit : Nat} {methods : String → Event → Action σ}
    (htable : job.table.Orderly) {w w' : World σ} (hw : Reacting w) {x : Except BindError Compiled}
    (hrun : compile call limit job methods w = some (x, w')) : Reacting w' := by
  rw [compile_eq_bind] at hrun
  obtain ⟨⟨⟨result, p⟩, w₁⟩, hvisit, hfinish⟩ := Option.bind_eq_some_iff.1 hrun
  have hreacting : Reacting w₁ :=
    ((Keeps.compositional fun _ _ _ h ↦ h).visit
      (fun n _ _ hlookup directive binding hmem ↦
        keeps_reacting_bind n (htable.silent hlookup directive binding hmem))
      (fun _ _ ↦ .lift fun _ ↦ .change fun _ hw ↦ hw) limit _).kept (p := .start)
        (w := w.withDocument (w.scene.document.stage job.root).2) hvisit hw
  cases result with
  | ok u =>
    cases hfinish
    exact hreacting
  | error e =>
    cases hfinish
    exact hreacting

end Steps

end Compilation

namespace Lifetime

/-- There is one view-model, with the given root, which holds the watchers of its scope, and all
code but that of its methods is from templates. -/
structure Made (methods : String → ViewModelId → Event → Action σ) (root : Option NodeId)
    (scope : List SubscriberId) (w : World σ) : Prop where
  reacting : Compilation.Reacting w
  handlers : ∀ handler ∈ w.code.handlers,
    (∃ (job : CompileJob σ) (path : String), handler = job.writing path) ∨
      ∃ vm name, handler = listenersOf vm name
  methods_eq : w.code.methods = #[methods]
  answered : w.Answered
  viewModel : ∃ v, w.scene.viewModels = #[v] ∧ v.root = root ∧ v.compiled.scope = scope ∧
    0 < v.handles
  holders_eq : ∀ id, w.scene.store.holders id = scope.count id

namespace Made

variable {methods : String → ViewModelId → Event → Action σ} {root : Option NodeId}
  {scope : List SubscriberId} {w w' : World σ}

theorem everyday (h : Made methods root scope w)
    (hmethods : ∀ name vm e, (methods name vm e).Everyday) :
    w.code.Everyday where
  reactions := h.reacting
  handlers handler hhandler e := by
    rcases h.handlers handler hhandler with ⟨job, path, rfl⟩ | ⟨vm, name, rfl⟩
    · exact job.everyday_writing path e
    · exact .invoke fun _ ↦ .done _
  methods ms hms := by
    rw [h.methods_eq] at hms
    rw [Array.mem_singleton.1 hms]
    exact hmethods

theorem dutiful (h : Made methods root scope w) : w.Dutiful := by
  intro l hl
  have hsome := Array.getElem?_eq_getElem (h.answered l hl)
  rcases h.handlers _ (Array.mem_of_getElem? hsome) with ⟨job, path, heq⟩ | ⟨vm, name, heq⟩
  · exact .inl ⟨job, path, hsome.trans (congrArg some heq)⟩
  · exact .inr ⟨vm, name, hsome.trans (congrArg some heq)⟩

theorem attended (h : Made methods root scope w) : w.Attended scope [] w where
  code_eq := rfl
  listeners := List.Subset.refl _
  viewModel := by
    obtain ⟨v, hv, -, hscope, -⟩ := h.viewModel
    exact ⟨v, hv, hscope⟩
  holders_le id := by
    obtain ⟨v, hv, -, -, hheld⟩ := h.viewModel
    rw [Scene.isOpen_of_single hv, if_pos (decide_eq_true hheld), h.holders_eq id]
    exact Nat.le_refl _

/-- **Its template is compiled.** -/
theorem compiled (h : Made methods root [] w) (haligned : w.Aligned)
    (hnobody : w.scene.subscribers.size = 0) {call : Call σ} {limit : Nat} {job : CompileJob σ}
    (htable : job.table.Orderly) {vm : ViewModelId} {c : Compiled}
    (hrun : Compilation.compile call limit job (listenersOf vm) w = some (.ok c, w'))
    (hposts : Compilation.Posts job.root w w') (hanswered : w'.Answered) :
    Made methods root c.scope (w'.withEdited 0 fun v ↦ { v with compiled := c }) := by
  have hadded := added_of_compile htable haligned hrun
  have hreacting : Compilation.Reacting w' := Compilation.reacting_of_compile htable h.reacting hrun
  refine ⟨hreacting, fun handler hhandler ↦ ?_, hadded.methods_eq.trans h.methods_eq, hanswered, ?_,
    fun id ↦ hadded.held id (hnobody ▸ Nat.zero_le id)⟩
  · obtain ⟨made, hmade, hhandlers, -⟩ := hadded.handlers
    have hmem : handler ∈ w.code.handlers ++ made.toArray := hhandlers ▸ hhandler
    rcases Array.mem_append.1 hmem with hold | hnew
    · exact h.handlers handler hold
    · cases hmade handler (by simpa using hnew) with
      | method name => exact .inr ⟨vm, name, rfl⟩
      | writing path => exact .inl ⟨job, path, rfl⟩
  · obtain ⟨v, hv, hroot, -, hheld⟩ := h.viewModel
    refine ⟨{ v with compiled := c }, ?_, hroot, rfl, hheld⟩
    rw [World.withEdited, hposts.viewModels_eq, hv]
    rfl

end Made

/-- **A new view-model holds its watchers**, and its root is the node that it is attached to. -/
theorem made_of_open {depth limit : Nat} {options : ViewModelOptions}
    {methods : String → ViewModelId → Event → Action σ} {vm : ViewModelId} {w w₁ : World σ}
    (hw : w.Vacant) (hrun : openViewModel (run depth) limit options methods w = some (.ok vm, w₁)) :
    vm = 0 ∧ ∃ root scope,
      locate w.scene.document options.attach = .ok root ∧ Made methods root scope w₁ := by
  have hvm : w.scene.viewModels.size = 0 := by rw [hw.viewModels, Array.size_empty]
  have hanswered : w₁.Answered :=
    (keeps_openViewModel World.robust_answered (run_keeps World.robust_answered depth) limit options
      methods).kept _ _ _ hrun fun l hl ↦ nomatch hw.listeners ▸ hl
  have haligned : ∀ root state data, (w.withViewModel options methods root state
      (Store.observe data w.scene.store).2).Aligned := by
    refine fun root state data ↦ ⟨?_, ?_⟩
    · rw [World.withViewModel, (Store.extends_observe data w.scene.store).handles, hw.handles,
        hw.subscribers]
      rfl
    · rw [World.withViewModel, hw.code, hw.subscribers]
      rfl
  have hmade : ∀ root state data, Made methods root []
      (w.withViewModel options methods root state (Store.observe data w.scene.store).2) := by
    intro root state data
    have hhandles : (Store.observe data w.scene.store).2.handles = #[] :=
      (Store.extends_observe data w.scene.store).handles.trans hw.handles
    refine ⟨?_, ?_, ?_, ?_,
      ⟨⟨1, root, state, options.methods, ⟨[], .zero⟩⟩, ?_, rfl, rfl, Nat.one_pos⟩, fun id ↦ ?_⟩
    · intro reaction hreaction
      rw [World.withViewModel, hw.code] at hreaction
      exact absurd hreaction (Array.not_mem_empty reaction)
    · intro handler hhandler
      rw [World.withViewModel, hw.code] at hhandler
      exact absurd hhandler (Array.not_mem_empty handler)
    · rw [World.withViewModel, hw.code]
      rfl
    · exact fun l hl ↦ nomatch hw.listeners ▸ hl
    · rw [World.withViewModel, hw.viewModels]
      rfl
    · rw [Store.holders, World.withViewModel, hhandles]
      rfl
  cases open_outcome hrun with
  | @detached data state hstate hlocate hobserve =>
    exact ⟨hvm, none, [], hlocate, hmade none state data⟩
  | @compiled data state root c w₂ hstate hlocate hobserve hcompile =>
    have hposts := Compilation.compile_posts DirectiveTable.standard_orderly
      (w := w.withViewModel options methods (some root) state (Store.observe data w.scene.store).2)
      hw.forest hcompile
    rw [hvm] at hcompile ⊢
    exact ⟨rfl, some root, c.scope, hlocate, (hmade (some root) state data).compiled
      (haligned _ _ _) (congrArg Array.size hw.subscribers) DirectiveTable.standard_orderly
      hcompile hposts hanswered⟩

end Lifetime

/-- **After the last handle it is quiet.**  A view-model is made where nothing watches or listens,
and whatever everyday code is run next, once it has left the view-model without a handle, writes
leave the document alone, methods are not invoked, and only the fields that are still tied to a path
answer events.

Those are fields that stood elsewhere when the last handle was given back: its step is in the trace,
and of the listeners in the scene of that step none is left at or below the root, so that no event
is answered there.  Other listeners have stayed, unless code has taken them away. -/
theorem quiet_after_last_handle {depth limit : Nat} {options : ViewModelOptions}
    {methods : String → ViewModelId → Event → Action σ} {vm : ViewModelId} {w₀ w₁ w : World σ}
    (hvacant : w₀.Vacant) (hmethods : ∀ name vm e, (methods name vm e).Everyday)
    (hopen : Lifetime.openViewModel (run depth) limit options methods w₀ = some (.ok vm, w₁))
    {depth' : Nat} {a : Action σ} (ha : a.Everyday) {r : Except BindError Unit}
    (hrun : run depth' a w₁ = some (r, w)) (hclosed : w.scene.isOpen vm = false) :
    w.Quiet ∧ ∃ (v : ViewModel) (s : Scene σ) (after : List (Moment σ)),
      LastHeld vm v s after (trace depth' [] a w₁) ∧
      Lifetime.locate w₀.scene.document options.attach = .ok v.root ∧
      w.Cleared v.root s after ∧
      ∀ n, s.isUnder v.root n = true → ∀ (call : Call σ) (event : String) (value : Value),
        Dispatch.fire call n event value w = some (.ok (), w) := by
  obtain ⟨rfl, root, scope, hlocate, hmade⟩ := Lifetime.made_of_open hvacant hopen
  have hcode := hmade.everyday hmethods
  refine ⟨?_, ?_⟩
  · have hattended : w₁.Attended scope [] w :=
      (run_keeps_attended hcode depth' ha).kept _ _ _ hrun hmade.attended
    exact (hattended.retired hmade.dutiful hclosed).quiet
  · obtain ⟨v₁, hv₁, rfl, -, hheld⟩ := hmade.viewModel
    have hhistory : w₁.History (trace depth' [] a w₁) w :=
      (continues_run hcode depth' [] ha).continues [] w₁ .start r w hrun
    obtain ⟨v, s, after, hlast, hroot, hcleared⟩ := (hhistory.single hv₁ hheld).left hclosed
    rw [← hroot] at hlocate hcleared
    exact ⟨v, s, after, hlast, hlocate, hcleared, fun n hn call ↦ hcleared.fire_eq hn call⟩

/-! ## A form on a page -/

/-- A page with a field that is tied to `n`, a text that shows it, and a button for the method
`add`. -/
def formPage : World Unit := .ofMarkup
  "<div><input bind-value=\"n\"><p>\x7b\x7bn\x7d\x7d</p><b @click=\"add\"></b></div>"

/-- The method writes to `n`. -/
def formMethods (_ : String) (_ : ViewModelId) (_ : Event) : Action Unit :=
  .set 0 "n" (.string "7") fun _ ↦ .done (.ok ())

/-- Makes a view-model for the page. -/
def openForm : Option (Except OpenError ViewModelId × World Unit) :=
  Lifetime.openViewModel (run 1) 8
    ⟨some (.node 1), .object [("n", .string "1")], .standard, ["add"]⟩ formMethods formPage

/-- What `n` is after something has been typed into the field. -/
def World.afterTyping (w : World Unit) : Option (Option Value) :=
  (Dispatch.fire (run 4) 2 inputEvent (.string "5") w).map fun r ↦ r.2.scene.store.peek 0 "n"

/-- The handle is given back. -/
def leaveForm : Action Unit := .releaseViewModel 0 (.done (.ok ()))

/-- Whether a node is at or below a root in the scene of a step. -/
def Moment.isUnder (root : Option NodeId) (n : NodeId) : Moment σ → Bool
  | .step _ _ s => s.isUnder root n
  | .called _ => true

/-- It is quiet after that, and the field does not write any more, since it stands below the
root. -/
theorem quiet_after_leaving : ∃ vm w₁ r w, openForm = some (.ok vm, w₁) ∧
    w₁.afterTyping = some (some (.string "5")) ∧
    run 3 leaveForm w₁ = some (r, w) ∧ w.scene.isOpen vm = false ∧ w.Quiet ∧
    (∀ (call : Call Unit) (event : String) (value : Value),
      Dispatch.fire call 2 event value w = some (.ok (), w)) ∧
    w.afterTyping = some (some (.string "1")) := by
  have hform : (openForm.any fun r ↦ r.1.toOption.any fun vm ↦ (run 3 leaveForm r.2).any fun x ↦
      decide (r.2.afterTyping = some (some (.string "5")) ∧ x.2.scene.isOpen vm = false ∧
        (trace 3 [] leaveForm r.2).all (Moment.isUnder (some 1) 2) = true ∧
        x.2.afterTyping = some (some (.string "1")))) = true := by decide +kernel
  obtain ⟨⟨e | vm, w₁⟩, hopen, hform⟩ := (Option.any_eq_true _ _).1 hform
  · cases hform
  · obtain ⟨_, hvm, hform⟩ := (Option.any_eq_true _ _).1 hform
    cases hvm
    obtain ⟨⟨r, w⟩, hrun, hform⟩ := (Option.any_eq_true _ _).1 hform
    obtain ⟨htied, hclosed, hunder, htyped⟩ := of_decide_eq_true hform
    have hvacant : formPage.Vacant := World.vacant_start (World.sound_ofMarkup _).forest ()
    obtain ⟨hquiet, v, s, after, hlast, hlocate, -, hsilent⟩ := quiet_after_last_handle hvacant
      (fun _ _ _ ↦ .set fun _ ↦ .done _) hopen (.releaseViewModel (.done _)) hrun hclosed
    refine ⟨vm, w₁, r, w, hopen, htied, hrun, hclosed, hquiet, hsilent 2 ?_, htyped⟩
    -- The field stands below the root throughout, so it does so when the last handle is given back.
    obtain ⟨before, held, b, hsplit⟩ := hlast.split
    have hstep : .step held b s ∈ trace 3 [] leaveForm w₁ :=
      hsplit ▸ List.mem_append_right _ List.mem_cons_self
    rw [← Except.ok.inj hlocate]
    exact List.all_eq_true.1 hunder _ hstep

/-- **A field that has left the page goes on writing** when the handle has been given back. -/
theorem stray_field_still_writes : ∃ vm w₁ r w, openForm = some (.ok vm, w₁) ∧
    run 3 (.edit (.detach 2) leaveForm) w₁ = some (r, w) ∧ w.scene.isOpen vm = false ∧
      w.scene.store.peek 0 "n" = some (.string "1") ∧
      w.afterTyping = some (some (.string "5")) := by
  have hform : (openForm.any fun r ↦ r.1.toOption.any fun vm ↦
      (run 3 (.edit (.detach 2) leaveForm) r.2).any fun r ↦ decide (r.2.scene.isOpen vm = false ∧
        r.2.scene.store.peek 0 "n" = some (.string "1") ∧
          r.2.afterTyping = some (some (.string "5")))) = true := by decide +kernel
  obtain ⟨⟨e | vm, w₁⟩, hopen, hform⟩ := (Option.any_eq_true _ _).1 hform
  · cases hform
  · obtain ⟨_, hvm, hform⟩ := (Option.any_eq_true _ _).1 hform
    cases hvm
    obtain ⟨⟨r, w⟩, hrun, hform⟩ := (Option.any_eq_true _ _).1 hform
    exact ⟨vm, w₁, r, w, hopen, hrun, of_decide_eq_true hform⟩

end DataBinding

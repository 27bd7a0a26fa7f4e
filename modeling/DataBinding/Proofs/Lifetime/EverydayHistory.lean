import DataBinding.Proofs.Engine.Trace
import DataBinding.Proofs.Lifetime.EverydayCode

/-!
# The history of everyday code

The trace of a run tells the steps of code.  Between them everyday code and the engine do a few
things only to the view-models and to the listeners: code takes listeners away, and handles on
view-models are taken and given back — by a step that says so, or by the engine, which holds a
view-model while a method of it runs.  A handle is given back at the end of a step: that is why the
scene of that step is the scene in which it is given back (`Trace.ofAction_eq_append_done`).

`World.History` lists these ways to go on, and **the trace of everyday code is a history that leads
to the world in which it ends** (`continues_run`).  So what each of them keeps holds at the end of
the run, for instance what the last handle leaves behind (`World.History.single`): since the step in
which it was given back nobody has held the view-model, and the listeners at and below its root are
gone.
-/

set_option autoImplicit false

namespace DataBinding

variable {σ : Type}

/-! ## Histories -/

/-- The ways in which everyday code and the engine go on from a world: what has been told since, and
the world now. -/
inductive World.History (w₁ : World σ) : List (Moment σ) → World σ → Prop
  /-- Nothing has happened. -/
  | start : History w₁ [] w₁
  /-- Code does its next step. -/
  | step {past : List (Moment σ)} {w : World σ} (held : List SubscriberId) (a : Action σ)
      (h : History w₁ past w) : History w₁ (past ++ [.step held a w.scene]) w
  /-- The code of a subscriber is called. -/
  | called {past : List (Moment σ)} {w : World σ} (id : SubscriberId) (h : History w₁ past w) :
      History w₁ (past ++ [.called id]) w
  /-- Something happens to the state, the subscribers or the document. -/
  | changed {past : List (Moment σ)} {w w' : World σ} (h : History w₁ past w)
      (hcode : w'.code = w.code) (hlisteners : w'.scene.listeners = w.scene.listeners)
      (hviewModels : w'.scene.viewModels = w.scene.viewModels) : History w₁ past w'
  /-- Code takes listeners away. -/
  | unlistened {past : List (Moment σ)} {w : World σ} {held : List SubscriberId} (root : NodeId)
      (next : Action σ) (h : History w₁ (past ++ [.step held (.unlisten root next) w.scene]) w) :
      History w₁ (past ++ [.step held (.unlisten root next) w.scene])
        { w with scene := w.scene.clearListeners root }
  /-- A handle on a view-model is taken. -/
  | retained {past : List (Moment σ)} {w : World σ} (vm : ViewModelId) (h : History w₁ past w) :
      History w₁ past (w.withEdited vm fun v ↦ { v with handles := v.handles + 1 })
  /-- A handle on a view-model is given back at the end of a step. -/
  | released {past : List (Moment σ)} {w : World σ} {held : List SubscriberId} {a : Action σ}
      (vm : ViewModelId) (h : History w₁ (past ++ [.step held a w.scene]) w) :
      History w₁ (past ++ [.step held a w.scene]) (w.released vm)

/-- The code stays. -/
theorem World.History.code_eq {w₁ w : World σ} {past : List (Moment σ)} (h : w₁.History past w) :
    w.code = w₁.code := by
  induction h with
  | start => rfl
  | step held a h ih => exact ih
  | called id h ih => exact ih
  | changed h hcode _ _ ih => exact hcode.trans ih
  | unlistened root next h ih => exact ih
  | retained vm h ih => exact ih
  | @released _ w _ _ vm h ih =>
    rw [World.released]
    split
    · exact ih
    · split <;> exact ih

/-- A history goes on with the trace of a computation. -/
structure Run.Continues {α : Type} (w₁ : World σ) (m : Run σ α) (t : World σ → List (Moment σ)) :
    Prop where
  continues : ∀ past w, w₁.History past w → ∀ a w', m w = some (a, w') → w₁.History (past ++ t w) w'

namespace Run.Continues

open Trace

variable {α β : Type} {w₁ : World σ} {m : Run σ α} {t : World σ → List (Moment σ)}

/-- A computation in which no code is run and that leaves view-models and listeners alone. -/
theorem quiet (h : ∀ w a w', m w = some (a, w') → w'.code = w.code ∧
    w'.scene.listeners = w.scene.listeners ∧ w'.scene.viewModels = w.scene.viewModels) :
    Continues w₁ m nothing :=
  ⟨fun past w hw a w' hrun ↦ by
    obtain ⟨hcode, hlisteners, hviewModels⟩ := h w a w' hrun
    rw [nothing, List.append_nil]
    exact hw.changed hcode hlisteners hviewModels⟩

protected theorem pure (a : α) : Continues w₁ (pure a : Run σ α) nothing :=
  quiet fun _ _ _ hrun ↦ by
    cases hrun
    exact ⟨rfl, rfl, rfl⟩

theorem onStore (f : Store → α × Store) : Continues w₁ (onStore f : Run σ α) nothing :=
  quiet fun _ _ _ hrun ↦ by
    cases hrun
    exact ⟨rfl, rfl, rfl⟩

theorem bind {f : α → Run σ β} {u : α → World σ → List (Moment σ)} (hm : Continues w₁ m t)
    (hf : ∀ a, Continues w₁ (f a) (u a)) :
    Continues w₁ (m >>= f) fun w ↦ t w ++ following m u w := by
  refine ⟨fun past w hw b w' hrun ↦ ?_⟩
  obtain ⟨a, w₂, hrun₁, hrun₂⟩ := Run.bind_eq_some_iff.1 hrun
  rw [following, hrun₁, ← List.append_assoc]
  exact (hf a).continues _ w₂ (hm.continues past w hw a w₂ hrun₁) b w' hrun₂

/-- No code is run at first. -/
theorem quiet_bind {f : α → Run σ β} {u : α → World σ → List (Moment σ)}
    (hm : Continues w₁ m nothing) (hf : ∀ a, Continues w₁ (f a) (u a)) :
    Continues w₁ (m >>= f) (following m u) := hm.bind hf

/-- No code is run afterwards. -/
theorem bind_quiet {f : α → Run σ β} (hm : Continues w₁ m t)
    (hf : ∀ a, Continues w₁ (f a) nothing) : Continues w₁ (m >>= f) t := by
  refine ⟨fun past w hw b w' hrun ↦ ?_⟩
  obtain ⟨a, w₂, hrun₁, hrun₂⟩ := Run.bind_eq_some_iff.1 hrun
  have hend := (hf a).continues _ w₂ (hm.continues past w hw a w₂ hrun₁) b w' hrun₂
  rwa [nothing, List.append_nil] at hend

/-- A step of code, and what it does. -/
theorem step {held : List SubscriberId} {a : Action σ} (h : Continues w₁ m t) :
    Continues w₁ m fun w ↦ .step held a w.scene :: t w :=
  ⟨fun past w hw b w' hrun ↦ by
    rw [List.append_cons]
    exact h.continues _ w (hw.step held a) b w' hrun⟩

end Run.Continues

/-! ## The engine -/

namespace Notification

open Run Trace

variable {w₁ : World σ} {call : Call σ} {tell : Tell σ} {held : List SubscriberId}
  (hcode : w₁.code.Everyday)
  (hcall : ∀ a : Action σ, a.Everyday → ∀ held, Continues w₁ (call a) (tell held a))

include hcode hcall

theorem continues_react (id : SubscriberId) (v : Value) :
    Continues w₁ (react call id v) (ofReact tell held id v) := by
  refine ⟨fun past w hw r w' hrun ↦ ?_⟩
  rw [ofReact]
  rcases react_eq_some hrun with ⟨hnone, -, rfl⟩ | ⟨reaction, result, hsome, hcalled, -⟩
  · rw [hnone, List.append_nil]
    exact hw
  · have heveryday := hcode.reactions reaction
      (Array.mem_of_getElem? (hw.code_eq ▸ hsome)) v
    rw [hsome, List.append_cons]
    exact (hcall _ heveryday held).continues _ w (hw.called id) result w' hcalled

theorem continues_update (id : SubscriberId) :
    Continues w₁ (update call id) (ofUpdate tell held id) := by
  refine ⟨fun past w hw ↦ ?_⟩
  rw [update, Run.scene_bind, ofUpdate]
  cases w.scene.subscribers[id]? with
  | none => exact (Continues.pure _).continues past w hw
  | some subscriber =>
    cases subscriber with
    | probe => exact (continues_react hcode hcall id .null).continues past w hw
    | watcher x =>
      refine ((Continues.onStore _).quiet_bind fun r ↦ ?_).continues past w hw
      cases r with
      | error e => exact .pure _
      | ok v =>
        show Continues w₁ (if x.observed.identical v then _ else _)
          (if x.observed.identical v then nothing else ofReact tell held id v)
        split
        · exact .pure _
        · refine .bind_quiet (continues_react hcode hcall id v) fun r ↦ .quiet fun w a w' hrun ↦ ?_
          cases r <;> cases hrun <;> exact ⟨rfl, rfl, rfl⟩

/-- **A fan-out.** -/
theorem continues_updateAll (ids : List SubscriberId) :
    Continues w₁ (updateAll call ids) (ofUpdateAll call tell held ids) := by
  induction ids with
  | nil => exact .pure _
  | cons id rest ih =>
    exact (continues_update hcode hcall id).bind fun _ ↦ (Continues.onStore _).quiet_bind fun _ ↦
      .bind_quiet ih fun _ ↦ .pure _

theorem continues_notify (ids : List SubscriberId) :
    Continues w₁ (notify call ids) (ofNotify call tell held ids) :=
  (Continues.onStore _).quiet_bind fun _ ↦ continues_updateAll hcode hcall ids

theorem continues_set (o : ObjectId) (key : String) (v : Value) :
    Continues w₁ (set call o key v) (ofSet call tell held o key v) := by
  refine (Continues.onStore _).quiet_bind fun x ↦ ?_
  cases x with
  | defined | unchanged => exact .pure _
  | replaced => exact (Continues.onStore _).quiet_bind fun ids ↦ continues_notify hcode hcall ids

theorem continues_setPath (path : String) (root v : Value) :
    Continues w₁ (setPath call path root v) (ofSetPath call tell held path root v) := by
  refine (Continues.onStore _).quiet_bind fun x ↦ ?_
  cases x with
  | error e => exact .pure _
  | ok place => exact continues_set hcode hcall ..

end Notification

/-! ## Events and methods -/

section Events

open Run Trace

variable {w₁ : World σ} {call : Call σ} {tell : Tell σ} {held : List SubscriberId}

theorem Lifetime.continues_retain (vm : ViewModelId) :
    Continues w₁ (retain vm : Run σ Unit) nothing :=
  ⟨fun past w hw _ w' hrun ↦ by
    cases hrun
    rw [nothing, List.append_nil]
    exact hw.retained vm⟩

/-- Code gives a handle back. -/
theorem Lifetime.continues_release (vm : ViewModelId) (a : Action σ) :
    Continues w₁ (release vm : Run σ Unit) fun w ↦ [.step held a w.scene] := by
  refine ⟨fun past w hw _ w' hrun ↦ ?_⟩
  rw [release_eq] at hrun
  cases hrun
  exact (hw.step held a).released vm

/-- Code takes listeners away. -/
theorem Dispatch.continues_unlisten (root : NodeId) (next : Action σ) :
    Continues w₁ (editScene (Scene.clearListeners · root) : Run σ Unit)
      fun w ↦ [.step held (.unlisten root next) w.scene] := by
  refine ⟨fun past w hw _ w' hrun ↦ ?_⟩
  cases hrun
  exact (hw.step held (.unlisten root next)).unlistened root next

variable (hcode : w₁.code.Everyday)
  (hcall : ∀ a : Action σ, a.Everyday → ∀ held, Continues w₁ (call a) (tell held a))

include hcode hcall

theorem Dispatch.continues_callOne (e : Event) (handler : Nat) :
    Continues w₁ (callOne call e handler) (ofCall tell held e handler) := by
  refine ⟨fun past w hw ↦ ?_⟩
  rw [callOne, Run.get_bind, ofCall]
  cases hhandler : w.code.handlers[handler]? with
  | none => exact (Continues.pure _).continues past w hw
  | some code =>
    rw [hw.code_eq] at hhandler
    have heveryday := hcode.handlers code (Array.mem_of_getElem? hhandler) e
    exact (hcall _ heveryday held).continues past w hw

theorem Dispatch.continues_callAll (e : Event) (handlers : List Nat) :
    Continues w₁ (callAll call e handlers) (ofCallAll call tell held e handlers) := by
  induction handlers with
  | nil => exact .pure _
  | cons handler rest ih =>
    exact (continues_callOne hcode hcall e handler).bind fun _ ↦ .bind_quiet ih fun _ ↦ .pure _

/-- **An event.** -/
theorem Dispatch.continues_fire (n : NodeId) (event : String) (v : Value) :
    Continues w₁ (fire call n event v) (ofFire call tell held n event v) :=
  ⟨fun past w hw ↦ (continues_callAll hcode hcall ⟨n, event, v⟩
    (w.scene.handlersFor n event)).continues past w hw⟩

omit hcode in
/-- Code that is run while its view-model is held: the handle is given back at the end of its last
step. -/
theorem Lifetime.continues_held (vm : ViewModelId) {a : Action σ} (ha : a.Everyday)
    (hends : ∀ w r w', call a w = some (r, w') →
      ∃ before, tell held a w = before ++ [.step held (.done r) w'.scene]) :
    Continues w₁ (do let r ← call a; release vm; return r) (tell held a) := by
  refine ⟨fun past w hw r w' hrun ↦ ?_⟩
  obtain ⟨result, w₂, hcalled, hrun⟩ := Run.bind_eq_some_iff.1 hrun
  obtain ⟨_, w₃, hrelease, hrun⟩ := Run.bind_eq_some_iff.1 hrun
  rw [release_eq] at hrelease
  cases hrelease
  cases hrun
  have hended := (hcall a ha held).continues past w hw r w₂ hcalled
  obtain ⟨before, hlast⟩ := hends w r w₂ hcalled
  rw [hlast, ← List.append_assoc] at hended ⊢
  exact hended.released vm

/-- **A method.** -/
theorem Lifetime.continues_invoke (vm : ViewModelId) (method : String) (event : Event)
    (hends : ∀ (a : Action σ) w r w', call a w = some (r, w') →
      ∃ before, tell held a w = before ++ [.step held (.done r) w'.scene]) :
    Continues w₁ (invoke call vm method event) (ofInvoke tell held vm method event) := by
  refine ⟨fun past w hw ↦ ?_⟩
  rw [invoke, Run.get_bind, ofInvoke]
  cases w.scene.viewModels[vm]? with
  | none => exact (Continues.pure _).continues past w hw
  | some v =>
    cases hmethods : w.code.methods[vm]? with
    | none => exact (Continues.pure _).continues past w hw
    | some methods =>
      simp only
      split
      · exact (Continues.pure _).continues past w hw
      · split
        · exact (Continues.pure _).continues past w hw
        · rw [hw.code_eq] at hmethods
          have heveryday := hcode.methods methods (Array.mem_of_getElem? hmethods) method vm event
          exact ((continues_retain vm).quiet_bind fun _ ↦
            continues_held hcall vm heveryday (hends _)).continues past w hw

/-- **Following everyday code**, given that the code it calls goes on with the history, too. -/
theorem follow_continues (limit : Nat)
    (hends : ∀ (a : Action σ) w r w', call a w = some (r, w') →
      ∃ before, tell held a w = before ++ [.step held (.done r) w'.scene])
    {a : Action σ} (ha : a.Everyday) :
    Continues w₁ (follow call limit a) (ofAction call tell limit held a) := by
  induction ha with
  | done r => exact .step (.pure _)
  | inspect _ ih => exact .step ⟨fun past w hw ↦ (ih w.scene).continues past w hw⟩
  | modify _ ih =>
    exact .step (.quiet_bind (.quiet fun _ _ _ hrun ↦ by cases hrun; exact ⟨rfl, rfl, rfl⟩)
      fun _ ↦ ih)
  | observe _ ih => exact .step ((Continues.onStore _).quiet_bind ih)
  | get _ ih => exact .step ((Continues.onStore _).quiet_bind ih)
  | getPath _ ih => exact .step ((Continues.onStore _).quiet_bind ih)
  | render _ ih => exact .step ((Continues.onStore _).quiet_bind ih)
  | set _ ih => exact .step ((Notification.continues_set hcode hcall ..).bind ih)
  | setPath _ ih => exact .step ((Notification.continues_setPath hcode hcall ..).bind ih)
  | edit _ ih =>
    exact .step (.quiet_bind (.quiet fun _ _ _ hrun ↦ by cases hrun; exact ⟨rfl, rfl, rfl⟩)
      fun _ ↦ ih)
  | unlisten _ ih => exact (Dispatch.continues_unlisten ..).bind fun _ ↦ ih
  | dispatch _ ih => exact .step ((Dispatch.continues_fire hcode hcall ..).bind ih)
  | retainViewModel _ ih => exact .step ((Lifetime.continues_retain _).quiet_bind fun _ ↦ ih)
  | releaseViewModel _ ih => exact (Lifetime.continues_release _ _).bind fun _ ↦ ih
  | invoke _ ih => exact .step ((Lifetime.continues_invoke hcode hcall _ _ _ hends).bind ih)

omit hcall

/-- **The trace of everyday code is a history** that leads to the world in which it ends. -/
theorem continues_run (depth : Nat) (held : List SubscriberId) {a : Action σ} (ha : a.Everyday) :
    Continues w₁ (run depth a) (trace depth held a) := by
  induction depth generalizing held a with
  | zero => exact ⟨fun _ _ _ _ _ hrun ↦ nomatch hrun⟩
  | succ depth ih =>
    exact follow_continues hcode (fun b hb held ↦ ih held hb) depth
      (fun _ _ _ _ hrun ↦ trace_eq_append_done hrun) ha

end Events

/-! ## The last handle -/

/-- If code takes a step, nobody holds the view-model. -/
def Moment.Closed (vm : ViewModelId) : Moment σ → Prop
  | .step _ _ s => s.isOpen vm = false
  | .called _ => True

/-- If code takes a step, it does not take listeners away. -/
def Moment.SparesListeners : Moment σ → Prop
  | .step _ (.unlisten _ _) _ => False
  | _ => True

/-- In a trace, a view-model has one handle left in a scene, and after that nobody holds it any
more. -/
structure LastHeld (vm : ViewModelId) (v : ViewModel) (s : Scene σ)
    (after trace : List (Moment σ)) : Prop where
  split : ∃ before held a, trace = before ++ .step held a s :: after
  viewModel : s.viewModels[vm]? = some v
  handles_eq : v.handles = 1
  closed : ∀ moment ∈ after, moment.Closed vm

/-- Of the listeners of a scene none is left at or below a root; elsewhere they are left as they
were, unless code has taken some away since. -/
structure World.Cleared (root : Option NodeId) (s : Scene σ) (after : List (Moment σ))
    (w : World σ) : Prop where
  sublist : w.scene.listeners.Sublist (s.listeners.filter fun l ↦ !s.isUnder root l.node)
  listeners_eq : (∀ moment ∈ after, moment.SparesListeners) →
    w.scene.listeners = s.listeners.filter fun l ↦ !s.isUnder root l.node

namespace LastHeld

variable {vm : ViewModelId} {v : ViewModel} {s : Scene σ} {after trace : List (Moment σ)}

theorem isOpen (h : LastHeld vm v s after trace) : s.isOpen vm = true := by
  rw [Scene.isOpen, h.viewModel, Option.any_some, h.handles_eq]
  rfl

theorem snoc (h : LastHeld vm v s after trace) {moment : Moment σ} (hmoment : moment.Closed vm) :
    LastHeld vm v s (after ++ [moment]) (trace ++ [moment]) where
  split := by
    obtain ⟨before, held, a, rfl⟩ := h.split
    exact ⟨before, held, a, by rw [List.append_assoc, List.cons_append]⟩
  viewModel := h.viewModel
  handles_eq := h.handles_eq
  closed := by
    rw [List.forall_mem_append, List.forall_mem_singleton]
    exact ⟨h.closed, hmoment⟩

/-- A step in a scene in which nobody holds the view-model comes after the last handle. -/
theorem mem_after {held : List SubscriberId} {a : Action σ} {s' : Scene σ}
    (h : LastHeld vm v s after (trace ++ [.step held a s'])) (hclosed : s'.isOpen vm = false) :
    .step held a s' ∈ after := by
  obtain ⟨before, held', a', hsplit⟩ := h.split
  rcases List.eq_nil_or_concat' after with rfl | ⟨after, moment, rfl⟩
  · have hlast := List.append_inj_right' hsplit rfl
    cases hlast
    cases hclosed.symm.trans h.isOpen
  · rw [← List.cons_append, ← List.append_assoc] at hsplit
    obtain rfl := List.singleton_injective (List.append_inj_right' hsplit rfl)
    exact List.mem_append_right _ (List.mem_singleton_self _)

end LastHeld

namespace World.Cleared

variable {root : Option NodeId} {s : Scene σ} {after : List (Moment σ)} {w w' : World σ}

theorem of_eq (h : w.Cleared root s after) (hlisteners : w'.scene.listeners = w.scene.listeners) :
    w'.Cleared root s after where
  sublist := hlisteners ▸ h.sublist
  listeners_eq := hlisteners ▸ h.listeners_eq

theorem snoc (h : w.Cleared root s after) (moment : Moment σ) :
    w.Cleared root s (after ++ [moment]) where
  sublist := h.sublist
  listeners_eq hspares :=
    h.listeners_eq fun moment hmem ↦ hspares moment (List.mem_append_left _ hmem)

/-- **Below the root no event is answered.** -/
theorem fire_eq (h : w.Cleared root s after) {n : NodeId} (hn : s.isUnder root n = true)
    (call : Call σ) (event : String) (v : Value) :
    Dispatch.fire call n event v w = some (.ok (), w) := by
  have hnobody : w.scene.handlersFor n event = [] := by
    rw [Scene.handlersFor, List.map_eq_nil_iff, List.filter_eq_nil_iff]
    intro l hl hon
    obtain ⟨-, houtside⟩ := List.mem_filter.1 (h.sublist.subset hl)
    rw [Bool.and_eq_true, beq_iff_eq] at hon
    rw [hon.1, hn] at houtside
    cases houtside
  rw [Dispatch.fire, Run.scene_bind, hnobody]
  rfl

end World.Cleared

/-- There is one view-model, with the given root.  When nobody holds it, the past tells how its last
handle was given back, and its listeners are gone since then. -/
structure World.Single (root : Option NodeId) (past : List (Moment σ)) (w : World σ) : Prop where
  viewModel : ∃ v, w.scene.viewModels = #[v] ∧ v.root = root
  left : w.scene.isOpen 0 = false →
    ∃ v s after, LastHeld 0 v s after past ∧ v.root = root ∧ w.Cleared root s after

namespace World.Single

variable {root : Option NodeId} {past : List (Moment σ)} {w w' : World σ}

theorem of_eq (h : w.Single root past) (hlisteners : w'.scene.listeners = w.scene.listeners)
    (hviewModels : w'.scene.viewModels = w.scene.viewModels) : w'.Single root past where
  viewModel := hviewModels ▸ h.viewModel
  left hclosed := by
    rw [Scene.isOpen, hviewModels] at hclosed
    obtain ⟨v, s, after, hlast, hroot, hcleared⟩ := h.left hclosed
    exact ⟨v, s, after, hlast, hroot, hcleared.of_eq hlisteners⟩

/-- The past goes on while nothing changes. -/
theorem snoc (h : w.Single root past) {moment : Moment σ}
    (hmoment : w.scene.isOpen 0 = false → moment.Closed 0) : w.Single root (past ++ [moment]) where
  viewModel := h.viewModel
  left hclosed := by
    obtain ⟨v, s, after, hlast, hroot, hcleared⟩ := h.left hclosed
    exact ⟨v, s, _, hlast.snoc (hmoment hclosed), hroot, hcleared.snoc moment⟩

theorem unlistened {held : List SubscriberId} {n : NodeId} {next : Action σ}
    (h : w.Single root (past ++ [.step held (.unlisten n next) w.scene])) :
    World.Single root (past ++ [.step held (.unlisten n next) w.scene])
      { w with scene := w.scene.clearListeners n } where
  viewModel := h.viewModel
  left hclosed := by
    obtain ⟨v, s, after, hlast, hroot, hcleared⟩ := h.left hclosed
    exact ⟨v, s, after, hlast, hroot, List.filter_sublist.trans hcleared.sublist,
      fun hspares ↦ (hspares _ (hlast.mem_after hclosed)).elim⟩

theorem retained (h : w.Single root past) (vm : ViewModelId) :
    (w.withEdited vm fun v ↦ { v with handles := v.handles + 1 }).Single root past := by
  obtain ⟨v, hv, hroot⟩ := h.viewModel
  have hsingle := World.viewModels_withEdited hv vm fun v ↦ { v with handles := v.handles + 1 }
  by_cases hvm : vm = 0
  · rw [if_pos hvm] at hsingle
    refine ⟨⟨_, hsingle, hroot⟩, fun hclosed ↦ ?_⟩
    rw [Scene.isOpen_of_single hsingle] at hclosed
    exact absurd hclosed (by simp)
  · rw [if_neg hvm, ← hv] at hsingle
    exact h.of_eq rfl hsingle

/-- **A handle is given back**; if it is the last one, this is the scene in which it is. -/
theorem released {held : List SubscriberId} {a : Action σ}
    (h : w.Single root (past ++ [.step held a w.scene])) (vm : ViewModelId) :
    (w.released vm).Single root (past ++ [.step held a w.scene]) := by
  obtain ⟨v, hv, hroot⟩ := h.viewModel
  rw [World.released]
  by_cases hvm : vm = 0
  · subst hvm
    have hfirst : w.scene.viewModels[0]? = some v := by rw [hv]; rfl
    have hsingle := World.viewModels_withEdited hv 0 fun v ↦ { v with handles := v.handles - 1 }
    rw [if_pos rfl] at hsingle
    simp only [hfirst]
    split
    · rename_i hone
      refine ⟨⟨_, hsingle, hroot⟩, fun _ ↦ ⟨v, w.scene, [], ⟨⟨past, held, a, rfl⟩, hfirst, hone,
        List.forall_mem_nil _⟩, hroot, ?_⟩⟩
      subst hroot
      exact ⟨List.Sublist.refl _, fun _ ↦ rfl⟩
    · rename_i hne
      refine ⟨⟨_, hsingle, hroot⟩, fun hclosed ↦ ?_⟩
      have hbefore : w.scene.isOpen 0 = false := by
        rw [Scene.isOpen_of_single hsingle, decide_eq_false_iff_not] at hclosed
        rw [Scene.isOpen_of_single hv, decide_eq_false_iff_not]
        simp only at hclosed
        omega
      obtain ⟨u, s, after, hlast, hroot', hcleared⟩ := h.left hbefore
      exact ⟨u, s, after, hlast, hroot', hcleared.of_eq rfl⟩
  · have hnone : w.scene.viewModels[vm]? = none := by
      rw [hv]
      exact Array.getElem?_eq_none (Nat.pos_of_ne_zero hvm)
    rw [hnone]
    exact h

end World.Single

/-- **What the last handle leaves behind.**  If there was one view-model at first, and it was held,
then whenever nobody holds it the past tells how its last handle was given back, and its listeners
are gone. -/
theorem World.History.single {w₁ w : World σ} {past : List (Moment σ)} (h : w₁.History past w)
    {v₁ : ViewModel} (hv : w₁.scene.viewModels = #[v₁]) (hheld : 0 < v₁.handles) :
    w.Single v₁.root past := by
  induction h with
  | start =>
    refine ⟨⟨v₁, hv, rfl⟩, fun hclosed ↦ ?_⟩
    rw [Scene.isOpen_of_single hv] at hclosed
    exact absurd hheld (of_decide_eq_false hclosed)
  | step held a h ih => exact ih.snoc fun hclosed ↦ hclosed
  | called id h ih => exact ih.snoc fun _ ↦ trivial
  | changed h _ hlisteners hviewModels ih => exact ih.of_eq hlisteners hviewModels
  | unlistened n next h ih => exact ih.unlistened
  | retained vm h ih => exact ih.retained vm
  | released vm h ih => exact ih.released vm

end DataBinding

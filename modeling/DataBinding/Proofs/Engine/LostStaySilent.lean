import DataBinding.Proofs.Engine.LostSubscribers
import DataBinding.Proofs.Template.SuccessfulCompilations

/-!
# Running code does not call who is gone

Each function of the engine has a silent trace, given that the code it calls has one.  A fan-out
calls those whose turn is not over, and they are held; an update of live subscribers is of nobody
who is gone (`Notification.hushes_updateAll`, `Notification.hushes_set`).  All other functions call
no subscribers themselves.  So **code has a silent trace, however deeply it is nested**
(`hushes_run`).
-/

set_option autoImplicit false

namespace DataBinding

variable {σ : Type}

/-! ## The engine -/

section Frames

variable {id : SubscriberId} {held : List SubscriberId}

theorem gone_of_onStore {α : Type} {f : Store → α × Store} (hf : Store.Spares (· = id) f)
    (w : World σ) (a : α) (w' : World σ) (hrun : Run.onStore f w = some (a, w'))
    (hw : w.Gone id held) :
    w'.Gone id held := by
  cases hrun
  exact hw.spared hf

/-- New subscribers have new numbers. -/
theorem World.Gone.enrolled {w : World σ} (h : w.Gone id held) (s : Subscriber)
    (reaction : Value → Action σ) : (w.enrolled s reaction).Gone id held where
  not_held := h.not_held
  lt_size := by
    show id < w.scene.store.newSubscriber.2.handles.size
    rw [Store.newSubscriber, Array.size_push]
    exact Nat.lt_succ_of_lt h.lt_size
  dead := by
    show w.scene.store.newSubscriber.2.isLive id = false
    rw [Bool.eq_false_iff, Ne, Store.isLive_newSubscriber, not_or]
    exact ⟨ne_true_of_eq_false h.dead, Nat.ne_of_lt h.lt_size⟩

end Frames

namespace Notification

open Run Trace

variable {call : Call σ} {tell : Tell σ} {id : SubscriberId} {held : List SubscriberId}
  (hcall : ∀ held a, Hushes id (World.Gone id held) (call a) (tell held a) (World.Gone id held))

include hcall

/-- Who is called is held. -/
theorem hushes_react {k : SubscriberId} (hk : k ∈ held) (v : Value) :
    Hushes id (World.Gone id held) (react call k v) (ofReact tell held k v)
      (World.Gone id held) := by
  refine ⟨fun gone w hw ↦ ?_⟩
  rw [ofReact]
  cases hreaction : w.code.reactions[k]? with
  | none =>
    refine ⟨trivial, fun r w' hrun hgone ↦ ?_⟩
    rcases react_eq_some hrun with ⟨-, -, rfl⟩ | ⟨reaction, result, hsome, -⟩
    · exact hw hgone
    · cases hreaction.symm.trans hsome
  | some reaction =>
    obtain ⟨hsilent, hlater⟩ := (hcall held (reaction v)).hushed gone w hw
    refine ⟨⟨fun hgone heq ↦ (hw hgone).not_held (heq ▸ hk), hsilent⟩, fun r w' hrun hgone ↦ ?_⟩
    rcases react_eq_some hrun with ⟨hnone, -, -⟩ | ⟨reaction', result, hsome, hcalled, -⟩
    · cases hreaction.symm.trans hnone
    · cases hreaction.symm.trans hsome
      exact hlater result w' hcalled hgone

theorem hushes_update {k : SubscriberId} (hk : k ∈ held) :
    Hushes id (World.Gone id held) (update call k) (ofUpdate tell held k) (World.Gone id held) := by
  refine ⟨fun gone w hw ↦ ?_⟩
  rw [update, Run.scene_bind, ofUpdate]
  cases w.scene.subscribers[k]? with
  | none => exact (Hushes.pure _).hushed gone w hw
  | some subscriber =>
    cases subscriber with
    | probe => exact (hushes_react hcall hk .null).hushed gone w hw
    | watcher x =>
      refine (Hushes.quiet_bind (gone_of_onStore (.evaluate k x.expr x.root)) fun r ↦ ?_).hushed
        gone w hw
      cases r with
      | error e => exact .pure _
      | ok v =>
        show Hushes id _ (if x.observed.identical v then _ else _)
          (if x.observed.identical v then nothing else ofReact tell held k v) _
        split
        · exact .pure _
        · refine .bind_quiet (hushes_react hcall hk v) fun r w a w' hrun hw ↦ ?_
          cases r with
          | error e =>
            cases hrun
            exact hw
          | ok u =>
            cases hrun
            exact hw.of_handles rfl

/-- **A fan-out** does not call who is gone: those who wait for their turn are held. -/
theorem hushes_updateAll (ids : List SubscriberId) :
    Hushes id (World.Gone id (ids ++ held)) (updateAll call ids) (ofUpdateAll call tell held ids)
      (World.Gone id held) := by
  induction ids with
  | nil => exact .pure _
  | cons k rest ih =>
    have hreleased : ∀ (w : World σ) a w', editStore (Store.release · k) w = some (a, w') →
        w.Gone id (k :: rest ++ held) → w'.Gone id (rest ++ held) := fun w a w' hrun hw ↦
      (gone_of_onStore (.release k) w a w' hrun hw).mono (List.subset_cons_self k _)
    have hwaiting : k ∈ k :: rest ++ held := List.mem_cons_self
    exact (hushes_update hcall hwaiting).bind fun _ ↦
      .quiet_bind hreleased fun _ ↦ .bind_quiet ih fun _ _ _ _ hrun hw ↦ by
        cases hrun
        exact hw

theorem hushes_notify (ids : List SubscriberId) :
    Hushes id (fun w ↦ id ∉ ids ∧ w.Gone id held) (notify call ids) (ofNotify call tell held ids)
      (World.Gone id held) := by
  refine .quiet_bind (Q := World.Gone id (ids ++ held)) (fun w a w' hrun hw ↦ ?_) fun _ ↦
    hushes_updateAll hcall ids
  have hids : ∀ k ∈ ids, ¬k = id := fun k hk heq ↦ hw.1 (heq ▸ hk)
  exact gone_of_onStore (.retainAll hids) w a w' hrun (hw.2.append hw.1)

theorem hushes_set (o : ObjectId) (key : String) (v : Value) :
    Hushes id (World.Gone id held) (set call o key v) (ofSet call tell held o key v)
      (World.Gone id held) := by
  refine .quiet_bind (gone_of_onStore (.write o key v)) fun x ↦ ?_
  cases x with
  | defined | unchanged => exact .pure _
  | replaced =>
    -- The audience is alive, so who is gone is not in it.
    refine ⟨fun gone w hw ↦ (hushes_notify hcall (w.scene.store.liveSubscribers o key)).hushed
      gone (w.withStore (w.scene.store.prune o key)) fun hgone ↦ ⟨fun hmem ↦ ?_, ?_⟩⟩
    · exact absurd (Store.isLive_of_mem_liveSubscribers hmem) (Bool.eq_false_iff.1 (hw hgone).dead)
    · exact (hw hgone).of_handles rfl

theorem hushes_setPath (path : String) (root v : Value) :
    Hushes id (World.Gone id held) (setPath call path root v) (ofSetPath call tell held path root v)
      (World.Gone id held) := by
  refine .quiet_bind (gone_of_onStore (.target path root)) fun x ↦ ?_
  cases x with
  | error e => exact .pure _
  | ok place => exact hushes_set hcall ..

end Notification

section Events

open Run Trace

variable {call : Call σ} {tell : Tell σ} {id : SubscriberId} {held : List SubscriberId}
  (hcall : ∀ held a, Hushes id (World.Gone id held) (call a) (tell held a) (World.Gone id held))

theorem gone_of_retain (vm : ViewModelId) (w : World σ) (a : Unit) (w' : World σ)
    (hrun : Lifetime.retain vm w = some (a, w')) (hw : w.Gone id held) : w'.Gone id held := by
  cases hrun
  exact hw.of_handles rfl

theorem gone_of_release (vm : ViewModelId) (w : World σ) (a : Unit) (w' : World σ)
    (hrun : Lifetime.release vm w = some (a, w')) (hw : w.Gone id held) : w'.Gone id held := by
  rw [Lifetime.release_eq] at hrun
  cases hrun
  rw [World.released]
  split
  · exact hw
  · split
    · exact (hw.spared (.releaseAll _)).of_handles rfl
    · exact hw.of_handles rfl

include hcall

theorem Dispatch.hushes_callAll (event : Event) (handlers : List Nat) :
    Hushes id (World.Gone id held) (callAll call event handlers)
      (ofCallAll call tell held event handlers) (World.Gone id held) := by
  induction handlers with
  | nil => exact .pure _
  | cons handler rest ih =>
    have hone : Hushes id (World.Gone id held) (callOne call event handler)
        (ofCall tell held event handler) (World.Gone id held) := by
      refine ⟨fun gone w hw ↦ ?_⟩
      rw [callOne, Run.get_bind, ofCall]
      cases w.code.handlers[handler]? with
      | none => exact (Hushes.pure _).hushed gone w hw
      | some code => exact (hcall held (code event)).hushed gone w hw
    rw [callAll]
    exact hone.bind fun _ ↦ .bind_quiet ih fun _ _ _ _ hrun hw ↦ by
      cases hrun
      exact hw

theorem Dispatch.hushes_fire (n : NodeId) (event : String) (v : Value) :
    Hushes id (World.Gone id held) (fire call n event v) (ofFire call tell held n event v)
      (World.Gone id held) :=
  ⟨fun gone w hw ↦
    (hushes_callAll hcall ⟨n, event, v⟩ (w.scene.handlersFor n event)).hushed gone w hw⟩

theorem Lifetime.hushes_invoke (vm : ViewModelId) (method : String) (event : Event) :
    Hushes id (World.Gone id held) (invoke call vm method event)
      (ofInvoke tell held vm method event) (World.Gone id held) := by
  refine ⟨fun gone w hw ↦ ?_⟩
  rw [invoke, Run.get_bind, ofInvoke]
  cases w.scene.viewModels[vm]? with
  | none => exact (Hushes.pure _).hushed gone w hw
  | some v =>
    cases w.code.methods[vm]? with
    | none => exact (Hushes.pure _).hushed gone w hw
    | some methods =>
      by_cases hclosed : v.handles = 0
      · simp only [hclosed, if_true]
        exact (Hushes.pure _).hushed gone w hw
      · simp only [hclosed, if_false]
        cases v.methods.contains method with
        | false => exact (Hushes.pure _).hushed gone w hw
        | true =>
          have hcalled : Hushes id (World.Gone id held) (retain vm >>= fun _ ↦
              call (methods method vm event) >>= fun result ↦ release vm >>= fun _ ↦ pure result)
              (following (retain vm) fun _ ↦ tell held (methods method vm event))
              (World.Gone id held) :=
            .quiet_bind (gone_of_retain vm) fun _ ↦ .bind_quiet (hcall held _)
              fun result w a w' hrun hw ↦ by
                obtain ⟨_, w₁, hrelease, hrun⟩ := Run.bind_eq_some_iff.1 hrun
                cases hrun
                exact gone_of_release vm w _ _ hrelease hw
          exact hcalled.hushed gone w hw

end Events

/-! ## Compiling -/

namespace Compilation

open Trace

/-- If the subscriber is gone before a step of a compilation, the trace of the step is silent, and
the subscriber stays gone. -/
structure Hushes {α : Type} (id : SubscriberId) (held : List SubscriberId) (m : Compilation σ α)
    (t : Progress → World σ → List (Moment σ)) : Prop where
  run : ∀ p, Run.Hushes id (World.Gone id held) (m.run.run p) (t p) (World.Gone id held)

variable {id : SubscriberId} {held : List SubscriberId}

namespace Hushes

variable {α β : Type} {m : Compilation σ α} {t : Progress → World σ → List (Moment σ)}

/-- A step in which no code is run. -/
theorem quiet (h : Keeps (fun _ ↦ World.Gone id held) m) : Hushes id held m fun _ ↦ nothing :=
  ⟨fun _ ↦ .quiet fun _ _ _ hrun hw ↦ h.kept hrun hw⟩

theorem bind {f : α → Compilation σ β} {u : α → Progress → World σ → List (Moment σ)}
    (hm : Hushes id held m t) (hf : ∀ a, Hushes id held (f a) (u a)) :
    Hushes id held (m >>= f) fun p w ↦ t p w ++ carryingOn m u p w := by
  refine ⟨fun p ↦ ?_⟩
  rw [run_bind]
  refine (hm.run p).bind fun x ↦ ?_
  obtain ⟨r, p'⟩ := x
  cases r with
  | error e => exact .pure _
  | ok a => exact (hf a).run p'

/-- No code is run at first. -/
theorem quiet_bind {f : α → Compilation σ β} {u : α → Progress → World σ → List (Moment σ)}
    (hm : Keeps (fun _ ↦ World.Gone id held) m) (hf : ∀ a, Hushes id held (f a) (u a)) :
    Hushes id held (m >>= f) (carryingOn m u) :=
  (quiet hm).bind hf

/-- No code is run afterwards. -/
theorem bind_quiet {f : α → Compilation σ β} (hm : Hushes id held m t)
    (hf : ∀ a, Keeps (fun _ ↦ World.Gone id held) (f a)) : Hushes id held (m >>= f) t := by
  refine ⟨fun p ↦ ?_⟩
  rw [run_bind]
  refine (hm.run p).bind_quiet fun x w b w' hrun hw ↦ ?_
  obtain ⟨r, p'⟩ := x
  cases r with
  | error e =>
    cases hrun
    exact hw
  | ok a => exact (hf a).kept hrun hw

end Hushes

section Steps

variable {call : Call σ} {tell : Tell σ} {job : CompileJob σ} {methods : String → Event → Action σ}
  {n : NodeId}

theorem keeps_gone_onStore {α : Type} {f : Store → α × Store} (hf : Store.Spares (· = id) f) :
    Run.Keeps (World.Gone id held) (Run.onStore f : Run σ α) :=
  ⟨gone_of_onStore hf⟩

theorem keeps_gone_onDocument {α : Type} (f : Document → α × Document) :
    Run.Keeps (World.Gone id held) (Run.onDocument f : Run σ α) :=
  .change fun _ hw ↦ hw.of_handles rfl

theorem keeps_gone_watch (expr : String) (root : Value) (reaction : Value → Action σ) :
    Run.Keeps (World.Gone id held) (Notification.watch expr root reaction) := by
  refine ⟨fun w x w' hrun hw ↦ ?_⟩
  have hevaluated : ((w.enrolled (.watcher ⟨Text.trim expr, root, .null⟩) reaction).evaluated
      w.scene.store.handles.size ⟨Text.trim expr, root, .null⟩).Gone id held :=
    (hw.enrolled _ reaction).of_handles (World.handles_evaluated ..)
  cases Notification.watch_outcome hrun with
  | unresolved _ =>
    exact hevaluated.spared (f := fun s ↦ ((), s.release w.scene.store.handles.size)) (.release _)
  | observed _ => exact hevaluated.of_handles (congrArg Store.handles (World.store_noting ..))

/-- Only a binding that calls a method runs code. -/
theorem hushes_bind (hcall : ∀ held a,
      Run.Hushes id (World.Gone id held) (call a) (tell held a) (World.Gone id held))
    (binding : Binding) :
    Hushes id held (bind call job methods n binding)
      fun _ ↦ ofBind tell held methods n binding := by
  have hpresent : ∀ slot text, Keeps (fun _ ↦ World.Gone id held) (present job n slot text) :=
    fun _ _ ↦ .lift fun _ ↦ .bind (.change fun _ hw ↦ hw.of_handles rfl) fun _ ↦
      keeps_gone_onDocument _
  have hlisten : ∀ event handler, Keeps (fun _ ↦ World.Gone id held) (listen job n event handler) :=
    fun _ _ ↦ .lift fun _ ↦ .change fun _ hw ↦ hw.of_handles rfl
  have hwatch : ∀ expr reaction, Keeps (fun _ ↦ World.Gone id held) (watch job expr reaction) :=
    fun _ _ ↦ .bind (.attemptState fun _ ↦ keeps_gone_watch ..) fun _ ↦ .hold fun _ _ h ↦ h
  cases binding with
  | fixed slot text => exact .quiet (hpresent slot text)
  | live slot expr =>
    exact .quiet (.bind (.attemptState fun _ ↦ keeps_gone_onStore (.getValue ..)) fun _ ↦
      .bind (.lift fun _ ↦ .look) fun _ ↦ .bind (hpresent ..) fun _ ↦ hwatch ..)
  | template text =>
    exact .quiet (.bind (.attemptState fun _ ↦ keeps_gone_onStore (.render ..)) fun _ ↦
      .bind (hpresent ..) fun _ ↦ (Keeps.compositional fun _ _ _ h ↦ h).forM fun _ _ ↦ hwatch ..)
  | writeBack expr => exact .quiet (hlisten ..)
  | listen event method => exact .quiet (hlisten ..)
  | call method event value =>
    refine ⟨fun p ↦ ?_⟩
    show Run.Hushes id _ ((attempt (call (methods method ⟨n, event, .string value⟩))).run.run p) _ _
    rw [run_attempt]
    exact (hcall held _).bind_quiet fun _ _ _ _ hrun hw ↦ by
      cases hrun
      exact hw
  | refuse e => exact .quiet (.refuse e)

theorem keeps_gone_count (f : CompileStats → CompileStats) :
    Keeps (fun _ ↦ World.Gone id held) (count f : Compilation σ Unit) :=
  .count fun _ _ h ↦ h

/-- A marker is counted and taken away. -/
theorem keeps_gone_strip {α : Type} (f : CompileStats → CompileStats) (name : String) (a : α) :
    Keeps (fun _ ↦ World.Gone id held) (do
      count f
      lift (Run.editDocument fun d ↦ d.removeAttribute n name)
      return a : Compilation σ α) :=
  .bind (keeps_gone_count f) fun _ ↦ .bind (.lift fun _ ↦ keeps_gone_onDocument _) fun _ ↦ .pure a

variable (hcall : ∀ held a,
  Run.Hushes id (World.Gone id held) (call a) (tell held a) (World.Gone id held))

include hcall

theorem hushes_forM (bindings : List Binding) :
    Hushes id held (bindings.forM (bind call job methods n))
      (ofBindings call tell held job methods n bindings) := by
  induction bindings with
  | nil => exact .quiet (.pure ())
  | cons binding rest ih => exact (hushes_bind hcall binding).bind fun _ ↦ ih

theorem hushes_direct (unknown kind : String) (directive : Directive) :
    Hushes id held (direct call job methods n unknown kind directive)
      (ofDirect call tell held job methods n kind directive) := by
  refine ⟨fun p ↦ ?_⟩
  rw [direct, ofDirect]
  cases job.table.lookup kind with
  | none => exact (Hushes.quiet (.refuse _)).run p
  | some handler => exact (hushes_forM hcall (handler directive)).run p

theorem hushes_visitAttribute (name value : String) :
    Hushes id held (visitAttribute call job methods n name value)
      (ofVisitAttribute call tell held job methods n name value) := by
  refine ⟨fun p ↦ ?_⟩
  rw [visitAttribute, ofVisitAttribute]
  cases job.dialect.classify name with
  | none => exact (Hushes.quiet (.pure _)).run p
  | some marker =>
    cases marker with
    | directive kind detail =>
      exact ((hushes_direct hcall ..).bind_quiet fun _ ↦ keeps_gone_strip ..).run p
    | event event => exact ((hushes_direct hcall ..).bind_quiet fun _ ↦ keeps_gone_strip ..).run p

theorem hushes_visitAttributes (attributes : List (String × String)) :
    Hushes id held (visitAttributes call job methods n attributes)
      (ofVisitAttributes call tell held job methods n attributes) := by
  induction attributes with
  | nil => exact .quiet (.pure _)
  | cons a rest ih =>
    exact (hushes_visitAttribute hcall a.1 a.2).bind fun _ ↦ .bind_quiet ih fun _ ↦ .pure _

theorem hushes_visitNode :
    Hushes id held (visitNode call job methods n) (ofVisitNode call tell held job methods n) := by
  refine ⟨fun p ↦ ⟨fun gone w hw ↦ ?_⟩⟩
  show Silent id gone (ofVisitNode call tell held job methods n p w) ∧
    ∀ a w', (visitContent call job methods n (w.scene.document.content? n)).run.run p w =
      some (a, w') → _
  rw [ofVisitNode]
  cases w.scene.document.content? n with
  | none => exact ((Hushes.quiet (.pure _)).run p).hushed gone w hw
  | some c =>
    cases c with
    | element e =>
      have hvisit : Hushes id held (visitContent call job methods n (some (.element e)))
          (carryingOn (count fun s ↦ { s with elements := s.elements + 1 }) fun _ ↦
            ofVisitAttributes call tell held job methods n e.attributes) :=
        .quiet_bind (keeps_gone_count _) fun _ ↦ hushes_visitAttributes hcall e.attributes
      exact (hvisit.run p).hushed gone w hw
    | text text =>
      by_cases hexpr : Template.hasExpression text = true
      · have hvisit : Hushes id held (visitContent call job methods n (some (.text text)))
            (carryingOn (count fun s ↦ { s with texts := s.texts + 1 }) fun _ ↦
              ofDirect call tell held job methods n "text" ⟨text, none⟩) := by
          rw [visitContent, if_pos hexpr]
          exact .quiet_bind (keeps_gone_count _) fun _ ↦
            .bind_quiet (hushes_direct hcall ..) fun _ ↦
            .pure _
        simp only [hexpr, if_true]
        exact (hvisit.run p).hushed gone w hw
      · simp only [visitContent, hexpr]
        exact ((Hushes.quiet (.pure _)).run p).hushed gone w hw
    | _ => exact ((Hushes.quiet (.pure _)).run p).hushed gone w hw

theorem hushes_visit (fuel : Nat) (pending : List NodeId) :
    Hushes id held (visit call job methods fuel pending)
      (ofVisit call tell held job methods fuel pending) := by
  induction fuel generalizing pending with
  | zero =>
    cases pending with
    | nil => exact .quiet (.pure ())
    | cons m pending => exact .quiet (.lift fun _ ↦ .tooDeep)
  | succ fuel ih =>
    cases pending with
    | nil => exact .quiet (.pure ())
    | cons m pending =>
      rw [visit]
      refine (hushes_visitNode hcall).bind fun owned ↦ ?_
      cases owned with
      | true => exact ih pending
      | false => exact ⟨fun p ↦ ⟨fun gone w hw ↦ ((ih _).run p).hushed gone w hw⟩⟩

theorem hushes_compile (limit : Nat) :
    Run.Hushes id (World.Gone id held) (compile call limit job methods)
      (ofCompile call tell held job methods limit) (World.Gone id held) := by
  refine .quiet_bind (keeps_gone_onDocument _).kept fun staged ↦ ?_
  refine ((hushes_visit hcall limit [staged]).run .start).bind_quiet fun x w b w' hrun hw ↦ ?_
  obtain ⟨r, p⟩ := x
  cases r with
  | ok u =>
    cases hrun
    exact hw.of_handles rfl
  | error e =>
    cases hrun
    exact (hw.spared (.releaseAll p.scope)).of_handles rfl

end Steps

end Compilation

/-! ## Code -/

section Code

open Run Trace

variable {call : Call σ} {tell : Tell σ} {id : SubscriberId} {held : List SubscriberId}
  (hcall : ∀ held a, Hushes id (World.Gone id held) (call a) (tell held a) (World.Gone id held))

include hcall

theorem Lifetime.hushes_openViewModel (limit : Nat) (options : ViewModelOptions)
    (methods : String → ViewModelId → Event → Action σ) :
    Hushes id (World.Gone id held) (openViewModel call limit options methods)
      (ofOpen call tell held limit options methods) (World.Gone id held) := by
  refine ⟨fun gone w hw ↦ ?_⟩
  have hmade : ∀ data root state, gone → (w.withViewModel options methods root state
      (Store.observe data w.scene.store).2).Gone id held := fun data root state hgone ↦
    ((hw hgone).spared (.observe data)).of_handles rfl
  have hcompiled : ∀ {data root state},
      stateOf options.state = .ok data → locate w.scene.document options.attach = .ok (some root) →
      (Store.observe data w.scene.store).1 = .object state →
      ofOpen call tell held limit options methods w =
        ofCompile call tell held (job options root (.object state))
          (listenersOf w.scene.viewModels.size) limit (w.withViewModel options methods
            (some root) state (Store.observe data w.scene.store).2) := by
    intro data root state hstate hlocate hobserve
    have hobserved : Store.observe data w.scene.store =
        (.object state, (Store.observe data w.scene.store).2) := Prod.ext hobserve rfl
    simp only [ofOpen, hstate, hlocate]
    rw [hobserved]
  have hcompile : ∀ root state, Hushes id (World.Gone id held)
      (Compilation.compile call limit (job options root (.object state))
        (listenersOf w.scene.viewModels.size))
      (ofCompile call tell held (job options root (.object state))
        (listenersOf w.scene.viewModels.size) limit) (World.Gone id held) :=
    fun _ _ ↦ Compilation.hushes_compile hcall limit
  refine ⟨?_, fun x w' hrun hlater ↦ ?_⟩
  · rw [ofOpen]
    split
    · rename_i data root _ _
      split
      · rename_i state s hobserved
        refine ((hcompile root state).hushed gone _ fun hgone ↦ ?_).1
        have hmade := hmade data (some root) state hgone
        rwa [hobserved] at hmade
      · exact trivial
    · exact trivial
  · cases open_outcome hrun with
    | stateless hstate =>
      rw [ofOpen, hstate] at hlater
      exact hw hlater
    | astray hstate hlocate =>
      simp only [ofOpen, hstate, hlocate] at hlater
      exact (hw hlater).spared (.observe _)
    | @detached data state hstate hlocate hobserve =>
      simp only [ofOpen, hstate, hlocate] at hlater
      exact hmade _ _ _ hlater
    | @compiled data state root c w₁ hstate hlocate hobserve hran =>
      rw [hcompiled hstate hlocate hobserve] at hlater
      have hgone :=
        ((hcompile root state).hushed gone _ (hmade data (some root) state)).2 _ w₁ hran hlater
      exact hgone.of_handles rfl
    | @failed data state root e w₁ hstate hlocate hobserve hran =>
      rw [hcompiled hstate hlocate hobserve] at hlater
      have hgone :=
        ((hcompile root state).hushed gone _ (hmade data (some root) state)).2 _ w₁ hran hlater
      exact gone_of_release _ _ _ _ (release_eq _ w₁) hgone

/-- **Code does not call who is gone.** -/
theorem hushes_follow (limit : Nat) (a : Action σ) :
    Hushes id (fun w ↦ w.scene.Loses id held a) (follow call limit a)
      (ofAction call tell limit held a) (World.Gone id held) := by
  have spent : ∀ {id'}, id ∉ [id'] → ¬id' = id :=
    fun hne heq ↦ hne (heq ▸ List.mem_singleton_self _)
  induction a with
  | done r =>
    exact .step (.quiet fun w x w' hrun hw ↦ by
      cases hrun
      exact hw.1.gone rfl)
  | inspect next ih =>
    exact .step ⟨fun gone w hw ↦ (ih w.scene).hushed gone w fun hgone ↦
      ((hw hgone).1.gone rfl).loses _⟩
  | modify f next ih =>
    exact .acting_quietly rfl (fun _ w x w' hrun hw ↦ by
      cases hrun
      exact hw.of_handles rfl) fun _ ↦ ih
  | observe data next ih => exact .acting_quietly rfl (fun _ ↦ gone_of_onStore (.observe data)) ih
  | get o key next ih => exact .acting_quietly rfl (fun _ ↦ gone_of_onStore (.get o key)) ih
  | getPath path root next ih =>
    exact .acting_quietly rfl (fun _ ↦ gone_of_onStore (.getValue path root)) ih
  | render template root next ih =>
    exact .acting_quietly rfl (fun _ ↦ gone_of_onStore (.render template root)) ih
  | set o key v next ih => exact .acting rfl (.kept (Notification.hushes_set hcall o key v)) ih
  | setPath path root v next ih =>
    exact .acting rfl (.kept (Notification.hushes_setPath hcall path root v)) ih
  | watch expr root reaction next _ ih =>
    exact .acting_quietly rfl (fun _ ↦ (Compilation.keeps_gone_watch expr root reaction).kept) ih
  | probe reaction next _ ih =>
    exact .acting_quietly rfl (fun _ w x w' hrun hw ↦ by
      cases hrun
      exact hw.enrolled _ _) ih
  | retain id' next ih =>
    exact .acting_quietly rfl (fun hne ↦ gone_of_onStore (.retain (spent hne))) fun _ ↦ ih
  | release id' next ih =>
    refine .step (.quiet_bind (fun w x w' hrun hw ↦ ?_) fun _ ↦ ih)
    cases hrun
    exact hw.1.release
  | track id' next ih =>
    exact .acting_quietly rfl (fun hne ↦ gone_of_onStore (.track (spent hne))) fun _ ↦ ih
  | untrack next ih => exact .acting_quietly rfl (fun _ ↦ gone_of_onStore .untrack) fun _ ↦ ih
  | notify ids next ih => exact .acting rfl (Notification.hushes_notify hcall ids) ih
  | edit e next ih =>
    exact .acting_quietly rfl (fun _ ↦ (Compilation.keeps_gone_onDocument _).kept) fun _ ↦ ih
  | listen n event handler next _ ih =>
    exact .acting_quietly rfl (fun _ w x w' hrun hw ↦ by
      cases hrun
      exact hw.of_handles rfl) fun _ ↦ ih
  | unlisten root next ih =>
    exact .acting_quietly rfl (fun _ w x w' hrun hw ↦ by
      cases hrun
      exact hw.of_handles rfl) fun _ ↦ ih
  | dispatch n event v next ih =>
    exact .acting rfl (.kept (Dispatch.hushes_fire hcall n event v)) ih
  | compile job methods next _ ih =>
    exact .acting rfl (.kept (Compilation.hushes_compile hcall limit)) ih
  | openViewModel options methods next _ ih =>
    exact .acting rfl (.kept (Lifetime.hushes_openViewModel hcall limit options methods)) ih
  | retainViewModel vm next ih => exact .acting_quietly rfl (fun _ ↦ gone_of_retain vm) fun _ ↦ ih
  | releaseViewModel vm next ih => exact .acting_quietly rfl (fun _ ↦ gone_of_release vm) fun _ ↦ ih
  | invoke vm method event next ih =>
    exact .acting rfl (.kept (Lifetime.hushes_invoke hcall vm method event)) ih

end Code

theorem hushes_run (id : SubscriberId) (depth : Nat) (held : List SubscriberId) (a : Action σ) :
    Run.Hushes id (World.Gone id held) (run depth a) (trace depth held a) (World.Gone id held) := by
  induction depth generalizing held a with
  | zero => exact .quiet fun _ _ _ hrun _ ↦ nomatch hrun
  | succ depth ih => exact (hushes_follow ih depth a).imp fun w hw ↦ hw.loses a

end DataBinding

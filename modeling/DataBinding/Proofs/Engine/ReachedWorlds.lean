import DataBinding.Proofs.Engine.Soundness
import DataBinding.Proofs.Engine.Trace

/-!
# The worlds that come up in a run

While code runs, other code is called: by fan-outs, by events, by bindings.  `w₀.Arises w` says that
`w` is reached from `w₀` by the smallest steps of running code, and **every world that a run comes
to arises from the one in which it began**: the last one (`World.Arises.of_run`), and each one in
which some code, no matter how deeply it is nested, takes a step (`World.arises_of_mem_trace`).
-/

set_option autoImplicit false

namespace DataBinding

variable {σ : Type}

/-- A world that the smallest steps of running code lead to: it has whatever these steps keep. -/
def World.Arises (w₀ w : World σ) : Prop := ∀ P : World σ → Prop, World.Robust P → P w₀ → P w

namespace World.Arises

variable {w₀ w w' : World σ}

theorem refl (w : World σ) : w.Arises w := fun _ _ h ↦ h

/-- To arise from a world is itself kept by the smallest steps. -/
theorem robust (w₀ : World σ) : World.Robust fun w ↦ w₀.Arises w where
  store hsize h P hP hw₀ := hP.store hsize (h P hP hw₀)
  scene hstore hsubscribers hdocument hlisteners h P hP hw₀ :=
    hP.scene hstore hsubscribers hdocument hlisteners (h P hP hw₀)
  edited e h P hP hw₀ := hP.edited e (h P hP hw₀)
  enrolled s reaction h P hP hw₀ := hP.enrolled s reaction (h P hP hw₀)
  posted n event handler h P hP hw₀ := hP.posted n event handler (h P hP hw₀)
  supplied methods h P hP hw₀ := hP.supplied methods (h P hP hw₀)

/-- **What a run leads to arises.** -/
theorem of_run (h : w₀.Arises w) {depth : Nat} {a : Action σ} {r : Except BindError Unit}
    (hrun : run depth a w = some (r, w')) : w₀.Arises w' :=
  (run_keeps (robust w₀) depth a).kept w r w' hrun h

end World.Arises

/-! ## The moments of a run -/

/-- When code takes a step, the scene is that of a world with some property. -/
def Moment.At (P : World σ → Prop) : Moment σ → Prop
  | .step _ _ s => ∃ w, P w ∧ w.scene = s
  | .called _ => True

namespace Trace

open Run (Keeps)

/-- Every step of a trace is taken in a world with some property, if the trace begins in one. -/
structure Within (P : World σ → Prop) (tr : World σ → List (Moment σ)) : Prop where
  within : ∀ w, P w → ∀ moment ∈ tr w, moment.At P

variable {P : World σ → Prop}

namespace Within

theorem nothing : Within P nothing := ⟨fun _ _ _ h ↦ nomatch h⟩

theorem following {α : Type} {m : Run σ α} {next : α → World σ → List (Moment σ)} (hm : Keeps P m)
    (hnext : ∀ a, Within P (next a)) : Within P (Trace.following m next) := by
  refine ⟨fun w hw moment hmem ↦ ?_⟩
  rw [Trace.following] at hmem
  split at hmem
  · cases hmem
  · rename_i a w₁ hrun
    exact (hnext a).within w₁ (hm.kept w a w₁ hrun hw) moment hmem

theorem append {f g : World σ → List (Moment σ)} (hf : Within P f) (hg : Within P g) :
    Within P fun w ↦ f w ++ g w :=
  ⟨fun w hw moment hmem ↦ (List.mem_append.1 hmem).elim (hf.within w hw moment)
    (hg.within w hw moment)⟩

/-- Code takes a step, and then other things happen. -/
theorem step {held : List SubscriberId} {a : Action σ} {f : World σ → List (Moment σ)}
    (hf : Within P f) : Within P fun w ↦ .step held a w.scene :: f w :=
  ⟨fun w hw moment hmem ↦ (List.mem_cons.1 hmem).elim (fun h ↦ h ▸ ⟨w, hw, rfl⟩)
    (hf.within w hw moment)⟩

theorem carryingOn {α : Type} {m : Compilation σ α}
    {next : α → Progress → World σ → List (Moment σ)} (hm : Compilation.Keeps (fun _ ↦ P) m)
    (hnext : ∀ a p, Within P (next a p)) (p : Progress) :
    Within P (Trace.carryingOn m next p) := by
  refine following (hm.run p) fun x ↦ ?_
  obtain ⟨r, p'⟩ := x
  cases r with
  | error e => exact nothing
  | ok a => exact hnext a p'

end Within

section

variable {call : Call σ} {tell : Tell σ} (h : World.Robust P) (hcall : ∀ a, Keeps P (call a))
  (htell : ∀ held a, Within P (tell held a)) (held : List SubscriberId)

/-! ### Telling subscribers -/

include htell in
theorem within_ofReact (id : SubscriberId) (v : Value) : Within P (ofReact tell held id v) := by
  refine ⟨fun w hw moment hmem ↦ ?_⟩
  rw [ofReact] at hmem
  split at hmem
  · cases hmem
  · rcases List.mem_cons.1 hmem with rfl | hmem
    · trivial
    · exact (htell held _).within w hw moment hmem

include h htell in
theorem within_ofUpdate (id : SubscriberId) : Within P (ofUpdate tell held id) := by
  refine ⟨fun w hw moment hmem ↦ ?_⟩
  rw [ofUpdate] at hmem
  split at hmem
  · cases hmem
  · exact (within_ofReact htell held id .null).within w hw moment hmem
  · refine (Within.following (h.onStore (.evaluate ..)) fun r ↦ ?_).within w hw moment hmem
    cases r with
    | error e => exact .nothing
    | ok v =>
      simp only
      split
      · exact .nothing
      · exact within_ofReact htell held id v

include h hcall htell

theorem within_ofUpdateAll (ids : List SubscriberId) :
    Within P (ofUpdateAll call tell held ids) := by
  induction ids with
  | nil => exact .nothing
  | cons id ids ih =>
    exact .append (within_ofUpdate h htell _ id) (.following (Notification.keeps_update h hcall id)
      fun _ ↦ .following (h.onStore (.release id)) fun _ ↦ ih)

theorem within_ofNotify (ids : List SubscriberId) : Within P (ofNotify call tell held ids) :=
  .following (h.onStore (.retainAll ids)) fun _ ↦ within_ofUpdateAll h hcall htell held ids

theorem within_ofSet (o : ObjectId) (key : String) (v : Value) :
    Within P (ofSet call tell held o key v) := by
  refine .following (h.onStore (.write o key v)) fun r ↦ ?_
  cases r with
  | defined | unchanged => exact .nothing
  | replaced =>
    exact .following (h.onStore (.audience o key)) fun ids ↦ within_ofNotify h hcall htell held ids

theorem within_ofSetPath (path : String) (root v : Value) :
    Within P (ofSetPath call tell held path root v) := by
  refine .following (h.onStore (.target path root)) fun r ↦ ?_
  cases r with
  | error e => exact .nothing
  | ok target => exact within_ofSet h hcall htell held ..

/-! ### Events and methods -/

omit h hcall in
theorem within_ofCall (event : Event) (handler : Nat) :
    Within P (ofCall tell held event handler) := by
  refine ⟨fun w hw moment hmem ↦ ?_⟩
  rw [ofCall] at hmem
  split at hmem
  · cases hmem
  · exact (htell held _).within w hw moment hmem

omit h in
theorem within_ofCallAll (event : Event) (handlers : List Nat) :
    Within P (ofCallAll call tell held event handlers) := by
  induction handlers with
  | nil => exact .nothing
  | cons handler handlers ih =>
    exact .append (within_ofCall htell held event handler)
      (.following (Dispatch.keeps_callOne hcall event handler) fun _ ↦ ih)

omit h in
theorem within_ofFire (n : NodeId) (event : String) (v : Value) :
    Within P (ofFire call tell held n event v) :=
  ⟨fun w ↦ (within_ofCallAll hcall htell held _ _).within w⟩

omit hcall in
theorem within_ofInvoke (vm : ViewModelId) (method : String) (event : Event) :
    Within P (ofInvoke tell held vm method event) := by
  refine ⟨fun w hw moment hmem ↦ ?_⟩
  rw [ofInvoke] at hmem
  split at hmem
  · split at hmem
    · cases hmem
    · split at hmem
      · cases hmem
      · exact (Within.following (Lifetime.keeps_edit h vm _) fun _ ↦ htell held _).within w hw
          moment hmem
  · cases hmem

/-! ### Compiling -/

section

variable (job : CompileJob σ) (methods : String → Event → Action σ) (n : NodeId)

theorem within_ofBindings (bindings : List Binding) (p : Progress) :
    Within P (ofBindings call tell held job methods n bindings p) := by
  induction bindings generalizing p with
  | nil => exact .nothing
  | cons binding bindings ih =>
    refine .append ?_ (.carryingOn (Compilation.keeps_bind h hcall n binding) (fun _ ↦ ih) p)
    cases binding with
    | call method event value => exact htell held _
    | _ => exact .nothing

theorem within_ofDirect (kind : String) (directive : Directive) (p : Progress) :
    Within P (ofDirect call tell held job methods n kind directive p) := by
  rw [ofDirect]
  split
  · exact .nothing
  · exact within_ofBindings h hcall htell held job methods n _ p

theorem within_ofVisitAttributes (attributes : List (String × String)) (p : Progress) :
    Within P (ofVisitAttributes call tell held job methods n attributes p) := by
  induction attributes generalizing p with
  | nil => exact .nothing
  | cons a attributes ih =>
    have hvisit :
        Compilation.Keeps (fun _ ↦ P) (Compilation.visitAttribute call job methods n a.1 a.2) :=
      (Compilation.Keeps.compositional fun _ _ _ hw ↦ hw).visitAttribute
        (fun _ _ binding _ ↦ Compilation.keeps_bind h hcall n binding)
        (fun name ↦ .lift fun _ ↦ h.edit (.removeAttribute n name)) a.1 a.2
    refine .append ?_ (.carryingOn hvisit (fun _ ↦ ih) p)
    rw [ofVisitAttribute]
    split
    · exact .nothing
    · exact within_ofDirect h hcall htell held job methods n _ _ p
    · exact within_ofDirect h hcall htell held job methods n _ _ p

theorem within_ofVisitNode (p : Progress) :
    Within P (ofVisitNode call tell held job methods n p) := by
  have hcount : ∀ f, Compilation.Keeps (fun _ ↦ P) (Compilation.count f : Compilation σ Unit) :=
    fun f ↦ .count fun _ _ hw ↦ hw
  refine ⟨fun w hw moment hmem ↦ ?_⟩
  rw [ofVisitNode] at hmem
  split at hmem
  · exact (Within.carryingOn (hcount _)
      (fun _ ↦ within_ofVisitAttributes h hcall htell held job methods n _) p).within
      w hw moment hmem
  · split at hmem
    · exact (Within.carryingOn (hcount _)
        (fun _ ↦ within_ofDirect h hcall htell held job methods n _ _) p).within w hw moment hmem
    · cases hmem
  · cases hmem

omit n

theorem within_ofVisit (fuel : Nat) (pending : List NodeId) (p : Progress) :
    Within P (ofVisit call tell held job methods fuel pending p) := by
  induction fuel generalizing pending p with
  | zero => cases pending <;> exact .nothing
  | succ fuel ih =>
    cases pending with
    | nil => exact .nothing
    | cons n pending =>
      have hvisit : Compilation.Keeps (fun _ ↦ P) (Compilation.visitNode call job methods n) :=
        (Compilation.Keeps.compositional fun _ _ _ hw ↦ hw).visitNode
          (fun _ _ binding _ ↦ Compilation.keeps_bind h hcall n binding)
          (fun name ↦ .lift fun _ ↦ h.edit (.removeAttribute n name))
      refine .append (within_ofVisitNode h hcall htell held job methods n p)
        (.carryingOn hvisit (fun owned p ↦ ?_) p)
      cases owned with
      | true => exact ih pending p
      | false => exact ⟨fun w ↦ (ih (w.scene.document.children n ++ pending) p).within w⟩

theorem within_ofCompile (limit : Nat) : Within P (ofCompile call tell held job methods limit) :=
  .following (.change fun _ hw ↦ h.edited (.stage job.root) hw) fun staged ↦
    within_ofVisit h hcall htell held job methods limit [staged] .start

end

/-! ### Code -/

theorem within_ofOpen (limit : Nat) (options : ViewModelOptions)
    (methods : String → ViewModelId → Event → Action σ) :
    Within P (ofOpen call tell held limit options methods) := by
  refine ⟨fun w hw moment hmem ↦ ?_⟩
  rw [ofOpen] at hmem
  split at hmem
  · split at hmem
    · rename_i data root _ _ _ state s hobserve
      have hsize := (Store.MakesNobody.observe data).size_eq w.scene.store
      rw [hobserve] at hsize
      have hopened := h.supplied methods (h.scene (s := { (w.withStore s).scene with
        viewModels := (w.withViewModel options methods (some root) state s).scene.viewModels })
        rfl rfl rfl (List.Sublist.refl _) (h.store hsize hw))
      exact (within_ofCompile h hcall htell held _ _ limit).within _ hopened moment hmem
    · cases hmem
  · cases hmem

/-- **The trace of an action.** -/
theorem within_ofAction (limit : Nat) (a : Action σ) :
    Within P (ofAction call tell limit held a) := by
  induction a with
  | done r => exact .step .nothing
  | inspect next ih => exact .step ⟨fun w ↦ (ih w.scene).within w⟩
  | modify f next ih => exact .step (.following (h.editData f) fun _ ↦ ih)
  | observe data next ih => exact .step (.following (h.onStore (.observe data)) ih)
  | get o key next ih => exact .step (.following (h.onStore (.get o key)) ih)
  | getPath path root next ih => exact .step (.following (h.onStore (.getValue path root)) ih)
  | render template root next ih => exact .step (.following (h.onStore (.render template root)) ih)
  | set o key v next ih =>
    exact .step (.append (within_ofSet h hcall htell held o key v)
      (.following (Notification.keeps_set h hcall o key v) ih))
  | setPath path root v next ih =>
    exact .step (.append (within_ofSetPath h hcall htell held path root v)
      (.following (Notification.keeps_setPath h hcall path root v) ih))
  | watch expr root reaction next _ ih =>
    exact .step (.following (Notification.keeps_watch h expr root reaction) ih)
  | probe reaction next _ ih => exact .step (.following (Notification.keeps_subscriber h ..) ih)
  | retain id next ih => exact .step (.following (h.onStore (.retain id)) fun _ ↦ ih)
  | release id next ih => exact .step (.following (h.onStore (.release id)) fun _ ↦ ih)
  | track id next ih => exact .step (.following (h.onStore (.track id)) fun _ ↦ ih)
  | untrack next ih => exact .step (.following (h.onStore .untrack) fun _ ↦ ih)
  | notify ids next ih =>
    exact .step (.append (within_ofNotify h hcall htell held ids)
      (.following (Notification.keeps_notify h hcall ids) ih))
  | edit e next ih => exact .step (.following (h.edit e) fun _ ↦ ih)
  | listen n event handler next _ ih =>
    exact .step (.following (Dispatch.keeps_listen h n event handler) fun _ ↦ ih)
  | unlisten root next ih => exact .step (.following (h.clearListeners root) fun _ ↦ ih)
  | dispatch n event v next ih =>
    exact .step (.append (within_ofFire hcall htell held n event v)
      (.following (Dispatch.keeps_fire hcall n event v) ih))
  | compile job methods next _ ih =>
    exact .step (.append (within_ofCompile h hcall htell held job methods limit)
      (.following (Compilation.keeps_compile h hcall limit job methods) ih))
  | openViewModel options methods next _ ih =>
    exact .step (.append (within_ofOpen h hcall htell held limit options methods)
      (.following (Lifetime.keeps_openViewModel h hcall limit options methods) ih))
  | retainViewModel vm next ih => exact .step (.following (Lifetime.keeps_edit h vm _) fun _ ↦ ih)
  | releaseViewModel vm next ih => exact .step (.following (Lifetime.keeps_release h vm) fun _ ↦ ih)
  | invoke vm method event next ih =>
    exact .step (.append (within_ofInvoke h htell held vm method event)
      (.following (Lifetime.keeps_invoke h hcall vm method event) ih))

end

end Trace

/-- **A robust property holds at every moment of a run.** -/
theorem trace_within {P : World σ → Prop} (h : World.Robust P) (depth : Nat)
    (held : List SubscriberId) (a : Action σ) : Trace.Within P (trace depth held a) := by
  induction depth generalizing held a with
  | zero => exact .nothing
  | succ depth ih => exact Trace.within_ofAction h (run_keeps h depth) ih held depth a

/-- **Whenever code takes a step in a run, the scene is that of a world that has arisen.** -/
theorem World.arises_of_mem_trace {w : World σ} {depth : Nat} {a b : Action σ}
    {held held' : List SubscriberId} {s : Scene σ} (h : .step held' b s ∈ trace depth held a w) :
    ∃ w', w.Arises w' ∧ w'.scene = s :=
  (trace_within (World.Arises.robust w) depth held a).within w (World.Arises.refl w) _ h

end DataBinding

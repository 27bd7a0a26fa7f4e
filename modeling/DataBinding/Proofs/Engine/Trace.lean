import DataBinding.Engine.Run
import DataBinding.Proofs.Lifetime.Opening

/-!
# The trace of a run

The *trace* of a run lists, in the order of events, the steps that code takes, each with the scene
before it, and the calls of subscribers.  It is computed beside the run, by functions that follow
the engine from one call of code to the next.  A step also says whom the running fan-outs hold:
those whose turn is not over.

The steps of all code are there, however deeply it is nested, and so are the calls made by a fan-out
between the turns of which code has run.  So "from then on" in a run means "in the rest of the
trace".
-/

set_option autoImplicit false

namespace DataBinding

variable {σ : Type}

/-- Something that happens in a run. -/
inductive Moment (σ : Type) where
  /-- Code does what the action says next, while fan-outs hold somebody. -/
  | step (held : List SubscriberId) (a : Action σ) (s : Scene σ)
  /-- The code of a subscriber is called. -/
  | called (id : SubscriberId)

/-- A way to tell the trace of code, given whom the running fan-outs hold. -/
abbrev Tell (σ : Type) : Type := List SubscriberId → Action σ → World σ → List (Moment σ)

namespace Trace

/-- The trace of what follows a computation. -/
def following {α : Type} (m : Run σ α) (next : α → World σ → List (Moment σ)) (w : World σ) :
    List (Moment σ) :=
  match m w with
  | none => []
  | some (a, w₁) => next a w₁

/-- Nothing happens. -/
def nothing (_ : World σ) : List (Moment σ) := []

/-! ## Telling subscribers -/

section

variable (call : Call σ) (tell : Tell σ) (held : List SubscriberId)

def ofReact (id : SubscriberId) (v : Value) (w : World σ) : List (Moment σ) :=
  match w.code.reactions[id]? with
  | none => []
  | some reaction => .called id :: tell held (reaction v) w

def ofUpdate (id : SubscriberId) (w : World σ) : List (Moment σ) :=
  match w.scene.subscribers[id]? with
  | none => []
  | some .probe => ofReact tell held id .null w
  | some (.watcher x) =>
    following (Run.onStore (Store.evaluate id x.expr x.root)) (fun
      | .error _ => nothing
      | .ok v => if x.observed.identical v then nothing else ofReact tell held id v) w

/-- Everybody whose turn is not over is held. -/
def ofUpdateAll : List SubscriberId → World σ → List (Moment σ)
  | [] => nothing
  | id :: rest => fun w ↦
    ofUpdate tell (id :: rest ++ held) id w ++
      following (Notification.update call id) (fun _ ↦
        following (Run.editStore fun s ↦ s.release id) fun _ ↦ ofUpdateAll rest) w

def ofNotify (ids : List SubscriberId) : World σ → List (Moment σ) :=
  following (Run.editStore fun s ↦ ids.foldl Store.retain s) fun _ ↦ ofUpdateAll call tell held ids

def ofSet (o : ObjectId) (key : String) (v : Value) : World σ → List (Moment σ) :=
  following (Run.onStore (Store.write · o key v)) fun
    | .defined | .unchanged => nothing
    | .replaced => following (Run.onStore (Notification.audience o key)) (ofNotify call tell held)

def ofSetPath (path : String) (root v : Value) : World σ → List (Moment σ) :=
  following (Run.onStore (Store.target path root)) fun
    | .error _ => nothing
    | .ok (o, key) => ofSet call tell held o key v

/-! ## Events and methods -/

def ofCall (event : Event) (handler : Nat) (w : World σ) : List (Moment σ) :=
  match w.code.handlers[handler]? with
  | none => []
  | some code => tell held (code event) w

def ofCallAll (event : Event) : List Nat → World σ → List (Moment σ)
  | [] => nothing
  | handler :: rest => fun w ↦
    ofCall tell held event handler w ++
      following (Dispatch.callOne call event handler) (fun _ ↦ ofCallAll event rest) w

def ofFire (node : NodeId) (event : String) (v : Value) (w : World σ) : List (Moment σ) :=
  ofCallAll call tell held ⟨node, event, v⟩ (w.scene.handlersFor node event) w

def ofInvoke (vm : ViewModelId) (method : String) (event : Event) (w : World σ) : List (Moment σ) :=
  match w.scene.viewModels[vm]?, w.code.methods[vm]? with
  | some v, some methods =>
    if v.handles = 0 then []
    else if !v.methods.contains method then []
    else following (Lifetime.retain vm) (fun _ ↦ tell held (methods method vm event)) w
  | _, _ => []

end

/-! ## Compiling -/

/-- The trace of what follows a step of a compilation, if it succeeds. -/
def carryingOn {α : Type} (m : Compilation σ α)
    (next : α → Progress → World σ → List (Moment σ)) (p : Progress) : World σ → List (Moment σ) :=
  following (m.run.run p) fun
    | (.ok a, p') => next a p'
    | (.error _, _) => nothing

section

variable (call : Call σ) (tell : Tell σ) (held : List SubscriberId) (job : CompileJob σ)
  (methods : String → Event → Action σ) (node : NodeId)

/-- Only a binding that calls a method runs code. -/
def ofBind : Binding → World σ → List (Moment σ)
  | .call method event value => tell held (methods method ⟨node, event, .string value⟩)
  | _ => nothing

def ofBindings : List Binding → Progress → World σ → List (Moment σ)
  | [], _ => nothing
  | binding :: rest, p => fun w ↦
    ofBind tell held methods node binding w ++
      carryingOn (Compilation.bind call job methods node binding) (fun _ ↦ ofBindings rest) p w

def ofDirect (kind : String) (directive : Directive) (p : Progress) : World σ → List (Moment σ) :=
  match job.table.lookup kind with
  | none => nothing
  | some handler => ofBindings call tell held job methods node (handler directive) p

def ofVisitAttribute (name value : String) (p : Progress) : World σ → List (Moment σ) :=
  match job.dialect.classify name with
  | none => nothing
  | some (.directive kind detail) => ofDirect call tell held job methods node kind ⟨value, detail⟩ p
  | some (.event event) =>
    ofDirect call tell held job methods node "on"
      ⟨value, if event.isEmpty then none else some event⟩ p

def ofVisitAttributes : List (String × String) → Progress → World σ → List (Moment σ)
  | [], _ => nothing
  | (name, value) :: rest, p => fun w ↦
    ofVisitAttribute call tell held job methods node name value p w ++
      carryingOn (Compilation.visitAttribute call job methods node name value)
        (fun _ ↦ ofVisitAttributes rest) p w

def ofVisitNode (p : Progress) (w : World σ) : List (Moment σ) :=
  match w.scene.document.content? node with
  | some (.element e) =>
    carryingOn (Compilation.count fun s ↦ { s with elements := s.elements + 1 })
      (fun _ ↦ ofVisitAttributes call tell held job methods node e.attributes) p w
  | some (.text text) =>
    if Template.hasExpression text then
      carryingOn (Compilation.count fun s ↦ { s with texts := s.texts + 1 })
        (fun _ ↦ ofDirect call tell held job methods node "text" ⟨text, none⟩) p w
    else []
  | _ => []

def ofVisit : Nat → List NodeId → Progress → World σ → List (Moment σ)
  | _, [], _ => nothing
  | 0, _ :: _, _ => nothing
  | fuel + 1, node :: pending, p => fun w ↦
    ofVisitNode call tell held job methods node p w ++
      carryingOn (Compilation.visitNode call job methods node) (fun
        | true => ofVisit fuel pending
        | false => fun p w ↦ ofVisit fuel (w.scene.document.children node ++ pending) p w) p w

def ofCompile (limit : Nat) : World σ → List (Moment σ) :=
  following (Run.onDocument fun d ↦ d.stage job.root) fun staged ↦
    ofVisit call tell held job methods limit [staged] .start

/-- A new view-model does nothing but compile its template. -/
def ofOpen (limit : Nat) (options : ViewModelOptions)
    (methods : String → ViewModelId → Event → Action σ) (w : World σ) : List (Moment σ) :=
  match Lifetime.stateOf options.state, Lifetime.locate w.scene.document options.attach with
  | .ok data, .ok (some root) =>
    match Store.observe data w.scene.store with
    | (.object state, s) =>
      ofCompile call tell held (Lifetime.job options root (.object state))
        (Lifetime.listenersOf w.scene.viewModels.size) limit
        (w.withViewModel options methods (some root) state s)
    | _ => []
  | _, _ => []

end

/-! ## Code -/

section

variable (call : Call σ) (tell : Tell σ) (limit : Nat) (held : List SubscriberId)

/-- The trace of an action. -/
def ofAction : Action σ → World σ → List (Moment σ)
  | .done result, w => [.step held (.done result) w.scene]
  | .inspect next, w => .step held (.inspect next) w.scene :: ofAction (next w.scene) w
  | .modify f next, w =>
    .step held (.modify f next) w.scene ::
      following (Run.editScene fun s ↦ { s with data := f s.data }) (fun _ ↦ ofAction next) w
  | .observe data next, w =>
    .step held (.observe data next) w.scene ::
      following (Run.onStore (Store.observe data)) (fun v ↦ ofAction (next v)) w
  | .get o key next, w =>
    .step held (.get o key next) w.scene ::
      following (Run.onStore (Store.get · o key)) (fun v ↦ ofAction (next v)) w
  | .getPath path root next, w =>
    .step held (.getPath path root next) w.scene ::
      following (Run.onStore (Store.getValue path root)) (fun r ↦ ofAction (next r)) w
  | .render template root next, w =>
    .step held (.render template root next) w.scene ::
      following (Run.onStore (Store.render template root)) (fun r ↦ ofAction (next r)) w
  | .set o key v next, w =>
    .step held (.set o key v next) w.scene :: (ofSet call tell held o key v w ++
      following (Notification.set call o key v) (fun r ↦ ofAction (next r)) w)
  | .setPath path root v next, w =>
    .step held (.setPath path root v next) w.scene :: (ofSetPath call tell held path root v w ++
      following (Notification.setPath call path root v) (fun r ↦ ofAction (next r)) w)
  | .watch expr root reaction next, w =>
    .step held (.watch expr root reaction next) w.scene ::
      following (Notification.watch expr root reaction) (fun r ↦ ofAction (next r)) w
  | .probe reaction next, w =>
    .step held (.probe reaction next) w.scene ::
      following (Notification.probe reaction) (fun id ↦ ofAction (next id)) w
  | .retain id next, w =>
    .step held (.retain id next) w.scene ::
      following (Run.editStore (Store.retain · id)) (fun _ ↦ ofAction next) w
  | .release id next, w =>
    .step held (.release id next) w.scene ::
      following (Run.editStore (Store.release · id)) (fun _ ↦ ofAction next) w
  | .track id next, w =>
    .step held (.track id next) w.scene ::
      following (Run.editStore (Store.track · id)) (fun _ ↦ ofAction next) w
  | .untrack next, w =>
    .step held (.untrack next) w.scene ::
      following (Run.editStore Store.untrack) (fun _ ↦ ofAction next) w
  | .notify ids next, w =>
    .step held (.notify ids next) w.scene :: (ofNotify call tell held ids w ++
      following (Notification.notify call ids) (fun r ↦ ofAction (next r)) w)
  | .edit e next, w =>
    .step held (.edit e next) w.scene ::
      following (Run.editDocument (Document.apply · e)) (fun _ ↦ ofAction next) w
  | .listen node event handler next, w =>
    .step held (.listen node event handler next) w.scene ::
      following (Dispatch.listen node event handler) (fun _ ↦ ofAction next) w
  | .unlisten root next, w =>
    .step held (.unlisten root next) w.scene ::
      following (Run.editScene (Scene.clearListeners · root)) (fun _ ↦ ofAction next) w
  | .dispatch node event v next, w =>
    .step held (.dispatch node event v next) w.scene :: (ofFire call tell held node event v w ++
      following (Dispatch.fire call node event v) (fun r ↦ ofAction (next r)) w)
  | .compile job methods next, w =>
    .step held (.compile job methods next) w.scene ::
      (ofCompile call tell held job methods limit w ++
          following (Compilation.compile call limit job methods) (fun r ↦ ofAction (next r)) w)
  | .openViewModel options methods next, w =>
    .step held (.openViewModel options methods next) w.scene ::
      (ofOpen call tell held limit options methods w ++
        following (Lifetime.openViewModel call limit options methods) (fun r ↦ ofAction (next r)) w)
  | .retainViewModel vm next, w =>
    .step held (.retainViewModel vm next) w.scene ::
      following (Lifetime.retain vm) (fun _ ↦ ofAction next) w
  | .releaseViewModel vm next, w =>
    .step held (.releaseViewModel vm next) w.scene ::
      following (Lifetime.release vm) (fun _ ↦ ofAction next) w
  | .invoke vm method event next, w =>
    .step held (.invoke vm method event next) w.scene :: (ofInvoke tell held vm method event w ++
      following (Lifetime.invoke call vm method event) (fun r ↦ ofAction (next r)) w)

end

end Trace

/-- The trace of code that is run to the given depth. -/
def trace : Nat → Tell σ
  | 0 => fun _ _ _ ↦ []
  | depth + 1 => Trace.ofAction (run depth) (trace depth) depth

/-! ## Fan-outs -/

namespace Trace

variable {call : Call σ} {tell : Tell σ} {held : List SubscriberId} {w : World σ}

theorem ofUpdateAll_cons {id : SubscriberId} {rest : List SubscriberId} {r : Except StateError Unit}
    {w₁ : World σ} (h : Notification.update call id w = some (r, w₁)) :
    ofUpdateAll call tell held (id :: rest) w = ofUpdate tell (id :: rest ++ held) id w ++
      ofUpdateAll call tell held rest (w₁.withStore (w₁.scene.store.release id)) := by
  show _ ++ following (Notification.update call id) _ w = _
  rw [following, h]
  rfl

theorem ofSet_eq_ofUpdateAll {o : ObjectId} {key : String} {v : Value} :
    ofSet call tell held o key v w =
      ofUpdateAll call tell held (w.told o key v) (w.written o key v) := by
  rw [World.told, World.written]
  show following (Run.onStore (Store.write · o key v)) _ w = _
  have hwrite : Run.onStore (Store.write · o key v) w =
      some ((w.scene.store.write o key v).1, w.withStore (w.scene.store.write o key v).2) := rfl
  rw [following, hwrite]
  simp only
  cases (w.scene.store.write o key v).1 <;> rfl

end Trace

/-! ## Where code ends -/

namespace Trace

variable {call : Call σ} {tell : Tell σ} {limit : Nat} {held : List SubscriberId} {w w' : World σ}
  {r : Except BindError Unit}

/-- If what follows a computation ends with a moment, so does all that happens. -/
theorem following_ends {α : Type} {m : Run σ α} {f : α → Run σ (Except BindError Unit)}
    {u : α → World σ → List (Moment σ)} (before : List (Moment σ))
    (hf : ∀ x w, f x w = some (r, w') → ∃ rest, u x w = rest ++ [.step held (.done r) w'.scene])
    (h : (m >>= f) w = some (r, w')) :
    ∃ rest, before ++ following m u w = rest ++ [.step held (.done r) w'.scene] := by
  obtain ⟨x, w₁, hm, h⟩ := Run.bind_eq_some_iff.1 h
  obtain ⟨rest, heq⟩ := hf x w₁ h
  rw [following, hm]
  exact ⟨before ++ rest, by simp only [heq, List.append_assoc]⟩

/-- **Code that comes to its end does so in a last step**, which changes nothing. -/
theorem ofAction_eq_append_done {a : Action σ} (h : follow call limit a w = some (r, w')) :
    ∃ before, ofAction call tell limit held a w = before ++ [.step held (.done r) w'.scene] := by
  induction a generalizing w with
  | done result =>
    cases h
    exact ⟨[], rfl⟩
  | inspect next ih =>
    obtain ⟨rest, heq⟩ := ih w.scene h
    exact ⟨_ :: rest, congrArg (List.cons _) heq⟩
  | modify f next ih => exact following_ends [_] (fun _ _ ↦ ih) h
  | observe data next ih => exact following_ends [_] (fun x _ ↦ ih x) h
  | get o key next ih => exact following_ends [_] (fun x _ ↦ ih x) h
  | getPath path root next ih => exact following_ends [_] (fun x _ ↦ ih x) h
  | render template root next ih => exact following_ends [_] (fun x _ ↦ ih x) h
  | set o key v next ih => exact following_ends (_ :: _) (fun x _ ↦ ih x) h
  | setPath path root v next ih => exact following_ends (_ :: _) (fun x _ ↦ ih x) h
  | watch expr root reaction next _ ih => exact following_ends [_] (fun x _ ↦ ih x) h
  | probe reaction next _ ih => exact following_ends [_] (fun x _ ↦ ih x) h
  | retain id next ih => exact following_ends [_] (fun _ _ ↦ ih) h
  | release id next ih => exact following_ends [_] (fun _ _ ↦ ih) h
  | track id next ih => exact following_ends [_] (fun _ _ ↦ ih) h
  | untrack next ih => exact following_ends [_] (fun _ _ ↦ ih) h
  | notify ids next ih => exact following_ends (_ :: _) (fun x _ ↦ ih x) h
  | edit e next ih => exact following_ends [_] (fun _ _ ↦ ih) h
  | listen n event handler next _ ih => exact following_ends [_] (fun _ _ ↦ ih) h
  | unlisten root next ih => exact following_ends [_] (fun _ _ ↦ ih) h
  | dispatch n event v next ih => exact following_ends (_ :: _) (fun x _ ↦ ih x) h
  | compile job methods next _ ih => exact following_ends (_ :: _) (fun x _ ↦ ih x) h
  | openViewModel options methods next _ ih => exact following_ends (_ :: _) (fun x _ ↦ ih x) h
  | retainViewModel vm next ih => exact following_ends [_] (fun _ _ ↦ ih) h
  | releaseViewModel vm next ih => exact following_ends [_] (fun _ _ ↦ ih) h
  | invoke vm method event next ih => exact following_ends (_ :: _) (fun x _ ↦ ih x) h

end Trace

theorem trace_eq_append_done {depth : Nat} {held : List SubscriberId} {a : Action σ}
    {w w' : World σ} {r : Except BindError Unit} (h : run depth a w = some (r, w')) :
    ∃ before, trace depth held a w = before ++ [.step held (.done r) w'.scene] := by
  cases depth with
  | zero => cases h
  | succ depth => exact Trace.ofAction_eq_append_done h

/-! ## Whose code is called -/

/-- Whose code is called, in the order of the calls. -/
def callees (trace : List (Moment σ)) : List SubscriberId :=
  trace.filterMap fun
    | .called id => some id
    | .step .. => none

@[simp] theorem callees_step (held : List SubscriberId) (a : Action σ) (s : Scene σ)
    (trace : List (Moment σ)) : callees (.step held a s :: trace) = callees trace := rfl

@[simp] theorem callees_called (id : SubscriberId) (trace : List (Moment σ)) :
    callees (.called id :: trace) = id :: callees trace := rfl

theorem callees_append (trace more : List (Moment σ)) :
    callees (trace ++ more) = callees trace ++ callees more := List.filterMap_append

theorem mem_callees {trace : List (Moment σ)} {id : SubscriberId} :
    id ∈ callees trace ↔ .called id ∈ trace := by
  rw [callees, List.mem_filterMap]
  constructor
  · rintro ⟨moment, hmem, hid⟩
    cases moment with
    | step held a s => cases hid
    | called id' =>
      cases hid
      exact hmem
  · exact fun h ↦ ⟨_, h, rfl⟩

/-- If nothing that follows a computation calls anybody, nobody is called after it. -/
theorem callees_following {α : Type} {m : Run σ α} {next : α → World σ → List (Moment σ)}
    (h : ∀ a w, callees (next a w) = []) (w : World σ) :
    callees (Trace.following m next w) = [] := by
  rw [Trace.following]
  split
  · rfl
  · exact h _ _

end DataBinding

import DataBinding.Engine.Run
import DataBinding.Proofs.Engine.RuleKeepingCode
import DataBinding.Proofs.Template.RouteErrands

/-!
# Compilations that fail

The first error ends a compilation.  Until then it has made watchers, which it releases, and has put
listeners on nodes, which stay there.

`Compilation.Added` says what a compilation has added to a world so far, and every step keeps it.
In the end nobody holds the new watchers any more, so **they never run again**
(`released_of_failure`).  Hence **nothing is left of a compilation that fails before it has put a
listener** (`nothing_left_of_failure`): the world goes on as if it had only the code from before.  A
control that was tied to a path before the error keeps writing to it, though (`field_still_writes`).
-/

set_option autoImplicit false

namespace DataBinding

open Compilation

variable {σ : Type}

/-! ## What a compilation has added -/

/-- The code of the listeners that a compilation makes: it calls a method, or it writes back. -/
inductive CompileJob.Handler (job : CompileJob σ) (methods : String → Event → Action σ) :
    (Event → Action σ) → Prop
  | method (name : String) : Handler job methods (methods name)
  | writing (path : String) : Handler job methods (job.writing path)

/-- What a compilation has added to a world so far: watchers that are held by its scope alone, and
listeners. -/
structure Compilation.Added (job : CompileJob σ) (methods : String → Event → Action σ)
    (w₀ : World σ) (p : Progress) (w : World σ) : Prop extends w.Aligned where
  grown : w₀.scene.subscribers.size ≤ w.scene.subscribers.size
  held : ∀ id, w₀.scene.subscribers.size ≤ id →
    w.scene.store.handles.getD id 0 = p.scope.count id
  reactions_eq : ∀ id < w₀.scene.subscribers.size, w.code.reactions[id]? = w₀.code.reactions[id]?
  handlers : ∃ made : List (Event → Action σ), (∀ handler ∈ made, job.Handler methods handler) ∧
    w.code.handlers = w₀.code.handlers ++ made.toArray ∧
    w.scene.listeners.length = w₀.scene.listeners.length + made.length
  methods_eq : w.code.methods = w₀.code.methods

namespace Compilation.Added

variable {job : CompileJob σ} {methods : String → Event → Action σ} {w₀ w w' : World σ}
  {p : Progress}

/-- A watcher that was added has as many holders as the scope has entries for it. -/
theorem holders_eq (h : Added job methods w₀ p w) {id : SubscriberId}
    (hid : w₀.scene.subscribers.size ≤ id) : w.scene.store.holders id = p.scope.count id :=
  h.held id hid

theorem start (h : w.Aligned) : Added job methods w .start w where
  toAligned := h
  grown := Nat.le_refl _
  held id hid := by
    rw [Array.getD_eq_getD_getElem?, Array.getElem?_eq_none (h.subscribers ▸ hid)]
    rfl
  reactions_eq _ _ := rfl
  handlers := ⟨[], by simp⟩
  methods_eq := rfl

/-- What has been added does not depend on texts, values or counts. -/
theorem of_eq (h : Added job methods w₀ p w)
    (hhandles : w'.scene.store.handles = w.scene.store.handles)
    (hsize : w'.scene.subscribers.size = w.scene.subscribers.size)
    (hlisteners : w'.scene.listeners = w.scene.listeners) (hcode : w'.code = w.code) :
    Added job methods w₀ p w' where
  subscribers := by rw [hhandles, hsize, h.subscribers]
  reactions := by rw [hcode, hsize, h.reactions]
  grown := by rw [hsize]; exact h.grown
  held := by rw [hhandles]; exact h.held
  reactions_eq := by rw [hcode]; exact h.reactions_eq
  handlers := by rw [hcode, hlisteners]; exact h.handlers
  methods_eq := by rw [hcode, h.methods_eq]

theorem count (h : Added job methods w₀ p w) {stats : CompileStats} :
    Added job methods w₀ { p with stats := stats } w :=
  { h with }

theorem noting (h : Added job methods w₀ p w) (id : SubscriberId) (v : Value) :
    Added job methods w₀ p (w.noting id v) :=
  h.of_eq rfl Array.size_modify rfl rfl

/-- A new subscriber is held by whoever made it. -/
theorem enrolled (h : Added job methods w₀ p w) (s : Subscriber) (reaction : Value → Action σ) :
    Added job methods w₀ { p with scope := p.scope ++ [w.scene.store.handles.size] }
      (w.enrolled s reaction) where
  subscribers := by simp [World.enrolled, Store.newSubscriber, h.subscribers]
  reactions := by simp [World.enrolled, h.reactions]
  grown := by simpa [World.enrolled] using Nat.le_succ_of_le h.grown
  held id hid := by
    show w.scene.store.newSubscriber.2.holders id = _
    rw [Store.holders_newSubscriber, h.holders_eq hid, List.count_append, List.count_singleton]
    simp only [beq_iff_eq]
  reactions_eq id hid := by
    rw [← h.reactions_eq id hid]
    show (w.code.reactions.push reaction)[id]? = _
    rw [Array.getElem?_push, if_neg]
    rw [h.reactions]
    exact Nat.ne_of_lt (Nat.lt_of_lt_of_le hid h.grown)
  handlers := h.handlers
  methods_eq := h.methods_eq

/-- Giving back what was taken last. -/
theorem release {id : SubscriberId}
    (h : Added job methods w₀ { p with scope := p.scope ++ [id] } w) :
    Added job methods w₀ p (w.withStore (w.scene.store.release id)) where
  subscribers := h.subscribers.trans (Store.size_handles_release ..).symm
  reactions := h.reactions
  grown := h.grown
  held id' hid := by
    show (w.scene.store.release id).holders id' = _
    rw [Store.holders_release, h.holders_eq hid, List.count_append, List.count_singleton]
    simp only [beq_iff_eq, Nat.add_sub_cancel]
  reactions_eq := h.reactions_eq
  handlers := h.handlers
  methods_eq := h.methods_eq

/-- A watcher whose expression has a value is held by whoever made it; any other one by nobody. -/
theorem watching (h : Added job methods w₀ p w) {expr : String} {root : Value}
    {reaction : Value → Action σ} {made : Except StateError SubscriberId}
    (hrun : Notification.watch expr root reaction w = some (made, w')) :
    Added job methods w₀ (match made with
      | .ok id => { p with scope := p.scope ++ [id] }
      | .error _ => p) w' := by
  have hevaluated : ∀ x, Added job methods w₀
      { p with scope := p.scope ++ [w.scene.store.handles.size] }
      ((w.enrolled (.watcher x) reaction).evaluated w.scene.store.handles.size x) := fun x ↦
    (h.enrolled (.watcher x) reaction).of_eq (World.handles_evaluated ..) rfl rfl rfl
  cases Notification.watch_outcome hrun with
  | unresolved _ => exact (hevaluated _).release
  | observed _ => exact (hevaluated _).noting _ _

theorem listening (h : Added job methods w₀ p w) {handler : Event → Action σ}
    (hhandler : job.Handler methods handler) (n : NodeId) (event : String) :
    Added job methods w₀ p (w.listening job n event handler) where
  subscribers := h.subscribers
  reactions := h.reactions
  grown := h.grown
  held := h.held
  reactions_eq := h.reactions_eq
  handlers := by
    obtain ⟨made, hmade, hhandlers, hlength⟩ := h.handlers
    refine ⟨made ++ [handler], ?_, ?_, ?_⟩
    · simpa [or_imp, forall_and] using ⟨hmade, hhandler⟩
    · show w.code.handlers.push handler = _
      rw [hhandlers]
      simp
    · simp [World.listening, hlength, Nat.add_assoc]
  methods_eq := h.methods_eq

/-- The watchers are released, and nobody holds them any more. -/
theorem releaseAll (h : Added job methods w₀ p w) :
    Added job methods w₀ .start (w.withStore (w.scene.store.releaseAll p.scope)) where
  subscribers := h.subscribers.trans ((Store.MakesNobody.releaseAll p.scope).size_eq _).symm
  reactions := h.reactions
  grown := h.grown
  held id hid := by
    show (w.scene.store.releaseAll p.scope).holders id = _
    rw [Store.holders_releaseAll, h.holders_eq hid, Nat.sub_self]
    rfl
  reactions_eq := h.reactions_eq
  handlers := h.handlers
  methods_eq := h.methods_eq

end Compilation.Added

section Steps

variable {call : Call σ} {job : CompileJob σ} {methods : String → Event → Action σ} {w₀ : World σ}
  {p : Progress}

theorem keeps_added_onStore {α : Type} {f : Store → α × Store}
    (h : ∀ s, (f s).2.handles = s.handles) :
    Run.Keeps (Added job methods w₀ p) (Run.onStore f : Run σ α) :=
  .change fun _ hw ↦ hw.of_eq (h _) rfl rfl rfl

theorem keeps_added_onDocument {α : Type} (f : Document → α × Document) :
    Run.Keeps (Added job methods w₀ p) (Run.onDocument f : Run σ α) :=
  .change fun _ hw ↦ hw.of_eq rfl rfl rfl rfl

theorem keeps_added_present (n : NodeId) (slot : Slot) (text : String) :
    Compilation.Keeps (Added job methods w₀) (present job n slot text) :=
  .lift fun _ ↦ .bind (.change fun _ hw ↦ hw.of_eq rfl rfl rfl rfl) fun _ ↦ keeps_added_onDocument _

theorem keeps_added_listen (n : NodeId) (event : String) {handler : Event → Action σ}
    (h : job.Handler methods handler) :
    Compilation.Keeps (Added job methods w₀) (listen job n event handler) := by
  refine .lift fun _ ↦ ⟨fun w _ w' hrun hw ↦ ?_⟩
  cases hrun
  exact hw.listening h n event

theorem keeps_added_watch (expr : String) (reaction : Value → Action σ) :
    Compilation.Keeps (Added job methods w₀) (watch job expr reaction) := by
  refine ⟨fun {p w x p' w'} hrun hw ↦ ?_⟩
  rw [watch, run_bind, attemptState, run_attempt] at hrun
  obtain ⟨⟨r, p₁⟩, w₁, hmade, hrun⟩ := Run.bind_eq_some_iff.1 hrun
  obtain ⟨r', w₂, hmade, hr⟩ := Run.bind_eq_some_iff.1 hmade
  obtain ⟨made, w₃, hmade, hr'⟩ := Run.bind_eq_some_iff.1 hmade
  cases hr
  cases hr'
  have hadded := hw.watching hmade
  cases made with
  | error e =>
    cases hrun
    exact hadded
  | ok id =>
    cases hrun
    exact hadded

/-- **Bindings add watchers and listeners**, unless they call something. -/
theorem keeps_added_bind (n : NodeId) {binding : Binding} (hsilent : binding.isCall = false) :
    Compilation.Keeps (Added job methods w₀) (bind call job methods n binding) := by
  cases binding with
  | fixed slot text => exact keeps_added_present ..
  | live slot expr =>
    have hvalue := Store.handles_getValue expr job.state
    exact .bind (.attemptState fun _ ↦ keeps_added_onStore hvalue) fun _ ↦
      .bind (.lift fun _ ↦ .look) fun _ ↦ .bind (keeps_added_present ..) fun _ ↦
        keeps_added_watch ..
  | template text =>
    have htext := Store.handles_render text job.state
    exact .bind (.attemptState fun _ ↦ keeps_added_onStore htext) fun _ ↦
      .bind (keeps_added_present ..) fun _ ↦
        (Keeps.compositional fun _ _ _ h ↦ h.count).forM fun _ _ ↦ keeps_added_watch ..
  | writeBack expr => exact keeps_added_listen n _ (.writing expr)
  | listen event method => exact keeps_added_listen n event (.method method)
  | call method event value => cases hsilent
  | refuse e => exact .refuse e

/-- **What a compilation adds.**  Its scope holds the watchers if it succeeds; nobody does if it
fails. -/
theorem added_of_compile (htable : job.table.Orderly) {w w' : World σ} (hw : w.Aligned)
    {limit : Nat} {x : Except BindError Compiled}
    (hrun : compile call limit job methods w = some (x, w')) :
    Added job methods w (match x with
      | .ok c => ⟨c.scope, c.stats⟩
      | .error _ => .start) w' := by
  rw [compile_eq_bind] at hrun
  obtain ⟨⟨⟨result, p⟩, w₁⟩, hvisit, hfinish⟩ := Option.bind_eq_some_iff.1 hrun
  have hstart : Added job methods w .start (w.withDocument (w.scene.document.stage job.root).2) :=
    (Added.start hw).of_eq rfl rfl rfl rfl
  have hadded : Added job methods w p w₁ :=
    ((Keeps.compositional fun _ _ _ h ↦ h.count).visit
      (fun n _ _ hlookup directive binding hmem ↦
        keeps_added_bind n (htable.silent hlookup directive binding hmem))
      (fun _ _ ↦ .lift fun _ ↦ keeps_added_onDocument _) limit _).kept hvisit hstart
  have hrestored : Added job methods w p
      (w₁.withDocument (w₁.scene.document.restore w.scene.document.nodes.size job.root)) :=
    hadded.of_eq rfl rfl rfl rfl
  cases result with
  | ok u =>
    cases hfinish
    exact hrestored
  | error e =>
    cases hfinish
    exact hrestored.releaseAll

end Steps

/-! ## Going on after a failure -/

/-- The rules for code beside a compilation that has failed: nobody has the watchers any more that
have been made since. -/
def Rules.since (w w' : World σ) : Rules where
  allows _ := True
  spent id := w.scene.subscribers.size ≤ id ∧ id < w'.scene.subscribers.size

/-- Whatever obedient code is run, it has the same result in two worlds, and leaves the same
scene. -/
def World.BehavesLike (r : Rules) (v w : World σ) : Prop :=
  ∀ (depth : Nat) (a : Action σ), a.Obeys r →
    Option.Rel (fun x y ↦ x.1 = y.1 ∧ x.2.scene = y.2.scene) (run depth a v) (run depth a w)

/-- The supply of code has something for so many subscribers: what is there already, and else code
that does nothing. -/
def Code.upTo (c : Code σ) (size : Nat) : Code σ :=
  { c with reactions := c.reactions ++ Array.replicate (size - c.reactions.size) fun _ ↦
      .done (.ok ()) }

/-- The world without any code that it was not given in an earlier world. -/
def World.withCodeOf (w' w : World σ) : World σ where
  scene := w'.scene
  code := w.code.upTo w'.scene.subscribers.size

/-- The world without the code of the subscribers that were made since an earlier world. -/
def World.withReactionsOf (w' w : World σ) : World σ where
  scene := w'.scene
  code := { w'.code with reactions := (w.code.upTo w'.scene.subscribers.size).reactions }

theorem World.Alike.behavesLike {r : Rules} {v w : World σ} (h : World.Alike r (fun _ ↦ True) v w) :
    v.BehavesLike r w := by
  intro depth a ha
  have hrelated := (run_upholds (fun _ _ _ _ ↦ trivial) depth ha).related v w h
  generalize run depth a v = x, run depth a w = y at hrelated ⊢
  cases hrelated with
  | none => exact .none
  | some h => exact .some ⟨h.1, h.2.2.scene⟩

namespace Compilation.Added

variable {job : CompileJob σ} {methods : String → Event → Action σ} {w w' : World σ}

/-- The watchers that were made are dead. -/
theorem fair (h : Added job methods w .start w') : (Rules.since w w').Fair w'.scene := by
  rintro id ⟨hle, hlt⟩
  refine ⟨h.subscribers ▸ hlt, ?_⟩
  rw [Store.isLive, h.held id hle]
  rfl

/-- The code of the subscribers is the code from before, but for that of the dead. -/
theorem reactions_upTo (h : Added job methods w .start w') (hw : w.Aligned) :
    (w.code.upTo w'.scene.subscribers.size).reactions.size = w'.code.reactions.size ∧
      ∀ id, ¬(Rules.since w w').spent id →
        (w.code.upTo w'.scene.subscribers.size).reactions[id]? = w'.code.reactions[id]? := by
  have hsize : (w.code.upTo w'.scene.subscribers.size).reactions.size = w'.code.reactions.size := by
    have hgrown := h.grown
    have hreactions := hw.reactions
    simp only [Code.upTo, Array.size_append, Array.size_replicate, h.reactions]
    omega
  refine ⟨hsize, fun id hid ↦ ?_⟩
  rcases Nat.lt_or_ge id w.scene.subscribers.size with hlt | hge
  · rw [h.reactions_eq id hlt]
    exact Array.getElem?_append_left (hw.reactions ▸ hlt)
  · have hout : w'.scene.subscribers.size ≤ id := Nat.le_of_not_lt fun hlt ↦ hid ⟨hge, hlt⟩
    rw [Array.getElem?_eq_none (by rw [hsize, h.reactions]; exact hout),
      Array.getElem?_eq_none (by rw [h.reactions]; exact hout)]

theorem obeys (h : Added job methods w .start w') (hcode : w.code.Obeys (.since w w'))
    (hhandlers : ∀ (n : Nat) handler, w'.code.handlers[n]? = some handler →
      ∀ e, (handler e).Obeys (.since w w')) : w'.code.Obeys (.since w w') where
  reactions id reaction hid hreaction := by
    obtain ⟨hlt, -⟩ := Array.getElem?_eq_some_iff.1 hreaction
    rw [h.reactions] at hlt
    have hold : id < w.scene.subscribers.size := Nat.lt_of_not_le fun hle ↦ hid ⟨hle, hlt⟩
    exact hcode.reactions id reaction hid ((h.reactions_eq id hold).symm.trans hreaction)
  handlers := hhandlers
  methods := h.methods_eq ▸ hcode.methods

/-- No listener has been put, so there is no code for one. -/
theorem handlers_eq (h : Added job methods w .start w')
    (hlisteners : w'.scene.listeners = w.scene.listeners) : w'.code.handlers = w.code.handlers := by
  obtain ⟨made, -, hhandlers, hlength⟩ := h.handlers
  rw [hlisteners, Nat.left_eq_add, List.length_eq_zero_iff] at hlength
  rw [hhandlers, hlength, Array.append_empty]

end Compilation.Added

section Failure

variable {call : Call σ} {limit : Nat} {job : CompileJob σ} {methods : String → Event → Action σ}
  {w w' : World σ} {e : BindError}

/-- **The watchers of a compilation that has failed never run**, whatever listeners it has left. -/
theorem released_of_failure (htable : job.table.Orderly) (haligned : w.Aligned)
    (hcode : w.code.Obeys (.since w w')) (hmethods : ∀ name e, (methods name e).Obeys (.since w w'))
    (hrun : compile call limit job methods w = some (.error e, w')) :
    (w'.withReactionsOf w).BehavesLike (.since w w') w' := by
  have h := added_of_compile htable haligned hrun
  obtain ⟨hsize, hreactions⟩ := h.reactions_upTo haligned
  have hobeys : w'.code.Obeys (.since w w') := h.obeys hcode fun n handler hhandler ↦ by
    obtain ⟨made, hmade, heq, -⟩ := h.handlers
    rw [heq, Array.getElem?_append] at hhandler
    split at hhandler
    · exact hcode.handlers n handler hhandler
    · rw [List.getElem?_toArray] at hhandler
      cases hmade handler (List.mem_of_getElem? hhandler) with
      | method name => exact hmethods name
      | writing path => exact obeys_writing path
  exact World.Alike.behavesLike
    ⟨rfl, h.toAligned, trivial, h.fair, ⟨hsize, hreactions, rfl, rfl⟩, hobeys⟩

/-- **Nothing is left of a compilation that fails before it has put a listener.**  Whatever code is
run afterwards, it does what it would do if the world had no code but that from before the
compilation. -/
theorem nothing_left_of_failure (htable : job.table.Orderly) (haligned : w.Aligned)
    (hcode : w.code.Obeys (.since w w'))
    (hrun : compile call limit job methods w = some (.error e, w'))
    (hlisteners : w'.scene.listeners = w.scene.listeners) :
    (w'.withCodeOf w).BehavesLike (.since w w') w' := by
  have h := added_of_compile htable haligned hrun
  obtain ⟨hsize, hreactions⟩ := h.reactions_upTo haligned
  have hhandlers := h.handlers_eq hlisteners
  exact World.Alike.behavesLike ⟨rfl, h.toAligned, trivial, h.fair,
    ⟨hsize, hreactions, hhandlers.symm, h.methods_eq.symm⟩, h.obeys hcode (hhandlers ▸
      hcode.handlers)⟩

end Failure

/-! ## An expression without a value -/

/-- A template that is compiled with a number where an object is asked for. -/
def brokenPage (first : String) : World Unit :=
  .ofTemplate (first ++ "<p bind-text=\"x.y\"></p>") (.object [("n", .int 1), ("x", .int 1)])

/-- The compilation fails when it comes to the expression. -/
def brokenRun (first : String) : Option (Except BindError Compiled × World Unit) :=
  Compilation.compile (run 1) 4 ⟨0, .object 0, .standard, .standard, fun _ data ↦ data⟩
    (fun _ _ ↦ .done (.ok ())) (brokenPage first)

/-- A text has been shown before the error. -/
theorem nothing_left_of_brokenText :
    ∃ e w', brokenRun "<p bind-text=\"n\"></p>" = some (.error e, w') ∧
    w'.scene.subscribers.size = 1 ∧
    (w'.withCodeOf (brokenPage "<p bind-text=\"n\"></p>")).BehavesLike
      (.since (brokenPage "<p bind-text=\"n\"></p>") w') w' := by
  have hfails : ((brokenRun "<p bind-text=\"n\"></p>").map fun r ↦
      (r.1.isOk, r.2.scene.subscribers.size, r.2.scene.listeners)) = some (false, 1, []) := by
    decide +kernel
  obtain ⟨⟨e | compiled, w'⟩, hrun, heq⟩ := Option.map_eq_some_iff.1 hfails
  · simp only [Prod.mk.injEq] at heq
    exact ⟨e, w', hrun, heq.2.1, nothing_left_of_failure DirectiveTable.standard_orderly
      (World.aligned_ofTemplate ..) (Code.obeys_ofTemplate ..) hrun heq.2.2⟩
  · cases heq

/-- The user types something into the first field. -/
def typeText : Action Unit := (Program.input 1 (.string "a")).action

/-- **A field that was tied to a path before the error keeps writing to it.** -/
theorem field_still_writes : ∃ e w', brokenRun "<input bind-value=\"n\">" = some (.error e, w') ∧
    ¬(w'.withCodeOf (brokenPage "<input bind-value=\"n\">")).BehavesLike
      (.since (brokenPage "<input bind-value=\"n\">") w') w' := by
  have hwritten : ((brokenRun "<input bind-value=\"n\">").bind fun r ↦
    (run 4 typeText r.2).map fun r' ↦
      (r.1.isOk, r'.2.scene.store.peek 0 "n")) = some (false, some (.string "a")) := by
    decide +kernel
  have hkept : ((brokenRun "<input bind-value=\"n\">").bind fun r ↦
      (run 4 typeText (r.2.withCodeOf (brokenPage "<input bind-value=\"n\">"))).map fun r' ↦
        decide (r'.2.scene.store.peek 0 "n" = some (.string "a"))) = some false := by decide +kernel
  obtain ⟨⟨e | compiled, w'⟩, hrun, hlater⟩ := Option.bind_eq_some_iff.1 hwritten
  · obtain ⟨⟨x, w₁⟩, hrun₁, heq₁⟩ := Option.map_eq_some_iff.1 hlater
    rw [hrun] at hkept
    obtain ⟨⟨y, w₂⟩, hrun₂, heq₂⟩ := Option.map_eq_some_iff.1 hkept
    refine ⟨e, w', hrun, fun h ↦ ?_⟩
    have hsame := h 4 typeText (.inspect fun _ _ ↦ .edit trivial (.dispatch 1 _ _ fun _ ↦ .done _))
    rw [hrun₁, hrun₂] at hsame
    cases hsame with
    | some hsame =>
      rw [decide_eq_false_iff_not, hsame.2] at heq₂
      exact heq₂ (Prod.mk.inj heq₁).2
  · obtain ⟨_, _, heq⟩ := Option.map_eq_some_iff.1 hlater
    cases heq

end DataBinding

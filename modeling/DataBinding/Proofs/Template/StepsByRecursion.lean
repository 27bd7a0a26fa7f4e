import DataBinding.Proofs.Engine.Soundness
import DataBinding.Proofs.Template.RecursiveTemplates
import DataBinding.Proofs.Template.TemplateWatchers
import Mathlib.Data.List.Forall2

/-!
# Steps of a compilation and steps by recursion

A step of a compilation *imitates* a step by recursion (`Imitates`) if it succeeds where that one
does, ends with the same error where that one ends with an error, and makes what is entered in the
ledger.  Imitation goes through sequences of steps (`Imitates.bind`), so it is proved for the
smallest steps and put together along the two programs.

What is known of the ledger and of what has been made is `Booked`: they agree entry by entry.  The
document is not a matter of the ledger; a relation says how it goes on.
-/

set_option autoImplicit false

namespace DataBinding

open Compilation

variable {σ : Type}

/-! ## What has been made -/

/-- The code of a listener. -/
def Answer.handler (job : CompileJob σ) (methods : String → Event → Action σ) :
    Answer → Event → Action σ
  | .method name => methods name
  | .write path => job.writing path

/-- The subscriber watches an expression for a bond, and has observed its value. -/
structure World.Serves (w : World σ) (job : CompileJob σ) (id : SubscriberId)
    (q : Bond × String) : Prop where
  watcher : ∃ v, w.scene.store.resolve q.2 job.state = .ok v ∧
    w.scene.watcher? id = some ⟨Text.trim q.2, job.state, v⟩
  reaction : w.code.reactions[id]? = some (q.1.reaction job)

/-- The listener waits for an event on a node, and does something particular. -/
structure World.Heeds (w : World σ) (job : CompileJob σ) (methods : String → Event → Action σ)
    (l : Listener) (q : NodeId × String × Answer) : Prop where
  node : l.node = q.1
  event : l.event = q.2.1
  handler : w.code.handlers[l.handler]? = some (q.2.2.handler job methods)

/-- Nothing has been changed but the document, and subscribers and code have been added. -/
structure World.Widens (w w' : World σ) : Prop where
  contents : w'.scene.store.contents = w.scene.store.contents
  aligned : w'.Aligned
  watcher : ∀ id x, w.scene.watcher? id = some x → w'.scene.watcher? id = some x
  reaction : ∀ (id : SubscriberId) f, w.code.reactions[id]? = some f →
    w'.code.reactions[id]? = some f
  handler : ∀ (i : Nat) f, w.code.handlers[i]? = some f → w'.code.handlers[i]? = some f

section Widens

variable {w w' : World σ} {job : CompileJob σ} {methods : String → Event → Action σ}

theorem World.Serves.widen {id : SubscriberId} {q : Bond × String} (h : w.Serves job id q)
    (hw : w.Widens w') : w'.Serves job id q where
  watcher := by
    obtain ⟨v, hv, hx⟩ := h.watcher
    exact ⟨v, (Store.resolve_of_contents hw.contents ..).trans hv, hw.watcher id _ hx⟩
  reaction := hw.reaction id _ h.reaction

theorem World.Heeds.widen {l : Listener} {q : NodeId × String × Answer}
    (h : w.Heeds job methods l q) (hw : w.Widens w') : w'.Heeds job methods l q :=
  ⟨h.node, h.event, hw.handler _ _ h.handler⟩

theorem World.Widens.trans {w'' : World σ} (h : w.Widens w') (h' : w'.Widens w'') :
    w.Widens w'' where
  contents := h'.contents.trans h.contents
  aligned := h'.aligned
  watcher id x hx := h'.watcher id x (h.watcher id x hx)
  reaction id f hf := h'.reaction id f (h.reaction id f hf)
  handler i f hf := h'.handler i f (h.handler i f hf)

/-- A change of the document, of the program's own data and of who has read what. -/
theorem World.widens_of_eq (hw : w.Aligned)
    (hcontents : w'.scene.store.contents = w.scene.store.contents)
    (hhandles : w'.scene.store.handles = w.scene.store.handles)
    (hsubscribers : w'.scene.subscribers = w.scene.subscribers) (hcode : w'.code = w.code) :
    w.Widens w' where
  contents := hcontents
  aligned :=
    ⟨by rw [hsubscribers, hhandles, hw.subscribers], by rw [hcode, hsubscribers, hw.reactions]⟩
  watcher id x hx := by rwa [Scene.watcher?, hsubscribers]
  reaction id f hf := by rwa [hcode]
  handler i f hf := by rwa [hcode]

theorem getElem?_push_of_some {α : Type} {xs : Array α} {i : Nat} {x : α} (h : xs[i]? = some x)
    (y : α) : (xs.push y)[i]? = some x := by
  obtain ⟨hlt, -⟩ := Array.getElem?_eq_some_iff.1 h
  rwa [Array.getElem?_push_lt (Nat.lt_of_lt_of_le hlt (Nat.le_refl _)),
    ← Array.getElem?_eq_getElem]

/-- A new listener. -/
theorem World.widens_listening (hw : w.Aligned) (n : NodeId) (event : String)
    (handler : Event → Action σ) : w.Widens (w.listening job n event handler) where
  contents := rfl
  aligned := ⟨hw.subscribers, hw.reactions⟩
  watcher _ _ hx := hx
  reaction _ _ hf := hf
  handler _ _ hf := getElem?_push_of_some hf handler

/-- A new watcher. -/
theorem World.widens_joined (hw : w.Aligned) (expr : String) (root : Value)
    (reaction : Value → Action σ) (v : Value) : w.Widens (w.joined expr root reaction v) where
  contents := (w.enlists_joined expr root reaction v).contents
  aligned := by
    have hsubscribers : (w.joined expr root reaction v).scene.subscribers.size =
        w.scene.subscribers.size + 1 := by
      simp [World.joined, World.noting, World.evaluated, World.withStore, World.enrolled]
    constructor
    · rw [hsubscribers, World.store_joined, Store.handles_evaluate, hw.subscribers]
      simp [Store.newSubscriber]
    · rw [hsubscribers, World.reactions_joined, Array.size_push, hw.reactions]
  watcher id x hx := by
    rw [World.watcher?_joined _ _ _ _ _ hw.subscribers, if_neg]
    · exact hx
    · rintro rfl
      rw [← hw.subscribers, Scene.watcher?, Array.getElem?_eq_none (Nat.le_refl _)] at hx
      cases hx
  reaction id f hf := getElem?_push_of_some hf reaction
  handler i f hf := by
    rw [(w.enlists_joined expr root reaction v).handlers]
    exact hf

/-- A new watcher serves its bond. -/
theorem World.serves_joined (hw : w.Aligned) (b : Bond) {expr : String} {v : Value}
    (hv : w.scene.store.resolve expr job.state = .ok v) :
    (w.joined expr job.state (b.reaction job) v).Serves job w.scene.store.handles.size
    (b, expr) where
  watcher := by
    refine ⟨v, ?_, ?_⟩
    · exact (Store.resolve_of_contents (w.enlists_joined ..).contents ..).trans hv
    · rw [World.watcher?_joined _ _ _ _ _ hw.subscribers, if_pos rfl]
  reaction := by
    rw [World.reactions_joined, ← hw.subscribers, ← hw.reactions]
    exact Array.getElem?_push_size

end Widens

/-- The ledger agrees with what has been made since the world was `w₀`. -/
structure Booked (job : CompileJob σ) (methods : String → Event → Action σ) (w₀ : World σ)
    (l : Ledger) (p : Progress) (w : World σ) : Prop where
  contents : w.scene.store.contents = w₀.scene.store.contents
  aligned : w.Aligned
  stats : p.stats = l.stats
  watchers : List.Forall₂ (w.Serves job) p.scope l.watchers
  listeners : ∃ made, w.scene.listeners = w₀.scene.listeners ++ made ∧
    List.Forall₂ (w.Heeds job methods) made l.listeners

section Booked

variable {job : CompileJob σ} {methods : String → Event → Action σ} {w₀ w w' : World σ}
  {l : Ledger} {p : Progress}

theorem Booked.widen (h : Booked job methods w₀ l p w) (hw : w.Widens w')
    (hlisteners : w'.scene.listeners = w.scene.listeners) : Booked job methods w₀ l p w' where
  contents := hw.contents.trans h.contents
  aligned := hw.aligned
  stats := h.stats
  watchers := h.watchers.imp fun _ _ hq ↦ hq.widen hw
  listeners := by
    obtain ⟨made, heq, hmade⟩ := h.listeners
    exact ⟨made, hlisteners.trans heq, hmade.imp fun _ _ hq ↦ hq.widen hw⟩

theorem Booked.count (h : Booked job methods w₀ l p w) (f : CompileStats → CompileStats) :
    Booked job methods w₀ { l with stats := f l.stats } { p with stats := f p.stats } w where
  contents := h.contents
  aligned := h.aligned
  stats := congrArg f h.stats
  watchers := h.watchers
  listeners := h.listeners

theorem Booked.listen (h : Booked job methods w₀ l p w) (n : NodeId) (event : String)
    (answer : Answer) : Booked job methods w₀
      { l with listeners := l.listeners ++ [(n, event, answer)] } p
      (w.listening job n event (answer.handler job methods)) := by
  have hw : w.Widens (w.listening job n event (answer.handler job methods)) :=
    World.widens_listening h.aligned n event _
  obtain ⟨made, heq, hmade⟩ := h.listeners
  refine ⟨h.contents, hw.aligned, h.stats, h.watchers.imp fun _ _ hq ↦ hq.widen hw,
    made ++ [⟨n, event, w.code.handlers.size⟩], ?_, ?_⟩
  · rw [← List.append_assoc, ← heq]
    rfl
  · refine List.rel_append (hmade.imp fun _ _ hq ↦ hq.widen hw) (.cons ⟨rfl, rfl, ?_⟩ .nil)
    exact Array.getElem?_push_size

theorem Booked.watch (h : Booked job methods w₀ l p w) (b : Bond) {expr : String} {v : Value}
    (hv : w₀.scene.store.resolve expr job.state = .ok v) : Booked job methods w₀
      { l with watchers := l.watchers ++ [(b, expr)] }
      { p with scope := p.scope ++ [w.scene.store.handles.size] }
      (w.joined expr job.state (b.reaction job) v) := by
  have hw := World.widens_joined h.aligned expr job.state (b.reaction job) v
  have hwide := h.widen hw (w.enlists_joined ..).listeners
  have hserves := World.serves_joined h.aligned b
    ((Store.resolve_of_contents h.contents expr job.state).trans hv)
  exact ⟨hwide.contents, hwide.aligned, hwide.stats,
    List.rel_append hwide.watchers (.cons hserves .nil), hwide.listeners⟩

end Booked

/-! ## Imitation -/

namespace Compilation

variable {α β : Type}

/-- A step of a compilation ends it with an error. -/
def Fails (m : Compilation σ α) (p : Progress) (w : World σ) (e : BindError) : Prop :=
  ∃ p' w', m.run.run p w = some ((.error e, p'), w')

variable {p p' : Progress} {w w' : World σ} {e : BindError}

theorem fails_attemptState {r : Run σ (Except StateError α)} {e : StateError}
    (h : r w = some (.error e, w')) : (attemptState r).Fails p w (.state e) := by
  refine ⟨p, w', ?_⟩
  show ((r w).bind _).bind _ = _
  rw [h]
  rfl

theorem Fails.bind {m : Compilation σ α} (h : m.Fails p w e) (f : α → Compilation σ β) :
    (m >>= f).Fails p w e := by
  obtain ⟨p', w', h⟩ := h
  refine ⟨p', w', ?_⟩
  show (m.run.run p w).bind _ = _
  rw [h]
  rfl

theorem Succeeds.bind_fails {m : Compilation σ α} {f : α → Compilation σ β} {a : α}
    (h : m.Succeeds p w a p' w') (hf : (f a).Fails p' w' e) : (m >>= f).Fails p w e := by
  obtain ⟨p'', w'', hf⟩ := hf
  refine ⟨p'', w'', ?_⟩
  show (m.run.run p w).bind _ = _
  rw [h]
  exact hf

end Compilation

/-- From a document on, a step of a compilation does what a step by recursion does, and its result
and the document that it leaves behind are in a relation to the result by recursion. -/
def Imitates (job : CompileJob σ) (methods : String → Event → Action σ) (w₀ : World σ) {α β : Type}
    (d : Document) (m : Compilation σ α) (r : Recursive β) (R : α → β → Document → Prop) : Prop :=
  ∀ p w l, w.scene.document = d → Booked job methods w₀ l p w →
    match r.run l with
    | .error e => m.Fails p w e
    | .ok (b, l') => ∃ a p' w', m.Succeeds p w a p' w' ∧ Booked job methods w₀ l' p' w' ∧
        R a b w'.scene.document

namespace Imitates

variable {job : CompileJob σ} {methods : String → Event → Action σ} {w₀ : World σ} {α β γ δ : Type}
  {d : Document} {m : Compilation σ α} {r : Recursive β} {R : α → β → Document → Prop}

protected theorem pure {a : α} {b : β} (h : R a b d) :
    Imitates job methods w₀ d (pure a) (pure b) R := by
  rintro p w l rfl hl
  exact ⟨a, p, w, succeeds_pure.2 ⟨rfl, rfl, rfl⟩, hl, h⟩

/-- **One step after the other.** -/
protected theorem bind (h : Imitates job methods w₀ d m r R) {f : α → Compilation σ γ}
    {g : β → Recursive δ} {R' : γ → δ → Document → Prop}
    (hf : ∀ a b e, R a b e → Imitates job methods w₀ e (f a) (g b) R') :
    Imitates job methods w₀ d (m >>= f) (r >>= g) R' := by
  intro p w l hd hl
  have hm := h p w l hd hl
  rw [StateT.run_bind]
  cases hr : r.run l with
  | error e =>
    rw [hr] at hm
    exact hm.bind f
  | ok x =>
    rw [hr] at hm
    obtain ⟨a, p₁, w₁, hsucceeds, hl₁, hR⟩ := hm
    have hrest := hf a x.1 w₁.scene.document hR p₁ w₁ x.2 rfl hl₁
    show match (g x.1).run x.2 with | .error e => _ | .ok (b, l') => _
    cases hg : (g x.1).run x.2 with
    | error e =>
      rw [hg] at hrest
      exact hsucceeds.bind_fails hrest
    | ok y =>
      rw [hg] at hrest
      obtain ⟨c, p₂, w₂, hsucceeds₂, hl₂, hR₂⟩ := hrest
      exact ⟨c, p₂, w₂, (succeeds_bind_of hsucceeds).2 hsucceeds₂, hl₂, hR₂⟩

/-- A step that has nothing to imitate. -/
theorem bind_left {R : α → Unit → Document → Prop} (h : Imitates job methods w₀ d m (pure ()) R)
    {f : α → Compilation σ γ} {r : Recursive δ} {R' : γ → δ → Document → Prop}
    (hf : ∀ a e, R a () e → Imitates job methods w₀ e (f a) r R') :
    Imitates job methods w₀ d (m >>= f) r R' := by
  have hbind := h.bind (g := fun _ ↦ r) fun a _ e ↦ hf a e
  rwa [pure_bind] at hbind

/-! ### The smallest steps -/

theorem refuse (e : BindError) :
    Imitates job methods w₀ d (Compilation.refuse e : Compilation σ α) (Recursive.refuse e) R := by
  intro p w l _ _
  exact ⟨p, w, rfl⟩

theorem count (f : CompileStats → CompileStats) : Imitates job methods w₀ d
    (Compilation.count f) (Recursive.count f) fun _ _ e ↦ e = d := by
  rintro p w l rfl hl
  exact ⟨(), _, w, succeeds_count.2 ⟨rfl, rfl⟩, hl.count f, rfl⟩

theorem scene : Imitates job methods w₀ d (lift Run.scene) (pure ()) fun s _ e ↦
    s.document = d ∧ s.store.contents = w₀.scene.store.contents ∧ e = d := by
  rintro p w l rfl hl
  exact ⟨w.scene, p, w, succeeds_lift.2 ⟨rfl, rfl⟩, hl, rfl, hl.contents, rfl⟩

theorem edit (f : Document → Document) : Imitates job methods w₀ d
    (lift (Run.editDocument f)) (pure ()) fun _ _ e ↦ e = f d := by
  rintro p w l rfl hl
  refine ⟨(), p, _, succeeds_lift.2 ⟨rfl, rfl⟩, ?_, rfl⟩
  exact hl.widen (World.widens_of_eq hl.aligned rfl rfl rfl rfl) rfl

theorem present (n : NodeId) (slot : Slot) (text : String) : Imitates job methods w₀ d
    (Compilation.present job n slot text) (pure ()) fun _ _ e ↦ e = d.apply (slot.edit n text) := by
  rintro p w l rfl hl
  refine ⟨(), p, _, present_succeeds.2 ⟨rfl, rfl⟩, ?_, rfl⟩
  exact hl.widen (World.widens_of_eq hl.aligned rfl rfl rfl rfl) rfl

theorem listen (n : NodeId) (event : String) (answer : Answer) : Imitates job methods w₀ d
    (Compilation.listen job n event (answer.handler job methods))
    (Recursive.listen n event answer) fun _ _ e ↦ e = d := by
  rintro p w l rfl hl
  exact ⟨(), p, _, listen_succeeds.2 ⟨rfl, rfl⟩, hl.listen n event answer, rfl⟩

/-- An expression that has a value is watched. -/
theorem watch (b : Bond) {expr : String}
    (h : ∃ v, w₀.scene.store.resolve expr job.state = .ok v) : Imitates job methods w₀ d
    (Compilation.watch job expr (b.reaction job)) (Recursive.watch b expr) fun _ _ e ↦ e = d := by
  rintro p w l rfl hl
  obtain ⟨v, hv⟩ := h
  refine ⟨(), _, _, watch_succeeds.2 ⟨v, ?_, rfl, rfl⟩, hl.watch b hv, ?_⟩
  · exact (Store.resolve_of_contents hl.contents ..).trans hv
  · exact (w.enlists_joined ..).document

theorem watchAll (b : Bond) {exprs : List String}
    (h : ∀ expr ∈ exprs, ∃ v, w₀.scene.store.resolve expr job.state = .ok v) :
    Imitates job methods w₀ d (exprs.forM fun expr ↦ Compilation.watch job expr (b.reaction job))
      (exprs.forM (Recursive.watch b)) fun _ _ e ↦ e = d := by
  induction exprs with
  | nil => exact .pure rfl
  | cons expr exprs ih =>
    refine (watch b (h expr (by simp))).bind fun _ _ e he ↦ ?_
    subst he
    exact ih fun expr' hmem ↦ h expr' (by simp [hmem])

/-- Looking something up that depends on what the objects hold. -/
theorem ask {ask : Store → Except StateError α × Store} {look : Store → Except StateError α}
    (hask : ∀ s, ∃ reads, ask s = (look s, s.touch reads))
    (hlook : ∀ s t : Store, t.contents = s.contents → look t = look s) {f : α → β}
    {r : Except StateError β} (hr : r = (look w₀.scene.store).map f) :
    Imitates job methods w₀ d (attemptState (Run.onStore ask)) (Recursive.ask r)
      fun a b e ↦ look w₀.scene.store = .ok a ∧ b = f a ∧ e = d := by
  rintro p w l rfl hl
  subst hr
  obtain ⟨reads, hreads⟩ := hask w.scene.store
  rw [hlook _ _ hl.contents] at hreads
  have hrun : Run.onStore ask w = some (look w₀.scene.store,
      w.withStore (w.scene.store.touch reads)) := by
    rw [Run.onStore, hreads]
    rfl
  cases hvalue : look w₀.scene.store with
  | error e =>
    rw [hvalue] at hrun
    exact fails_attemptState hrun
  | ok a =>
    rw [hvalue] at hrun
    refine ⟨a, p, _, succeeds_attemptState.2 ⟨hrun, rfl⟩, ?_, rfl, rfl, rfl⟩
    exact hl.widen (World.widens_of_eq hl.aligned (Store.contents_touch ..) (Store.handles_touch ..)
      rfl rfl) rfl

/-! ### Directives -/

/-- **Making a bond** is showing its text and watching its expressions. -/
theorem bond (call : Call σ) {n : NodeId} {binding : Binding} {b : Bond}
    (hb : binding.bond? n = some b) : Imitates job methods w₀ d
    (Compilation.bind call job methods n binding) (Recursive.bond w₀.scene.store job.state b)
    fun _ text e ↦ e = d.apply (b.edit text) := by
  cases binding with
  | live slot expr =>
    cases hb
    refine (ask (fun s ↦ ⟨_, s.getValue_eq expr job.state⟩)
      (fun s t h ↦ Store.resolve_of_contents h expr job.state) rfl).bind fun v text e hv ↦ ?_
    obtain ⟨hvalue, rfl, rfl⟩ := hv
    refine scene.bind_left fun s e hs ↦ ?_
    obtain ⟨-, hcontents, rfl⟩ := hs
    rw [Store.display_congr hcontents]
    refine (present n slot _).bind_left fun _ e he ↦ ?_
    subst he
    show Imitates job methods w₀ _ _
      ((Recursive.watch (.value n slot expr) expr >>= fun _ ↦ pure ()) >>= fun _ ↦ pure _) _
    simp only [bind_assoc, pure_bind]
    rw [← bind_pure (Compilation.watch job expr _)]
    exact (watch (.value n slot expr) ⟨v, hvalue⟩).bind fun _ _ e he ↦ .pure he
  | template text =>
    cases hb
    have hid : w₀.scene.store.filled text job.state =
        (w₀.scene.store.filled text job.state).map id := by
      cases w₀.scene.store.filled text job.state <;> rfl
    refine (ask (fun s ↦ s.exists_render_eq text job.state)
      (fun s t h ↦ Store.filled_of_contents h text job.state) hid).bind fun _ shown e hshown ↦ ?_
    obtain ⟨hfilled, rfl, rfl⟩ := hshown
    refine (present n .text _).bind_left fun _ e he ↦ ?_
    subst he
    rw [← bind_pure ((Template.expressions text).forM _)]
    exact (watchAll (.template n text)
      ((Store.filled_isOk_iff ..).1 ⟨_, hfilled⟩)).bind fun _ _ e he ↦ .pure he
  | _ => cases hb

end Imitates

end DataBinding

import DataBinding.Proofs.Template.SuccessfulCompilations
import Mathlib.Data.List.Nodup

/-!
# Who works for a template

The bonds of a template are kept by watchers, one for each expression, and a compilation makes them.
A `Post` says which watcher works for which bond; the posts of a template are its roster.  `Staffed`
says that the posts are held by live watchers with the right code, and that all other code belongs
to the class of code that is *foreign* to the template.  Of foreign code nothing is known here but
that; what it may do is for later theorems to say.

`Wired` says the same of listeners: those that write back what the user enters, and others.  It
stays true while foreign listeners are added (`Wired.kept`).

**A compilation that succeeds has staffed its template** (`compile_finished`): the roster consists
of the watchers in its scope, each has observed the value of its expression, and the document is
what the errands make of it.
-/

set_option autoImplicit false

namespace DataBinding

variable {σ : Type}

/-! ## Posts -/

/-- A watcher that works for a bond, and the expression it watches. -/
structure Post where
  id : SubscriberId
  bond : Bond
  expr : String
  deriving DecidableEq

namespace Post

/-- The post is held by a live watcher with the code of the bond. -/
structure Held (job : CompileJob σ) (w : World σ) (q : Post) : Prop where
  live : w.scene.store.isLive q.id = true
  reaction : w.code.reactions[q.id]? = some (q.bond.reaction job)
  watcher : ∃ v, w.scene.watcher? q.id = some ⟨Text.trim q.expr, job.state, v⟩

/-- The watcher of a post is asked for the value of the post's expression. -/
theorem Held.resolve_eq {job : CompileJob σ} {w : World σ} {q : Post} {x : Watcher}
    (h : q.Held job w) (hx : w.scene.watcher? q.id = some x) (s : Store) :
    s.resolve x.expr x.root = s.resolve q.expr job.state := by
  obtain ⟨v, hv⟩ := h.watcher
  cases hx.symm.trans hv
  exact s.resolve_trim _ _

/-- The watcher has observed the value of its expression. -/
def Current (job : CompileJob σ) (w : World σ) (q : Post) : Prop :=
  ∀ x v, w.scene.watcher? q.id = some x → w.scene.store.resolve q.expr job.state = .ok v →
    x.observed.Alike v

end Post

/-- The posts of a template are held, and all other code of subscribers is foreign. -/
structure Staffed (job : CompileJob σ) (foreign : Action σ → Prop) (roster : List Post)
    (w : World σ) : Prop where
  nodup : (roster.map Post.id).Nodup
  held : ∀ q ∈ roster, q.Held job w
  others : ∀ id reaction, (∀ q ∈ roster, q.id ≠ id) → w.code.reactions[id]? = some reaction →
    ∀ v, foreign (reaction v)

namespace Staffed

variable {job : CompileJob σ} {foreign : Action σ → Prop} {roster : List Post} {w w' : World σ}

/-- No two posts share a watcher. -/
theorem eq_of_id_eq (h : Staffed job foreign roster w) {q q' : Post} (hq : q ∈ roster)
    (hq' : q' ∈ roster) (hid : q.id = q'.id) : q = q' :=
  List.inj_on_of_nodup_map h.nodup hq hq' hid

/-- Changes of the rest of the scene. -/
theorem of_handles_eq (h : Staffed job foreign roster w)
    (hsubs : w'.scene.subscribers = w.scene.subscribers)
    (hhandles : w'.scene.store.handles = w.scene.store.handles)
    (hcode : w'.code.reactions = w.code.reactions) : Staffed job foreign roster w' where
  nodup := h.nodup
  held q hq := by
    obtain ⟨hlive, hreaction, hwatcher⟩ := h.held q hq
    refine ⟨by rwa [Store.isLive_congr hhandles], by rwa [hcode], ?_⟩
    rwa [Scene.watcher?, hsubs]
  others id reaction hid hr := by
    rw [hcode] at hr
    exact h.others id reaction hid hr

/-- Handles are taken and given back, but every post keeps one. -/
theorem withStore (h : Staffed job foreign roster w) {s : Store}
    (hholders : ∀ q ∈ roster, 0 < s.holders q.id) : Staffed job foreign roster (w.withStore s) where
  nodup := h.nodup
  held q hq := ⟨(Store.isLive_iff_holders _ _).2 (hholders q hq), (h.held q hq).reaction,
    (h.held q hq).watcher⟩
  others := h.others

theorem noting (h : Staffed job foreign roster w) (id : SubscriberId) (v : Value) :
    Staffed job foreign roster (w.noting id v) where
  nodup := h.nodup
  held q hq := by
    obtain ⟨hlive, hreaction, u, hu⟩ := h.held q hq
    refine ⟨hlive, hreaction, ?_⟩
    rw [World.watcher?_noting, hu]
    split
    · exact ⟨v, rfl⟩
    · exact ⟨u, rfl⟩
  others := h.others

end Staffed

/-- What the user enters is written back, and all other code of listeners is foreign. -/
structure Wired (job : CompileJob σ) (foreign : Action σ → Prop) (backs : List (NodeId × String))
    (w : World σ) : Prop where
  valid : ∀ l ∈ w.scene.listeners, l.handler < w.code.handlers.size
  /-- If no node writes to two paths, every node that writes has one listener that does. -/
  returned : (backs.map Prod.fst).Nodup → ∀ c ∈ backs, ∃ before l after,
    w.scene.listeners = before ++ l :: after ∧ l.node = c.1 ∧ l.event = inputEvent ∧
      w.code.handlers[l.handler]? = some (job.writing c.2) ∧
      ∀ l' ∈ before ++ after, l'.node = c.1 → l'.event = inputEvent →
        ∀ handler, w.code.handlers[l'.handler]? = some handler → ∀ e, foreign (handler e)
  others : ∀ l ∈ w.scene.listeners, ∀ handler, w.code.handlers[l.handler]? = some handler →
    (∀ e, foreign (handler e)) ∨
      ∃ c ∈ backs, l.node = c.1 ∧ l.event = inputEvent ∧ handler = job.writing c.2

/-- The listeners of `w` and their code are still there in `w'`, and those that have been added are
foreign. -/
structure World.ListenersKept (foreign : Action σ → Prop) (w w' : World σ) : Prop where
  handlers : ∀ (i : Nat) handler, w.code.handlers[i]? = some handler →
    w'.code.handlers[i]? = some handler
  listeners : ∃ more, w'.scene.listeners = w.scene.listeners ++ more ∧
    ∀ l ∈ more, ∃ handler, w'.code.handlers[l.handler]? = some handler ∧ ∀ e, foreign (handler e)

namespace World.ListenersKept

variable {foreign : Action σ → Prop} {w w₁ w' : World σ}

theorem of_eq (hlisteners : w'.scene.listeners = w.scene.listeners)
    (hhandlers : w'.code.handlers = w.code.handlers) : w.ListenersKept foreign w' where
  handlers i handler h := by rwa [hhandlers]
  listeners := ⟨[], by rw [hlisteners, List.append_nil], by simp⟩

theorem trans (h : w.ListenersKept foreign w₁) (h' : w₁.ListenersKept foreign w') :
    w.ListenersKept foreign w' where
  handlers i handler hh := h'.handlers i handler (h.handlers i handler hh)
  listeners := by
    obtain ⟨more, heq, hmore⟩ := h.listeners
    obtain ⟨more', heq', hmore'⟩ := h'.listeners
    refine ⟨more ++ more', by rw [heq', heq, List.append_assoc], fun l hl ↦ ?_⟩
    rcases List.mem_append.1 hl with hl | hl
    · obtain ⟨handler, hh, hf⟩ := hmore l hl
      exact ⟨handler, h'.handlers _ _ hh, hf⟩
    · exact hmore' l hl

/-- A new listener with foreign code. -/
theorem listening (w : World σ) (job : CompileJob σ) (n : NodeId) (event : String)
    {handler : Event → Action σ} (hforeign : ∀ e, foreign (handler e)) :
    w.ListenersKept foreign (w.listening job n event handler) where
  handlers i handler' h := by
    show (w.code.handlers.push handler)[i]? = some handler'
    rw [Array.getElem?_push, if_neg (Nat.ne_of_lt (Array.getElem?_eq_some_iff.1 h).1), h]
  listeners := by
    refine ⟨[⟨n, event, w.code.handlers.size⟩], rfl, fun l hl ↦ ⟨handler, ?_, hforeign⟩⟩
    rw [List.mem_singleton.1 hl]
    exact Array.getElem?_push_size

end World.ListenersKept

namespace Wired

variable {job : CompileJob σ} {foreign : Action σ → Prop} {backs : List (NodeId × String)}
  {w w' : World σ}

/-- When listeners are added, a node is still written back by its one listener, if what the others
do for it is foreign. -/
theorem returned_append (h : Wired job foreign backs w) (hnodup : (backs.map Prod.fst).Nodup)
    {c : NodeId × String} (hc : c ∈ backs) {more : List Listener}
    (hlist : w'.scene.listeners = w.scene.listeners ++ more)
    (hold : ∀ l ∈ w.scene.listeners, w'.code.handlers[l.handler]? = w.code.handlers[l.handler]?)
    (hmore : ∀ l ∈ more, l.node = c.1 → ∀ handler, w'.code.handlers[l.handler]? = some handler →
      ∀ e, foreign (handler e)) :
    ∃ before l after, w'.scene.listeners = before ++ l :: after ∧ l.node = c.1 ∧
      l.event = inputEvent ∧ w'.code.handlers[l.handler]? = some (job.writing c.2) ∧
      ∀ l' ∈ before ++ after, l'.node = c.1 → l'.event = inputEvent →
        ∀ handler, w'.code.handlers[l'.handler]? = some handler → ∀ e, foreign (handler e) := by
  obtain ⟨before, l, after, hl, hnode, hevent, hh, hothers⟩ := h.returned hnodup c hc
  refine ⟨before, l, after ++ more, by rw [hlist, hl, List.append_assoc, List.cons_append],
    hnode, hevent, (hold l (by simp [hl])).trans hh, fun l' hl' hnode' hevent' handler hh' ↦ ?_⟩
  rw [← List.append_assoc] at hl'
  rcases List.mem_append.1 hl' with hl' | hl'
  · refine hothers l' hl' hnode' hevent' handler ?_
    rwa [hold l' (by rw [hl]; simp only [List.mem_append, List.mem_cons] at hl' ⊢; tauto)] at hh'
  · exact hmore l' hl' hnode' handler hh'

/-- The listeners of the template stay where they are. -/
theorem kept (h : Wired job foreign backs w) (hkept : w.ListenersKept foreign w') :
    Wired job foreign backs w' := by
  obtain ⟨more, heq, hmore⟩ := hkept.listeners
  have hold : ∀ l ∈ w.scene.listeners, w'.code.handlers[l.handler]? =
      w.code.handlers[l.handler]? := by
    intro l hl
    have hhandler := Array.getElem?_eq_getElem (h.valid l hl)
    rw [hhandler, hkept.handlers _ _ hhandler]
  have hforeign : ∀ l ∈ more, ∀ handler, w'.code.handlers[l.handler]? = some handler →
      ∀ e, foreign (handler e) := by
    intro l hl handler hh
    obtain ⟨handler', hh', hf⟩ := hmore l hl
    cases hh'.symm.trans hh
    exact hf
  constructor
  · intro l hl
    rw [heq] at hl
    rcases List.mem_append.1 hl with hl | hl
    · exact (Array.getElem?_eq_some_iff.1 (hkept.handlers _ _
        (Array.getElem?_eq_getElem (h.valid l hl)))).1
    · obtain ⟨handler, hh, -⟩ := hmore l hl
      exact (Array.getElem?_eq_some_iff.1 hh).1
  · exact fun hnodup c hc ↦ h.returned_append hnodup hc heq hold fun l hl _ ↦ hforeign l hl
  · intro l hl handler hh
    rw [heq] at hl
    rcases List.mem_append.1 hl with hl | hl
    · exact h.others l hl handler ((hold l hl).symm.trans hh)
    · exact .inl (hforeign l hl handler hh)

/-- A new listener that writes back. -/
theorem listening (h : Wired job foreign backs w) (n : NodeId) (expr : String) :
    Wired job foreign (backs ++ [(n, expr)])
      (w.listening job n inputEvent (job.writing expr)) := by
  have hold : ∀ l ∈ w.scene.listeners,
      (w.code.handlers.push (job.writing expr))[l.handler]? = w.code.handlers[l.handler]? := by
    intro l hl
    rw [Array.getElem?_push, if_neg (Nat.ne_of_lt (h.valid l hl))]
  constructor
  · intro l hl
    show l.handler < (w.code.handlers.push (job.writing expr)).size
    rw [Array.size_push]
    rcases List.mem_append.1 hl with hl | hl
    · exact Nat.lt_succ_of_lt (h.valid l hl)
    · rw [List.mem_singleton.1 hl]
      exact Nat.lt_succ_self _
  · intro hnodup c hc
    rw [List.map_append, List.nodup_append] at hnodup
    obtain ⟨hnodup, -, hfresh⟩ := hnodup
    rcases List.mem_append.1 hc with hc | hc
    · refine h.returned_append hnodup hc rfl hold fun l hl hnode ↦ ?_
      rw [List.mem_singleton.1 hl] at hnode
      exact absurd hnode.symm (hfresh c.1 (List.mem_map_of_mem hc) n (by simp))
    · cases List.mem_singleton.1 hc
      refine ⟨w.scene.listeners, ⟨n, inputEvent, w.code.handlers.size⟩, [], rfl, rfl, rfl,
        Array.getElem?_push_size, fun l hl hnode hevent handler hh ↦ ?_⟩
      rw [List.append_nil] at hl
      rcases h.others l hl handler ((hold l hl).symm.trans hh) with hf | ⟨c, hc, hnode', -⟩
      · exact hf
      · exact absurd (hnode'.symm.trans hnode) (hfresh c.1 (List.mem_map_of_mem hc) n (by simp))
  · intro l hl handler hh
    rcases List.mem_append.1 hl with hl | hl
    · rcases h.others l hl handler ((hold l hl).symm.trans hh) with hf | ⟨c, hc, hrest⟩
      · exact .inl hf
      · exact .inr ⟨c, List.mem_append_left _ hc, hrest⟩
    · rw [List.mem_singleton.1 hl] at hh ⊢
      cases Array.getElem?_push_size.symm.trans hh
      exact .inr ⟨(n, expr), by simp, rfl, rfl, rfl⟩

end Wired

/-- A world in which the watchers of a template are as a compilation has made them. -/
structure Manned (job : CompileJob σ) (foreign : Action σ → Prop) (roster : List Post)
    (w : World σ) : Prop where
  order : ∃ marks, InOrder [] [] marks w
  aligned : w.code.reactions.size = w.scene.subscribers.size
  staffed : Staffed job foreign roster w
  current : ∀ q ∈ roster, q.Current job w

/-- Only watchers have been made. -/
structure World.Enlists (w w' : World σ) : Prop where
  document : w'.scene.document = w.scene.document
  listeners : w'.scene.listeners = w.scene.listeners
  handlers : w'.code.handlers = w.code.handlers
  contents : w'.scene.store.contents = w.scene.store.contents

namespace World.Enlists

theorem refl (w : World σ) : w.Enlists w := ⟨rfl, rfl, rfl, rfl⟩

theorem trans {w₀ w₁ w₂ : World σ} (h : w₀.Enlists w₁) (h' : w₁.Enlists w₂) : w₀.Enlists w₂ :=
  ⟨h'.document.trans h.document, h'.listeners.trans h.listeners, h'.handlers.trans h.handlers,
    h'.contents.trans h.contents⟩

end World.Enlists

/-! ## New watchers -/

section Joined

variable (w : World σ) (expr : String) (root : Value) (reaction : Value → Action σ) (v : Value)

theorem World.store_joined : (w.joined expr root reaction v).scene.store =
    (Store.evaluate w.scene.store.handles.size (Text.trim expr) root
      w.scene.store.newSubscriber.2).2 := by
  rw [World.joined, World.store_noting, World.evaluated, World.store_withStore, World.enrolled]

theorem World.enlists_joined : w.Enlists (w.joined expr root reaction v) where
  document := by rw [World.joined, World.noting, World.evaluated, World.withStore, World.enrolled]
  listeners := by rw [World.joined, World.noting, World.evaluated, World.withStore, World.enrolled]
  handlers := by rw [World.joined, World.noting, World.evaluated, World.withStore, World.enrolled]
  contents := by
    rw [World.store_joined, Store.contents_evaluate, Store.contents_newSubscriber]

/-- Everybody who was there before watches what it watched, and has observed what it had. -/
theorem World.watcher?_joined (halign : w.scene.subscribers.size = w.scene.store.handles.size)
    (id : SubscriberId) :
    (w.joined expr root reaction v).scene.watcher? id =
      if id = w.scene.store.handles.size then some ⟨Text.trim expr, root, v⟩
      else w.scene.watcher? id := by
  rw [World.joined, World.watcher?_noting]
  by_cases hid : id = w.scene.store.handles.size
  · rw [if_pos hid, if_pos hid, hid, World.evaluated, World.watcher?_withStore, ← halign,
      World.watcher?_enrolled_self]
    rfl
  · rw [if_neg hid, if_neg hid, World.evaluated, World.watcher?_withStore]
    exact w.watcher?_enrolled _ reaction (by rwa [halign])

theorem World.isLive_joined (id : SubscriberId) :
    (w.joined expr root reaction v).scene.store.isLive id = true ↔
      w.scene.store.isLive id = true ∨ id = w.scene.store.handles.size := by
  rw [World.store_joined, Store.isLive_congr (Store.handles_evaluate _ _ _ _),
    Store.isLive_newSubscriber]

theorem World.reactions_joined : (w.joined expr root reaction v).code.reactions =
    w.code.reactions.push reaction := rfl

end Joined

/-- **A new watcher takes up its post.** -/
theorem Staffed.joined {job : CompileJob σ} {foreign : Action σ → Prop} {roster : List Post}
    {w : World σ} (h : Staffed job foreign roster w)
    (halign : w.scene.subscribers.size = w.scene.store.handles.size)
    (hreactions : w.code.reactions.size = w.scene.store.handles.size) (b : Bond) (expr : String)
    (v : Value) :
    Staffed job foreign (roster ++ [⟨w.scene.store.handles.size, b, expr⟩])
      (w.joined expr job.state (b.reaction job) v) := by
  have hold : ∀ q ∈ roster, q.id ≠ w.scene.store.handles.size := fun q hq ↦
    Nat.ne_of_lt (Store.lt_of_isLive (h.held q hq).live)
  refine ⟨?_, fun q hq ↦ ?_, fun id reaction hid hr ↦ ?_⟩
  · rw [List.map_append, List.map_singleton, List.nodup_append]
    refine ⟨h.nodup, by simp, fun id hid id' hid' heq ↦ ?_⟩
    obtain ⟨q, hq, rfl⟩ := List.mem_map.1 hid
    exact hold q hq (heq.trans (List.mem_singleton.1 hid'))
  · rcases List.mem_append.1 hq with hq | hq
    · obtain ⟨hlive, hreaction, x, hx⟩ := h.held q hq
      refine ⟨(w.isLive_joined _ _ _ _ _).2 (.inl hlive), ?_, x, ?_⟩
      · rw [World.reactions_joined, Array.getElem?_push,
          if_neg (by rw [hreactions]; exact hold q hq)]
        exact hreaction
      · rw [w.watcher?_joined _ _ _ _ halign, if_neg (hold q hq)]
        exact hx
    · rw [List.mem_singleton.1 hq]
      refine ⟨(w.isLive_joined _ _ _ _ _).2 (.inr rfl), ?_, v, ?_⟩
      · rw [World.reactions_joined, Array.getElem?_push, if_pos hreactions.symm]
      · rw [w.watcher?_joined _ _ _ _ halign, if_pos rfl]
  · rw [World.reactions_joined, Array.getElem?_push] at hr
    split at hr
    · rename_i heq
      exact absurd (heq.trans hreactions).symm
        (hid ⟨w.scene.store.handles.size, b, expr⟩ (by simp))
    · exact h.others id reaction (fun q hq ↦ hid q (List.mem_append_left _ hq)) hr

namespace Manned

variable {job : CompileJob σ} {foreign : Action σ → Prop} {roster : List Post} {w w' : World σ}

/-- Changes of the rest of the scene. -/
theorem of_store_eq (h : Manned job foreign roster w)
    (hsubs : w'.scene.subscribers = w.scene.subscribers)
    (hstore : w'.scene.store = w.scene.store) (hcode : w'.code.reactions = w.code.reactions) :
    Manned job foreign roster w' where
  order := by
    obtain ⟨marks, horder⟩ := h.order
    exact ⟨marks, horder.of_store_eq hsubs hstore⟩
  aligned := by rw [hcode, hsubs, h.aligned]
  staffed := h.staffed.of_handles_eq hsubs (by rw [hstore]) hcode
  current q hq x v hx hv := by
    rw [Scene.watcher?, hsubs] at hx
    rw [hstore] at hv
    exact h.current q hq x v hx hv

/-- A new watcher that has taken up its post has observed what its expression gives. -/
theorem joined (h : Manned job foreign roster w)
    (hroot : job.state.Within w.scene.store.objects.size) (b : Bond) {expr : String} {v : Value}
    (hv : w.scene.store.resolve expr job.state = .ok v) :
    Manned job foreign (roster ++ [⟨w.scene.store.handles.size, b, expr⟩])
      (w.joined expr job.state (b.reaction job) v) := by
  obtain ⟨marks, horder⟩ := h.order
  have halign := horder.size_subscribers
  have hwatch : Notification.watch expr job.state (b.reaction job) w
      = some (.ok w.scene.store.handles.size, w.joined expr job.state (b.reaction job) v) := by
    simp only [Notification.watch_eq, Store.resolve_trim, hv]
    rfl
  have hcov : Covered (Chronicle.ofWatch job.state w) := by
    rw [Chronicle.ofWatch, if_pos hroot]
    simp [Covered, Mark.isCovered]
  refine ⟨⟨_, (Notification.watch_carries horder hwatch hcov).inOrder⟩, ?_,
    h.staffed.joined halign (h.aligned.trans halign) b expr v, fun q hq x u hx hu ↦ ?_⟩
  · rw [World.reactions_joined, Array.size_push, h.aligned]
    show _ = (Array.modify (w.scene.subscribers.push _) _ _).size
    rw [Array.size_modify, Array.size_push]
  · rw [Store.resolve_of_contents (w.enlists_joined ..).contents] at hu
    rw [w.watcher?_joined _ _ _ _ halign] at hx
    rcases List.mem_append.1 hq with hq | hq
    · have hold := Nat.ne_of_lt (Store.lt_of_isLive (h.staffed.held q hq).live)
      rw [if_neg hold] at hx
      exact h.current q hq x u hx hu
    · rw [List.mem_singleton.1 hq] at hx hu
      rw [if_pos rfl] at hx
      cases hx
      cases hv.symm.trans hu
      exact .refl _

end Manned

namespace Compilation

variable {job : CompileJob σ} {foreign : Action σ → Prop} {roster : List Post}
  {p p' : Progress} {w w' : World σ} {u : Unit}

theorem forM_cons_succeeds {f : String → Compilation σ Unit} {expr : String} {rest : List String} :
    ((expr :: rest).forM f).Succeeds p w u p' w' ↔
      ∃ p₁ w₁, (f expr).Succeeds p w () p₁ w₁ ∧ (rest.forM f).Succeeds p₁ w₁ u p' w' := by
  show (f expr >>= fun _ ↦ rest.forM f).Succeeds p w u p' w' ↔ _
  rw [succeeds_bind]
  exact ⟨fun ⟨_, h⟩ ↦ h, fun h ↦ ⟨(), h⟩⟩

/-- Watching the expressions of a bond makes a post for each of them. -/
theorem watchers_manned (h : Manned job foreign roster w)
    (hroot : job.state.Within w.scene.store.objects.size) (b : Bond) {exprs : List String}
    (hrun : (exprs.forM fun expr ↦ watch job expr (b.reaction job)).Succeeds p w u p' w') :
    ∃ more : List Post, Manned job foreign (roster ++ more) w' ∧ w.Enlists w' ∧
      p' = { p with scope := p.scope ++ more.map Post.id } ∧
      more.map (fun q ↦ (q.bond, q.expr)) = exprs.map fun expr ↦ (b, expr) := by
  induction exprs generalizing roster p w with
  | nil =>
    obtain ⟨-, rfl, rfl⟩ := succeeds_pure.1 hrun
    exact ⟨[], by rwa [List.append_nil], .refl _, by simp, rfl⟩
  | cons expr rest ih =>
    obtain ⟨p₁, w₁, hfirst, hrest⟩ := forM_cons_succeeds.1 hrun
    obtain ⟨v, hv, rfl, rfl⟩ := watch_succeeds.1 hfirst
    have henlists := w.enlists_joined expr job.state (b.reaction job) v
    have hsize := congrArg Array.size henlists.contents
    rw [Store.size_contents, Store.size_contents] at hsize
    obtain ⟨more, hmanned, henlists', hp, hduties⟩ :=
      ih (h.joined hroot b hv) (by rwa [hsize]) hrest
    refine ⟨⟨w.scene.store.handles.size, b, expr⟩ :: more, ?_, henlists.trans henlists', ?_, ?_⟩
    · rwa [List.append_assoc] at hmanned
    · rw [hp]
      simp
    · rw [List.map_cons, hduties, List.map_cons]

/-- When all expressions have values, their watchers can be made. -/
theorem watchers_succeed (job : CompileJob σ) (b : Bond) {exprs : List String} (p : Progress)
    {w : World σ}
    (hvalues : ∀ expr ∈ exprs, ∃ v, w.scene.store.resolve expr job.state = .ok v) :
    ∃ p' w', (exprs.forM fun expr ↦ watch job expr (b.reaction job)).Succeeds p w () p' w' := by
  induction exprs generalizing p w with
  | nil => exact ⟨p, w, succeeds_pure.2 ⟨rfl, rfl, rfl⟩⟩
  | cons expr rest ih =>
    obtain ⟨v, hv⟩ := hvalues expr (by simp)
    obtain ⟨p', w', hrest⟩ := ih { p with scope := p.scope ++ [w.scene.store.handles.size] }
      (w := w.joined expr job.state (b.reaction job) v) fun expr' hmem ↦ by
        rw [Store.resolve_of_contents (w.enlists_joined _ _ _ _).contents]
        exact hvalues expr' (by simp [hmem])
    exact ⟨p', w', forM_cons_succeeds.2 ⟨_, _, watch_succeeds.2 ⟨v, hv, rfl, rfl⟩, hrest⟩⟩

end Compilation

/-! ## A compilation under way -/

namespace Bond

/-- The text that a bond shows; nothing when it has none. -/
def shown (s : Store) (root : Value) (b : Bond) : String :=
  match b.text s root with
  | .ok text => text
  | .error _ => ""

theorem shown_of_text {s : Store} {root : Value} {b : Bond} {text : String}
    (h : b.text s root = .ok text) : b.shown s root = text := by
  rw [shown, h]

theorem text_of_contents {s t : Store} (h : t.contents = s.contents) (root : Value) (b : Bond) :
    b.text t root = b.text s root := by
  cases b with
  | value n slot expr =>
    rw [text, text, Store.resolve_of_contents h]
    exact congrArg (Except.map · _) (funext fun v ↦ Store.display_congr h v)
  | template n template => exact Store.filled_of_contents h template root

theorem exists_error {s : Store} {root : Value} {b : Bond}
    (h : ¬∃ text, b.text s root = .ok text) : ∃ e, b.text s root = .error e := by
  cases hb : b.text s root with
  | ok text => exact absurd ⟨text, hb⟩ h
  | error e => exact ⟨e, rfl⟩

/-- Whoever has a text has a value for every expression. -/
theorem resolve_of_text {s : Store} {root : Value} {b : Bond} {text : String}
    (h : b.text s root = .ok text) {expr : String} (hexpr : expr ∈ b.exprs) :
    ∃ v, s.resolve expr root = .ok v := by
  cases b with
  | value n slot e =>
    rw [exprs, List.mem_singleton] at hexpr
    subst hexpr
    rw [Bond.text] at h
    cases hv : s.resolve expr root with
    | error e =>
      rw [hv] at h
      cases h
    | ok v => exact ⟨v, rfl⟩
  | template n template => exact (s.filled_isOk_iff template root).1 ⟨text, h⟩ expr hexpr

/-- A bond has a text when all its expressions have values. -/
theorem exists_text {s : Store} {root : Value} {b : Bond}
    (h : ∀ expr ∈ b.exprs, ∃ v, s.resolve expr root = .ok v) :
    ∃ text, b.text s root = .ok text := by
  cases b with
  | value n slot e =>
    obtain ⟨v, hv⟩ := h e (by simp [exprs])
    exact ⟨s.display v, by rw [text, hv]; rfl⟩
  | template n template => exact (s.filled_isOk_iff template root).2 h

end Bond

namespace Errand

/-- The watchers that an errand makes: for each, its bond and its expression. -/
def duties (e : Errand) : List (Bond × String) :=
  match e.bond? with
  | none => []
  | some b => b.exprs.map fun expr ↦ (b, expr)

/-- The duties of an errand are those of its bond. -/
theorem mem_duties {err : Errand} {b : Bond} {expr : String} :
    (b, expr) ∈ err.duties ↔ err.bond? = some b ∧ expr ∈ b.exprs := by
  rw [duties]
  cases err.bond? with
  | none => simp
  | some b' =>
    rw [List.mem_map, Option.some.injEq]
    constructor
    · rintro ⟨expr', hexpr, heq⟩
      cases heq
      exact ⟨rfl, hexpr⟩
    · rintro ⟨rfl, hexpr⟩
      exact ⟨expr, hexpr, rfl⟩

/-- The path to which an errand has the entered values of a node written back. -/
def back? : Errand → Option (NodeId × String)
  | .bind n (.writeBack expr) => some (n, expr)
  | _ => none

/-- Whether an errand is refused. -/
def isRefused : Errand → Bool
  | .bind _ (.refuse _) => true
  | _ => false

end Errand

/-- What there is when errands have been done, beginning with a document and a store. -/
structure Underway (job : CompileJob σ) (foreign : Action σ → Prop) (d : Document) (s : Store)
    (roster : List Post) (done : List Errand) (p : Progress) (w : World σ) : Prop where
  manned : Manned job foreign roster w
  wired : Wired job foreign (done.filterMap Errand.back?) w
  rooted : job.state.Within s.objects.size
  scope : p.scope = roster.map Post.id
  duties : roster.map (fun q ↦ (q.bond, q.expr)) = done.flatMap Errand.duties
  contents : w.scene.store.contents = s.contents
  document : w.scene.document = Errand.painted (Bond.shown s job.state) d done
  texts : ∀ e ∈ done, ∀ b, e.bond? = some b → ∃ text, b.text s job.state = .ok text
  accepted : ∀ e ∈ done, e.isRefused = false

namespace Underway

variable {job : CompileJob σ} {foreign : Action σ → Prop} {d : Document} {s : Store}
  {roster : List Post} {done : List Errand} {call : Call σ} {methods : String → Event → Action σ}
  {p p' : Progress} {w w' : World σ}

theorem idle (h : Underway job foreign d s roster done p w) : w.scene.store.tracking = [] := by
  obtain ⟨marks, horder⟩ := h.manned.order
  exact horder.idle

theorem within (h : Underway job foreign d s roster done p w) :
    job.state.Within w.scene.store.objects.size := by
  have hsize := congrArg Array.size h.contents
  rw [Store.size_contents, Store.size_contents] at hsize
  rw [hsize]
  exact h.rooted

/-- An errand without a bond has made nobody. -/
theorem unbonded (h : Underway job foreign d s roster done p w) {e : Errand}
    (hbond : e.bond? = none) (haccepted : e.isRefused = false)
    (hmanned : Manned job foreign roster w')
    (hwired : Wired job foreign ((done ++ [e]).filterMap Errand.back?) w')
    (hcontents : w'.scene.store.contents = w.scene.store.contents)
    (hdocument : w'.scene.document = e.apply (Bond.shown s job.state) w.scene.document)
    (hscope : p'.scope = p.scope) : Underway job foreign d s roster (done ++ [e]) p' w' where
  manned := hmanned
  wired := hwired
  rooted := h.rooted
  scope := hscope.trans h.scope
  duties := by
    rw [List.flatMap_append, List.flatMap_singleton, Errand.duties, hbond, List.append_nil]
    exact h.duties
  contents := hcontents.trans h.contents
  document := by
    rw [hdocument, h.document, Errand.painted, Errand.painted, List.foldl_append]
    rfl
  texts e' he' b hb := by
    rcases List.mem_append.1 he' with he' | he'
    · exact h.texts e' he' b hb
    · rw [List.mem_singleton.1 he', hbond] at hb
      cases hb
  accepted := List.forall_mem_append.2 ⟨h.accepted, by simpa using haccepted⟩

/-- An errand that makes neither watchers nor listeners. -/
theorem plain (h : Underway job foreign d s roster done p w) {e : Errand} (hbond : e.bond? = none)
    (hback : e.back? = none) (haccepted : e.isRefused = false)
    (hsubs : w'.scene.subscribers = w.scene.subscribers) (hstore : w'.scene.store = w.scene.store)
    (hcode : w'.code = w.code) (hlisteners : w'.scene.listeners = w.scene.listeners)
    (hdocument : w'.scene.document = e.apply (Bond.shown s job.state) w.scene.document)
    (hscope : p'.scope = p.scope) :
    Underway job foreign d s roster (done ++ [e]) p' w' := by
  refine h.unbonded hbond haccepted (h.manned.of_store_eq hsubs hstore (by rw [hcode])) ?_
    (by rw [hstore]) hdocument hscope
  rw [List.filterMap_append, List.filterMap_cons, hback, List.filterMap_nil, List.append_nil]
  exact h.wired.kept (.of_eq hlisteners (by rw [hcode]))

/-- A new listener. -/
theorem listen (h : Underway job foreign d s roster done p w) {e : Errand} (hbond : e.bond? = none)
    (haccepted : e.isRefused = false) (hdocument : ∀ shown d, e.apply shown d = d) {n : NodeId}
    {event : String} {handler : Event → Action σ}
    (hhandler : (e.back? = none ∧ ∀ event, foreign (handler event)) ∨
      ∃ expr, e.back? = some (n, expr) ∧ event = inputEvent ∧ handler = job.writing expr) :
    Underway job foreign d s roster (done ++ [e]) p (w.listening job n event handler) := by
  refine h.unbonded hbond haccepted (h.manned.of_store_eq rfl rfl rfl) ?_
    rfl (hdocument _ _).symm rfl
  rw [List.filterMap_append, List.filterMap_cons]
  rcases hhandler with ⟨hback, hforeign⟩ | ⟨expr, hback, rfl, rfl⟩
  · rw [hback, List.filterMap_nil, List.append_nil]
    exact h.wired.kept (.listening w job n event hforeign)
  · rw [hback]
    exact h.wired.listening n expr

/-- A new bond. -/
theorem bond (h : Underway job foreign d s roster done p w) {n : NodeId} {binding : Binding}
    {b : Bond} (hb : binding.bond? n = some b)
    (hrun : (Compilation.perform call job methods (.bind n binding)).Succeeds p w () p' w') :
    ∃ more, Underway job foreign d s (roster ++ more) (done ++ [.bind n binding]) p' w' := by
  obtain ⟨text, htext, hrun⟩ := (Compilation.bind_succeeds hb h.idle).1 hrun
  rw [Bond.text_of_contents h.contents] at htext
  obtain ⟨more, hmanned, henlists, hp, hduties⟩ := Compilation.watchers_manned
    (w := w.presenting job b.node b.slot text) (h.manned.of_store_eq rfl rfl rfl) h.within b hrun
  have hback : (Errand.bind n binding).back? = none := by
    cases binding <;> first | rfl | cases hb
  have haccepted : (Errand.bind n binding).isRefused = false := by
    cases binding <;> first | rfl | cases hb
  refine ⟨more, hmanned, ?_, h.rooted, ?_, ?_, ?_, ?_, fun e' he' b' hb' ↦ ?_,
    List.forall_mem_append.2 ⟨h.accepted, by simpa using haccepted⟩⟩
  · rw [List.filterMap_append, List.filterMap_cons, hback, List.filterMap_nil, List.append_nil]
    exact ⟨by rw [henlists.listeners, henlists.handlers]; exact h.wired.valid,
      by rw [henlists.listeners, henlists.handlers]; exact h.wired.returned,
      by rw [henlists.listeners, henlists.handlers]; exact h.wired.others⟩
  · rw [hp, List.map_append, h.scope]
  · rw [List.map_append, h.duties, hduties, List.flatMap_append, List.flatMap_singleton,
      Errand.duties, Errand.bond?, hb]
  · exact henlists.contents.trans h.contents
  · rw [henlists.document, Errand.painted, List.foldl_append, List.foldl_cons, List.foldl_nil,
      Errand.apply_of_bond (show (Errand.bind n binding).bond? = some b from hb),
      Bond.shown_of_text htext]
    show w.scene.document.apply (b.edit text) = _
    rw [h.document, Errand.painted]
  · rcases List.mem_append.1 he' with he' | he'
    · exact h.texts e' he' b' hb'
    · rw [List.mem_singleton.1 he', Errand.bond?, hb] at hb'
      cases hb'
      exact ⟨text, htext⟩

/-- **One errand.** -/
theorem perform (h : Underway job foreign d s roster done p w) {e : Errand}
    (hsilent : e.isCall = false)
    (hmethods : ∀ name event, foreign (methods name event))
    (hrun : (Compilation.perform call job methods e).Succeeds p w () p' w') :
    ∃ more, Underway job foreign d s (roster ++ more) (done ++ [e]) p' w' := by
  cases e with
  | count f =>
    obtain ⟨rfl, rfl⟩ := Compilation.succeeds_count.1 hrun
    refine ⟨[], ?_⟩
    rw [List.append_nil]
    exact h.plain rfl rfl rfl rfl rfl rfl rfl rfl rfl
  | strip n name =>
    obtain ⟨hrun, rfl⟩ := Compilation.succeeds_lift.1 hrun
    cases hrun
    refine ⟨[], ?_⟩
    rw [List.append_nil]
    exact h.plain rfl rfl rfl rfl rfl rfl rfl rfl rfl
  | bind n b =>
    cases b with
    | fixed slot text =>
      obtain ⟨rfl, rfl⟩ := Compilation.present_succeeds.1 hrun
      refine ⟨[], ?_⟩
      rw [List.append_nil]
      exact h.plain rfl rfl rfl rfl rfl rfl rfl rfl rfl
    | live slot expr => exact h.bond rfl hrun
    | template text => exact h.bond rfl hrun
    | writeBack expr =>
      obtain ⟨rfl, rfl⟩ := Compilation.listen_succeeds.1 hrun
      refine ⟨[], ?_⟩
      rw [List.append_nil]
      exact h.listen rfl rfl (fun _ _ ↦ rfl) (.inr ⟨expr, rfl, rfl, rfl⟩)
    | listen event method =>
      obtain ⟨rfl, rfl⟩ := Compilation.listen_succeeds.1 hrun
      refine ⟨[], ?_⟩
      rw [List.append_nil]
      exact h.listen rfl rfl (fun _ _ ↦ rfl) (.inl ⟨rfl, hmethods method⟩)
    | call method event value => cases hsilent
    | refuse e => exact absurd hrun Compilation.not_succeeds_refuse

/-- **Errands in turn.** -/
theorem performAll (h : Underway job foreign d s roster done p w) {es : List Errand}
    (hsilent : ∀ e ∈ es, e.isCall = false)
    (hmethods : ∀ name event, foreign (methods name event))
    (hrun : (Compilation.performAll call job methods es).Succeeds p w () p' w') :
    ∃ more, Underway job foreign d s (roster ++ more) (done ++ es) p' w' := by
  induction es generalizing roster done p w with
  | nil =>
    obtain ⟨rfl, rfl⟩ := Compilation.performAll_nil.1 hrun
    exact ⟨[], by rwa [List.append_nil, List.append_nil]⟩
  | cons e es ih =>
    obtain ⟨p₁, w₁, hfirst, hrest⟩ := Compilation.performAll_cons.1 hrun
    obtain ⟨more, h₁⟩ := h.perform (hsilent e (by simp)) hmethods hfirst
    obtain ⟨more', h'⟩ := ih h₁ (fun e' he' ↦ hsilent e' (by simp [he'])) hrest
    refine ⟨more ++ more', ?_⟩
    rwa [List.append_assoc, List.append_assoc] at h'

/-- **Errands whose bonds have texts can be done.** -/
theorem exists_performAll (h : Underway job foreign d s roster done p w) (call : Call σ)
    {es : List Errand}
    (hsilent : ∀ e ∈ es, e.isCall = false) (haccepted : ∀ e ∈ es, e.isRefused = false)
    (hmethods : ∀ name event, foreign (methods name event))
    (htexts : ∀ e ∈ es, ∀ b, e.bond? = some b → ∃ text, b.text s job.state = .ok text) :
    ∃ p' w', (Compilation.performAll call job methods es).Succeeds p w () p' w' := by
  induction es generalizing roster done p w with
  | nil => exact ⟨p, w, Compilation.performAll_nil.2 ⟨rfl, rfl⟩⟩
  | cons e es ih =>
    have hfirst : ∃ p₁ w₁, (Compilation.perform call job methods e).Succeeds p w () p₁ w₁ := by
      have hbond : ∀ {n : NodeId} {binding : Binding} {b : Bond}, e = .bind n binding →
          binding.bond? n = some b →
          ∃ p₁ w₁, (Compilation.bind call job methods n binding).Succeeds p w () p₁ w₁ := by
        intro n binding b he hb
        obtain ⟨text, htext⟩ := htexts e (by simp) b (by rw [he]; exact hb)
        obtain ⟨p₁, w₁, hwatch⟩ := Compilation.watchers_succeed job b p
          (w := w.presenting job b.node b.slot text) fun expr hexpr ↦ by
            obtain ⟨v, hv⟩ := Bond.resolve_of_text htext hexpr
            exact ⟨v, (Store.resolve_of_contents h.contents _ _).trans hv⟩
        rw [← Bond.text_of_contents h.contents] at htext
        exact ⟨p₁, w₁, (Compilation.bind_succeeds hb h.idle).2 ⟨text, htext, hwatch⟩⟩
      cases e with
      | count f => exact ⟨_, _, Compilation.succeeds_count.2 ⟨rfl, rfl⟩⟩
      | strip n name => exact ⟨_, _, Compilation.succeeds_lift.2 ⟨rfl, rfl⟩⟩
      | bind n b =>
        cases b with
        | fixed slot text => exact ⟨_, _, Compilation.present_succeeds.2 ⟨rfl, rfl⟩⟩
        | live slot expr => exact hbond rfl rfl
        | template text => exact hbond rfl rfl
        | writeBack expr => exact ⟨_, _, Compilation.listen_succeeds.2 ⟨rfl, rfl⟩⟩
        | listen event method => exact ⟨_, _, Compilation.listen_succeeds.2 ⟨rfl, rfl⟩⟩
        | call method event value => cases hsilent _ List.mem_cons_self
        | refuse r => cases haccepted _ List.mem_cons_self
    obtain ⟨p₁, w₁, hfirst⟩ := hfirst
    obtain ⟨more, h₁⟩ := h.perform (hsilent e (by simp)) hmethods hfirst
    obtain ⟨p', w', hrest⟩ := ih h₁ (fun e' he' ↦ hsilent e' (by simp [he']))
      (fun e' he' ↦ haccepted e' (by simp [he'])) fun e' he' ↦ htexts e' (by simp [he'])
    exact ⟨p', w', Compilation.performAll_cons.2 ⟨p₁, w₁, hfirst, hrest⟩⟩

end Underway

end DataBinding

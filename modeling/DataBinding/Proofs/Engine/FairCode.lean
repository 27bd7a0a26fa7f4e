import DataBinding.Proofs.Engine.LostSubscribers
import DataBinding.Proofs.State.Assignment
import DataBinding.Proofs.State.Subscription

/-!
# The course of fair code

Handles are not made out of nothing.  Code is *fair* if it takes a further handle on a subscriber,
tracks it or updates it only while the subscriber is alive, and gives back only handles that neither
a running fan-out nor the tracking stack needs (`Moment.fair`).  Code that goes about its business
with handles that it has got is fair.  What is looked at here is code about state, subscribers,
events and the document; compiling templates and dealing with view-models, which have handles of
their own, is left out.

Fan-outs and evaluations can then rely on the handles that they hold (`Store.Holding`).  So the
store only changes by operations on subscribers that are alive, or by giving handles back, and **a
relation that holds from before to after each of these operations** (`Store.Orderly`) **holds
between any two moments of a run** (`flows_run`), an earlier and a later one, however deeply the
code is nested.
-/

set_option autoImplicit false

namespace DataBinding

variable {σ : Type}

/-! ## Fair code -/

namespace Action

/-- Whether the code does something else than to compile or to deal with view-models. -/
def isPlain : Action σ → Bool
  | .compile .. | .openViewModel .. | .retainViewModel .. | .releaseViewModel .. | .invoke .. =>
    false
  | _ => true

/-- Whom the code gives a handle back on. -/
def gives : Action σ → List SubscriberId
  | .release id _ => [id]
  | _ => []

end Action

/-- The code uses handles on subscribers that are alive, and gives back what nobody else needs. -/
def Moment.fair : Moment σ → Bool
  | .step held a s =>
    a.isPlain && a.seizes.all s.store.isLive &&
      a.gives.all fun id ↦ decide ((held ++ s.store.tracking).count id < s.store.holders id)
  | .called _ => true

theorem Moment.fair_step {held : List SubscriberId} {a : Action σ} {s : Scene σ} :
    (Moment.step held a s).fair = true ↔ a.isPlain = true ∧
      (∀ id ∈ a.seizes, s.store.isLive id = true) ∧
      ∀ id ∈ a.gives, (held ++ s.store.tracking).count id < s.store.holders id := by
  simp only [fair, Bool.and_eq_true, List.all_eq_true, decide_eq_true_eq, and_assoc]

/-! ## Handles that can be relied on -/

namespace Store

variable {s t : Store} {held ids : List SubscriberId} {id : SubscriberId}

/-- Everybody is held as often as the fan-outs and the tracking stack need. -/
def Holding (held : List SubscriberId) (s : Store) : Prop :=
  ∀ id, (held ++ s.tracking).count id ≤ s.holders id

namespace Holding

/-- Whoever is alive is held once at least. -/
theorem singleton (hidle : s.tracking = []) (hlive : s.isLive id = true) :
    s.Holding [id] := fun id' ↦ by
  rw [hidle, List.append_nil, List.count_singleton]
  split
  · rename_i hid
    rw [← beq_iff_eq.1 hid]
    exact (isLive_iff_holders ..).1 hlive
  · exact Nat.zero_le _

theorem of_handles (h : s.Holding held) (hhandles : t.handles = s.handles)
    (htracking : t.tracking = s.tracking) : t.Holding held := by
  intro id
  rw [htracking, holders, hhandles]
  exact h id

theorem isLive (h : s.Holding held) (hid : id ∈ held ++ s.tracking) : s.isLive id = true := by
  rw [isLive_iff_holders]
  exact Nat.lt_of_lt_of_le (List.count_pos_iff.2 hid) (h id)

theorem isLive_of_head (h : s.Holding held) {rest : List SubscriberId}
    (htop : s.tracking = id :: rest) :
    s.isLive id = true :=
  h.isLive (by simp [htop])

theorem retain (h : s.Holding held) (hlive : s.isLive id = true) :
    (s.retain id).Holding (id :: held) := by
  intro id'
  rw [List.cons_append, List.count_cons]
  show (held ++ s.tracking).count id' + _ ≤ _
  have hold := h id'
  by_cases hid : id' < s.handles.size
  · rw [holders_retain hid]
    simp only [beq_iff_eq]
    omega
  · have hne : id ≠ id' := fun heq ↦ hid (heq ▸ lt_of_isLive hlive)
    have hzero : s.holders id' = 0 := by
      rw [holders, Array.getD_eq_getD_getElem?, Array.getElem?_eq_none (Nat.le_of_not_lt hid)]
      rfl
    simp only [beq_iff_eq, if_neg hne]
    omega

theorem of_cons (h : s.Holding (id :: held)) : s.Holding held := by
  intro id'
  have hcons := h id'
  rw [List.cons_append, List.count_cons] at hcons
  omega

/-- A handle that is not needed any more is given back. -/
theorem release (h : s.Holding (id :: held)) : (s.release id).Holding held := by
  intro id'
  have hcons := h id'
  rw [List.cons_append, List.count_cons] at hcons
  simp only [beq_iff_eq] at hcons
  rw [holders_release, tracking_release]
  omega

/-- A handle that nobody needs is given back. -/
theorem give (h : s.Holding held) (hspare : (held ++ s.tracking).count id < s.holders id) :
    (s.release id).Holding held := by
  refine release fun id' ↦ ?_
  rw [List.cons_append, List.count_cons]
  by_cases heq : id' = id
  · subst heq
    rw [beq_self_eq_true, if_pos rfl]
    exact hspare
  · simpa [Ne.symm heq] using h id'

theorem track (h : s.Holding held) (hlive : s.isLive id = true) : (s.track id).Holding held := by
  intro id'
  have hcons := h.retain hlive id'
  have hperm : (held ++ id :: s.tracking).count id' = (id :: held ++ s.tracking).count id' :=
    List.perm_middle.count_eq id'
  exact Nat.le_trans (Nat.le_of_eq hperm) hcons

theorem untrack (h : s.Holding held) : s.untrack.Holding held := by
  rw [Store.untrack]
  cases htop : s.tracking with
  | nil => exact h
  | cons id rest =>
    have hmoved : Holding (id :: held) { s with tracking := rest } := by
      intro id'
      have hold := h id'
      rw [htop] at hold
      exact Nat.le_trans (Nat.le_of_eq (List.perm_middle.count_eq id').symm) hold
    exact hmoved.release

theorem retainAll (h : s.Holding held) (hids : ∀ id ∈ ids, s.isLive id = true) :
    (ids.foldl Store.retain s).Holding (ids ++ held) := by
  induction ids generalizing s held with
  | nil => exact h
  | cons id ids ih =>
    have hlive : ∀ id' ∈ ids, (s.retain id).isLive id' = true := fun id' hid' ↦
      isLive_retain.2 (.inl (hids id' (.tail _ hid')))
    have hall := ih (h.retain (hids id (.head _))) hlive
    intro id'
    have hcount := hall id'
    rw [List.perm_middle.append_right _ |>.count_eq] at hcount
    exact hcount

end Holding

/-! ## What fair code does to the store -/

/-- A relation between stores that goes from before to after each operation of fair code. -/
structure Orderly (R : Store → Store → Prop) : Prop where
  refl (s : Store) : R s s
  trans {s t u : Store} (hst : R s t) (htu : R t u) : R s u
  observe (data : Json) (s : Store) : R s (observe data s).2
  get {s : Store} (o : ObjectId) (key : String)
    (h : ∀ id rest, s.tracking = id :: rest → s.isLive id = true) : R s (s.get o key).2
  write (s : Store) (o : ObjectId) (key : String) (v : Value) : R s (s.write o key v).2
  prune (s : Store) (o : ObjectId) (key : String) : R s (s.prune o key)
  newSubscriber (s : Store) : R s s.newSubscriber.2
  retain {s : Store} {id : SubscriberId} (h : s.isLive id = true) : R s (s.retain id)
  release (s : Store) (id : SubscriberId) : R s (s.release id)
  /-- The relation is not about who is evaluating. -/
  tracking (s : Store) (ids : List SubscriberId) : R s { s with tracking := ids }

namespace Orderly

variable {R : Store → Store → Prop} (hR : Orderly R)

include hR

theorem touch (hs : s.Holding held) (reads : List (ObjectId × String)) : R s (s.touch reads) := by
  induction reads generalizing s with
  | nil => exact hR.refl s
  | cons r rest ih =>
    have hget : (s.get r.1 r.2).2.Holding held :=
      hs.of_handles (handles_get s r.1 r.2) (tracking_get s r.1 r.2)
    exact hR.trans (hR.get r.1 r.2 fun _ _ htop ↦ hs.isLive_of_head htop) (ih hget)

theorem track (hlive : s.isLive id = true) : R s (s.track id) :=
  hR.trans (hR.retain hlive) (hR.tracking _ _)

theorem untrack (s : Store) : R s s.untrack := by
  rw [Store.untrack]
  cases s.tracking with
  | nil => exact hR.refl s
  | cons id rest => exact hR.trans (hR.release s id) (hR.tracking _ _)

theorem evaluate (hs : s.Holding held) (hlive : s.isLive id = true) (path : String) (root : Value) :
    R s (Store.evaluate id path root s).2 := by
  rw [evaluate_eq]
  exact hR.trans (hR.track hlive) (hR.trans (hR.touch (hs.track hlive) _) (hR.untrack _))

theorem retainAll (hids : ∀ id ∈ ids, s.isLive id = true) : R s (ids.foldl Store.retain s) := by
  induction ids generalizing s with
  | nil => exact hR.refl s
  | cons id ids ih =>
    refine hR.trans (hR.retain (hids id (.head _))) (ih fun id' hid' ↦ ?_)
    exact isLive_retain.2 (.inl (hids id' (.tail _ hid')))

end Orderly

end Store

/-! ## Related moments -/

/-- Code takes a step while the running fan-outs have what they need. -/
def Moment.Backed : Moment σ → Prop
  | .step held _ s => s.store.Holding held
  | .called _ => True

/-- The stores of the steps of a trace. -/
def Trace.stores : List (Moment σ) → List Store :=
  List.filterMap fun
    | .step _ _ s => some s.store
    | .called _ => none

theorem Trace.stores_append (trace more : List (Moment σ)) :
    stores (trace ++ more) = stores trace ++ stores more := List.filterMap_append

/-- The store has what running fan-outs need. -/
def World.Backed (held : List SubscriberId) (w : World σ) : Prop := w.scene.store.Holding held

/-- If a computation begins with `P` and its code is fair, the relation holds from each moment to
each later one, running fan-outs have what they need at each of them, and the computation ends with
`Q`. -/
structure Run.Flows {α : Type} (R : Store → Store → Prop) (P : World σ → Prop) (m : Run σ α)
    (t : World σ → List (Moment σ)) (Q : World σ → Prop) : Prop where
  flows : ∀ w, P w → (∀ x ∈ t w, x.fair = true) →
    (w.scene.store :: Trace.stores (t w)).Pairwise R ∧ (∀ x ∈ t w, x.Backed) ∧
      ∀ a w', m w = some (a, w') →
        Q w' ∧ (w.scene.store :: Trace.stores (t w) ++ [w'.scene.store]).Pairwise R

namespace Run.Flows

open Trace

variable {α β : Type} {R : Store → Store → Prop} {P P' Q S : World σ → Prop} {m : Run σ α}
  {t : World σ → List (Moment σ)}

/-- What comes before a store and what comes after it. -/
theorem pairwise_join (hR : Store.Orderly R) {before after : List Store} {s : Store}
    (hbefore : (before ++ [s]).Pairwise R) (hafter : (s :: after).Pairwise R) :
    (before ++ after).Pairwise R := by
  obtain ⟨hold, -, hlast⟩ := List.pairwise_append.1 hbefore
  obtain ⟨hfirst, hnew⟩ := List.pairwise_cons.1 hafter
  exact List.pairwise_append.2 ⟨hold, hnew, fun x hx y hy ↦
    hR.trans (hlast x hx s (List.mem_singleton_self s)) (hfirst y hy)⟩

/-- A computation in which no code is run. -/
theorem quiet (h : ∀ w a w', m w = some (a, w') → P w → R w.scene.store w'.scene.store ∧ Q w') :
    Flows R P m nothing Q := by
  refine ⟨fun w hw _ ↦ ⟨by simp [stores, nothing], by simp [nothing], fun a w' hrun ↦ ?_⟩⟩
  obtain ⟨hrel, hq⟩ := h w a w' hrun hw
  exact ⟨hq, by simpa [stores, nothing] using hrel⟩

protected theorem pure (hR : Store.Orderly R) (a : α) : Flows R P (pure a : Run σ α) nothing P :=
  quiet fun _ _ _ hrun hw ↦ by
    cases hrun
    exact ⟨hR.refl _, hw⟩

theorem bind (hR : Store.Orderly R) {f : α → Run σ β} {u : α → World σ → List (Moment σ)}
    (hm : Flows R P m t Q) (hf : ∀ a, Flows R Q (f a) (u a) S) :
    Flows R P (m >>= f) (fun w ↦ t w ++ following m u w) S := by
  refine ⟨fun w hw hfair ↦ ?_⟩
  obtain ⟨hfair, hfair'⟩ := List.forall_mem_append.1 hfair
  obtain ⟨hpair, hbacked, hend⟩ := hm.flows w hw hfair
  rw [stores_append, ← List.cons_append]
  cases hrun : m w with
  | none =>
    rw [following, hrun]
    refine ⟨by simpa [stores] using hpair, by simpa using hbacked, fun b w' hrun' ↦ ?_⟩
    obtain ⟨a, w₁, hrun₁, -⟩ := Run.bind_eq_some_iff.1 hrun'
    cases hrun.symm.trans hrun₁
  | some x =>
    rw [following, hrun] at hfair'
    obtain ⟨hq, hjoin⟩ := hend x.1 x.2 hrun
    obtain ⟨hpair', hbacked', hend'⟩ := (hf x.1).flows x.2 hq hfair'
    rw [following, hrun]
    refine ⟨pairwise_join hR hjoin hpair', List.forall_mem_append.2 ⟨hbacked, hbacked'⟩,
      fun b w' hrun' ↦ ?_⟩
    obtain ⟨a, w₁, hrun₁, hrun₂⟩ := Run.bind_eq_some_iff.1 hrun'
    cases hrun.symm.trans hrun₁
    obtain ⟨hs, hlast⟩ := hend' b w' hrun₂
    rw [List.append_assoc]
    exact ⟨hs, pairwise_join hR hjoin hlast⟩

/-- No code is run at first. -/
theorem quiet_bind (hR : Store.Orderly R) {f : α → Run σ β} {u : α → World σ → List (Moment σ)}
    (hm : ∀ w a w', m w = some (a, w') → P w → R w.scene.store w'.scene.store ∧ Q w')
    (hf : ∀ a, Flows R Q (f a) (u a) S) : Flows R P (m >>= f) (following m u) S :=
  (quiet hm).bind hR hf

/-- No code is run afterwards, and the store is left as it is. -/
theorem bind_quiet {f : α → Run σ β} (hm : Flows R P m t Q)
    (hf : ∀ a w b w', f a w = some (b, w') → w'.scene.store = w.scene.store ∧ (Q w → S w')) :
    Flows R P (m >>= f) t S := by
  refine ⟨fun w hw hfair ↦ ?_⟩
  obtain ⟨hpair, hbacked, hend⟩ := hm.flows w hw hfair
  refine ⟨hpair, hbacked, fun b w' hrun ↦ ?_⟩
  obtain ⟨a, w₁, hrun₁, hrun₂⟩ := Run.bind_eq_some_iff.1 hrun
  obtain ⟨hq, hlast⟩ := hend a w₁ hrun₁
  obtain ⟨hstore, hs⟩ := hf a w₁ b w' hrun₂
  rw [hstore]
  exact ⟨hs hq, hlast⟩

theorem imp (h : Flows R P m t Q) (hP : ∀ w, P' w → P w) : Flows R P' m t Q :=
  ⟨fun w hw ↦ h.flows w (hP w hw)⟩

section Steps

variable {a : Action σ} {held : List SubscriberId} {f : α → Run σ (Except BindError Unit)}
  {u : α → World σ → List (Moment σ)}

/-- A step of code, which is fair. -/
theorem step (hR : Store.Orderly R) {m : Run σ (Except BindError Unit)}
    (h : Flows R (fun w ↦ (Moment.step held a w.scene).fair = true ∧ w.Backed held) m t Q) :
    Flows R (World.Backed held) m (fun w ↦ .step held a w.scene :: t w) Q := by
  refine ⟨fun w hw hfair ↦ ?_⟩
  obtain ⟨hfirst, hrest⟩ := List.forall_mem_cons.1 hfair
  obtain ⟨hpair, hbacked, hend⟩ := h.flows w ⟨hfirst, hw⟩ hrest
  have hself : ∀ {xs : List Store}, (w.scene.store :: xs).Pairwise R →
      (w.scene.store :: w.scene.store :: xs).Pairwise R := fun hxs ↦
    List.pairwise_cons.2 ⟨List.forall_mem_cons.2 ⟨hR.refl _, (List.pairwise_cons.1 hxs).1⟩, hxs⟩
  refine ⟨hself hpair, List.forall_mem_cons.2 ⟨hw, hbacked⟩, fun b w' hrun ↦ ?_⟩
  obtain ⟨hq, hlast⟩ := hend b w' hrun
  exact ⟨hq, hself hlast⟩

/-- A step of code, and what code does after it. -/
theorem acting (hR : Store.Orderly R)
    (hm : Flows R (fun w ↦ (Moment.step held a w.scene).fair = true ∧ w.Backed held) m t
      (World.Backed held))
    (hf : ∀ x, Flows R (World.Backed held) (f x) (u x) Q) :
    Flows R (World.Backed held) (m >>= f)
      (fun w ↦ .step held a w.scene :: (t w ++ following m u w)) Q :=
  .step hR (hm.bind hR hf)

/-- A step of code that runs no other code. -/
theorem acting_quietly (hR : Store.Orderly R)
    (hm : ∀ w x w', m w = some (x, w') → (Moment.step held a w.scene).fair = true → w.Backed held →
      R w.scene.store w'.scene.store ∧ w'.Backed held)
    (hf : ∀ x, Flows R (World.Backed held) (f x) (u x) Q) :
    Flows R (World.Backed held) (m >>= f) (fun w ↦ .step held a w.scene :: following m u w) Q :=
  acting hR (.quiet fun w x w' hrun hw ↦ hm w x w' hrun hw.1 hw.2) hf

/-- Code that compiles or deals with view-models is not fair. -/
theorem of_not_plain (ha : a.isPlain = false) {m : Run σ β} :
    Flows R P m (fun w ↦ .step held a w.scene :: t w) Q := by
  refine ⟨fun w _ hfair ↦ ?_⟩
  have hplain := (Moment.fair_step.1 (List.forall_mem_cons.1 hfair).1).1
  cases ha.symm.trans hplain

end Steps

end Run.Flows

/-! ## The engine -/

section Frames

variable {R : Store → Store → Prop} {held held' : List SubscriberId} {w w' : World σ}

/-- Something done with the store. -/
theorem goes_onStore {α : Type} {f : Store → α × Store}
    (hf : ∀ s, s.Holding held → R s (f s).2 ∧ (f s).2.Holding held') (w : World σ) (a : α)
    (w' : World σ) (hrun : Run.onStore f w = some (a, w')) (hw : w.Backed held) :
    R w.scene.store w'.scene.store ∧ w'.Backed held' := by
  cases hrun
  exact hf w.scene.store hw

variable (hR : Store.Orderly R)

include hR

/-- A change of what is not the store. -/
theorem goes_of_store (hstore : w'.scene.store = w.scene.store) (hw : w.Backed held) :
    R w.scene.store w'.scene.store ∧ w'.Backed held := by
  rw [World.Backed, hstore]
  exact ⟨hR.refl _, hw⟩

theorem goes_touch {α : Type} {f : Store → α × Store}
    (hf : ∀ s, ∃ reads, (f s).2 = s.touch reads) :
    ∀ s, Store.Holding held s → R s (f s).2 ∧ (f s).2.Holding held := by
  intro s hs
  obtain ⟨reads, hreads⟩ := hf s
  rw [hreads]
  exact ⟨hR.touch hs reads, hs.of_handles (Store.handles_touch ..) (Store.tracking_touch ..)⟩

theorem goes_evaluate {id : SubscriberId} (hid : id ∈ held) (path : String) (root : Value) :
    ∀ s : Store, s.Holding held →
      R s (Store.evaluate id path root s).2 ∧ (Store.evaluate id path root s).2.Holding held :=
  fun _ hs ↦ ⟨hR.evaluate hs (hs.isLive (List.mem_append_left _ hid)) path root,
    hs.of_handles (Store.handles_evaluate ..) (Store.tracking_evaluate ..)⟩

theorem goes_evaluated {id : SubscriberId} (hid : id ∈ held) (x : Watcher) (hw : w.Backed held) :
    R w.scene.store (w.evaluated id x).scene.store ∧ (w.evaluated id x).Backed held :=
  goes_evaluate hR hid x.expr x.root w.scene.store hw

/-- Somebody new is held by the handle that is returned. -/
theorem goes_enrolled (s : Subscriber) (reaction : Value → Action σ) (hw : w.Backed held) :
    R w.scene.store (w.enrolled s reaction).scene.store ∧
      (w.enrolled s reaction).Backed (w.scene.store.handles.size :: held) := by
  refine ⟨hR.newSubscriber _, fun id ↦ ?_⟩
  show (_ :: held ++ w.scene.store.tracking).count id ≤ w.scene.store.newSubscriber.2.holders id
  rw [Store.holders_newSubscriber, List.cons_append, List.count_cons]
  simp only [beq_iff_eq]
  exact Nat.add_le_add_right (hw id) _

end Frames

namespace Notification

open Run Trace

variable {call : Call σ} {tell : Tell σ} {R : Store → Store → Prop} {held : List SubscriberId}
  (hR : Store.Orderly R)

include hR

/-- Making a watcher runs no code. -/
theorem goes_watch (expr : String) (root : Value) (reaction : Value → Action σ) (w : World σ)
    (r : Except StateError SubscriberId) (w' : World σ)
    (hrun : watch expr root reaction w = some (r, w')) (hw : w.Backed held) :
    R w.scene.store w'.scene.store ∧ w'.Backed held := by
  obtain ⟨hnew, hheld⟩ := goes_enrolled hR (.watcher ⟨Text.trim expr, root, .null⟩) reaction hw
  obtain ⟨hevaluated, hheld'⟩ := goes_evaluated hR List.mem_cons_self
    ⟨Text.trim expr, root, .null⟩ hheld
  have hrel := hR.trans hnew hevaluated
  have houtcome := watch_outcome hrun
  generalize (w.enrolled (.watcher ⟨Text.trim expr, root, .null⟩) reaction).evaluated
    w.scene.store.handles.size ⟨Text.trim expr, root, .null⟩ = w₁ at houtcome hrel hheld'
  cases houtcome with
  | unresolved _ => exact ⟨hR.trans hrel (hR.release _ _), hheld'.release⟩
  | observed _ => exact ⟨hrel, hheld'.of_cons⟩

variable (hcall : ∀ held a, Flows R (World.Backed held) (call a) (tell held a) (World.Backed held))

include hcall

theorem flows_react (id : SubscriberId) (v : Value) :
    Flows R (World.Backed held) (react call id v) (ofReact tell held id v) (World.Backed held) := by
  refine ⟨fun w hw hfair ↦ ?_⟩
  rw [ofReact] at hfair ⊢
  cases hreaction : w.code.reactions[id]? with
  | none =>
    refine ⟨by simp [stores], by simp, fun r w' hrun ↦ ?_⟩
    rcases react_eq_some hrun with ⟨-, -, rfl⟩ | ⟨reaction, result, hsome, -⟩
    · exact ⟨hw, by simpa [stores] using hR.refl _⟩
    · cases hreaction.symm.trans hsome
  | some reaction =>
    rw [hreaction] at hfair
    obtain ⟨hpair, hbacked, hend⟩ :=
      (hcall held (reaction v)).flows w hw (List.forall_mem_cons.1 hfair).2
    refine ⟨hpair, List.forall_mem_cons.2 ⟨trivial, hbacked⟩, fun r w' hrun ↦ ?_⟩
    rcases react_eq_some hrun with ⟨hnone, -, -⟩ | ⟨reaction', result, hsome, hcalled, -⟩
    · cases hreaction.symm.trans hnone
    · cases hreaction.symm.trans hsome
      exact hend result w' hcalled

theorem flows_update {id : SubscriberId} (hid : id ∈ held) :
    Flows R (World.Backed held) (update call id) (ofUpdate tell held id) (World.Backed held) := by
  refine ⟨fun w hw ↦ ?_⟩
  rw [update, Run.scene_bind, ofUpdate]
  cases w.scene.subscribers[id]? with
  | none => exact (Flows.pure hR _).flows w hw
  | some subscriber =>
    cases subscriber with
    | probe => exact (flows_react hR hcall id .null).flows w hw
    | watcher x =>
      refine (Flows.quiet_bind hR (goes_onStore (goes_evaluate hR hid x.expr x.root))
        fun r ↦ ?_).flows w hw
      cases r with
      | error e => exact .pure hR _
      | ok v =>
        show Flows R _ (if x.observed.identical v then _ else _)
          (if x.observed.identical v then nothing else ofReact tell held id v) _
        split
        · exact .pure hR _
        · refine .bind_quiet (flows_react hR hcall id v) fun r w a w' hrun ↦ ?_
          cases r <;> cases hrun <;> exact ⟨rfl, fun hw ↦ hw⟩

/-- **A fan-out** relies on the handles on those who wait for their turn. -/
theorem flows_updateAll (ids : List SubscriberId) :
    Flows R (World.Backed (ids ++ held)) (updateAll call ids) (ofUpdateAll call tell held ids)
      (World.Backed held) := by
  induction ids with
  | nil => exact .pure hR _
  | cons id rest ih =>
    have hreleased : ∀ (w : World σ) a w', editStore (Store.release · id) w = some (a, w') →
        w.Backed (id :: rest ++ held) →
          R w.scene.store w'.scene.store ∧ w'.Backed (rest ++ held) :=
      goes_onStore fun s hs ↦ ⟨hR.release s id, hs.release⟩
    have hwaiting : id ∈ id :: rest ++ held := List.mem_cons_self
    exact (flows_update hR hcall hwaiting).bind hR fun _ ↦ .quiet_bind hR hreleased fun _ ↦
      .bind_quiet ih fun _ _ _ _ hrun ↦ by
        cases hrun
        exact ⟨rfl, fun hw ↦ hw⟩

/-- **A fan-out begins** with everybody alive. -/
theorem flows_notify (ids : List SubscriberId) :
    Flows R (fun w ↦ (∀ id ∈ ids, w.scene.store.isLive id = true) ∧ w.Backed held) (notify call ids)
      (ofNotify call tell held ids) (World.Backed held) := by
  refine .quiet_bind hR (Q := World.Backed (ids ++ held)) (fun w a w' hrun hw ↦ ?_) fun _ ↦
    flows_updateAll hR hcall ids
  cases hrun
  exact ⟨hR.retainAll hw.1, hw.2.retainAll hw.1⟩

theorem flows_set (o : ObjectId) (key : String) (v : Value) :
    Flows R (World.Backed held) (set call o key v) (ofSet call tell held o key v)
      (World.Backed held) := by
  refine .quiet_bind hR (goes_onStore fun s hs ↦ ⟨hR.write s o key v,
    hs.of_handles Store.handles_write Store.tracking_write⟩) fun x ↦ ?_
  cases x with
  | defined | unchanged => exact .pure hR _
  | replaced =>
    refine ⟨fun w hw hfair ↦ ?_⟩
    have hpruned : ([w.scene.store] ++ [w.scene.store.prune o key]).Pairwise R := by
      simpa using hR.prune w.scene.store o key
    obtain ⟨hpair, hbacked, hend⟩ :=
      (flows_notify hR hcall (w.scene.store.liveSubscribers o key)).flows
      (w.withStore (w.scene.store.prune o key))
      ⟨fun _ ↦ Store.isLive_of_mem_liveSubscribers, hw.of_handles rfl rfl⟩ hfair
    have hjoined := Flows.pairwise_join hR hpruned hpair
    refine ⟨hjoined, hbacked, fun a w' hrun ↦ ?_⟩
    obtain ⟨hheld, hlast⟩ := hend a w' hrun
    have hjoined' := Flows.pairwise_join hR hpruned hlast
    exact ⟨hheld, hjoined'⟩

theorem flows_setPath (path : String) (root v : Value) :
    Flows R (World.Backed held) (setPath call path root v) (ofSetPath call tell held path root v)
      (World.Backed held) := by
  refine .quiet_bind hR (goes_onStore (goes_touch hR fun s ↦ ⟨_, by rw [Store.target_eq]⟩))
    fun x ↦ ?_
  cases x with
  | error e => exact .pure hR _
  | ok place => exact flows_set hR hcall ..

end Notification

/-! ## Code -/

section Code

open Run Trace

variable {call : Call σ} {tell : Tell σ} {R : Store → Store → Prop} {held : List SubscriberId}
  (hR : Store.Orderly R)
  (hcall : ∀ held a, Flows R (World.Backed held) (call a) (tell held a) (World.Backed held))

include hR hcall

theorem Dispatch.flows_callAll (event : Event) (handlers : List Nat) :
    Flows R (World.Backed held) (callAll call event handlers)
      (ofCallAll call tell held event handlers) (World.Backed held) := by
  induction handlers with
  | nil => exact .pure hR _
  | cons handler rest ih =>
    have hone : Flows R (World.Backed held) (callOne call event handler)
        (ofCall tell held event handler) (World.Backed held) := by
      refine ⟨fun w hw ↦ ?_⟩
      rw [callOne, Run.get_bind, ofCall]
      cases w.code.handlers[handler]? with
      | none => exact (Flows.pure hR _).flows w hw
      | some code => exact (hcall held (code event)).flows w hw
    rw [callAll]
    exact hone.bind hR fun _ ↦ .bind_quiet ih fun _ _ _ _ hrun ↦ by
      cases hrun
      exact ⟨rfl, fun hw ↦ hw⟩

theorem Dispatch.flows_fire (n : NodeId) (event : String) (v : Value) :
    Flows R (World.Backed held) (fire call n event v) (ofFire call tell held n event v)
      (World.Backed held) :=
  ⟨fun w hw ↦ (flows_callAll hR hcall ⟨n, event, v⟩ (w.scene.handlersFor n event)).flows w hw⟩

theorem flows_follow (limit : Nat) (a : Action σ) :
    Flows R (World.Backed held) (follow call limit a) (ofAction call tell limit held a)
      (World.Backed held) := by
  induction a with
  | done r =>
    exact .step hR (.quiet fun w x w' hrun hw ↦ by
      cases hrun
      exact ⟨hR.refl _, hw.2⟩)
  | inspect next ih => exact .step hR ⟨fun w hw hfair ↦ (ih w.scene).flows w hw.2 hfair⟩
  | modify f next ih =>
    exact .acting_quietly hR (fun w x w' hrun _ hw ↦ by
      cases hrun
      exact goes_of_store hR rfl hw) fun _ ↦ ih
  | observe data next ih =>
    refine .acting_quietly hR
      (fun w x w' hrun _ hw ↦ goes_onStore (fun s hs ↦ ?_) w x w' hrun hw) ih
    have hext := Store.extends_observe data s
    exact ⟨hR.observe data s, hs.of_handles hext.handles hext.tracking⟩
  | get o key next ih =>
    refine .acting_quietly hR
      (fun w x w' hrun _ hw ↦ goes_onStore (fun s hs ↦ ?_) w x w' hrun hw) ih
    exact ⟨hR.get o key fun _ _ htop ↦ hs.isLive_of_head htop,
      hs.of_handles (Store.handles_get ..) (Store.tracking_get ..)⟩
  | getPath path root next ih =>
    have hreads : ∀ s : Store, ∃ reads, (Store.getValue path root s).2 = s.touch reads := fun s ↦
      ⟨_, by rw [Store.getValue_eq]⟩
    exact .acting_quietly hR
      (fun w x w' hrun _ hw ↦ goes_onStore (goes_touch hR hreads) w x w' hrun hw) ih
  | render template root next ih =>
    have hreads : ∀ s : Store, ∃ reads, (Store.render template root s).2 =
        s.touch reads := fun s ↦ by
      obtain ⟨reads, heq⟩ := s.exists_render_eq template root
      exact ⟨reads, by rw [heq]⟩
    exact .acting_quietly hR
      (fun w x w' hrun _ hw ↦ goes_onStore (goes_touch hR hreads) w x w' hrun hw) ih
  | set o key v next ih =>
    exact .acting hR ((Notification.flows_set hR hcall o key v).imp fun _ hw ↦ hw.2) ih
  | setPath path root v next ih =>
    exact .acting hR ((Notification.flows_setPath hR hcall path root v).imp fun _ hw ↦ hw.2) ih
  | watch expr root reaction next _ ih =>
    exact .acting_quietly hR (fun w x w' hrun _ hw ↦
      Notification.goes_watch hR expr root reaction w x w' hrun hw) ih
  | probe reaction next _ ih =>
    exact .acting_quietly hR (fun w x w' hrun _ hw ↦ by
      cases hrun
      obtain ⟨hnew, hheld⟩ := goes_enrolled hR .probe (fun _ ↦ reaction) hw
      exact ⟨hnew, Store.Holding.of_cons hheld⟩) ih
  | retain id next ih =>
    refine .acting_quietly hR (fun w x w' hrun hfair hw ↦ ?_) fun _ ↦ ih
    cases hrun
    have hlive := (Moment.fair_step.1 hfair).2.1 id (List.mem_singleton_self id)
    exact ⟨hR.retain hlive, (Store.Holding.retain hw hlive).of_cons⟩
  | release id next ih =>
    refine .acting_quietly hR (fun w x w' hrun hfair hw ↦ ?_) fun _ ↦ ih
    cases hrun
    have hspare := (Moment.fair_step.1 hfair).2.2 id (List.mem_singleton_self id)
    exact ⟨hR.release _ id, Store.Holding.give hw hspare⟩
  | track id next ih =>
    refine .acting_quietly hR (fun w x w' hrun hfair hw ↦ ?_) fun _ ↦ ih
    cases hrun
    have hlive := (Moment.fair_step.1 hfair).2.1 id (List.mem_singleton_self id)
    exact ⟨hR.track hlive, Store.Holding.track hw hlive⟩
  | untrack next ih =>
    exact .acting_quietly hR (fun w x w' hrun _ hw ↦ by
      cases hrun
      exact ⟨hR.untrack _, Store.Holding.untrack hw⟩) fun _ ↦ ih
  | notify ids next ih =>
    exact .acting hR ((Notification.flows_notify hR hcall ids).imp fun _ hw ↦
      ⟨(Moment.fair_step.1 hw.1).2.1, hw.2⟩) ih
  | edit e next ih =>
    exact .acting_quietly hR (fun w x w' hrun _ hw ↦ by
      cases hrun
      exact goes_of_store hR rfl hw) fun _ ↦ ih
  | listen n event handler next _ ih =>
    exact .acting_quietly hR (fun w x w' hrun _ hw ↦ by
      cases hrun
      exact goes_of_store hR rfl hw) fun _ ↦ ih
  | unlisten root next ih =>
    exact .acting_quietly hR (fun w x w' hrun _ hw ↦ by
      cases hrun
      exact goes_of_store hR rfl hw) fun _ ↦ ih
  | dispatch n event v next ih =>
    exact .acting hR ((Dispatch.flows_fire hR hcall n event v).imp fun _ hw ↦ hw.2) ih
  | compile | openViewModel | retainViewModel | releaseViewModel | invoke =>
    exact .of_not_plain rfl

omit hcall

/-- **Between any two moments of a run of fair code**, an earlier and a later one, the relation
holds. -/
theorem flows_run (depth : Nat) (held : List SubscriberId) (a : Action σ) :
    Flows R (World.Backed held) (run depth a) (trace depth held a) (World.Backed held) := by
  induction depth generalizing held a with
  | zero => exact .quiet fun _ _ _ hrun _ ↦ nomatch hrun
  | succ depth ih => exact flows_follow hR ih depth a

end Code

end DataBinding

import DataBinding.Proofs.Engine.Chronicle

/-!
# Watchers in order

A world is *in order* when every live watcher is on the lists of the properties that its expression
reads, and has observed the value of its expression, or has not, as the chronicle tells.  While a
fan-out is under way this cannot hold of everybody.  Two groups are exempt, and `InOrder` names
them:

* the *pending* ones, who have been selected by a write and wait for their turn; nothing is said
  about them;
* the *running* ones, whose code is being called; they are on the right lists already, but take note
  of the value only when their code has returned.

**A turn takes a watcher from the first group through the second to nobody**
(`InOrder.evaluated`, `InOrder.noting`, `InOrder.settle`).  `InOrder.frame` is the frame: whatever
leaves an expression's reads and its subscriptions alone leaves its watcher in order.
-/

set_option autoImplicit false

namespace DataBinding

variable {σ : Type}

namespace World

/-- A watcher is on the list of everything that its expression reads. -/
def Attached (w : World σ) (id : SubscriberId) : Prop :=
  ∀ x, w.scene.watcher? id = some x → ∀ r ∈ w.scene.store.reads x.expr x.root,
    w.scene.store.Subscribes id r.1 r.2

/-- What a watcher has observed is the value of its expression unless it was overtaken.  A watcher
whose code has failed may have observed anything. -/
def Fresh (marks : List Mark) (w : World σ) (id : SubscriberId) : Prop :=
  ∀ x v, w.scene.watcher? id = some x → w.scene.store.resolve x.expr x.root = .ok v →
    lastEnding marks id ≠ some .failed →
    (x.observed.Alike v ↔ lastEnding marks id ≠ some .overtaken)

end World

/-- The watchers of a world are in order, but for the pending and the running ones. -/
structure InOrder (pending running : List SubscriberId) (marks : List Mark) (w : World σ) :
    Prop where
  idle : w.scene.store.tracking = []
  closed : w.scene.store.Closed
  /-- Every subscriber has its handles. -/
  size_subscribers : w.scene.subscribers.size = w.scene.store.handles.size
  rooted : ∀ id x, w.scene.watcher? id = some x → x.root.Within w.scene.store.objects.size
  attached : ∀ id, w.scene.store.isLive id = true → id ∉ pending → w.Attached id
  fresh : ∀ id, w.scene.store.isLive id = true → id ∉ pending → id ∉ running → w.Fresh marks id

/-- A later world has the subscribers of an earlier one: nobody has come back to life, and a watcher
still watches what it watched. -/
structure World.Leads (w w' : World σ) : Prop where
  size_le : w.scene.store.handles.size ≤ w'.scene.store.handles.size
  live : ∀ id < w.scene.store.handles.size,
    w'.scene.store.isLive id = true → w.scene.store.isLive id = true
  watcher : ∀ id < w.scene.store.handles.size, ∀ x', w'.scene.watcher? id = some x' →
    ∃ x, w.scene.watcher? id = some x ∧ x'.expr = x.expr ∧ x'.root = x.root

namespace World.Leads

theorem refl (w : World σ) : w.Leads w :=
  ⟨Nat.le_refl _, fun _ _ h ↦ h, fun _ _ x h ↦ ⟨x, h, rfl, rfl⟩⟩

theorem trans {w₀ w₁ w₂ : World σ} (h : w₀.Leads w₁) (h' : w₁.Leads w₂) : w₀.Leads w₂ where
  size_le := Nat.le_trans h.size_le h'.size_le
  live id hid hlive := h.live id hid (h'.live id (Nat.lt_of_lt_of_le hid h.size_le) hlive)
  watcher id hid x₂ hx₂ := by
    obtain ⟨x₁, hx₁, hexpr, hroot⟩ := h'.watcher id (Nat.lt_of_lt_of_le hid h.size_le) x₂ hx₂
    obtain ⟨x, hx, hexpr', hroot'⟩ := h.watcher id hid x₁ hx₁
    exact ⟨x, hx, hexpr.trans hexpr', hroot.trans hroot'⟩

/-- A change that touches neither the subscribers nor how many handles hold them. -/
theorem of_handles {w w' : World σ} (hsubs : w'.scene.subscribers = w.scene.subscribers)
    (hhandles : w'.scene.store.handles = w.scene.store.handles) : w.Leads w' where
  size_le := Nat.le_of_eq (congrArg Array.size hhandles.symm)
  live id _ hlive := by rwa [Store.isLive_congr hhandles] at hlive
  watcher id _ x hx := ⟨x, by rwa [Scene.watcher?, hsubs] at hx, rfl, rfl⟩

end World.Leads

/-- A write to something that a watcher reads tells the watcher. -/
theorem World.Attached.mem_liveSubscribers {w : World σ} {id : SubscriberId} {x : Watcher}
    {o : ObjectId} {key : String} {v : Value} (h : w.Attached id)
    (hlive : w.scene.store.isLive id = true) (hx : w.scene.watcher? id = some x)
    (hw : (w.scene.store.write o key v).1 = .replaced)
    (hr : (o, key) ∈ w.scene.store.reads x.expr x.root) :
    id ∈ (w.scene.store.write o key v).2.liveSubscribers o key := by
  have hs := Store.subscribes_write_of_replaced hw (h x hx _ hr)
  rw [Store.liveSubscribers]
  cases hprop : (w.scene.store.write o key v).2.property? o key with
  | none =>
    have hpeek := Store.peek_write_of_replaced hw o key
    rw [Store.peek, hprop, if_pos ⟨rfl, rfl⟩] at hpeek
    cases hpeek
  | some p =>
    refine List.mem_filter.2 ⟨hs p hprop, ?_⟩
    rwa [Store.isLive_congr Store.handles_write]

/-- Whoever is not told about a write has the value that it had. -/
theorem World.Attached.resolve_write_of_not_told {w : World σ} {id : SubscriberId} {x : Watcher}
    {o : ObjectId} {key : String} {v : Value} (h : w.Attached id)
    (hlive : w.scene.store.isLive id = true) (hx : w.scene.watcher? id = some x)
    (hw : (w.scene.store.write o key v).1 = .replaced)
    (hid : id ∉ (w.scene.store.write o key v).2.liveSubscribers o key) :
    (w.scene.store.write o key v).2.resolve x.expr x.root = w.scene.store.resolve x.expr x.root :=
  Store.resolve_write_of_not_read hw fun hr ↦ hid (h.mem_liveSubscribers hlive hx hw hr)

namespace InOrder

variable {pending running : List SubscriberId} {marks : List Mark} {w w' : World σ}
  {id : SubscriberId}

theorem lt_size (h : InOrder pending running marks w) {x : Watcher}
    (hx : w.scene.watcher? id = some x) : id < w.scene.store.handles.size := by
  rw [← h.size_subscribers]
  exact (Array.getElem?_eq_some_iff.1 (Scene.subscribers_of_watcher? hx)).1

/-! ## The frame -/

/-- **The frame.**  Watchers whose expressions read what they read before, and who are still on the
lists they were on, stay in order. -/
theorem frame (h : InOrder pending running marks w) {pending' : List SubscriberId}
    (hsubs : w'.scene.subscribers = w.scene.subscribers)
    (hidle : w'.scene.store.tracking = []) (hclosed : w'.scene.store.Closed)
    (hhandles : w'.scene.store.handles.size = w.scene.store.handles.size)
    (hobjects : w.scene.store.objects.size ≤ w'.scene.store.objects.size)
    (hlive : ∀ id, w'.scene.store.isLive id = true → id ∉ pending' →
      w.scene.store.isLive id = true ∧ id ∉ pending)
    (hpeek : ∀ id x, w'.scene.store.isLive id = true → id ∉ pending' →
      w.scene.watcher? id = some x → ∀ r ∈ w.scene.store.reads x.expr x.root,
        w'.scene.store.peek r.1 r.2 = w.scene.store.peek r.1 r.2)
    (hkept : ∀ id x, w'.scene.store.isLive id = true → id ∉ pending' →
      w.scene.watcher? id = some x → ∀ r ∈ w.scene.store.reads x.expr x.root,
        w.scene.store.Subscribes id r.1 r.2 → w'.scene.store.Subscribes id r.1 r.2) :
    InOrder pending' running marks w' where
  idle := hidle
  closed := hclosed
  size_subscribers := by rw [hsubs, hhandles, h.size_subscribers]
  rooted id x hx := by
    rw [Scene.watcher?, hsubs] at hx
    exact (h.rooted id x hx).mono hobjects
  attached id hl hp x hx r hr := by
    rw [Scene.watcher?, hsubs] at hx
    obtain ⟨hl', hp'⟩ := hlive id hl hp
    rw [Store.reads_congr (hpeek id x hl hp hx)] at hr
    exact hkept id x hl hp hx r hr (h.attached id hl' hp' x hx r hr)
  fresh id hl hp hrun x v hx hv := by
    rw [Scene.watcher?, hsubs] at hx
    obtain ⟨hl', hp'⟩ := hlive id hl hp
    rw [Store.resolve_congr (hpeek id x hl hp hx)] at hv
    exact h.fresh id hl' hp' hrun x v hx hv

/-- A change of the rest of the scene and of the code. -/
theorem of_store_eq (h : InOrder pending running marks w)
    (hsubs : w'.scene.subscribers = w.scene.subscribers)
    (hstore : w'.scene.store = w.scene.store) : InOrder pending running marks w' := by
  have hsize : w'.scene.store.objects.size = w.scene.store.objects.size := by rw [hstore]
  refine h.frame hsubs ?_ ?_ (by rw [hstore]) (Nat.le_of_eq hsize.symm) ?_ ?_ ?_
  all_goals rw [hstore]
  · exact h.idle
  · exact h.closed
  · exact fun _ hl hp ↦ ⟨hl, hp⟩
  · exact fun _ _ _ _ _ _ _ ↦ rfl
  · exact fun _ _ _ _ _ _ _ hs ↦ hs

/-- More subscribers may wait, and more may be running. -/
theorem mono (h : InOrder pending running marks w) {pending' running' : List SubscriberId}
    (hp : ∀ id ∈ pending, id ∈ pending') (hr : ∀ id ∈ running, id ∈ running') :
    InOrder pending' running' marks w :=
  { h with
    attached := fun id hl hid ↦ h.attached id hl fun hid' ↦ hid (hp id hid')
    fresh := fun id hl hid hid' ↦
      h.fresh id hl (fun hq ↦ hid (hp id hq)) fun hq ↦ hid' (hr id hq) }

/-! ## Handles -/

theorem release (h : InOrder pending running marks w) (id : SubscriberId) :
    InOrder pending running marks (w.withStore (w.scene.store.release id)) :=
  h.frame rfl h.idle (Store.closed_of_contents h.closed rfl) (Store.size_handles_release _ _)
    (Nat.le_refl _) (fun _ hl hp ↦ ⟨Store.isLive_of_release hl, hp⟩)
    (fun _ _ _ _ _ _ _ ↦ rfl) fun _ _ _ _ _ _ _ hs ↦ hs

theorem leads_release (w : World σ) (id : SubscriberId) :
    w.Leads (w.withStore (w.scene.store.release id)) where
  size_le := by simp
  live _ _ hl := Store.isLive_of_release hl
  watcher _ _ x hx := ⟨x, hx, rfl, rfl⟩

/-- Holding live subscribers once more. -/
theorem retainAll (h : InOrder pending running marks w) {ids : List SubscriberId}
    (hids : ∀ id ∈ ids, w.scene.store.isLive id = true) :
    InOrder pending running marks (w.withStore (ids.foldl Store.retain w.scene.store)) := by
  obtain ⟨hobjects, htracking, hsize, hlive⟩ := Store.retainAll_of_live hids
  have hcontents : (ids.foldl Store.retain w.scene.store).contents = w.scene.store.contents := by
    rw [Store.contents, Store.contents, hobjects]
  refine h.frame rfl (htracking.trans h.idle) (Store.closed_of_contents h.closed hcontents) hsize
    (by simp [hobjects]) (fun id hl hp ↦ ⟨?_, hp⟩)
    (fun _ _ _ _ _ r _ ↦ Store.peek_congr hcontents r.1 r.2)
    fun _ _ _ _ _ _ _ hs ↦ (Store.subscribes_congr hobjects).2 hs
  rwa [World.store_withStore, hlive] at hl

theorem leads_retainAll {ids : List SubscriberId}
    (hids : ∀ id ∈ ids, w.scene.store.isLive id = true) :
    w.Leads (w.withStore (ids.foldl Store.retain w.scene.store)) := by
  obtain ⟨-, -, hsize, hlive⟩ := Store.retainAll_of_live hids
  exact
    { size_le := by simp [hsize]
      live := fun id _ hl ↦ by rwa [World.store_withStore, hlive] at hl
      watcher := fun _ _ x hx ↦ ⟨x, hx, rfl, rfl⟩ }

/-! ## Looking and writing -/

/-- New objects. -/
theorem observe (h : InOrder pending running marks w) (data : Json) :
    InOrder pending running marks (w.withStore (Store.observe data w.scene.store).2) := by
  obtain ⟨⟨hext, hclosed⟩, -⟩ := Store.observe_observed data h.closed
  refine h.frame rfl (hext.tracking.trans h.idle) hclosed (by simp [hext.handles]) hext.size_le
    (fun id hl hp ↦ ⟨?_, hp⟩)
    (fun id x _ _ hx ↦ h.closed.peek_of_extends hext (h.rooted id x hx))
    fun id x _ _ hx r hr hs ↦ h.closed.subscribes_of_extends hext (h.rooted id x hx) hr hs
  rwa [World.store_withStore, Store.isLive_congr hext.handles] at hl

/-- **A write makes those wait whose values it may have changed**, and nobody else notices. -/
theorem announced (h : InOrder pending running marks w) {o : ObjectId} {key : String} {v : Value}
    (hv : v.Within w.scene.store.objects.size) (hkey : (w.scene.store.property? o key).isSome)
    (hw : (w.scene.store.write o key v).1 = .replaced) :
    InOrder ((w.scene.store.write o key v).2.liveSubscribers o key ++ pending) running marks
      (Notification.announced w o key v) := by
  -- First the write itself, with the audience exempt; then pruning; then the handles.
  obtain ⟨hstore, -⟩ := Store.write_of_replaced hw
  have hlive : ∀ id, (w.scene.store.write o key v).2.isLive id = w.scene.store.isLive id :=
    Store.isLive_congr Store.handles_write
  have hread : ∀ id x, w.scene.store.isLive id = true →
      id ∉ (w.scene.store.write o key v).2.liveSubscribers o key ++ pending →
      w.scene.watcher? id = some x → (o, key) ∉ w.scene.store.reads x.expr x.root := by
    intro id x hl hp hx hr
    rw [List.mem_append, not_or] at hp
    exact hp.1 ((h.attached id hl hp.2).mem_liveSubscribers hl hx hw hr)
  have hwritten : InOrder ((w.scene.store.write o key v).2.liveSubscribers o key ++ pending)
      running marks (w.withStore (w.scene.store.write o key v).2) := by
    refine h.frame rfl (Store.tracking_write.trans h.idle) (h.closed.write hv hkey)
      (by simp [Store.handles_write]) ?_ (fun id hl hp ↦ ⟨(hlive id).symm.trans hl, ?_⟩)
      (fun id x hl hp hx ↦
        Store.peek_write_of_not_read hw (hread id x ((hlive id).symm.trans hl) hp hx))
      fun _ _ _ _ _ _ _ hs ↦ Store.subscribes_write_of_replaced hw hs
    · simp [hstore, Store.modifyProperty, Store.modifyObject]
    · exact fun hid ↦ hp (List.mem_append_right _ hid)
  have hpruned : InOrder ((w.scene.store.write o key v).2.liveSubscribers o key ++ pending)
      running marks (w.withStore ((w.scene.store.write o key v).2.prune o key)) :=
    hwritten.frame rfl hwritten.idle
      (Store.closed_of_contents hwritten.closed (Store.contents_prune _ _ _)) rfl
      (by simp [Store.prune, Store.modifyProperty, Store.modifyObject]) (fun _ hl hp ↦ ⟨hl, hp⟩)
      (fun _ _ _ _ _ r _ ↦ Store.peek_congr (Store.contents_prune _ _ _) r.1 r.2)
      fun _ _ hl _ _ _ _ hs ↦ hs.prune hl o key
  exact hpruned.retainAll fun _ ↦ Store.isLive_of_mem_liveSubscribers

/-! ## One turn -/

/-- Evaluating its expression puts a watcher on the right lists. -/
theorem evaluated (h : InOrder (id :: pending) running marks w) {x : Watcher}
    (hx : w.scene.watcher? id = some x) :
    InOrder pending (id :: running) marks (w.evaluated id x) where
  idle := (Store.tracking_evaluate id x.expr x.root _).trans h.idle
  closed := Store.closed_of_contents h.closed (Store.contents_evaluate id x.expr x.root _)
  size_subscribers := by
    show _ = (Store.evaluate id x.expr x.root w.scene.store).2.handles.size
    rw [Store.handles_evaluate]
    exact h.size_subscribers
  rooted id' x' hx' := by
    have hsize := congrArg Array.size (Store.contents_evaluate id x.expr x.root w.scene.store)
    rw [Store.size_contents, Store.size_contents] at hsize
    show x'.root.Within (Store.evaluate id x.expr x.root w.scene.store).2.objects.size
    rw [hsize]
    exact h.rooted id' x' hx'
  attached id' hl hp x' hx' r hr := by
    have hl' : w.scene.store.isLive id' = true :=
      (Store.isLive_congr (Store.handles_evaluate id x.expr x.root _) id').symm.trans hl
    have hr' : r ∈ w.scene.store.reads x'.expr x'.root := by
      rwa [← Store.reads_of_contents (Store.contents_evaluate id x.expr x.root _)]
    by_cases hid : id' = id
    · subst hid
      have hxx : x' = x := Option.some.inj (hx'.symm.trans hx)
      subst hxx
      exact Store.evaluate_subscribes hl' hr'
    · have hp' : id' ∉ id :: pending := by simp [hid, hp]
      exact (h.attached id' hl' hp' x' hx' r hr').evaluate hl'
  fresh id' hl hp hrun x' v hx' hv := by
    have hl' : w.scene.store.isLive id' = true :=
      (Store.isLive_congr (Store.handles_evaluate id x.expr x.root _) id').symm.trans hl
    rw [List.mem_cons, not_or] at hrun
    have hp' : id' ∉ id :: pending := by simp [hrun.1, hp]
    refine h.fresh id' hl' hp' hrun.2 x' v hx' ?_
    rwa [← Store.resolve_of_contents (Store.contents_evaluate id x.expr x.root _)]

theorem leads_evaluated (w : World σ) (id : SubscriberId) (x : Watcher) :
    w.Leads (w.evaluated id x) :=
  .of_handles rfl (Store.handles_evaluate id x.expr x.root _)

/-- While a watcher is running it may take note of anything. -/
theorem noting (h : InOrder pending (id :: running) marks w) (v : Value) :
    InOrder pending (id :: running) marks (w.noting id v) where
  idle := h.idle
  closed := h.closed
  size_subscribers := by
    rw [World.noting, Array.size_modify]
    exact h.size_subscribers
  rooted id' x' hx' := by
    rw [World.watcher?_noting] at hx'
    split at hx'
    · obtain ⟨x, hx, rfl⟩ := Option.map_eq_some_iff.1 hx'
      exact h.rooted id' x hx
    · exact h.rooted id' x' hx'
  attached id' hl hp x' hx' r hr := by
    rw [World.watcher?_noting] at hx'
    split at hx'
    · obtain ⟨x, hx, rfl⟩ := Option.map_eq_some_iff.1 hx'
      exact h.attached id' hl hp x hx r hr
    · exact h.attached id' hl hp x' hx' r hr
  fresh id' hl hp hrun x' v' hx' hv' := by
    rw [World.watcher?_noting, if_neg fun hid ↦ hrun (by simp [hid])] at hx'
    exact h.fresh id' hl hp hrun x' v' hx' hv'

theorem leads_noting (w : World σ) (id : SubscriberId) (v : Value) :
    w.Leads (w.noting id v) where
  size_le := Nat.le_refl _
  live _ _ hl := hl
  watcher id' _ x' hx' := by
    rw [World.watcher?_noting] at hx'
    split at hx'
    · obtain ⟨x, hx, rfl⟩ := Option.map_eq_some_iff.1 hx'
      exact ⟨x, hx, rfl, rfl⟩
    · exact ⟨x', hx', rfl, rfl⟩

/-- The turn of a watcher is over when what it has observed is what the marks tell. -/
theorem settle (h : InOrder pending (id :: running) marks w) {more : List Mark}
    (hother : ∀ id', id' ≠ id → lastEnding more id' = none)
    (hfresh : w.scene.store.isLive id = true → w.Fresh (marks ++ more) id) :
    InOrder pending running (marks ++ more) w :=
  { h with
    fresh := fun id' hl hp hrun ↦ by
      by_cases hid : id' = id
      · subst hid
        exact hfresh hl
      · intro x v
        rw [lastEnding_append, hother id' hid, Option.none_or]
        exact h.fresh id' hl hp (by simp [hid, hrun]) x v }

/-- A subscriber that watches nothing is in order. -/
theorem of_no_watcher (h : InOrder (id :: pending) running marks w)
    (hid : w.scene.watcher? id = none) : InOrder pending running marks w :=
  { h with
    attached := fun id' hl hp x hx ↦ by
      have hne : id' ≠ id := by
        rintro rfl
        rw [hid] at hx
        cases hx
      exact h.attached id' hl (by simp [hne, hp]) x hx
    fresh := fun id' hl hp hrun x v hx ↦ by
      have hne : id' ≠ id := by
        rintro rfl
        rw [hid] at hx
        cases hx
      exact h.fresh id' hl (by simp [hne, hp]) hrun x v hx }

/-! ## New subscribers -/

/-- A new subscriber has its first turn before it. -/
theorem enrolled (h : InOrder pending running marks w) (s : Subscriber)
    (hroot : ∀ x, s = .watcher x → x.root.Within w.scene.store.objects.size)
    (reaction : Value → Action σ) :
    InOrder (w.scene.store.handles.size :: pending) running marks (w.enrolled s reaction) := by
  have hold : ∀ {id : SubscriberId}, id ∉ w.scene.store.handles.size :: pending →
      id ≠ w.scene.subscribers.size ∧ id ∉ pending := by
    intro id hid
    rw [List.mem_cons, not_or] at hid
    rw [h.size_subscribers]
    exact hid
  have hlive : ∀ {id : SubscriberId}, (w.enrolled s reaction).scene.store.isLive id = true →
      id ≠ w.scene.subscribers.size → w.scene.store.isLive id = true := by
    intro id hl hid
    rw [h.size_subscribers] at hid
    exact ((Store.isLive_newSubscriber _ id).1 hl).resolve_right hid
  exact
    { idle := h.idle
      closed := h.closed
      size_subscribers := by simp [World.enrolled, Store.newSubscriber, h.size_subscribers]
      rooted := fun id x hx ↦ by
        by_cases hid : id = w.scene.subscribers.size
        · subst hid
          rw [Scene.watcher?, World.enrolled, Array.getElem?_push, if_pos rfl] at hx
          cases s with
          | watcher x' =>
            cases hx
            exact hroot x rfl
          | probe => cases hx
        · rw [World.watcher?_enrolled w s reaction hid] at hx
          exact h.rooted id x hx
      attached := fun id hl hp x hx r hr ↦ by
        obtain ⟨hid, hp'⟩ := hold hp
        rw [World.watcher?_enrolled w s reaction hid] at hx
        have hr' : r ∈ w.scene.store.reads x.expr x.root := by
          rwa [← Store.reads_of_contents (Store.contents_newSubscriber _)]
        exact h.attached id (hlive hl hid) hp' x hx r hr'
      fresh := fun id hl hp hr x v hx hv ↦ by
        obtain ⟨hid, hp'⟩ := hold hp
        rw [World.watcher?_enrolled w s reaction hid] at hx
        have hv' : w.scene.store.resolve x.expr x.root = .ok v := by
          rwa [← Store.resolve_of_contents (Store.contents_newSubscriber _)]
        exact h.fresh id (hlive hl hid) hp' hr x v hx hv' }

theorem leads_enrolled (h : InOrder pending running marks w) (s : Subscriber)
    (reaction : Value → Action σ) : w.Leads (w.enrolled s reaction) where
  size_le := by simp [World.enrolled, Store.newSubscriber]
  live id hid hl :=
    ((Store.isLive_newSubscriber _ id).1 hl).resolve_right (Nat.ne_of_lt hid)
  watcher id hid x hx := by
    rw [World.watcher?_enrolled w s reaction (by rw [h.size_subscribers]; exact Nat.ne_of_lt hid)]
      at hx
    exact ⟨x, hx, rfl, rfl⟩

end InOrder

end DataBinding

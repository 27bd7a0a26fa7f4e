import DataBinding.Proofs.Engine.FairCode
import DataBinding.Proofs.Engine.ConsiderateFanOuts

/-!
# The lists of subscribers in a run

A property has one list of subscribers for its whole life, and the list changes while fan-outs over
it are under way.  Nobody is ever on it twice (`Store.Tidy`).  Between two moments of a run the
living stay in their places, and whoever has joined is behind them; and when somebody has joined,
those who were dead before are gone (`Store.Ordered`).  Each operation of fair code has these
effects (`Store.orderly_advances`), so a run has them, whatever its code does and however deeply it
is nested.

A fan-out takes the list as it is when it begins.  **Everybody who is alive then is updated exactly
once, in the order of the list, and the first error is the result**
(`Notification.set_eq_some_iff`).  What the updates do to the list meanwhile makes no difference to
who is updated.

Alive means held by any handle.  A fan-out holds everybody whose turn is not over, so whoever is
dropped while waiting dies when the turn is over, and stays on the list until then.
-/

set_option autoImplicit false

namespace DataBinding

namespace Store

variable {s t u : Store} {id : SubscriberId} {rest : List SubscriberId}

/-! ## What reading does to a list -/

/-- The subscriber is on the list, and nobody who is dead is. -/
def Admits (s : Store) (id : SubscriberId) (o : ObjectId) (key : String) : Prop :=
  id ∈ s.subscribers o key ∧ ∀ i ∈ s.subscribers o key, s.isLive i = true

/-- Whoever is evaluating is on the lists of what is read. -/
theorem admits_touch (htop : s.tracking = id :: rest) (hlive : s.isLive id = true)
    {reads : List (ObjectId × String)} {r : ObjectId × String} (hr : r ∈ reads)
    (hkey : (s.property? r.1 r.2).isSome) : (s.touch reads).Admits id r.1 r.2 := by
  refine ⟨(mem_subscribers_touch htop).2 (.inl ⟨rfl, hr, hkey⟩), fun i hi ↦ ?_⟩
  rw [isLive_congr (handles_touch s reads)]
  rcases (mem_subscribers_touch htop).1 hi with ⟨rfl, -⟩ | ⟨-, hi⟩
  · exact hlive
  · exact hi hr

theorem isLive_track_of_live (hlive : s.isLive id = true) : (s.track id).isLive = s.isLive := by
  funext i
  rw [Bool.eq_iff_iff]
  refine ⟨fun hi ↦ ?_, isLive_track id s⟩
  rcases isLive_retain.1 hi with hi | ⟨rfl, -⟩
  · exact hi
  · exact hlive

theorem admits_evaluate (hlive : s.isLive id = true) {path : String} {root : Value}
    {r : ObjectId × String} (hr : r ∈ s.reads path root) (hkey : (s.property? r.1 r.2).isSome) :
    (evaluate id path root s).2.Admits id r.1 r.2 := by
  have hsame := isLive_track_of_live hlive
  have hkey' : ((s.track id).property? r.1 r.2).isSome := by
    rwa [isSome_property?_congr (contents_track s id)]
  have hadmits := admits_touch (s := s.track id) rfl (by rwa [hsame]) hr hkey'
  rw [Admits, ← subscribers_congr (objects_evaluate id path root s)] at hadmits
  refine hadmits.imp_right fun hlives i hi ↦ ?_
  rw [isLive_congr (handles_evaluate ..), ← hsame, ← isLive_congr (handles_touch ..)]
  exact hlives i hi

/-! ## Lists at a moment -/

/-- Nobody is on a list twice, and everybody on a list has been made. -/
structure Tidy (s : Store) : Prop where
  nodup (o : ObjectId) (key : String) : (s.subscribers o key).Nodup
  known {o : ObjectId} {key : String} {id : SubscriberId} (h : id ∈ s.subscribers o key) :
    id < s.handles.size

theorem tidy_empty : Tidy .empty := by
  have hlists : ∀ o key, Store.empty.subscribers o key = [] := fun _ _ ↦ rfl
  exact ⟨fun o key ↦ by simp [hlists], fun h ↦ by simp [hlists] at h⟩

/-! ## One change of a list -/

/-- What an operation does to a list: nothing, the dead are pruned, or somebody who is alive joins
it. -/
inductive Turnover (live : SubscriberId → Bool) (list : List SubscriberId) :
    List SubscriberId → Prop
  | stays : Turnover live list list
  | pruned : Turnover live list (list.filter live)
  | joined {id : SubscriberId} (hid : live id = true) :
      Turnover live list (subscribeTo live list id)

namespace Turnover

variable {live : SubscriberId → Bool} {list later : List SubscriberId}

theorem nodup (h : Turnover live list later) (hlist : list.Nodup) : later.Nodup := by
  cases h with
  | stays => exact hlist
  | pruned => exact hlist.filter _
  | joined => exact nodup_subscribeTo hlist

theorem mem_or_live (h : Turnover live list later) {i : SubscriberId} (hi : i ∈ later) :
    i ∈ list ∨ live i = true := by
  cases h with
  | stays => exact .inl hi
  | pruned => exact .inl (List.mem_of_mem_filter hi)
  | joined hid =>
    rcases mem_subscribeTo.1 hi with ⟨hi, -⟩ | rfl
    · exact .inl hi
    · exact .inr hid

/-- The living keep their places at the head of the list. -/
theorem prefix_filter (h : Turnover live list later) : list.filter live <+: later.filter live := by
  have hpruned : (list.filter live).filter live = list.filter live :=
    filter_keep_filter_live fun _ hi ↦ hi
  cases h with
  | stays => exact List.prefix_rfl
  | pruned => exact ⟨[], (List.append_nil _).trans hpruned.symm⟩
  | @joined id =>
    have hprefix : list.filter live <+: subscribeTo live list id := by
      rw [subscribeTo]
      split
      · exact List.prefix_rfl
      · exact List.prefix_append ..
    have hlive := hprefix.filter live
    rwa [hpruned] at hlive

/-- When somebody has joined nobody is dead. -/
theorem live_of_joined (h : Turnover live list later) {id : SubscriberId} (hid : id ∈ later)
    (hnew : id ∉ list) : ∀ i ∈ later, live i = true := by
  cases h with
  | stays => exact absurd hid hnew
  | pruned => exact absurd (List.mem_of_mem_filter hid) hnew
  | joined hjoined =>
    intro i hi
    rcases mem_subscribeTo.1 hi with ⟨-, hi⟩ | rfl
    · exact hi
    · exact hjoined

end Turnover

/-! ## Lists at an earlier and a later moment -/

/-- The dead stay dead, the living stay where they are on a list, others have joined behind them,
and if anybody has, the list has nobody any more who was dead before. -/
structure Ordered (s t : Store) : Prop where
  size_le : s.handles.size ≤ t.handles.size
  live : ∀ id < s.handles.size, t.isLive id = true → s.isLive id = true
  kept : ∀ o key, (s.subscribers o key).filter t.isLive <+: (t.subscribers o key).filter t.isLive
  joined : ∀ o key, ∀ id ∈ t.subscribers o key, id ∉ s.subscribers o key →
    ∀ i ∈ t.subscribers o key, i < s.handles.size → s.isLive i = true

/-- Lists that are tidy stay so, and are ordered. -/
def Advances (s t : Store) : Prop := s.Tidy → t.Tidy ∧ s.Ordered t

/-- A change of the lists, while nobody is made or dies. -/
theorem advances_of_lists (hhandles : t.handles = s.handles)
    (hlists : ∀ o key, Turnover s.isLive (s.subscribers o key) (t.subscribers o key)) :
    s.Advances t := by
  have hsame : t.isLive = s.isLive := funext fun id ↦ isLive_congr hhandles id
  intro hs
  have htidy : t.Tidy := by
    refine ⟨fun o key ↦ (hlists o key).nodup (hs.nodup o key), fun {o key i} hi ↦ ?_⟩
    rw [hhandles]
    exact ((hlists o key).mem_or_live hi).elim hs.known lt_of_isLive
  have hordered : s.Ordered t :=
    { size_le := hhandles ▸ Nat.le_refl _
      live := fun id _ hlive ↦ hsame ▸ hlive
      kept := fun o key ↦ hsame ▸ (hlists o key).prefix_filter
      joined := fun o key id hid hnew i hi _ ↦ (hlists o key).live_of_joined hid hnew i hi }
  exact ⟨htidy, hordered⟩

/-- A change of handles that brings nobody back to life. -/
theorem advances_of_objects (hobjects : t.objects = s.objects)
    (hsize : s.handles.size ≤ t.handles.size)
    (hlive : ∀ id < s.handles.size, t.isLive id = true → s.isLive id = true) : s.Advances t := by
  have hlists : ∀ o key, t.subscribers o key = s.subscribers o key := subscribers_congr hobjects
  intro hs
  have htidy : t.Tidy := by
    refine ⟨fun o key ↦ hlists o key ▸ hs.nodup o key, fun {o key i} hi ↦ ?_⟩
    rw [hlists] at hi
    exact Nat.lt_of_lt_of_le (hs.known hi) hsize
  have hordered : s.Ordered t :=
    { size_le := hsize
      live := hlive
      kept := fun o key ↦ hlists o key ▸ List.prefix_rfl
      joined := fun o key id hid hnew ↦ absurd (hlists o key ▸ hid) hnew }
  exact ⟨htidy, hordered⟩

/-- Whoever is alive later was alive before. -/
theorem Ordered.filter_filter (h : s.Ordered t) {list : List SubscriberId}
    (hknown : ∀ i ∈ list, i < s.handles.size) :
    (list.filter s.isLive).filter t.isLive = list.filter t.isLive := by
  rw [List.filter_filter]
  refine List.filter_congr fun i hi ↦ ?_
  cases hlive : t.isLive i with
  | false => rfl
  | true => rw [h.live i (hknown i hi) hlive, Bool.true_and]

theorem Ordered.trans (hs : s.Tidy) (ht : t.Tidy) (hst : s.Ordered t) (htu : t.Ordered u) :
    s.Ordered u where
  size_le := Nat.le_trans hst.size_le htu.size_le
  live id hid hlive := hst.live id hid (htu.live id (Nat.lt_of_lt_of_le hid hst.size_le) hlive)
  kept o key := by
    have hfirst := (hst.kept o key).filter u.isLive
    rw [htu.filter_filter fun i hi ↦ Nat.lt_of_lt_of_le (hs.known hi) hst.size_le,
      htu.filter_filter fun i hi ↦ ht.known hi] at hfirst
    exact hfirst.trans (htu.kept o key)
  joined o key id hid hnew i hi hknown := by
    by_cases hmore : ∃ id' ∈ u.subscribers o key, id' ∉ t.subscribers o key
    · obtain ⟨id', hid', hnew'⟩ := hmore
      have hlive := htu.joined o key id' hid' hnew' i hi (Nat.lt_of_lt_of_le hknown hst.size_le)
      exact hst.live i hknown hlive
    · have hsub : ∀ id' ∈ u.subscribers o key, id' ∈ t.subscribers o key := fun id' hid' ↦ by
        by_contra hnew'
        exact hmore ⟨id', hid', hnew'⟩
      exact hst.joined o key id (hsub id hid) hnew i (hsub i hi) hknown

/-- A new property has nobody on its list. -/
theorem subscribers_define (s : Store) (o : ObjectId) (key : String) (v : Value) (o' : ObjectId)
    (k : String) : (s.modifyObject o fun object ↦ object.define key v).subscribers o' k =
      s.subscribers o' k := by
  rw [subscribers, subscribers, property?, property?, object?_modifyObject]
  split
  · cases s.object? o' with
    | none => rfl
    | some object =>
      show (((object.define key v).property? k).map Property.subscribers).getD [] =
        ((object.property? k).map Property.subscribers).getD []
      rw [Object.property?_define]
      cases object.property? k with
      | some p => rfl
      | none =>
        rw [Option.none_or]
        split <;> rfl
  · rfl

/-- No write changes a list. -/
theorem subscribers_write_eq (s : Store) (o : ObjectId) (key : String) (v : Value) (o' : ObjectId)
    (k : String) : (s.write o key v).2.subscribers o' k = s.subscribers o' k := by
  cases hw : (s.write o key v).1 with
  | replaced => exact subscribers_write hw o' k
  | unchanged => rw [(write_of_unchanged hw).1]
  | defined =>
    have hmissing : s.peek o key = none := by
      by_contra hkey
      refine write_ne_defined ?_ hw
      rwa [← Ne, Option.ne_none_iff_isSome, peek, Option.isSome_map] at hkey
    rw [write_of_missing hmissing]
    exact subscribers_define ..

theorem turnover_of_eq {live : SubscriberId → Bool} {list later : List SubscriberId}
    (h : later = list) : Turnover live list later :=
  h ▸ .stays

/-- **What fair code does** keeps the lists tidy and ordered. -/
theorem orderly_advances : Orderly Advances where
  refl s := advances_of_objects rfl (Nat.le_refl _) fun _ _ hlive ↦ hlive
  trans hst htu hs := by
    obtain ⟨ht, hst⟩ := hst hs
    obtain ⟨hu, htu⟩ := htu ht
    exact ⟨hu, hst.trans hs ht htu⟩
  observe data s := advances_of_lists (extends_observe data s).handles fun o key ↦
    turnover_of_eq (subscribers_observe data s o key)
  get {s} o key hlive := advances_of_lists (handles_get s o key) fun o' k ↦ by
    cases htop : s.tracking with
    | nil => exact turnover_of_eq (by rw [get_snd_of_tracking_nil htop])
    | cons id rest =>
      rcases subscribers_get htop o' k with hlist | ⟨-, hlist⟩
      · exact turnover_of_eq hlist
      · exact hlist ▸ .joined (hlive id rest htop)
  write s o key v := advances_of_lists handles_write fun o' k ↦
    turnover_of_eq (subscribers_write_eq s o key v o' k)
  prune s o key := advances_of_lists rfl fun o' k ↦ by
    rw [subscribers_prune]
    split
    · exact .pruned
    · exact .stays
  newSubscriber s := by
    refine advances_of_objects rfl (by simp [newSubscriber]) fun id hid hlive ↦ ?_
    exact ((isLive_newSubscriber s id).1 hlive).resolve_right (Nat.ne_of_lt hid)
  retain {s id} hheld := by
    refine advances_of_objects rfl (by simp [Store.retain]) fun i _ hlive ↦ ?_
    rcases isLive_retain.1 hlive with hlive | ⟨rfl, -⟩
    · exact hlive
    · exact hheld
  release s id := by
    refine advances_of_objects rfl (Nat.le_of_eq (size_handles_release s id).symm)
      fun _ _ hlive ↦ ?_
    exact isLive_of_release hlive
  tracking s ids := advances_of_objects rfl (Nat.le_refl _) fun _ _ hlive ↦ hlive

end Store

/-! ## A fan-out -/

variable {σ : Type}

namespace Notification

variable {call : Call σ}

/-- Subscribers are updated one after another, and each is let go when its turn is over; the list
says how their updates end. -/
inductive Updates (call : Call σ) :
    World σ → List (SubscriberId × Except StateError Unit) → World σ → Prop
  | nil (w : World σ) : Updates call w [] w
  | cons {w w₁ w' : World σ} {id : SubscriberId} {r : Except StateError Unit}
      {ends : List (SubscriberId × Except StateError Unit)} (turn : update call id w = some (r, w₁))
      (rest : Updates call (w₁.withStore (w₁.scene.store.release id)) ends w') :
      Updates call w ((id, r) :: ends) w'

theorem updateAll_eq_some_iff {ids : List SubscriberId} {w w' : World σ}
    {r : Except StateError Unit} :
    updateAll call ids w = some (r, w') ↔
      ∃ ends, Updates call w ends w' ∧ ends.map Prod.fst = ids ∧ r = firstFailure ends := by
  induction ids generalizing w w' r with
  | nil =>
    constructor
    · intro hrun
      cases hrun
      exact ⟨[], .nil w, rfl, rfl⟩
    · rintro ⟨ends, hupdates, hids, rfl⟩
      obtain rfl := List.map_eq_nil_iff.1 hids
      cases hupdates
      rfl
  | cons id ids ih =>
    constructor
    · intro hrun
      obtain ⟨first, w₁, hturn, hrun⟩ := Run.bind_eq_some_iff.1 hrun
      obtain ⟨_, w₂, hrelease, hrun⟩ := Run.bind_eq_some_iff.1 hrun
      cases hrelease
      obtain ⟨others, w₃, hrest, hrun⟩ := Run.bind_eq_some_iff.1 hrun
      cases hrun
      obtain ⟨ends, hupdates, rfl, rfl⟩ := ih.1 hrest
      exact ⟨(id, first) :: ends, .cons hturn hupdates, rfl,
        (firstFailure_cons (id, first) ends).symm⟩
    · rintro ⟨ends, hupdates, hids, rfl⟩
      cases hupdates with
      | nil => cases hids
      | @cons _ w₁ _ id' first ends hturn hupdates =>
        obtain ⟨rfl, htail⟩ := List.cons.inj hids
        have hrest := ih.2 ⟨ends, hupdates, htail, rfl⟩
        have hrelease : Run.editStore (fun s ↦ s.release id') w₁ =
          some ((), w₁.withStore (w₁.scene.store.release id')) := rfl
        rw [updateAll, Run.bind_of_eq_some hturn, Run.bind_of_eq_some hrelease,
          Run.bind_of_eq_some hrest, firstFailure_cons]
        rfl

/-- **A write that replaces a value** updates everybody on the list who is alive, in order and once
each, whatever the updates do. -/
theorem set_eq_some_iff {o : ObjectId} {key : String} {v : Value} {w w' : World σ}
    {r : Except StateError Unit} (hw : (w.scene.store.write o key v).1 = .replaced) :
    set call o key v w = some (r, w') ↔ ∃ ends, Updates call (announced w o key v) ends w' ∧
      ends.map Prod.fst = (w.scene.store.subscribers o key).filter w.scene.store.isLive ∧
      r = firstFailure ends := by
  rw [set_eq, hw, Store.liveSubscribers_write hw]
  exact updateAll_eq_some_iff

/-- The dead are off the list when the fan-out begins. -/
theorem subscribers_announced {o : ObjectId} {key : String} {v : Value} {w : World σ}
    (hw : (w.scene.store.write o key v).1 = .replaced) :
    (announced w o key v).scene.store.subscribers o key =
      (w.scene.store.subscribers o key).filter w.scene.store.isLive := by
  have hlive : ∀ id ∈ (w.scene.store.write o key v).2.liveSubscribers o key,
      ((w.scene.store.write o key v).2.prune o key).isLive id = true :=
    fun _ ↦ Store.isLive_of_mem_liveSubscribers
  rw [announced, World.store_withStore, Store.subscribers_congr (Store.retainAll_of_live hlive).1,
    Store.subscribers_prune, if_pos ⟨rfl, rfl⟩, Store.subscribers_write hw]
  exact List.filter_congr fun id _ ↦ Store.isLive_congr Store.handles_write id

end Notification

/-! ## Runs -/

theorem World.backed_start (document : Document) (data : σ) :
    (World.start document data).Backed [] :=
  fun _ ↦ Nat.zero_le _

theorem Trace.mem_stores {s : Store} {trace : List (Moment σ)} (h : s ∈ stores trace) :
    ∃ held a scene, .step held a scene ∈ trace ∧ scene.store = s := by
  obtain ⟨moment, hmem, hstore⟩ := List.mem_filterMap.1 h
  cases moment with
  | step held a scene => exact ⟨held, a, scene, hmem, Option.some.inj hstore⟩
  | called id => cases hstore

/-- **Lists of subscribers and fan-outs.**  Between any two moments of a run of fair code, an
earlier and a later one, the living stay in their places on every list and others join behind them,
and whoever joins finds nobody dead there.  At every moment nobody is on a list twice.  When code
reads properties, or an evaluation does, whoever is evaluating is on their lists afterwards, and
nobody who is dead.  A write that replaces a value prunes the dead and updates everybody else on the
list exactly once and in order, whatever the updates do, and the first error is its result. -/
theorem fan_out_laws (document : Document) (data : σ) (depth : Nat) (a : Action σ)
    (hfair : ∀ moment ∈ trace depth [] a (.start document data), moment.fair = true) :
    (Trace.stores (trace depth [] a (.start document data))).Pairwise Store.Ordered ∧
    (∀ s ∈ Trace.stores (trace depth [] a (.start document data)), s.Tidy ∧
      ∀ reads, (s.touch reads).Tidy ∧ ∀ id rest, s.tracking = id :: rest →
        ∀ r ∈ reads, (s.property? r.1 r.2).isSome → (s.touch reads).Admits id r.1 r.2) ∧
    (∀ (s : Store) id path root, s.isLive id = true →
      ∀ r ∈ s.reads path root, (s.property? r.1 r.2).isSome →
        (Store.evaluate id path root s).2.Admits id r.1 r.2) ∧
    ∀ (call : Call σ) (w : World σ) (o : ObjectId) (key : String) (v : Value), w.scene.store.Tidy →
      (w.scene.store.write o key v).1 = .replaced →
      ((w.scene.store.subscribers o key).filter w.scene.store.isLive).Nodup ∧
      (Notification.announced w o key v).scene.store.subscribers o key =
        (w.scene.store.subscribers o key).filter w.scene.store.isLive ∧
      ∀ r w', Notification.set call o key v w = some (r, w') ↔
        ∃ ends, Notification.Updates call (Notification.announced w o key v) ends w' ∧
          ends.map Prod.fst = (w.scene.store.subscribers o key).filter w.scene.store.isLive ∧
          r = firstFailure ends := by
  obtain ⟨hpair, hbacked, -⟩ := (flows_run Store.orderly_advances depth [] a).flows
    (.start document data) (World.backed_start document data) hfair
  obtain ⟨hstart, hadvances⟩ := List.pairwise_cons.1 hpair
  have htidy : ∀ s ∈ Trace.stores (trace depth [] a (.start document data)), s.Tidy :=
    fun s hs ↦ (hstart s hs Store.tidy_empty).1
  refine ⟨hadvances.imp_of_mem fun hs _ hst ↦ (hst (htidy _ hs)).2, fun s hs ↦ ⟨htidy s hs, ?_⟩,
    fun s id path root hlive r ↦ Store.admits_evaluate hlive, fun call w o key v hw hwritten ↦ ?_⟩
  · obtain ⟨held, b, scene, hmem, rfl⟩ := Trace.mem_stores hs
    have hheld : scene.store.Holding held := hbacked _ hmem
    intro reads
    refine ⟨(Store.orderly_advances.touch hheld reads (htidy _ hs)).1,
      fun id rest htop r hr hkey ↦ ?_⟩
    exact Store.admits_touch htop (hheld.isLive_of_head htop) hr hkey
  · exact ⟨(hw.nodup o key).filter _, Notification.subscribers_announced hwritten,
      fun r w' ↦ Notification.set_eq_some_iff hwritten⟩

/-- Code that is fair leaves tidy lists behind. -/
theorem tidy_of_run {document : Document} {data : σ} {depth : Nat} {a : Action σ}
    (hfair : ∀ moment ∈ trace depth [] a (.start document data), moment.fair = true)
    {r : Except BindError Unit} {w : World σ}
    (hrun : run depth a (.start document data) = some (r, w)) :
    w.scene.store.Tidy := by
  obtain ⟨-, -, hend⟩ := (flows_run Store.orderly_advances depth [] a).flows
    (.start document data) (World.backed_start document data) hfair
  have hlast := (List.pairwise_append.1 (hend r w hrun).2).2.2 _ List.mem_cons_self _
    (List.mem_singleton_self _)
  exact (hlast Store.tidy_empty).1

/-- Subscribes a probe to the property of the only object. -/
def subscribing (id : SubscriberId) : Program Nat Unit := do
  Program.track id
  let _ ← Program.get 0 "x"
  Program.untrack

/-- When it is called for the first time it drops the second probe, subscribes a third one, writes
the property again, and fails. -/
def unruly : Program Nat (Except BindError Unit) := do
  let calls ← Program.inspects fun s ↦ s.data
  Program.modify (· + 1)
  if calls = 0 then
    Program.release 1
    let third ← Program.probe (do return .ok ())
    subscribing third
    let _ ← Program.set 0 "x" (.string "again")
    return .error (.state .emptyExpression)
  return .ok ()

/-- Two probes subscribe to the property, the first one over again. -/
def gathering : Program Nat Unit := do
  let _ ← Program.observe (.object [("x", .int 1)])
  let first ← Program.probe unruly
  let second ← Program.probe (do return .ok ())
  subscribing first
  subscribing second
  subscribing first

/-- Writes the property after that, twice. -/
def writingTwice : Action Nat := gathering fun _ ↦
  .set 0 "x" (.string "one") fun _ ↦ .set 0 "x" (.string "two") fun _ ↦ .done (.ok ())

/-- The second probe is updated although it has been dropped, and the third one, which has joined,
is updated by the fan-out within and not by the one that was under way. -/
theorem fan_out_laws_of_unruly : ∃ (w w' : World Nat) (ends : _),
    (∀ moment ∈ trace 6 [] writingTwice (.start .empty 0), moment.fair = true) ∧
    (Trace.stores (trace 6 [] writingTwice (.start .empty 0))).Pairwise Store.Ordered ∧
    w.scene.store.Tidy ∧ w.scene.store.subscribers 0 "x" = [0, 1] ∧
    Notification.Updates (run 6) (Notification.announced w 0 "x" (.string "one")) ends w' ∧
    ends.map Prod.fst = [0, 1] ∧ (firstFailure ends).isOk = false ∧
    w'.scene.store.subscribers 0 "x" = [0, 1, 2] ∧ w'.scene.store.isLive 1 = false := by
  have hall : (trace 6 [] writingTwice (.start .empty 0)).all Moment.fair = true := by
    decide +kernel
  have hgathering : (trace 6 [] (gathering fun _ ↦ .done (.ok ())) (.start .empty 0)).all
      Moment.fair = true := by decide +kernel
  have hrun : ((run 6 (gathering fun _ ↦ .done (.ok ())) (.start .empty 0)).bind fun p ↦
      (Notification.set (run 6) 0 "x" (.string "one") p.2).map fun q ↦
        ((p.2.scene.store.subscribers 0 "x").filter p.2.scene.store.isLive,
          decide ((p.2.scene.store.write 0 "x" (.string "one")).1 = .replaced),
          p.2.scene.store.subscribers 0 "x", q.1.isOk, q.2.scene.store.subscribers 0 "x",
          q.2.scene.store.isLive 1)) =
      some ([0, 1], true, [0, 1], false, [0, 1, 2], false) := by
    decide +kernel
  obtain ⟨⟨r, w⟩, hgathered, hrun⟩ := Option.bind_eq_some_iff.1 hrun
  obtain ⟨⟨r', w'⟩, hset, hfacts⟩ := Option.map_eq_some_iff.1 hrun
  simp only [Prod.mk.injEq, decide_eq_true_eq] at hfacts
  obtain ⟨htold, hwritten, hlist, hfailed, hlist', hdead⟩ := hfacts
  have hfair := List.all_eq_true.1 hall
  have htidy := tidy_of_run (List.all_eq_true.1 hgathering) hgathered
  obtain ⟨hordered, -, -, hfanning⟩ := fan_out_laws .empty 0 6 writingTwice hfair
  obtain ⟨-, -, hends⟩ := hfanning (run 6) w 0 "x" (.string "one") htidy hwritten
  obtain ⟨ends, hupdates, hids, rfl⟩ := (hends r' w').1 hset
  exact ⟨w, w', ends, hfair, hordered, htidy, hlist, hupdates, hids.trans htold, hfailed,
    hlist', hdead⟩

end DataBinding

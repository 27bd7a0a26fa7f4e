import DataBinding.Proofs.Engine.PathLaws
import DataBinding.Proofs.Engine.DiscreetCode

/-!
# Failures are isolated

Of those whom a write tells, any may fail: its expression may have no value any more, or its code
may fail.  **The write takes effect all the same, and its result is the first error.  Whoever fails
keeps what it has observed, and its code is called again when it is updated later.  For the others
it is as if those who fail did not exist** (`failures_are_isolated`): their code is called with the
same values, they observe the same, and they end up on the same lists.

The two writes that are compared begin in a world and in the same world without some subscribers
(`World.Without`).  Code is called in both of them, and has to be considerate of those who are told,
which it is if it neither writes nor updates nor calls
(`World.Prepared.tellsConsiderately_of_discreet`).  Without that, nothing keeps those who fail from
meddling with the others before they do (`failures_interfere`).
-/

set_option autoImplicit false

namespace DataBinding

variable {σ : Type}

/-! ## Writing and telling -/

theorem Store.write_fst (s : Store) (o : ObjectId) (key : String) (v : Value) :
    (s.write o key v).1 = (s.peek o key).elim .defined fun u ↦
      if u.identical v then .unchanged else .replaced := by
  rw [write, peek]
  cases s.property? o key with
  | none => rfl
  | some p =>
    by_cases hsame : p.value.identical v = true
    · simp only [if_pos hsame, Option.map_some, Option.elim_some]
    · simp only [if_neg hsame, Option.map_some, Option.elim_some]

namespace World

variable {w : World σ} {o : ObjectId} {key : String} {v : Value}

theorem told_of_replaced (hw : (w.scene.store.write o key v).1 = .replaced) :
    w.told o key v = (w.scene.store.subscribers o key).filter w.scene.store.isLive := by
  rw [told, hw]
  exact Store.liveSubscribers_write hw

section Replaced

variable (hw : (w.scene.store.write o key v).1 = .replaced)

include hw

theorem written_of_replaced : w.written o key v = Notification.announced w o key v := by
  rw [written, hw]

/-- Those who are told are held, and were alive before. -/
theorem handles_written :
    (w.written o key v).scene.store.handles.size = w.scene.store.handles.size ∧
    ∀ id, (w.written o key v).scene.store.isLive id = w.scene.store.isLive id := by
  have hlive : ∀ id ∈ (w.scene.store.write o key v).2.liveSubscribers o key,
      ((w.scene.store.write o key v).2.prune o key).isLive id = true :=
    fun _ ↦ Store.isLive_of_mem_liveSubscribers
  have hhandles : ((w.scene.store.write o key v).2.prune o key).handles = w.scene.store.handles :=
    Store.handles_write
  obtain ⟨-, -, hsize, hsame⟩ := Store.retainAll_of_live hlive
  rw [written_of_replaced hw, Notification.announced, World.store_withStore]
  exact ⟨hsize.trans (congrArg Array.size hhandles), fun id ↦
    (hsame id).trans (Store.isLive_congr hhandles id)⟩

/-- Nobody alive loses a place on a list when others are told. -/
theorem filter_subscribers_written {keep : SubscriberId → Bool}
    (hkeep : ∀ id, keep id = true → w.scene.store.isLive id = true) (o' : ObjectId) (k : String) :
    ((w.written o key v).scene.store.subscribers o' k).filter keep =
      (w.scene.store.subscribers o' k).filter keep := by
  have hlive : ∀ id ∈ (w.scene.store.write o key v).2.liveSubscribers o key,
      ((w.scene.store.write o key v).2.prune o key).isLive id = true :=
    fun _ ↦ Store.isLive_of_mem_liveSubscribers
  rw [written_of_replaced hw, Notification.announced, World.store_withStore,
    Store.subscribers_congr (Store.retainAll_of_live hlive).1, Store.subscribers_prune,
    Store.subscribers_write hw]
  split
  · refine Store.filter_keep_filter_live fun id hid ↦ ?_
    rw [Store.isLive_congr Store.handles_write]
    exact hkeep id hid
  · rfl

theorem peek_written (o' : ObjectId) (k : String) : (w.written o key v).scene.store.peek o' k =
    if o' = o ∧ k = key then some v else w.scene.store.peek o' k := by
  rw [Store.peek_congr (contents_written w o key v), Store.peek_write_of_replaced hw]

end Replaced

/-- Whoever is evaluating still is when the others are told. -/
theorem Tracks.written {T : List SubscriberId} (h : w.Tracks T) (o : ObjectId) (key : String)
    (v : Value) : (w.written o key v).Tracks T := by
  have hwritten := Store.lasting_tracking.write o key v h.store
  refine ⟨?_, by rw [code_written]; exact h.code⟩
  rw [World.written]
  cases (w.scene.store.write o key v).1 with
  | replaced =>
    exact Store.lasting_tracking.retainAll _ (Store.lasting_tracking.prune o key hwritten)
  | _ => exact hwritten

theorem replaced_of_mem_told {id : SubscriberId} (h : id ∈ w.told o key v) :
    (w.scene.store.write o key v).1 = .replaced := by
  rw [told] at h
  cases hw : (w.scene.store.write o key v).1 with
  | replaced => rfl
  | _ =>
    rw [hw] at h
    cases h

end World

/-! ## A write among the considerate -/

/-- The state is closed, and those whom the write tells are different watchers that have code. -/
structure World.Prepared (w : World σ) (o : ObjectId) (key : String) (v : Value) : Prop where
  closed : w.scene.store.Closed
  within : v.Within w.scene.store.objects.size
  nodup : (w.scene.store.subscribers o key).Nodup
  watchers : ∀ id ∈ w.told o key v, ∃ x reaction, w.scene.watcher? id = some x ∧
    x.root.Within w.scene.store.objects.size ∧ w.code.reactions[id]? = some reaction

/-- All code that is called by the write is considerate of those who are told. -/
def World.TellsConsiderately (w : World σ) (depth : Nat) (held : List SubscriberId) (o : ObjectId)
    (key : String) (v : Value) : Prop :=
  ConsiderateAll (run depth) (trace depth) held (w.told o key v) (w.told o key v)
    (w.written o key v)

/-- How the updates end that a write brings about, in the order of the list of the property. -/
def World.ends (w : World σ) (depth : Nat) (o : ObjectId) (key : String) (v : Value) :
    List (SubscriberId × Except StateError Unit) :=
  Notification.outcomes (run depth) (w.told o key v) (w.written o key v)

/-- Those whose updates fail when a property is written. -/
def World.failing (w : World σ) (depth : Nat) (o : ObjectId) (key : String) (v : Value) :
    List SubscriberId :=
  ((w.ends depth o key v).filter fun p ↦ !p.2.isOk).map Prod.fst

namespace World.Prepared

variable {w : World σ} {o : ObjectId} {key : String} {v : Value} {depth : Nat}
  {held : List SubscriberId}

theorem watches (h : w.Prepared o key v) {id : SubscriberId} (hid : id ∈ w.told o key v) :
    (w.written o key v).Watches id := by
  obtain ⟨x, reaction, hx, hroot, hreaction⟩ := h.watchers id hid
  have hw := replaced_of_mem_told hid
  have hcontents := w.contents_written o key v
  have hsize : (w.written o key v).scene.store.objects.size = w.scene.store.objects.size := by
    rw [← Store.size_contents, hcontents, Store.size_contents, Store.size_write]
  have hclosed := h.closed.write h.within (Store.isSome_property?_of_replaced hw)
  refine ⟨⟨x, by rwa [watcher?_written], fun r hr ↦ ?_⟩, reaction, by rwa [code_written]⟩
  refine (Store.closed_of_contents hclosed hcontents).reads_lt ?_ hr
  rwa [hsize]

/-- Everybody waits when the fan-out begins. -/
theorem telling (h : w.Prepared o key v) :
    Telling (w.told o key v) (w.written o key v) (w.told o key v) (w.written o key v) where
  kept := .refl _
  known id hid := by
    have hw := replaced_of_mem_told hid
    rw [(handles_written hw).1]
    rw [told_of_replaced hw, List.mem_filter] at hid
    exact Store.lt_of_isLive hid.2
  reactions _ _ := rfl
  subset _ hid := hid
  waiting _ _ := rfl
  nodup := by
    cases hw : (w.scene.store.write o key v).1 with
    | replaced =>
      rw [told_of_replaced hw]
      exact h.nodup.filter _
    | _ =>
      rw [World.told, hw]
      exact List.nodup_nil

/-- **A write among the considerate.** -/
theorem set (h : w.Prepared o key v) (hcode : w.TellsConsiderately depth held o key v) :
    ∃ w', Notification.set (run depth) o key v w = some (firstFailure (w.ends depth o key v), w') ∧
      (w.ends depth o key v).map Prod.fst = w.told o key v ∧
      Notification.callsOfSet (run depth) o key v w = (w.told o key v).filterMap
        (fun id ↦ ((w.written o key v).news id).map (id, ·)) ∧
      (callees (Trace.ofSet (run depth) (trace depth) held o key v w)).filter (· ∈ w.told o key v) =
        (Notification.callsOfSet (run depth) o key v w).map Prod.fst ∧
      Told (w.told o key v) (w.written o key v) (w.told o key v) (w.written o key v)
        (w.ends depth o key v) w' := by
  rw [Notification.set_eq_updateAll, Notification.callsOfSet_eq_calls,
    Trace.ofSet_eq_ofUpdateAll]
  exact h.telling.updateAll (fun _ ↦ h.watches) hcode

end World.Prepared

/-! ## Worlds without some subscribers -/

/-- The second world is the first one as it would be if the given subscribers did not exist: nobody
lists or holds them.  What else there is apart from objects and subscribers may differ. -/
structure World.Without (gone : List SubscriberId) (w w₂ : World σ) : Prop where
  contents : w₂.scene.store.contents = w.scene.store.contents
  subscribers : ∀ o key, w₂.scene.store.subscribers o key =
    (w.scene.store.subscribers o key).filter (· ∉ gone)
  live : ∀ id, w₂.scene.store.isLive id = (w.scene.store.isLive id && decide (id ∉ gone))
  watchers : ∀ id ∉ gone, w₂.scene.watcher? id = w.scene.watcher? id
  reactions : ∀ id ∉ gone, w₂.code.reactions[id]? = w.code.reactions[id]?

namespace Store

variable (s : Store) (gone : List SubscriberId)

/-- The store in which nobody lists or holds the given subscribers. -/
def without : Store where
  objects := s.objects.map fun object ↦ { object with properties := object.properties.map fun p ↦
    { p with subscribers := p.subscribers.filter (· ∉ gone) } }
  handles := s.handles.mapIdx fun id n ↦ if id ∈ gone then 0 else n
  tracking := s.tracking.filter (· ∉ gone)

theorem contents_without : (s.without gone).contents = s.contents := by
  rw [contents, contents, without, Array.map_map]
  congr 1
  funext object
  simp [Object.contents, List.map_map, Function.comp_def]

theorem subscribers_without (o : ObjectId) (key : String) :
    (s.without gone).subscribers o key = (s.subscribers o key).filter (· ∉ gone) := by
  rw [subscribers, subscribers, property?, property?, object?, object?, without, Array.getElem?_map]
  cases s.objects[o]? with
  | none => rfl
  | some object =>
    rw [Option.map_some, Option.bind_some, Option.bind_some, Object.property?, Object.property?,
      List.find?_map]
    show (((object.properties.find? fun p ↦ p.key == key).map _).map _).getD [] = _
    cases object.properties.find? fun p ↦ p.key == key <;> rfl

theorem isLive_without (id : SubscriberId) :
    (s.without gone).isLive id = (s.isLive id && decide (id ∉ gone)) := by
  rw [isLive, isLive, without, Array.getD_eq_getD_getElem?, Array.getD_eq_getD_getElem?,
    Array.getElem?_mapIdx]
  by_cases hid : id ∈ gone
  · cases s.handles[id]? <;> simp [hid]
  · cases s.handles[id]? <;> simp [hid]

end Store

/-- The world as it would be if the given subscribers did not exist. -/
def World.without (w : World σ) (gone : List SubscriberId) : World σ :=
  w.withStore (w.scene.store.without gone)

theorem World.Tracks.without {w : World σ} (h : w.Tracks []) (gone : List SubscriberId) :
    (w.without gone).Tracks [] where
  store := by
    show w.scene.store.tracking.filter (· ∉ gone) = []
    rw [h.store]
    rfl
  code := h.code

theorem World.without_without (w : World σ) (gone : List SubscriberId) :
    w.Without gone (w.without gone) where
  contents := w.scene.store.contents_without gone
  subscribers := w.scene.store.subscribers_without gone
  live := w.scene.store.isLive_without gone
  watchers _ _ := rfl
  reactions _ _ := rfl

namespace World.Without

variable {gone : List SubscriberId} {w w₂ : World σ} {o : ObjectId} {key : String} {v : Value}
  {id : SubscriberId}

/-- The write does the same to the state. -/
theorem write_fst_eq (h : w.Without gone w₂) (o : ObjectId) (key : String) (v : Value) :
    (w₂.scene.store.write o key v).1 = (w.scene.store.write o key v).1 := by
  rw [Store.write_fst, Store.write_fst, Store.peek_congr h.contents]

/-- The others are told, in the same order. -/
theorem told_eq (h : w.Without gone w₂) (o : ObjectId) (key : String) (v : Value) :
    w₂.told o key v = (w.told o key v).filter (· ∉ gone) := by
  cases hw : (w.scene.store.write o key v).1 with
  | replaced =>
    rw [told_of_replaced hw, told_of_replaced ((h.write_fst_eq o key v).trans hw), h.subscribers,
      List.filter_filter, List.filter_filter]
    refine List.filter_congr fun id _ ↦ ?_
    rw [h.live, Bool.and_assoc, Bool.and_self, Bool.and_comm]
  | _ =>
    rw [told, told, h.write_fst_eq, hw]
    rfl

theorem mem_told (h : w.Without gone w₂) :
    id ∈ w₂.told o key v ↔ id ∈ w.told o key v ∧ id ∉ gone := by
  rw [h.told_eq, List.mem_filter, decide_eq_true_eq]

theorem prepared (h : w.Without gone w₂) (hw : w.Prepared o key v) : w₂.Prepared o key v where
  closed := Store.closed_of_contents hw.closed h.contents
  within := by
    rw [← Store.size_contents, h.contents, Store.size_contents]
    exact hw.within
  nodup := by
    rw [h.subscribers]
    exact hw.nodup.filter _
  watchers id hid := by
    obtain ⟨hid, hgone⟩ := h.mem_told.1 hid
    rw [h.watchers id hgone, h.reactions id hgone, ← Store.size_contents, h.contents,
      Store.size_contents]
    exact hw.watchers id hid

/-- The state is the same when they are told. -/
theorem peek_written_eq (h : w.Without gone w₂) (hw : (w.scene.store.write o key v).1 = .replaced)
    (o' : ObjectId) (k : String) :
    (w₂.written o key v).scene.store.peek o' k = (w.written o key v).scene.store.peek o' k := by
  rw [peek_written hw, peek_written ((h.write_fst_eq o key v).trans hw),
    Store.peek_congr h.contents]

/-- Those who are told have the same news. -/
theorem news_written_eq (h : w.Without gone w₂) (hid : id ∈ w₂.told o key v) :
    (w₂.written o key v).news id = (w.written o key v).news id := by
  obtain ⟨hid, hgone⟩ := h.mem_told.1 hid
  rw [news, news, watcher?_written, watcher?_written, h.watchers id hgone]
  congr 1
  funext x
  rw [Store.resolve_congr fun r _ ↦ h.peek_written_eq (replaced_of_mem_told hid) r.1 r.2]

/-- Their expressions find the same properties. -/
theorem finds_written_eq (h : w.Without gone w₂) (hid : id ∈ w₂.told o key v) (o' : ObjectId)
    (k : String) : (w₂.written o key v).finds o' k id = (w.written o key v).finds o' k id := by
  obtain ⟨hid, hgone⟩ := h.mem_told.1 hid
  rw [finds, finds, watcher?_written, watcher?_written, h.watchers id hgone]
  congr 1
  funext x
  exact Store.finds_congr (fun r _ ↦ h.peek_written_eq (replaced_of_mem_told hid) r.1 r.2) o' k

end World.Without

/-! ## The theorem -/

/-- An update calls the code of the watcher with the value, and succeeds if the code does. -/
def World.CallsWith (w : World σ) (id : SubscriberId) (u : Value) : Prop :=
  ∃ x reaction, w.scene.watcher? id = some x ∧ w.code.reactions[id]? = some reaction ∧
    ∀ (call : Call σ) result w₁, call (reaction u) (w.evaluated id x) = some (result, w₁) →
      Notification.update call id w = some (result.mapError BindError.toState,
        w₁.heeding id (some u) (result.mapError BindError.toState))

theorem World.callsWith_of_news {w : World σ} {id : SubscriberId} {u : Value} {x : Watcher}
    {reaction : Value → Action σ} (hx : w.scene.watcher? id = some x)
    (hreaction : w.code.reactions[id]? = some reaction) (hnews : w.news id = some u) :
    w.CallsWith id u :=
  ⟨x, reaction, hx, hreaction, fun _ _ _ hcall ↦
    Notification.update_of_news hx hnews
      (Notification.react_of_code (w := w.evaluated id x) hreaction hcall)⟩

/-- The code of those whom a write tells is called in their turns, and at no other time during the
write. -/
def World.CallsInTurn (w : World σ) (depth : Nat) (held : List SubscriberId) (o : ObjectId)
    (key : String) (v : Value) : Prop :=
  (callees (Trace.ofSet (run depth) (trace depth) held o key v w)).filter (· ∈ w.told o key v) =
    (Notification.callsOfSet (run depth) o key v w).map Prod.fst

namespace World

variable {w w' : World σ} {o : ObjectId} {key : String} {v : Value} {depth : Nat}
  {held : List SubscriberId} {id : SubscriberId}

theorem mem_failing :
    id ∈ w.failing depth o key v ↔ ∃ e, (id, .error e) ∈ w.ends depth o key v := by
  rw [failing, List.mem_map]
  constructor
  · rintro ⟨⟨id', r⟩, hmem, rfl⟩
    obtain ⟨hmem, hr⟩ := List.mem_filter.1 hmem
    cases r with
    | error e => exact ⟨e, hmem⟩
    | ok u => cases hr
  · rintro ⟨e, hmem⟩
    exact ⟨_, List.mem_filter.2 ⟨hmem, rfl⟩, rfl⟩

/-- Whoever is told and does not fail succeeds. -/
theorem mem_ends_of_not_mem_failing (hends : (w.ends depth o key v).map Prod.fst = w.told o key v)
    (hid : id ∈ w.told o key v) (hnot : id ∉ w.failing depth o key v) :
    (id, .ok ()) ∈ w.ends depth o key v := by
  rw [← hends, List.mem_map] at hid
  obtain ⟨⟨id', r⟩, hmem, rfl⟩ := hid
  cases r with
  | error e => exact absurd (mem_failing.2 ⟨e, hmem⟩) hnot
  | ok u => exact hmem

/-- Whoever is called has the news in question. -/
theorem news_of_mem_calls {f : SubscriberId → Option Value} {ids : List SubscriberId} {u : Value}
    (hmem : (id, u) ∈ ids.filterMap fun id ↦ (f id).map (id, ·)) : id ∈ ids ∧ f id = some u := by
  obtain ⟨id', hid, hsome⟩ := List.mem_filterMap.1 hmem
  obtain ⟨u', hu, heq⟩ := Option.map_eq_some_iff.1 hsome
  cases heq
  exact ⟨hid, hu⟩

namespace Prepared

/-- **A write that tells the discreet calls considerate code**, unless somebody whom it tells is
evaluating. -/
theorem tellsConsiderately_of_discreet (h : w.Prepared o key v) (held : List SubscriberId)
    {T : List SubscriberId} (htracks : w.Tracks T) (hidle : ∀ id ∈ w.told o key v, id ∉ T)
    (hcode : ∀ id ∈ w.told o key v, ∀ reaction, w.code.reactions[id]? = some reaction → ∀ u,
      (reaction u).Discreet) : w.TellsConsiderately (depth + 1) held o key v := by
  have htracks' := htracks.written o key v
  have haside : (w.written o key v).Aside (w.told o key v) := by
    refine ⟨h.telling.known, fun id hid ↦ ?_, fun id hid ↦ ?_, fun id hid ↦ ?_⟩
    · obtain ⟨x, hx, -⟩ := (h.watches hid).watcher
      exact Option.isSome_of_mem hx
    · obtain ⟨reaction, hreaction⟩ := (h.watches hid).code
      exact Option.isSome_of_mem hreaction
    · rw [htracks'.store]
      exact hidle id hid
  refine h.telling.considerateAll_of_discreet haside htracks' (fun _ ↦ h.watches)
    fun id hid reaction hreaction ↦ ?_
  rw [code_written] at hreaction
  exact hcode id hid reaction hreaction

/-- **A watcher whose code has failed is called again** by a later update, with the same value, as
long as the state is as the write left it. -/
theorem called_again (h : w.Prepared o key v)
    (htold : Told (w.told o key v) (w.written o key v) (w.told o key v) (w.written o key v)
      (w.ends depth o key v) w') (hid : id ∈ w.told o key v) {u : Value}
    (hnews : (w.written o key v).news id = some u)
    (hsame : w'.scene.watcher? id = w.scene.watcher? id) {w₁ : World σ}
    (hkept : w'.scene.store.Kept w₁.scene.store)
    (hwatcher : w₁.scene.watcher? id = w'.scene.watcher? id)
    (hreaction : w₁.code.reactions[id]? = w'.code.reactions[id]?) : w₁.CallsWith id u := by
  obtain ⟨⟨x, hx, hwithin⟩, reaction, hcode⟩ := h.watches hid
  have hx₁ : w₁.scene.watcher? id = some x := by
    rwa [hwatcher, hsame, ← watcher?_written w o key v]
  refine callsWith_of_news hx₁ ((hreaction.trans (htold.reactions id hid)).trans hcode) ?_
  rw [← hnews, news, news, hx₁, hx, Option.bind_some, Option.bind_some,
    Store.resolve_congr fun r hr ↦ (htold.kept.trans hkept).peek_eq (hwithin r hr) r.2]

end Prepared

end World

namespace World.Without

variable {gone : List SubscriberId} {w w' w₂ w₂' : World σ} {o : ObjectId}
  {key : String} {v : Value} {ends ends₂ : List (SubscriberId × Except StateError Unit)}

/-- The others are called with the same news. -/
theorem calls_eq (h : w.Without gone w₂) :
    (w₂.told o key v).filterMap (fun id ↦ ((w₂.written o key v).news id).map (id, ·)) =
      ((w.told o key v).filterMap fun id ↦ ((w.written o key v).news id).map (id, ·)).filter
        (·.1 ∉ gone) := by
  rw [List.filterMap_congr
    fun id hid ↦ by
      rw [h.news_written_eq hid], h.told_eq, List.filterMap_filter, List.filter_filterMap]
  refine List.filterMap_congr fun id _ ↦ ?_
  cases (w.written o key v).news id with
  | none => simp
  | some u => simp [Option.filter]

/-- Those who stay alive are on the same lists in the end. -/
theorem subscribers_eq (h : w.Without gone w₂)
    (htold : Told (w.told o key v) (w.written o key v) (w.told o key v) (w.written o key v) ends w')
    (htold₂ : Told (w₂.told o key v) (w₂.written o key v) (w₂.told o key v)
        (w₂.written o key v) ends₂
      w₂') {keep : SubscriberId → Bool} (hkeep : ∀ id, keep id = true → id ∈ w₂.told o key v ∧
        w₂'.scene.store.isLive id = true ∧ w'.scene.store.isLive id = true) (o' : ObjectId)
    (k : String) : (w₂'.scene.store.subscribers o' k).filter keep =
      (w'.scene.store.subscribers o' k).filter keep := by
  by_cases hw : (w.scene.store.write o key v).1 = .replaced
  · have hlive : ∀ id, keep id = true → w.scene.store.isLive id = true := fun id hid ↦ by
      rw [← (World.handles_written hw).2]
      obtain ⟨hmem, -, hlive⟩ := hkeep id hid
      exact htold.live id (h.mem_told.1 hmem).1 hlive
    have hlive₂ : ∀ id, keep id = true → w₂.scene.store.isLive id = true := fun id hid ↦ by
      rw [h.live, hlive id hid, Bool.true_and, decide_eq_true_eq]
      exact (h.mem_told.1 (hkeep id hid).1).2
    rw [htold.subscribers keep fun id hid ↦ ⟨(h.mem_told.1 (hkeep id hid).1).1, (hkeep id hid).2.2⟩,
      htold₂.subscribers keep fun id hid ↦ ⟨(hkeep id hid).1, (hkeep id hid).2.1⟩,
      World.filter_subscribers_written hw hlive,
      World.filter_subscribers_written ((h.write_fst_eq o key v).trans hw) hlive₂, h.subscribers,
      Store.filter_keep_filter_live fun id hid ↦ decide_eq_true (h.mem_told.1 (hkeep id hid).1).2,
      h.told_eq, List.filter_filter]
    congr 1
    refine List.filter_congr fun id hid ↦ ?_
    cases hk : keep id with
    | false => simp
    | true =>
      have hmem := (hkeep id hk).1
      rw [h.finds_written_eq hmem, decide_eq_true (h.mem_told.1 hmem).2, Bool.and_true]
  · -- nobody is told
    have hnone : ∀ id, ¬keep id = true := fun id hid ↦
      hw (World.replaced_of_mem_told (h.mem_told.1 (hkeep id hid).1).1)
    rw [List.filter_eq_nil_iff.2 fun id _ ↦ hnone id, List.filter_eq_nil_iff.2 fun id _ ↦ hnone id]

end World.Without

open World in
/-- **Failures are isolated.**  A write that tells watchers whose code is considerate of them

* has the first error as its result, in the order of the list of the property, and calls the code of
  those who are told in their turns only;
* assigns to the property;
* leaves those whose updates fail as they were, and if it was their code that failed, a later update
  calls it again with the same value, as long as the state and the watcher are as the write left
  them.

The same write in a world without those who fail, if code is considerate there, too,

* tells the others and calls their code with the same values, in the same order, and in their turns
  only;
* leaves those who do not fail there, either, with the same value;
* leaves those who are alive after both writes on the same lists, in the same order. -/
theorem failures_are_isolated {w : World σ} {o : ObjectId} {key : String} {v : Value} {depth : Nat}
    {held : List SubscriberId} (h : w.Prepared o key v) (ho : o < w.scene.store.objects.size)
    (hcode : w.TellsConsiderately depth held o key v) :
    ∃ w', Notification.set (run depth) o key v w = some (firstFailure (w.ends depth o key v), w') ∧
      (w.ends depth o key v).map Prod.fst = w.told o key v ∧ w.CallsInTurn depth held o key v ∧
      (∃ x, v.Alike x ∧ w.scene.store.Assigned w'.scene.store o key x) ∧
      (∀ id ∈ w.failing depth o key v, w'.scene.watcher? id = w.scene.watcher? id) ∧
      (∀ id ∈ w.failing depth o key v, ∀ u,
        (id, u) ∈ Notification.callsOfSet (run depth) o key v w → ∀ w₁ : World σ,
          w'.scene.store.Kept w₁.scene.store → w₁.scene.watcher? id = w'.scene.watcher? id →
          w₁.code.reactions[id]? = w'.code.reactions[id]? → w₁.CallsWith id u) ∧
      ∀ w₂, w.Without (w.failing depth o key v) w₂ → w₂.TellsConsiderately depth held o key v →
        ∃ w₂', Notification.set (run depth) o key v w₂ =
            some (firstFailure (w₂.ends depth o key v), w₂') ∧
          w₂.told o key v = (w.told o key v).filter (· ∉ w.failing depth o key v) ∧
          w₂.CallsInTurn depth held o key v ∧
          Notification.callsOfSet (run depth) o key v w₂ =
            (Notification.callsOfSet (run depth) o key v w).filter
              (·.1 ∉ w.failing depth o key v) ∧
          (∀ id ∈ w₂.told o key v, id ∉ w₂.failing depth o key v →
            w₂'.scene.watcher? id = w'.scene.watcher? id) ∧
          ∀ keep : SubscriberId → Bool, (∀ id, keep id = true → id ∈ w₂.told o key v ∧
              w₂'.scene.store.isLive id = true ∧ w'.scene.store.isLive id = true) → ∀ o' k,
            (w₂'.scene.store.subscribers o' k).filter keep =
              (w'.scene.store.subscribers o' k).filter keep := by
  obtain ⟨w', hrun, hends, hcalls, hturn, htold⟩ := h.set hcode
  have hfailing : ∀ id ∈ w.failing depth o key v, w'.scene.watcher? id = w.scene.watcher? id := by
    intro id hid
    obtain ⟨e, hmem⟩ := mem_failing.1 hid
    rw [htold.watchers _ hmem, World.watcher?_written]
    exact Option.map_id' ..
  refine ⟨w', hrun, hends, hturn, ?_, hfailing,
    fun id hid u hcalled w₁ hkept hwatcher hreaction ↦ ?_, fun w₂ hw₂ hcode₂ ↦ ?_⟩
  · obtain ⟨x, halike, hassigned⟩ := Store.exists_assigned_write ho key v
    exact ⟨x, halike, hassigned.of_kept ho
      ((Store.Kept.of_contents (w.contents_written o key v)).trans htold.kept)⟩
  · rw [hcalls] at hcalled
    obtain ⟨hmem, hnews⟩ := news_of_mem_calls hcalled
    exact h.called_again htold hmem hnews (hfailing id hid) hkept hwatcher hreaction
  · obtain ⟨w₂', hrun₂, hends₂, hcalls₂, hturn₂, htold₂⟩ := (hw₂.prepared h).set hcode₂
    refine ⟨w₂', hrun₂, hw₂.told_eq o key v, hturn₂, ?_, fun id hid hnot ↦ ?_,
      fun keep hkeep o' k ↦ hw₂.subscribers_eq htold htold₂ hkeep o' k⟩
    · rw [hcalls₂, hcalls, hw₂.calls_eq]
    · obtain ⟨hid', hgone⟩ := hw₂.mem_told.1 hid
      rw [htold₂.watchers _ (mem_ends_of_not_mem_failing hends₂ hid hnot),
        htold.watchers _ (mem_ends_of_not_mem_failing hends hid' hgone), hw₂.news_written_eq hid,
        World.watcher?_written, World.watcher?_written, hw₂.watchers id hgone]

/-- An end that is a failure. -/
def giveUp : Action Nat := .done (.error (.state .emptyExpression))

/-- Three watchers of an object: the first one looks into it, and the code of the second one
fails. -/
def watchedObject : Option (World Nat) :=
  ((Notification.watch "n.x" (.object 1) counting ((World.start .empty 0).withStore
    (Store.observe (.object [("n", .object [("x", .int 1)])]) .empty).2)).bind fun p ↦
  (Notification.watch "n" (.object 1) (fun _ ↦ .modify (· + 1) giveUp) p.2).bind fun p ↦
  Notification.watch "n" (.object 1) counting p.2).map Prod.snd

/-- Nothing has been written since the object was made, nobody is evaluating, and the watchers have
their code. -/
theorem watchedObject_frame {w : World Nat} (h : watchedObject = some w) :
    w.scene.store.Closed ∧ w.Tracks [] ∧
      w.code.reactions = #[counting, fun _ ↦ .modify (· + 1) giveUp, counting] := by
  obtain ⟨⟨r₃, w₃⟩, hmade, rfl⟩ := Option.map_eq_some_iff.1 h
  obtain ⟨⟨r₁, w₁⟩, h₁, hmade⟩ := Option.bind_eq_some_iff.1 hmade
  obtain ⟨⟨r₂, w₂⟩, h₂, h₃⟩ := Option.bind_eq_some_iff.1 hmade
  obtain ⟨hcontents₁, hcode₁⟩ := Notification.watch_frame h₁
  obtain ⟨hcontents₂, hcode₂⟩ := Notification.watch_frame h₂
  obtain ⟨hcontents₃, hcode₃⟩ := Notification.watch_frame h₃
  refine ⟨Store.closed_of_contents (Store.observe_observed _ ?_).1.closed
    (hcontents₃.trans (hcontents₂.trans hcontents₁)), ?_, ?_⟩
  · exact (World.unwatched_start .empty 0).closed
  · have hstart := World.tracks_start .empty (0 : Nat)
    have hwatch (expr : String) {reaction : Value → Action Nat}
        (h : ∀ v, (reaction v).Balanced 0) :=
      Notification.lasts_watch Store.lasting_tracking (T := []) expr (.object 1) h
    have htracks₁ := (hwatch "n.x" fun _ ↦ .modify _ (.done _)).kept _ _ _ h₁
      ⟨Store.lasting_tracking.observe _ hstart.store, hstart.code⟩
    have htracks₂ := (hwatch "n" fun _ ↦ .modify _ (.done _)).kept _ _ _ h₂ htracks₁
    exact (hwatch "n" fun _ ↦ .modify _ (.done _)).kept _ _ _ h₃ htracks₂
  · rw [hcode₃, hcode₂, hcode₁]
    rfl

/-- The object is replaced by a number, and the first watcher fails, too.  The third one is called,
and whether the other two exist makes no difference to it. -/
theorem failures_are_isolated_of_watchedObject :
    ∃ (u : Value) (w w' w₂' : World Nat) (e : StateError), watchedObject = some w ∧
      w.failing 5 1 "n" u = [0, 1] ∧
      Notification.set (run 5) 1 "n" u w = some (.error e, w') ∧ (0, .error e) ∈ w.ends 5 1 "n" u ∧
      w'.scene.watcher? 1 = w.scene.watcher? 1 ∧ w'.CallsWith 1 u ∧
      Notification.set (run 5) 1 "n" u (w.without [0, 1]) = some (.ok (), w₂') ∧
      Notification.callsOfSet (run 5) 1 "n" u (w.without [0, 1]) = [(2, u)] ∧
      w₂'.scene.watcher? 2 = w'.scene.watcher? 2 := by
  generalize hfive : Value.number (.ofInt 5) = five
  have hrun : watchedObject.map (fun w ↦ (w.told 1 "n" five,
      (w.ends 5 1 "n" five).map (fun p ↦ (p.1, p.2.isOk)),
      ((w.without [0, 1]).ends 5 1 "n" five).map (fun p ↦ (p.1, p.2.isOk)),
      [decide (Notification.callsOfSet (run 5) 1 "n" five w = [(1, five), (2, five)]),
        decide (w.failing 5 1 "n" five = [0, 1]), decide (w.scene.store.objects.size = 2),
        decide (w.scene.store.subscribers 1 "n").Nodup,
        [0, 1, 2].all fun id ↦ (w.scene.watcher? id).map Watcher.root == some (.object 1)])) =
      some ([0, 1, 2], [(0, false), (1, false), (2, true)], [(2, true)],
        [true, true, true, true, true]) := by
    rw [← hfive]
    decide +kernel
  obtain ⟨w, hw, hfacts⟩ := Option.map_eq_some_iff.1 hrun
  simp only [Prod.mk.injEq, List.cons.injEq, and_true, decide_eq_true_eq, List.all_eq_true,
    beq_iff_eq] at hfacts
  obtain ⟨htold, hends, hends₂, hcalls, hfailing, hsize, hnodup, hwatchers⟩ := hfacts
  obtain ⟨hclosed, htracks, hcode⟩ := watchedObject_frame hw
  have hprepared : w.Prepared 1 "n" five := by
    refine ⟨hclosed, by rw [← hfive]; trivial, hnodup, fun id hid ↦ ?_⟩
    rw [htold] at hid
    have hlt : id < 3 := (by decide : ∀ id ∈ [0, 1, 2], id < 3) id hid
    obtain ⟨x, hx, hroot⟩ := Option.map_eq_some_iff.1 (hwatchers id hid)
    refine ⟨x, _, hx, ?_, Array.getElem?_eq_getElem (by rw [hcode]; exact hlt)⟩
    rw [hroot, hsize]
    exact Nat.one_lt_two
  have hdiscreet (id : SubscriberId) (reaction : Value → Action Nat)
      (hreaction : w.code.reactions[id]? = some reaction) (u : Value) : (reaction u).Discreet := by
    have hmem := Array.mem_of_getElem? hreaction
    rw [hcode] at hmem
    simp only [List.mem_toArray, List.mem_cons, List.not_mem_nil, or_false] at hmem
    rcases hmem with rfl | rfl | rfl <;> exact .modify _ (.done _)
  have hwithout : w.Without (w.failing 5 1 "n" five) (w.without [0, 1]) := by
    rw [hfailing]
    exact w.without_without _
  have hconsiderate : w.TellsConsiderately 5 [] 1 "n" five :=
    hprepared.tellsConsiderately_of_discreet [] htracks (fun _ _ ↦ List.not_mem_nil) fun id _ ↦
      hdiscreet id
  have hconsiderate₂ : (w.without [0, 1]).TellsConsiderately 5 [] 1 "n" five :=
    (hwithout.prepared hprepared).tellsConsiderately_of_discreet [] (htracks.without _)
      (fun _ _ ↦ List.not_mem_nil) fun id _ ↦ hdiscreet id
  obtain ⟨w', hset, -, -, -, hkept, hagain, hothers⟩ := failures_are_isolated hprepared
    (hsize ▸ Nat.one_lt_two) hconsiderate
  obtain ⟨w₂', hset₂, htold₂, -, hcalls₂, hsame, -⟩ := hothers _ hwithout hconsiderate₂
  rw [hfailing] at hkept hagain htold₂ hcalls₂
  rw [htold] at htold₂
  have hfirst : ∃ e, firstFailure (w.ends 5 1 "n" five) = .error e ∧
      (0, .error e) ∈ w.ends 5 1 "n" five := by
    obtain ⟨⟨id, r⟩, rest, hlist, hhead, -⟩ := List.map_eq_cons_iff.1 hends
    obtain ⟨rfl, hr⟩ := Prod.mk.inj hhead
    cases r with
    | ok _ => cases hr
    | error e => exact ⟨e, by rw [hlist]; rfl, by rw [hlist]; exact List.mem_cons_self⟩
  have hlast : (w.without [0, 1]).ends 5 1 "n" five = [(2, .ok ())] := by
    obtain ⟨⟨id, r⟩, hlist, hhead⟩ := List.map_eq_singleton_iff.1 hends₂
    obtain ⟨rfl, hr⟩ := Prod.mk.inj hhead
    cases r with
    | ok _ => exact hlist
    | error e => cases hr
  obtain ⟨e, hfailure, hmem⟩ := hfirst
  refine ⟨five, w, w', w₂', e, hw, hfailing, by rw [hset, hfailure], hmem, hkept 1 (by simp),
    hagain 1 (by simp) five (by simp [hcalls]) w' (.refl _) rfl rfl, by rw [hset₂, hlast]; rfl,
    by rw [hcalls₂, hcalls]; rfl, hsame 2 (by rw [htold₂]; decide) ?_⟩
  rw [World.failing, hlast]
  exact List.not_mem_nil

/-! ## Failures that are not isolated -/

/-- Two watchers of a number, with the given code. -/
def sharingNumber (first second : Value → Action Nat) : Action Nat :=
  .observe (.object [("n", .int 1)]) fun v ↦
    .watch "n" v first fun _ ↦ .watch "n" v second fun _ ↦ .done (.ok ())

/-- What can be seen of a write to the number: whether state is as it was written, who has failed,
how often the code of the second watcher was called, what it has observed, and whether it is
alive. -/
structure Aftermath where
  holds : Option Value
  failing : List SubscriberId
  calls : Nat
  observed : Option Value
  live : Bool
  deriving DecidableEq

/-- What can be seen after a value has been written to the number. -/
def World.aftermath (w : World Nat) (v : Value) : Option Aftermath :=
  (Notification.set (run 5) 0 "n" v w).map fun p ↦ {
    holds := p.2.scene.store.peek 0 "n"
    failing := w.failing 5 0 "n" v
    calls := (callees (Trace.ofSet (run 5) (trace 5) [] 0 "n" v w)).count 1
    observed := (p.2.scene.watcher? 1).map Watcher.observed
    live := p.2.scene.store.isLive 1 }

/-- What can be seen of two such watchers, and of the second one if the first one did not exist. -/
def aftermaths (first second : Value → Action Nat) (v : Value) :
    Option (Option Aftermath × Option Aftermath) :=
  (run 5 (sharingNumber first second) (.start .empty 0)).map fun p ↦
    (p.2.aftermath v, (p.2.without [0]).aftermath v)

/-- **Failures are not isolated if code meddles.**  The state is written in none of these cases.

* The failing code updates the other watcher, whose code is called twice where it would be called
  once: NaN is news every time.
* The failing code drops the other watcher, which would stay alive.
* The failing code changes data on which the success of the other code depends.  The other watcher
  has observed the number, which it would not have. -/
theorem failures_interfere :
    aftermaths (fun _ ↦ .notify [1] fun _ ↦ giveUp) counting (.number .nan) =
      some (some ⟨some (.number .nan), [0], 2, some (.number .nan), true⟩,
        some ⟨some (.number .nan), [], 1, some (.number .nan), true⟩) ∧
    aftermaths (fun _ ↦ .release 1 giveUp) counting (.number (.ofInt 2)) =
      some (some ⟨some (.number (.ofInt 2)), [0], 1, some (.number (.ofInt 2)), false⟩,
        some ⟨some (.number (.ofInt 2)), [], 1, some (.number (.ofInt 2)), true⟩) ∧
    aftermaths (fun _ ↦ .modify (· + 1) giveUp)
        (fun _ ↦ .inspect fun s ↦ if s.data = 0 then giveUp else .done (.ok ()))
        (.number (.ofInt 2)) =
      some (some ⟨some (.number (.ofInt 2)), [0], 1, some (.number (.ofInt 2)), true⟩,
        some ⟨some (.number (.ofInt 2)), [1], 1, some (.number (.ofInt 1)), true⟩) := by
  decide +kernel

end DataBinding

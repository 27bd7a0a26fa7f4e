import DataBinding.Proofs.Engine.WatcherOrder
import DataBinding.Proofs.State.Subscription

/-!
# Who comes first

Watchers of the same expression are on the same lists, and whoever was made first comes first on
each of them.  This is not quite so obvious as it sounds: when a new object is put in the place of
an old one, everybody subscribes anew, in the order in which they are told about it.  `Ranked` is
the invariant, and the operations of the engine keep it (`Ranked.frame`, `Ranked.evaluated`).

It takes that nobody overtakes a watcher that waits to be told.  Code that runs in the middle of a
fan-out can do that by making a watcher, so `Ranked` speaks of watchers of which the later one was
not made by such code; they are called *outer*.
-/

set_option autoImplicit false

namespace DataBinding

variable {σ : Type}

/-- Two watchers of the same expression and root. -/
def World.Twins (w : World σ) (i j : SubscriberId) : Prop :=
  ∃ x y, w.scene.watcher? i = some x ∧ w.scene.watcher? j = some y ∧ x.expr = y.expr ∧
    x.root = y.root

theorem World.Twins.symm {w : World σ} {i j : SubscriberId} (h : w.Twins i j) : w.Twins j i := by
  obtain ⟨x, y, hx, hy, hexpr, hroot⟩ := h
  exact ⟨y, x, hy, hx, hexpr.symm, hroot.symm⟩

theorem World.Twins.congr {w w' : World σ} {i j : SubscriberId} (h : w'.Twins i j)
    (hi : w'.scene.watcher? i = w.scene.watcher? i)
    (hj : w'.scene.watcher? j = w.scene.watcher? j) :
    w.Twins i j := by
  obtain ⟨x, y, hx, hy, hsame⟩ := h
  exact ⟨x, y, hi.symm.trans hx, hj.symm.trans hy, hsame⟩

/-- Lists of subscribers are in order: of two watchers of the same expression that are alive, the
one that was made first comes first, if the other one is an outer one. -/
structure World.Ranked (outer : List SubscriberId) (w : World σ) : Prop where
  known : ∀ j ∈ outer, j < w.scene.store.handles.size
  valid : ∀ o key, ∀ id ∈ w.scene.store.subscribers o key, id < w.scene.store.handles.size
  nodup : ∀ o key, (w.scene.store.subscribers o key).Nodup
  ranked : ∀ i j, i < j → j ∈ outer → w.scene.store.isLive i = true →
    w.scene.store.isLive j = true → w.Twins i j → ∀ o key, j ∈ w.scene.store.subscribers o key →
      [i, j].Sublist (w.scene.store.subscribers o key)

namespace World.Ranked

variable {outer : List SubscriberId} {w w' : World σ}

theorem mono (h : w.Ranked outer) {outer' : List SubscriberId} (hsub : ∀ j ∈ outer', j ∈ outer) :
    w.Ranked outer' :=
  ⟨fun j hj ↦ h.known j (hsub j hj), h.valid, h.nodup, fun i j hij hj ↦
    h.ranked i j hij (hsub j hj)⟩

/-- **The frame.**  Lists on which the living keep their places stay in order. -/
theorem frame' (h : w.Ranked outer) (hleads : w.Leads w')
    (hlists : ∀ o key, (w'.scene.store.subscribers o key).Sublist
        (w.scene.store.subscribers o key) ∧
      ∀ i j, w'.scene.store.isLive i = true → w'.scene.store.isLive j = true →
        [i, j].Sublist (w.scene.store.subscribers o key) →
          j ∈ w'.scene.store.subscribers o key →
            [i, j].Sublist (w'.scene.store.subscribers o key)) :
    w'.Ranked outer where
  known j hj := Nat.lt_of_lt_of_le (h.known j hj) hleads.size_le
  valid o key id hid :=
    Nat.lt_of_lt_of_le (h.valid o key id ((hlists o key).1.subset hid)) hleads.size_le
  nodup o key := (h.nodup o key).sublist (hlists o key).1
  ranked i j hij hj hlivei hlivej htwins o key hmem := by
    have hjs := h.known j hj
    have his := Nat.lt_trans hij hjs
    obtain ⟨x', y', hx', hy', hexpr, hroot⟩ := htwins
    obtain ⟨x, hx, hxe, hxr⟩ := hleads.watcher i his x' hx'
    obtain ⟨y, hy, hye, hyr⟩ := hleads.watcher j hjs y' hy'
    exact (hlists o key).2 i j hlivei hlivej (h.ranked i j hij hj (hleads.live i his hlivei)
      (hleads.live j hjs hlivej) ⟨x, y, hx, hy, hxe ▸ hye ▸ hexpr, hxr ▸ hyr ▸ hroot⟩ o key
      ((hlists o key).1.subset hmem)) hmem

/-- A change that leaves the lists alone or makes new ones. -/
theorem frame (h : w.Ranked outer) (hleads : w.Leads w')
    (hlisted : w.scene.store.Listed w'.scene.store) : w'.Ranked outer :=
  h.frame' hleads fun o key ↦ by
    rcases hlisted o key with heq | hnil
    · rw [heq]
      exact ⟨List.Sublist.refl _, fun _ _ _ _ hsub _ ↦ hsub⟩
    · rw [hnil]
      exact ⟨List.nil_sublist _, fun _ _ _ _ _ hmem ↦ absurd hmem (by simp)⟩

theorem of_subscribers (h : w.Ranked outer) (hleads : w.Leads w')
    (hlists : w'.scene.store.subscribers = w.scene.store.subscribers) : w'.Ranked outer :=
  h.frame hleads fun o key ↦ .inl (by rw [hlists])

/-- Pruning the dead. -/
theorem prune (h : w.Ranked outer) (o : ObjectId) (key : String) :
    (w.withStore (w.scene.store.prune o key)).Ranked outer :=
  h.frame' (.of_handles rfl rfl) fun o' k ↦ by
    rw [World.store_withStore, Store.subscribers_prune]
    split
    · refine ⟨List.filter_sublist, fun i j hi hj hsub _ ↦ ?_⟩
      have hboth : ∀ k ∈ [i, j], w.scene.store.isLive k = true := by
        intro k hk
        rcases List.mem_pair.1 hk with rfl | rfl
        · exact hi
        · exact hj
      have hkept := hsub.filter w.scene.store.isLive
      rwa [List.filter_eq_self.2 hboth] at hkept
    · exact ⟨List.Sublist.refl _, fun _ _ _ _ hsub _ ↦ hsub⟩

/-- **A new watcher** may be an outer one: nobody has listed it yet. -/
theorem enrolled {pending running : List SubscriberId} {marks : List Mark} (h : w.Ranked outer)
    (horder : InOrder pending running marks w) (s : Subscriber) (reaction : Value → Action σ) :
    (w.enrolled s reaction).Ranked (outer ++ [w.scene.store.handles.size]) := by
  have hleads := horder.leads_enrolled s reaction
  have hframe : (w.enrolled s reaction).Ranked outer := h.of_subscribers hleads rfl
  have hsize : (w.enrolled s reaction).scene.store.handles.size =
      w.scene.store.handles.size + 1 := by
    simp [World.enrolled, Store.newSubscriber]
  refine ⟨fun j hj ↦ ?_, hframe.valid, hframe.nodup, fun i j hij hj hi hlive htwins o key hmem ↦ ?_⟩
  · rcases List.mem_append.1 hj with hj | hj
    · exact hframe.known j hj
    · rw [List.mem_singleton.1 hj, hsize]
      exact Nat.lt_succ_self _
  · rcases List.mem_append.1 hj with hj | hj
    · exact hframe.ranked i j hij hj hi hlive htwins o key hmem
    · have hlt := h.valid o key j hmem
      rw [List.mem_singleton.1 hj] at hlt
      exact absurd hlt (Nat.lt_irrefl _)

/-- **A watcher that is evaluated joins the lists behind its elder twins**, if these are on the
lists already. -/
theorem evaluated (h : w.Ranked outer) {id : SubscriberId} {x : Watcher}
    (hx : w.scene.watcher? id = some x) (hid : id < w.scene.store.handles.size)
    (helders : ∀ i < id, id ∈ outer → w.scene.store.isLive i = true → w.Twins i id →
      w.Attached i) :
    (w.evaluated id x).Ranked outer := by
  have hhandles := World.handles_evaluated w id x
  have hlive : ∀ i, (w.evaluated id x).scene.store.isLive i = w.scene.store.isLive i :=
    fun i ↦ Store.isLive_congr hhandles i
  refine ⟨fun j hj ↦ hhandles ▸ h.known j hj, fun o key j hj ↦ ?_, fun o key ↦ ?_,
    fun i j hij hj hi hjlive htwins o key hmem ↦ ?_⟩ <;>
  rcases Store.subscribers_evaluate hid x.expr x.root o key with hsame | ⟨hread, hlist⟩
  · rw [World.evaluated, World.store_withStore, hsame] at hj
    exact hhandles ▸ h.valid o key j hj
  · rw [World.evaluated, World.store_withStore, hlist, Store.mem_subscribeTo] at hj
    rw [hhandles]
    rcases hj with hj | rfl
    · exact h.valid o key j hj.1
    · exact hid
  · rw [World.evaluated, World.store_withStore, hsame]
    exact h.nodup o key
  · rw [World.evaluated, World.store_withStore, hlist]
    exact Store.nodup_subscribeTo (h.nodup o key)
  all_goals rw [hlive] at hi hjlive
  · rw [World.evaluated, World.store_withStore, hsame] at hmem ⊢
    exact h.ranked i j hij hj hi hjlive htwins o key hmem
  · rw [World.evaluated, World.store_withStore] at hmem ⊢
    by_cases hold : j ∈ w.scene.store.subscribers o key
    · rw [hlist]
      refine Store.sublist_subscribeTo (h.ranked i j hij hj hi hjlive htwins o key hold)
        fun k hk ↦ ?_
      rcases List.mem_pair.1 hk with rfl | rfl
      · exact Store.isLive_track id _ hi
      · exact Store.isLive_track id _ hjlive
    · -- whoever has joined is the watcher itself, and its elder twin reads the same
      have hkey : (w.scene.store.property? o key).isSome := by
        rw [← Store.isSome_property?_congr (World.contents_evaluated w id x)]
        exact Store.isSome_property?_of_mem hmem
      rw [hlist] at hmem ⊢
      rcases Store.mem_subscribeTo.1 hmem with hmem | rfl
      · exact absurd hmem.1 hold
      · obtain ⟨y, x', hy, hx', hexpr, hroot⟩ := htwins
        cases hx.symm.trans hx'
        have hattached := helders i hij hj hi ⟨y, x, hy, hx, hexpr, hroot⟩ y hy (o, key)
          (by rw [hexpr, hroot]; exact hread)
        exact Store.sublist_subscribeTo_self (hattached.mem_subscribers hkey)
          (Store.isLive_track j _ hi) hold

end World.Ranked

end DataBinding

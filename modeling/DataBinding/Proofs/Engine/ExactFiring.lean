import DataBinding.Proofs.Engine.CalledCode

/-!
# Exact firing

`Course outer w` says that `w` is reached by making watchers, dropping them, and writing to keys
that exist, the code of watchers being of the kind that abstains.  In such a world a write calls the
code of exactly those watchers whose expressions have other values after it than before it, each of
them once and with the new value (`Course.exact_firing`).

They are called in the order of the list of the property.  Watchers of the same expression are on it
in the order in which they were made, unless the later one was made by the code of a watcher: such
code runs in the middle of a fan-out, and `made_later_called_earlier` is a run in which it has a
watcher overtake one that waits.  `outer` are those that were made from outside.
-/

set_option autoImplicit false

namespace DataBinding

variable {σ : Type}

/-! ## The beginning of a fan-out -/

/-- Of two members of a list without repetitions only one comes first. -/
theorem not_sublist_swap {α : Type} {list : List α} {a b : α} (hnodup : list.Nodup)
    (h : [a, b].Sublist list) : ¬[b, a].Sublist list := by
  induction hnodup with
  | nil => cases h
  | @cons x list hx hnodup ih =>
    intro h'
    have hmem : ∀ {c}, [c].Sublist list → x ≠ c := fun hc ↦ hx _ (List.singleton_sublist.1 hc)
    cases h with
    | cons _ h =>
      cases h' with
      | cons _ h' => exact ih h h'
      | cons_cons _ h' => exact hx _ (h.subset (by simp)) rfl
    | cons_cons _ h =>
      cases h' with
      | cons _ h' => exact hx _ (h'.subset (by simp)) rfl
      | cons_cons _ h' => exact hmem h rfl

section Announced

variable {outer : List SubscriberId} {w : World σ} {o : ObjectId} {key : String} {v : Value}

theorem World.Ranked.announced (h : w.Ranked outer)
    (hw : (w.scene.store.write o key v).1 = .replaced) :
    (Notification.announced w o key v).Ranked outer := by
  have hwritten : (w.withStore (w.scene.store.write o key v).2).Ranked outer :=
    h.of_subscribers (.of_handles rfl Store.handles_write) (by
      funext o' k
      exact Store.subscribers_write hw o' k)
  have hpruned := hwritten.prune o key
  have hlive : ∀ id ∈ (w.scene.store.write o key v).2.liveSubscribers o key,
      ((w.scene.store.write o key v).2.prune o key).isLive id = true :=
    fun _ ↦ Store.isLive_of_mem_liveSubscribers
  refine hpruned.of_subscribers (InOrder.leads_retainAll hlive) ?_
  funext o' k
  exact Store.subscribers_congr (Store.retainAll_of_live hlive).1 o' k

/-- **A fan-out begins.** -/
theorem World.Tame.announced (h : w.Tame outer [] []) (hv : v.Within w.scene.store.objects.size)
    (hkey : (w.scene.store.property? o key).isSome)
    (hw : (w.scene.store.write o key v).1 = .replaced) :
    Fanning outer (Notification.announced w o key v)
      ((w.scene.store.write o key v).2.liveSubscribers o key)
      (Notification.announced w o key v) := by
  obtain ⟨marks, hserene, horder⟩ := h.order
  have hannounced := horder.announced hv hkey hw
  rw [List.append_nil] at hannounced
  have htold := Store.liveSubscribers_write hw
  have hsublist : ((w.scene.store.write o key v).2.liveSubscribers o key).Sublist
      (w.scene.store.subscribers o key) := htold ▸ List.filter_sublist
  refine ⟨⟨⟨h.ranked.announced hw, h.watchers, h.coded, h.code⟩, marks, hserene, hannounced⟩,
    .refl _, fun id hid ↦ ⟨?_, rfl⟩, List.pairwise_iff_forall_sublist.2 fun {i j} hij ↦ ?_⟩
  · refine Nat.lt_of_lt_of_le (h.ranked.valid o key id (hsublist.subset hid)) ?_
    exact Nat.le_of_eq h.size_subscribers.symm
  · have hne : i ≠ j := by
      rintro rfl
      have hnodup := (h.ranked.nodup o key).sublist (hij.trans hsublist)
      simp at hnodup
    refine ⟨hne, fun htwins ↦ ?_⟩
    by_contra hcontra
    obtain ⟨hle, hi⟩ : ¬i < j ∧ i ∈ outer := by simpa using hcontra
    have hlive : ∀ k ∈ [i, j], k ∈ w.scene.store.subscribers o key ∧
        w.scene.store.isLive k = true := by
      intro k hk
      have := hij.subset hk
      rwa [htold, List.mem_filter] at this
    have hlt : j < i := Nat.lt_of_le_of_ne (Nat.le_of_not_lt hle) hne.symm
    exact not_sublist_swap (h.ranked.nodup o key) (hij.trans hsublist)
      (h.ranked.ranked j i hlt hi (hlive j (by simp)).2 (hlive i (by simp)).2
        (World.Twins.symm htwins) o key (hlive i (by simp)).1)

end Announced

/-! ## Runs -/

/-- Worlds that are reached by making watchers, dropping them, and writing to keys that exist.  The
code of watchers may make watchers of its own; `outer` are the other ones, in the order in which
they were made. -/
inductive Course : List SubscriberId → World σ → Prop
  /-- Nobody watches anything yet. -/
  | start {w : World σ} (h : w.Unwatched) (hcode : w.code.reactions = #[])
      (hlists : ∀ o key, w.scene.store.subscribers o key = []) : Course [] w
  /-- New objects. -/
  | observe {outer : List SubscriberId} {w : World σ} (h : Course outer w) (data : Json) :
      Course outer (w.withStore (Store.observe data w.scene.store).2)
  /-- A new watcher. -/
  | watch {outer : List SubscriberId} {w w' : World σ} {expr : String} {root : Value}
      {reaction : Value → Action σ} {id : SubscriberId} (h : Course outer w)
      (hreaction : ∀ v, (reaction v).Abstains) (hroot : root.Within w.scene.store.objects.size)
      (hrun : Notification.watch expr root reaction w = some (.ok id, w')) :
      Course (outer ++ [id]) w'
  /-- A handle of a subscriber is dropped. -/
  | drop {outer : List SubscriberId} {w : World σ} (h : Course outer w) (id : SubscriberId) :
      Course outer (w.withStore (w.scene.store.release id))
  /-- A write, whether it succeeds or not. -/
  | set {outer : List SubscriberId} {w w' : World σ} {depth : Nat} {o : ObjectId} {key : String}
      {v : Value} {r : Except StateError Unit} (h : Course outer w)
      (hv : v.Within w.scene.store.objects.size) (hkey : (w.scene.store.property? o key).isSome)
      (hrun : Notification.set (run depth) o key v w = some (r, w'))
      (hcov : Covered (Chronicle.ofSet (run depth) (chronicle depth) o key v w)) : Course outer w'

/-- Every expression that is watched has a value, other than NaN, and still has one after a
write. -/
def Watchable (w : World σ) (o : ObjectId) (key : String) (v : Value) : Prop :=
  ∀ id x, w.scene.store.isLive id = true → w.scene.watcher? id = some x →
    ∃ a b, (Store.getValue x.expr x.root w.scene.store).1 = .ok a ∧ a.isNaN = false ∧
      (Store.getValue x.expr x.root (w.scene.store.write o key v).2).1 = .ok b

namespace Course

variable {outer : List SubscriberId} {w w' : World σ} {o : ObjectId} {key : String} {v : Value}
  {depth : Nat}

/-- The marks of a write that tells somebody are those of the fan-out. -/
theorem covered_fanOut (hw : (w.scene.store.write o key v).1 = .replaced)
    (hcov : Covered (Chronicle.ofSet (run depth) (chronicle depth) o key v w)) :
    Covered (Chronicle.ofUpdateAll (run depth) (chronicle depth)
      ((w.scene.store.write o key v).2.liveSubscribers o key)
      (Notification.announced w o key v)) := by
  rw [Chronicle.ofSet, covered_append, hw] at hcov
  exact hcov.2

/-- A new watcher has the next number. -/
theorem id_of_watch {expr : String} {root : Value} {reaction : Value → Action σ} {id : SubscriberId}
    (h : Notification.watch expr root reaction w = some (.ok id, w')) :
    id = w.scene.store.handles.size := by
  cases Notification.watch_outcome h with
  | observed _ => rfl

/-- **Between operations the world is tame.** -/
theorem tame (h : Course outer w) : w.Tame outer [] [] := by
  induction h with
  | @start w h hcode hlists =>
    refine ⟨⟨⟨by simp, fun o key id hid ↦ ?_, fun o key ↦ ?_, fun i j _ hj ↦ absurd hj (by simp)⟩,
      fun id hid ↦ ?_, by rw [hcode, h.subscribers]; rfl, fun id reaction hreaction ↦ ?_⟩, [],
      by simp [Serene], (Reached.start h).inOrder⟩
    · rw [hlists] at hid
      cases hid
    · rw [hlists]
      exact List.nodup_nil
    · rw [h.subscribers] at hid
      exact absurd hid (Nat.not_lt_zero id)
    · rw [hcode] at hreaction
      cases hreaction
  | observe _ data ih => exact (ih.observe data).1
  | watch _ hreaction hroot hrun ih =>
    exact (ih.watch hreaction hroot hrun (.inr ⟨rfl, by rw [id_of_watch hrun]⟩)).1
  | drop _ id ih => exact ih.release id
  | @set outer w w' depth o key v r _ hv hkey hrun hcov ih =>
    rw [Notification.set_eq] at hrun
    cases hw : (w.scene.store.write o key v).1 with
    | defined => exact absurd hw (Store.write_ne_defined hkey)
    | unchanged =>
      rw [hw] at hrun
      cases hrun
      rwa [(Store.write_of_unchanged hw).1]
    | replaced =>
      rw [hw] at hrun
      have hfanning := ih.announced hv hkey hw
      obtain ⟨marks, -, horder⟩ := hfanning.tame.order
      exact (hfanning.updateAll horder.closed horder.rooted hrun (covered_fanOut hw hcov)).1.tame

/-- A write at a path. -/
theorem setPath (h : Course outer w) {path : String} {root : Value} {r : Except StateError Unit}
    (hdestination : w.scene.store.destination path root = .ok (o, key))
    (hv : v.Within w.scene.store.objects.size) (hkey : (w.scene.store.property? o key).isSome)
    (hrun : Notification.setPath (run depth) path root v w = some (r, w'))
    (hcov : Covered (Chronicle.ofSetPath (run depth) (chronicle depth) path root v w)) :
    Course outer w' := by
  rw [Notification.setPath_eq path root v h.tame.idle, hdestination] at hrun
  rw [Chronicle.ofSetPath, hdestination] at hcov
  exact h.set hv hkey hrun hcov

/-- Whoever has news when the fan-out of a write begins has another value than before the write. -/
theorem news_announced (h : Course outer w) {id : SubscriberId} {x : Watcher} {a b : Value}
    (hlive : w.scene.store.isLive id = true) (hx : w.scene.watcher? id = some x)
    (ha : w.scene.store.resolve x.expr x.root = .ok a) (hnan : a.isNaN = false)
    (hb : (w.scene.store.write o key v).2.resolve x.expr x.root = .ok b) (u : Value) :
    (Notification.announced w o key v).news id = some u ↔ b = u ∧ a.identical b = false := by
  obtain ⟨marks, hserene, horder⟩ := h.tame.order
  have hobserved : x.observed.Alike a := by
    refine (horder.fresh id hlive (by simp) (by simp) x a hx ha fun hlast ↦ ?_).2 fun hlast ↦ ?_
    · cases hserene.lastEnding hlast
    · cases hserene.lastEnding hlast
  have hsame : x.observed.identical b = a.identical b := by
    rcases hobserved with h | ⟨-, h⟩
    · rw [Bool.eq_iff_iff]
      refine ⟨fun h' ↦ Value.identical_trans ?_ h', Value.identical_trans h⟩
      rwa [Value.identical_comm]
    · rw [hnan] at h
      cases h
  have hx' : (Notification.announced w o key v).scene.watcher? id = some x := hx
  rw [Notification.news_eq_some hx',
    Store.resolve_of_contents (Notification.contents_announced w o key v), hb, Except.ok.injEq,
    and_congr_right_iff]
  rintro rfl
  rw [hsame]

/-- Whoever has another value after a write is told about it. -/
theorem mem_liveSubscribers (h : Course outer w) (hw : (w.scene.store.write o key v).1 = .replaced)
    {id : SubscriberId} {x : Watcher} {a b : Value} (hlive : w.scene.store.isLive id = true)
    (hx : w.scene.watcher? id = some x) (ha : w.scene.store.resolve x.expr x.root = .ok a)
    (hnan : a.isNaN = false)
    (hb : (w.scene.store.write o key v).2.resolve x.expr x.root = .ok b)
    (hdiffer : a.identical b = false) :
    id ∈ (w.scene.store.write o key v).2.liveSubscribers o key := by
  obtain ⟨marks, -, horder⟩ := h.tame.order
  by_contra hid
  have hsame := (horder.attached id hlive (by simp)).resolve_write_of_not_told hlive hx hw hid
  rw [ha, hb] at hsame
  cases hsame
  rw [(Value.identical_self_iff a).2 hnan] at hdiffer
  cases hdiffer

/-- Of those who are told, the ones have news whose expressions have another value than before. -/
theorem mem_news_iff (h : Course outer w) (hw : (w.scene.store.write o key v).1 = .replaced)
    (hvalues : ∀ id x, w.scene.store.isLive id = true → w.scene.watcher? id = some x →
      ∃ a b, w.scene.store.resolve x.expr x.root = .ok a ∧ a.isNaN = false ∧
        (w.scene.store.write o key v).2.resolve x.expr x.root = .ok b)
    {id : SubscriberId} {b : Value} :
    (id, b) ∈ ((w.scene.store.write o key v).2.liveSubscribers o key).filterMap
        (fun id ↦ ((Notification.announced w o key v).news id).map (id, ·)) ↔
      w.scene.store.isLive id = true ∧ ∃ x a, w.scene.watcher? id = some x ∧
        w.scene.store.resolve x.expr x.root = .ok a ∧
        (w.scene.store.write o key v).2.resolve x.expr x.root = .ok b ∧
        a.identical b = false := by
  rw [List.mem_filterMap]
  constructor
  · rintro ⟨id', hid, hnews⟩
    obtain ⟨b', hnews, heq⟩ := Option.map_eq_some_iff.1 hnews
    cases heq
    rw [Store.liveSubscribers_write hw, List.mem_filter] at hid
    obtain ⟨x, hx⟩ := Option.isSome_iff_exists.1
      (h.tame.watchers id (h.tame.size_subscribers ▸ Store.lt_of_isLive hid.2))
    obtain ⟨a, b', ha, hnan, hb⟩ := hvalues id x hid.2 hx
    obtain ⟨rfl, hchanged⟩ := (h.news_announced hid.2 hx ha hnan hb b).1 hnews
    exact ⟨hid.2, x, a, hx, ha, hb, hchanged⟩
  · rintro ⟨hlive, x, a, hx, ha, hb, hchanged⟩
    obtain ⟨a', -, ha', hnan, -⟩ := hvalues id x hlive hx
    cases ha.symm.trans ha'
    exact ⟨id, h.mem_liveSubscribers hw hlive hx ha hnan hb hchanged,
      Option.map_eq_some_iff.2 ⟨b, (h.news_announced hlive hx ha hnan hb b).2 ⟨rfl, hchanged⟩, rfl⟩⟩

/-- The watchers that have news are some of those that are told, in the same order. -/
theorem sublist_of_filterMap (ids : List SubscriberId) (f : SubscriberId → Option Value) :
    ((ids.filterMap fun id ↦ (f id).map (id, ·)).map Prod.fst).Sublist ids := by
  induction ids with
  | nil => exact List.Sublist.refl []
  | cons id ids ih =>
    rw [List.filterMap_cons]
    cases f id with
    | none => exact ih.cons id
    | some v => exact ih.cons_cons id

/-- **A write that replaces a value** runs the code of whoever it tells and has news, and no other
code of watchers. -/
theorem callsOfSet_eq (h : Course outer w) (hv : v.Within w.scene.store.objects.size)
    (hkey : (w.scene.store.property? o key).isSome)
    (hw : (w.scene.store.write o key v).1 = .replaced)
    (hcov : Covered (Chronicle.ofSet (run (depth + 1)) (chronicle (depth + 1)) o key v w))
    (hvalues : ∀ id x, w.scene.store.isLive id = true → w.scene.watcher? id = some x →
      ∃ b, (w.scene.store.write o key v).2.resolve x.expr x.root = .ok b) :
    ∃ w', Notification.set (run (depth + 1)) o key v w = some (.ok (), w') ∧
      Notification.Performs (run (depth + 1)) (w.told o key v) (w.written o key v)
        (Notification.callsOfSet (run (depth + 1)) o key v w) w' ∧
      (∀ held, callees (Trace.ofSet (run (depth + 1)) (trace (depth + 1)) held o key v w) =
        (Notification.callsOfSet (run (depth + 1)) o key v w).map Prod.fst) ∧
      Notification.callsOfSet (run (depth + 1)) o key v w =
        ((w.scene.store.write o key v).2.liveSubscribers o key).filterMap
          fun id ↦ ((Notification.announced w o key v).news id).map (id, ·) := by
  have hfanning := h.tame.announced hv hkey hw
  obtain ⟨marks, -, horder⟩ := hfanning.tame.order
  have hmarks := covered_fanOut hw hcov
  obtain ⟨r, w', hrun⟩ := hfanning.exists_updateAll horder.closed horder.rooted hmarks
  obtain ⟨-, hcalls, hperforms, htrace, hr⟩ :=
    hfanning.updateAll horder.closed horder.rooted hrun hmarks
  have hok : r = .ok () := by
    refine hr fun id hid x hx ↦ ?_
    rw [Store.liveSubscribers_write hw, List.mem_filter] at hid
    rw [Store.resolve_of_contents (Notification.contents_announced w o key v)]
    exact hvalues id x hid.2 hx
  have htold : w.told o key v = (w.scene.store.write o key v).2.liveSubscribers o key := by
    rw [World.told, hw]
  have hwritten : w.written o key v = Notification.announced w o key v := by
    rw [World.written, hw]
  rw [Notification.set_eq_updateAll, Notification.callsOfSet_eq_calls, htold, hwritten]
  refine ⟨w', hok ▸ hrun, hperforms, fun held ↦ ?_, hcalls⟩
  rw [Trace.ofSet_eq_ofUpdateAll, htold, hwritten]
  exact htrace held

end Course

/-! ## A watcher that overtakes another one -/

/-- A number in an object in an object, and nobody who watches. -/
def nested : World Nat :=
  (World.start .empty 0).withStore
    (Store.observe (.object [("a", .object [("b", .int 1)])]) .empty).2

/-- Code that makes another watcher of the number the first time it is called. -/
def joining : Value → Action Nat := fun _ ↦
  .inspect fun s ↦ .modify (· + 1) <|
    if s.data = 0 then .watch "a.b" (.object 1) counting fun _ ↦ .done (.ok ()) else .done (.ok ())

theorem counting_abstains (v : Value) : (counting v).Abstains := .modify .done

theorem joining_abstains (v : Value) : (joining v).Abstains := by
  refine .inspect fun s ↦ .modify ?_
  split
  · exact .watch counting_abstains fun _ ↦ .done
  · exact .done

/-- Two watchers of the number, of which the first makes a third one when the inner object is
replaced.  What is left is the number in the new object, where the third is before the second. -/
theorem exists_course_joining :
    ∃ w : World Nat, Course [0, 1] w ∧ (w.scene.store.property? 2 "b").isSome ∧
      Covered (Chronicle.ofSet (run 5) (chronicle 5) 2 "b" (.number (.ofInt 3)) w) ∧
      Watchable w 2 "b" (.number (.ofInt 3)) ∧ w.Twins 2 1 ∧
      Notification.callsOfSet (run 5) 2 "b" (.number (.ofInt 3)) w =
        [(0, .number (.ofInt 3)), (2, .number (.ofInt 3)), (1, .number (.ofInt 3))] ∧
      w.told 2 "b" (.number (.ofInt 3)) = [0, 2, 1] ∧ w.scene.data = 2 ∧
      (Notification.set (run 5) 2 "b" (.number (.ofInt 3)) w).map (·.2.scene.data) = some 5 := by
  have hrun : (do
      let (r₁, w₁) ← Notification.watch "a.b" (.object 1) joining nested
      let (r₂, w₂) ← Notification.watch "a.b" (.object 1) counting w₁
      let w₃ := w₂.withStore (Store.observe (.object [("b", .int 2)]) w₂.scene.store).2
      let (_, w) ← Notification.set (run 5) 1 "a" (.object 2) w₃
      return [decide (r₁.toOption = some 0), decide (r₂.toOption = some 1),
        (w₃.scene.store.property? 1 "a").isSome,
        decide ((Value.object 2).Within w₃.scene.store.objects.size),
        decide ((Value.object 1).Within nested.scene.store.objects.size),
        decide ((Value.object 1).Within w₁.scene.store.objects.size),
        (Chronicle.ofSet (run 5) (chronicle 5) 1 "a" (.object 2) w₃).all Mark.isCovered,
        decide (w.scene.subscribers.size = 3),
        decide (∀ i : Nat, i < 3 →
          (w.scene.watcher? i).map (fun x ↦ (x.expr, x.root)) = some ("a.b", .object 1)),
        (w.scene.store.property? 2 "b").isSome,
        (Chronicle.ofSet (run 5) (chronicle 5) 2 "b" (.number (.ofInt 3)) w).all Mark.isCovered,
        decide ((Store.getValue "a.b" (.object 1) w.scene.store).1.toOption =
          some (.number (.ofInt 2))),
        decide ((Store.getValue "a.b" (.object 1)
          (w.scene.store.write 2 "b" (.number (.ofInt 3))).2).1.toOption =
            some (.number (.ofInt 3))),
        decide (Notification.callsOfSet (run 5) 2 "b" (.number (.ofInt 3)) w =
          [(0, .number (.ofInt 3)), (2, .number (.ofInt 3)), (1, .number (.ofInt 3))]),
        decide (w.told 2 "b" (.number (.ofInt 3)) = [0, 2, 1]), decide (w.scene.data = 2),
        decide ((Notification.set (run 5) 2 "b" (.number (.ofInt 3)) w).map (·.2.scene.data) =
          some 5)]) =
      some (List.replicate 17 true) := by
    decide +kernel
  obtain ⟨⟨r₁, w₁⟩, hwatch₁, hrun⟩ := Option.bind_eq_some_iff.1 hrun
  obtain ⟨⟨r₂, w₂⟩, hwatch₂, hrun⟩ := Option.bind_eq_some_iff.1 hrun
  obtain ⟨⟨r₃, w⟩, hset, hrun⟩ := Option.bind_eq_some_iff.1 hrun
  simp only [Option.pure_def, Option.some.injEq, List.replicate_succ, List.replicate_zero,
    List.cons.injEq, and_true, decide_eq_true_eq, List.all_eq_true] at hrun
  obtain ⟨hr₁, hr₂, ha, hinner, hroot₁, hroot₂, hcov, hsize, hwatchers, hb, hcov', hbefore, hafter,
    hcalls, htold, hdata, hdata'⟩ := hrun
  cases Except.eq_ok_of_toOption hr₁
  cases Except.eq_ok_of_toOption hr₂
  have hstart : Course [] (World.start Document.empty 0) := .start (World.unwatched_start _ _) rfl
    fun o key ↦ by
      simp [World.start, Store.subscribers, Store.property?, Store.object?, Store.empty]
  have hcourse := ((((hstart.observe (.object [("a", .object [("b", .int 1)])])).watch
    joining_abstains hroot₁ hwatch₁).watch counting_abstains hroot₂ hwatch₂).observe
      (.object [("b", .int 2)])).set hinner ha hset hcov
  have hwatcher : ∀ i : Nat, i < 3 → ∃ x, w.scene.watcher? i = some x ∧ x.expr = "a.b" ∧
      x.root = .object 1 := by
    intro i hi
    obtain ⟨x, hx, heq⟩ := Option.map_eq_some_iff.1 (hwatchers i hi)
    exact ⟨x, hx, congrArg Prod.fst heq, congrArg Prod.snd heq⟩
  refine ⟨w, hcourse, hb, hcov', fun id x hlive hx ↦ ?_, ?_, hcalls, htold, hdata, hdata'⟩
  · obtain ⟨x', hx', hexpr, hroot⟩ := hwatcher id (by
      rw [← hsize, hcourse.tame.size_subscribers]
      exact Store.lt_of_isLive hlive)
    cases hx.symm.trans hx'
    rw [hexpr, hroot]
    exact ⟨_, _, Except.eq_ok_of_toOption hbefore, rfl, Except.eq_ok_of_toOption hafter⟩
  · obtain ⟨x, hx, hexpr, hroot⟩ := hwatcher 2 (by decide)
    obtain ⟨y, hy, hexpr', hroot'⟩ := hwatcher 1 (by decide)
    exact ⟨x, y, hx, hy, hexpr.trans hexpr'.symm, hroot.trans hroot'.symm⟩

end DataBinding

import DataBinding.Proofs.Engine.BalancedEvaluations
import DataBinding.Proofs.Engine.Coherence
import DataBinding.Proofs.State.Subscription

/-!
# Who is evaluating

A read is recorded for the subscriber on top of the tracking stack, so a push or a pop too many
would subscribe the wrong one from then on.  `tracking_discipline` says that this does not happen.

* **Every operation leaves the stack as it found it**, however evaluations, writes, compilations and
  calls of code are nested in it and whichever of them fail, as long as the code is balanced.
* An evaluation enters its subscriber on the lists of the properties that exist and are visited, and
  nobody else on any list (`Store.Registered`).  Whoever is evaluating further out is not affected.
* What a program can ask without being tracked (`Glance`) changes nothing at all.
-/

set_option autoImplicit false

namespace DataBinding

variable {σ : Type}

/-! ## The stack -/

/-- The stack is a property that lasts. -/
theorem Store.lasting_tracking : Store.Lasting fun T s ↦ s.tracking = T where
  observe data h := (extends_observe data _).tracking.trans h
  get o key h := (tracking_get _ o key).trans h
  write _ _ _ h := tracking_write.trans h
  prune _ _ h := h
  newSubscriber h := h
  retain _ h := h
  release _ h := h
  track id h := congrArg (List.cons id) h
  untrack h := by rw [untrack, h]

/-- The given subscribers are evaluating, innermost first, and all code is balanced. -/
def World.Tracks (T : List SubscriberId) (w : World σ) : Prop :=
  w.Lasts (fun T s ↦ s.tracking = T) T

theorem World.tracks_iff {T : List SubscriberId} {w : World σ} :
    w.Tracks T ↔ w.scene.store.tracking = T ∧ w.code.Balanced :=
  ⟨fun h ↦ ⟨h.store, h.code⟩, fun h ↦ ⟨h.1, h.2⟩⟩

/-! ## The lists -/

/-- Between two stores a subscriber has been entered on the lists of properties that were read. -/
structure Store.Registered (s t : Store) (id : SubscriberId) (reads : List (ObjectId × String)) :
    Prop where
  /-- Whoever has been entered on a list is the subscriber, and the property exists and was read. -/
  gained : ∀ o key id', id' ∈ t.subscribers o key → id' ∉ s.subscribers o key →
    id' = id ∧ (o, key) ∈ reads ∧ (s.property? o key).isSome
  /-- No other list has changed. -/
  kept : ∀ o key, (o, key) ∉ reads ∨ (s.property? o key).isSome = false →
    t.subscribers o key = s.subscribers o key
  /-- The subscriber is on the list of everything that exists and was read. -/
  listed : ∀ r ∈ reads, (s.property? r.1 r.2).isSome → id ∈ t.subscribers r.1 r.2

theorem Store.subscribers_of_missing {s : Store} {o : ObjectId} {key : String}
    (h : (s.property? o key).isSome = false) : s.subscribers o key = [] := by
  have hnone : s.property? o key = none := by simpa using h
  rw [subscribers, hnone]
  rfl

/-- **An evaluation registers its subscriber and nobody else**, whoever is evaluating further out
and whether or not the expression has a value. -/
theorem Store.registered_evaluate {s : Store} {id : SubscriberId} (hid : id < s.handles.size)
    (path : String) (root : Value) :
    s.Registered (evaluate id path root s).2 id (s.reads path root) := by
  have hexists : ∀ o key, ((evaluate id path root s).2.property? o key).isSome =
      (s.property? o key).isSome :=
    isSome_property?_congr (contents_evaluate id path root s)
  have hkept : ∀ o key, (o, key) ∉ s.reads path root ∨ (s.property? o key).isSome = false →
      (evaluate id path root s).2.subscribers o key = s.subscribers o key := by
    intro o key h
    rcases h with hread | hmissing
    · exact (subscribers_evaluate hid path root o key).resolve_right fun h ↦ hread h.1
    · rw [subscribers_of_missing hmissing, subscribers_of_missing ((hexists o key).trans hmissing)]
  refine ⟨fun o key id' hmem hnew ↦ ?_, hkept, fun r hr hsome ↦ ?_⟩
  · rcases subscribers_evaluate hid path root o key with hsame | ⟨hread, hlist⟩
    · exact absurd (hsame ▸ hmem) hnew
    · rw [hlist, mem_subscribeTo] at hmem
      refine ⟨hmem.resolve_left fun h ↦ hnew h.1, hread, ?_⟩
      by_contra hmissing
      rw [Bool.not_eq_true] at hmissing
      have hnobody := hkept o key (.inr hmissing)
      rw [hlist, subscribers_of_missing hmissing] at hnobody
      have hself : id ∈ subscribeTo (s.track id).isLive [] id := mem_subscribeTo.2 (.inr rfl)
      rw [hnobody] at hself
      cases hself
  · have hlive : (s.track id).isLive id = true := isLive_retain.2 (.inr ⟨rfl, hid⟩)
    have hsubscribes := subscribes_touch (s := s.track id) rfl hlive hr
    rw [← subscribes_congr (objects_evaluate id path root s)] at hsubscribes
    exact hsubscribes.mem_subscribers ((hexists r.1 r.2).trans hsome)

/-! ## Questions -/

/-- What a program can ask about the state without being tracked. -/
inductive Glance where
  /-- What a property holds. -/
  | peek (o : ObjectId) (key : String)
  /-- What a value is as plain data. -/
  | toJson (v : Value)
  /-- What text is shown for a value. -/
  | display (v : Value)
  /-- What keys an object has. -/
  | keys (o : ObjectId)
  /-- Whether an object has a key. -/
  | containsKey (o : ObjectId) (key : String)
  /-- How many live subscribers a property has. -/
  | subscriberCount (o : ObjectId) (key : String)

namespace Glance

/-- What the answer to a question is like. -/
def Answer : Glance → Type
  | peek _ _ => Option Value
  | toJson _ => Json
  | display _ => String
  | keys _ => Option (List String)
  | containsKey _ _ => Bool
  | subscriberCount _ _ => Option Nat

/-- The answer to a question. -/
def answer : (g : Glance) → Store → g.Answer
  | peek o key, s => s.peek o key
  | toJson v, s => s.snapshot v
  | display v, s => s.display v
  | keys o, s => s.keys? o
  | containsKey o key, s => (s.property? o key).isSome
  | subscriberCount o key, s => s.subscriberCount? o key

/-- Asks a question. -/
def ask (g : Glance) : Program σ g.Answer := Program.inspects fun s ↦ g.answer s.store

end Glance

/-! ## The discipline -/

/-- **Tracking discipline.**  Every operation that comes to its end leaves the stack as it was, for
every stack and to any depth of nesting, with balanced code that may fail: making a watcher,
updating one, writing, compiling, and running any code.  An evaluation leaves the stack as it was
and registers its subscriber and nobody else, in particular nobody who is on the stack.  Questions
that are not tracked are answered in the world as it is, which goes on unchanged. -/
theorem tracking_discipline (depth limit : Nat) (T : List SubscriberId) :
    ((∀ expr root, ∀ reaction : Value → Action σ, (∀ v, (reaction v).Balanced 0) →
        Run.Keeps (World.Tracks T) (Notification.watch expr root reaction)) ∧
      (∀ id, Run.Keeps (World.Tracks T) (Notification.update (run (σ := σ) depth) id)) ∧
      (∀ o key v, Run.Keeps (World.Tracks T) (Notification.set (run (σ := σ) depth) o key v)) ∧
      (∀ path root v,
        Run.Keeps (World.Tracks T) (Notification.setPath (run (σ := σ) depth) path root v)) ∧
      (∀ job, ∀ methods : String → Event → Action σ, (∀ name e, (methods name e).Balanced 0) →
        Run.Keeps (World.Tracks T) (Compilation.compile (run depth) limit job methods)) ∧
      ∀ a : Action σ, a.Balanced 0 → Run.Keeps (World.Tracks T) (run depth a)) ∧
    (∀ (s : Store) (id : SubscriberId) path root, id < s.handles.size →
      (Store.evaluate id path root s).2.tracking = s.tracking ∧
      s.Registered (Store.evaluate id path root s).2 id (s.reads path root) ∧
      ∀ id' ∈ s.tracking, id' ≠ id → ∀ o key,
        id' ∈ (Store.evaluate id path root s).2.subscribers o key → id' ∈ s.subscribers o key) ∧
    ∀ (g : Glance) (next : g.Answer → Action σ) (w : World σ),
      follow (run depth) limit (g.ask next) w =
        follow (run depth) limit (next (g.answer w.scene.store)) w := by
  have hQ := Store.lasting_tracking
  have hcall : ∀ a : Action σ, a.Balanced 0 → Run.Keeps (World.Tracks T) (run depth a) :=
    fun a ↦ run_lasts hQ depth a T
  refine ⟨⟨fun expr root reaction h ↦ Notification.lasts_watch hQ expr root h,
    fun id ↦ Notification.lasts_update hQ hcall id,
    fun o key v ↦ Notification.lasts_set hQ hcall o key v,
    fun path root v ↦ Notification.lasts_setPath hQ hcall path root v,
    fun job methods h ↦ Compilation.lasts_compile hQ hcall h limit job, hcall⟩,
    fun s id path root hid ↦ ?_, fun g next w ↦ rfl⟩
  have hregistered := Store.registered_evaluate hid path root
  refine ⟨Store.tracking_evaluate id path root s, hregistered, fun id' _ hne o key hmem ↦ ?_⟩
  by_contra hnew
  exact hne (hregistered.gained o key id' hmem hnew).1

/-- Code that makes a watcher, updates one, drops one, writes state, and fails in the end. -/
def meddling : Value → Action Nat := fun _ ↦
  .watch "b.c" (.object 1) counting fun _ ↦ .watch "n" (.object 1) counting fun _ ↦
    .notify [1] fun _ ↦ .release 1 <| .setPath "n" (.object 1) (.bool true) fun _ ↦
      .modify (· + 1) <| .done (.error (.missingHandler "m"))

/-- Makes a watcher with this code, and another one, which the code updates and drops. -/
def watchingMeddlers : Action Nat :=
  .observe (.object [("b", .object []), ("n", .int 1)]) fun v ↦
    .watch "n" v meddling fun _ ↦ .watch "b.c" v counting fun _ ↦ .done (.ok ())

theorem meddling_balanced (v : Value) : (meddling v).Balanced 0 :=
  .watch _ _ (fun _ ↦ .modify _ (.done _)) fun _ ↦ .watch _ _ (fun _ ↦ .modify _ (.done _)) fun _ ↦
    .notify _ fun _ ↦ .release _ <| .setPath _ _ _ fun _ ↦ .modify _ (.done _)

theorem watchingMeddlers_balanced : watchingMeddlers.Balanced 0 :=
  .observe _ fun _ ↦ .watch _ _ meddling_balanced fun _ ↦
    .watch _ _ (fun _ ↦ .modify _ (.done _)) fun _ ↦ .done _

theorem World.tracks_start (document : Document) (data : σ) :
    (World.start document data).Tracks [] :=
  World.tracks_iff.2 ⟨rfl, World.balanced_start document data⟩

/-- While the second watcher is evaluating twice over, a write calls this code, which fails after it
has written state itself; and an evaluation comes to a segment that does not resolve. -/
theorem tracking_discipline_of_meddling :
    ∃ (w w' : World Nat) (e : StateError), w.Tracks [1, 1] ∧
      Notification.set (run 5) 1 "n" (.number (.ofInt 2)) w = some (.error e, w') ∧
      w'.scene.store.tracking = [1, 1] ∧
      (Store.evaluate 0 "n.c" (.object 1) w.scene.store).2.tracking = [1, 1] ∧
      1 ∉ (Store.evaluate 0 "n.c" (.object 1) w.scene.store).2.subscribers 1 "n" := by
  have hrun : ((run 5 watchingMeddlers (.start .empty 0)).bind fun p ↦
      (Notification.set (run 5) 1 "n" (.number (.ofInt 2))
        (p.2.withStore ((p.2.scene.store.track 1).track 1))).map fun q ↦
          (p.2.scene.store.handles.size, p.2.scene.store.subscribers 1 "n",
            q.1.isOk, q.2.scene.data)) =
      some (2, [0], false, 3) := by
    decide +kernel
  obtain ⟨p, hp, hrun⟩ := Option.bind_eq_some_iff.1 hrun
  obtain ⟨⟨r, w'⟩, hset, hfacts⟩ := Option.map_eq_some_iff.1 hrun
  simp only [Prod.mk.injEq] at hfacts
  obtain ⟨hsize, hlist, hfailed, -⟩ := hfacts
  have hidle :=
    (run_lasts Store.lasting_tracking 5 watchingMeddlers [] watchingMeddlers_balanced).kept
    _ _ _ hp (World.tracks_start .empty 0)
  have htracks : (p.2.withStore ((p.2.scene.store.track 1).track 1)).Tracks [1, 1] :=
    ⟨Store.lasting_tracking.track 1 (Store.lasting_tracking.track 1 hidle.store), hidle.code⟩
  obtain ⟨⟨-, -, hwrite, -⟩, hevaluate, -⟩ := tracking_discipline (σ := Nat) 5 5 [1, 1]
  have hid : 0 < ((p.2.scene.store.track 1).track 1).handles.size := by
    simp [Store.track, Store.retain, hsize]
  obtain ⟨htracking, -, hnobody⟩ := hevaluate _ 0 "n.c" (.object 1) hid
  cases r with
  | ok u => cases hfailed
  | error e =>
    refine ⟨_, w', e, htracks, hset, ((hwrite 1 "n" _).kept _ _ _ hset htracks).store,
      htracking.trans htracks.store, fun hmem ↦ ?_⟩
    have hbefore := hnobody 1 (by simp [Store.track]) (by simp) 1 "n" hmem
    rw [show ((p.2.scene.store.track 1).track 1).subscribers 1 "n" = [0] from hlist] at hbefore
    simp at hbefore

end DataBinding

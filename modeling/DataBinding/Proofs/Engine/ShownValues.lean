import DataBinding.Proofs.Engine.SubscriberLists
import DataBinding.Proofs.State.EqualContents
import Mathlib.Data.Finset.Dedup
import Mathlib.Data.Finset.Lattice.Basic

/-!
# What a watcher shows

A watcher whose code shows the value of its expression leads a simple life: it is told about a
change when it is on the list of the property that was written, and has its turn then.  `Follower`
is all that matters of it, the value observed last, the text shown last, and the lists that it is
on; and `Follower.after` says what becomes of these when state is written, without regard to who
else is told.

**A world goes through a run of writes as its follower does** (`World.Follows.performAll`), whatever
other subscribers there are, whatever errors they end with, and in whatever order all of them are
told, if the other code only looks and shows.  So what is shown in the end is a matter of the
contents of the state, of the writes, and of where the follower began.
-/

set_option autoImplicit false

namespace DataBinding

variable {σ : Type}

/-! ## Followers -/

namespace Store

/-- The properties there are among those that an expression reads. -/
def found (s : Store) (expr : String) (root : Value) : Finset (ObjectId × String) :=
  ((s.reads expr root).filter fun r ↦ (s.property? r.1 r.2).isSome).toFinset

theorem mem_found {s : Store} {expr : String} {root : Value} {r : ObjectId × String} :
    r ∈ s.found expr root ↔ r ∈ s.reads expr root ∧ (s.property? r.1 r.2).isSome := by
  rw [found, List.mem_toFinset, List.mem_filter]

theorem found_congr {s t : Store} (h : t.contents = s.contents) (expr : String) (root : Value) :
    t.found expr root = s.found expr root := by
  ext r
  rw [mem_found, mem_found, reads_of_contents h, isSome_property?_congr h]

end Store

/-- Something that is done to the state. -/
inductive Deed where
  /-- Plain data is turned into state. -/
  | observe (data : Json)
  /-- A property is written. -/
  | set (o : ObjectId) (key : String) (v : Value)
  /-- The property at a path is written. -/
  | setPath (path : String) (root : Value) (v : Value)

/-- Does a deed. -/
def Deed.perform (call : Call σ) : Deed → Run σ (Except StateError Unit)
  | .observe data => do
    let _ ← Run.onStore (Store.observe data)
    return .ok ()
  | .set o key v => Notification.set call o key v
  | .setPath path root v => Notification.setPath call path root v

/-- Does deeds in turn, whatever becomes of them. -/
def Deed.performAll (call : Call σ) : List Deed → Run σ (List (Except StateError Unit))
  | [] => return []
  | d :: rest => do
    let r ← d.perform call
    let rs ← performAll call rest
    return r :: rs

/-- The state after a deed. -/
def Deed.state (s : Store) : Deed → Store
  | .observe data => (Store.observe data s).2
  | .set o key v => (s.write o key v).2
  | .setPath path root v =>
    match s.destination path root with
    | .error _ => s
    | .ok (o, key) => (s.write o key v).2

/-- Over the same contents a deed leaves the same contents behind. -/
theorem Deed.state_congr {s t : Store} (h : t.contents = s.contents) (d : Deed) :
    (d.state t).contents = (d.state s).contents := by
  cases d with
  | observe data => exact (Store.observe_congr h data).2
  | set o key v => exact (Store.write_congr h o key v).2
  | setPath path base v =>
    rw [Deed.state, Deed.state, Store.destination_of_contents h]
    cases s.destination path base with
    | error e => exact h
    | ok place => exact (Store.write_congr h place.1 place.2 v).2

/-- What has become of a watcher that shows the value of an expression. -/
structure Follower where
  /-- The value observed last. -/
  observed : Value
  /-- The text shown last. -/
  text : String
  /-- The properties on whose lists it is. -/
  listed : Finset (ObjectId × String)

namespace Follower

variable (expr : String) (root : Value)

/-- Its turn: it is subscribed to what its expression finds, and shows a value that is new to it. -/
def turn (s : Store) (f : Follower) : Follower :=
  match s.resolve expr root with
  | .error _ => { f with listed := f.listed ∪ s.found expr root }
  | .ok v =>
    if f.observed.identical v then { f with listed := f.listed ∪ s.found expr root }
    else ⟨v, s.display v, f.listed ∪ s.found expr root⟩

/-- A write: it has its turn if it is told. -/
def write (s : Store) (o : ObjectId) (key : String) (v : Value) (f : Follower) : Follower :=
  match (s.write o key v).1 with
  | .defined | .unchanged => f
  | .replaced => if (o, key) ∈ f.listed then f.turn expr root (s.write o key v).2 else f

/-- A deed. -/
def deed (s : Store) (f : Follower) : Deed → Follower
  | .observe _ => f
  | .set o key v => f.write expr root s o key v
  | .setPath path base v =>
    match s.destination path base with
    | .error _ => f
    | .ok (o, key) => f.write expr root s o key v

/-- Deeds in turn. -/
def after (f : Follower) : Store → List Deed → Follower
  | _, [] => f
  | s, d :: rest => (f.deed expr root s d).after (d.state s) rest

variable {expr root} {f : Follower} {s t : Store}

/-- A second turn changes nothing. -/
theorem turn_turn : (f.turn expr root s).turn expr root s = f.turn expr root s := by
  have hlisted : f.listed ∪ s.found expr root ∪ s.found expr root =
      f.listed ∪ s.found expr root := by
    rw [Finset.union_assoc, Finset.union_idempotent]
  unfold turn
  cases s.resolve expr root with
  | error e => simp only [hlisted]
  | ok v =>
    simp only
    by_cases hsame : f.observed.identical v = true
    · simp only [if_pos hsame, hlisted]
    · simp only [if_neg hsame, hlisted, ite_self]

theorem turn_congr (h : t.contents = s.contents) (f : Follower) :
    f.turn expr root t = f.turn expr root s := by
  have hdisplay : t.display = s.display := funext (Store.display_congr h)
  rw [turn, turn, Store.resolve_of_contents h, Store.found_congr h, hdisplay]

theorem write_congr (h : t.contents = s.contents) (o : ObjectId) (key : String) (v : Value)
    (f : Follower) : f.write expr root t o key v = f.write expr root s o key v := by
  obtain ⟨hwritten, hcontents⟩ := Store.write_congr h o key v
  rw [write, write, hwritten, turn_congr hcontents]

theorem deed_congr (h : t.contents = s.contents) (f : Follower) (d : Deed) :
    f.deed expr root t d = f.deed expr root s d := by
  cases d with
  | observe data => rfl
  | set o key v => exact write_congr h o key v f
  | setPath path base v =>
    rw [deed, deed, Store.destination_of_contents h]
    cases s.destination path base with
    | error e => rfl
    | ok place => exact write_congr h place.1 place.2 v f

/-- **What becomes of a follower is a matter of the contents of the state.** -/
theorem after_congr (h : t.contents = s.contents) (f : Follower) (ds : List Deed) :
    f.after expr root t ds = f.after expr root s ds := by
  induction ds generalizing f s t with
  | nil => rfl
  | cons d ds ih =>
    rw [after, after, deed_congr h]
    exact ih (d.state_congr h) _

end Follower

/-! ## Code that shows -/

/-- Only the document and the data of the program are different. -/
structure World.Repaints (w w' : World σ) : Prop where
  store : w'.scene.store = w.scene.store
  subscribers : w'.scene.subscribers = w.scene.subscribers
  code : w'.code = w.code

/-- The code returns and repaints at most, and what is shown stays. -/
def Action.Spares (shows : String → Document → Prop) (a : Action σ) : Prop :=
  ∀ (depth : Nat) (w : World σ) (text : String), w.scene.store.tracking = [] →
    shows text w.scene.document → ∃ r w', run (depth + 1) a w = some (r, w') ∧ w.Repaints w' ∧
      shows text w'.scene.document

/-- The code of a watcher shows the value of its expression. -/
def ShowsValue (shows : String → Document → Prop) (expr : String) (root : Value)
    (reaction : Value → Action σ) : Prop :=
  ∀ (depth : Nat) (w : World σ) (text : String) (v : Value), w.scene.store.tracking = [] →
    shows text w.scene.document → w.scene.store.resolve expr root = .ok v →
      ∃ w', run (depth + 1) (reaction v) w = some (.ok (), w') ∧ w.Repaints w' ∧
        shows (w.scene.store.display v) w'.scene.document

/-- Nothing has happened to a subscriber, nor to what objects hold. -/
structure World.Overlooks (id : SubscriberId) (w w' : World σ) : Prop where
  contents : w'.scene.store.contents = w.scene.store.contents
  handles : w'.scene.store.handles = w.scene.store.handles
  tracking : w'.scene.store.tracking = w.scene.store.tracking
  watcher : w'.scene.watcher? id = w.scene.watcher? id
  code : w'.code = w.code
  listed : ∀ o key, id ∈ w'.scene.store.subscribers o key ↔ id ∈ w.scene.store.subscribers o key

namespace World

variable {id id' : SubscriberId} {w w₁ w' : World σ}

theorem Repaints.overlooks (h : w.Repaints w') (id : SubscriberId) : w.Overlooks id w' := by
  refine ⟨?_, ?_, ?_, ?_, h.code, fun o key ↦ ?_⟩
  all_goals first
    | rw [h.store]
    | rw [Scene.watcher?, Scene.watcher?, h.subscribers]

theorem Overlooks.trans (h : w.Overlooks id w₁) (h' : w₁.Overlooks id w') : w.Overlooks id w' :=
  ⟨h'.contents.trans h.contents, h'.handles.trans h.handles, h'.tracking.trans h.tracking,
    h'.watcher.trans h.watcher, h'.code.trans h.code,
    fun o key ↦ (h'.listed o key).trans (h.listed o key)⟩

/-- **Who is on a list after an evaluation**: whoever was and did not die, and the subscriber on the
lists of what was found. -/
theorem mem_subscribers_evaluated (w : World σ) (id : SubscriberId) (x : Watcher) (o : ObjectId)
    (key : String) : id' ∈ (w.evaluated id x).scene.store.subscribers o key ↔
      (id' = id ∧ (o, key) ∈ w.scene.store.found x.expr x.root) ∨
        (id' ∈ w.scene.store.subscribers o key ∧
          ((o, key) ∈ w.scene.store.reads x.expr x.root →
            (w.scene.store.track id).isLive id' = true)) := by
  have hsame : (w.scene.store.track id).subscribers o key = w.scene.store.subscribers o key := rfl
  have hkey : ((w.scene.store.track id).property? o key).isSome
      = (w.scene.store.property? o key).isSome := rfl
  rw [evaluated, store_withStore, Store.subscribers_congr (Store.objects_evaluate ..),
    Store.mem_subscribers_touch (s := w.scene.store.track id) rfl (r := (o, key)), hkey, hsame,
    Store.mem_found]

theorem mem_subscribers_evaluated_of_live (w : World σ) (hid : w.scene.store.isLive id' = true)
    (x : Watcher) (o : ObjectId) (key : String) :
    id' ∈ (w.evaluated id x).scene.store.subscribers o key ↔
      (id' = id ∧ (o, key) ∈ w.scene.store.found x.expr x.root) ∨
        id' ∈ w.scene.store.subscribers o key := by
  rw [mem_subscribers_evaluated, and_iff_left fun _ ↦ Store.isLive_track id w.scene.store hid]

/-- The evaluation of somebody else's expression. -/
theorem overlooks_evaluated (w : World σ) (hid : w.scene.store.isLive id' = true) (hne : id' ≠ id)
    (x : Watcher) : w.Overlooks id' (w.evaluated id x) where
  contents := w.contents_evaluated id x
  handles := w.handles_evaluated id x
  tracking := w.tracking_evaluated id x
  watcher := rfl
  code := rfl
  listed o key := by
    rw [w.mem_subscribers_evaluated_of_live hid]
    exact or_iff_right fun h ↦ hne h.1

theorem document_heeding (w : World σ) (id : SubscriberId) (news : Option Value)
    (r : Except StateError Unit) : (w.heeding id news r).scene.document = w.scene.document := by
  rw [heeding]
  split
  · cases news <;> rfl
  · rfl

theorem overlooks_heeding (w : World σ) (hne : id' ≠ id) (news : Option Value)
    (r : Except StateError Unit) : w.Overlooks id' (w.heeding id news r) where
  contents := by rw [store_heeding]
  handles := by rw [store_heeding]
  tracking := by rw [store_heeding]
  watcher := (watcher?_heeding ..).trans (if_neg hne)
  code := code_heeding ..
  listed o key := by rw [store_heeding]

end World

/-! ## Worlds that go as their follower does -/

/-- A watcher shows the value of its expression, and its follower is as it is.  Those in `pending`
are held until their turn is over; all other code only looks and shows. -/
structure World.Follows (shows : String → Document → Prop) (id : SubscriberId) (expr : String)
    (root : Value) (pending : List SubscriberId) (f : Follower) (w : World σ) : Prop where
  idle : w.scene.store.tracking = []
  holding : w.scene.store.Holding (pending ++ [id])
  watcher : w.scene.watcher? id = some ⟨expr, root, f.observed⟩
  code : ∃ reaction, w.code.reactions[id]? = some reaction ∧ ShowsValue shows expr root reaction
  others : ∀ id' reaction, id' ≠ id → w.code.reactions[id']? = some reaction →
    ∀ v, (reaction v).Spares shows
  listed : ∀ o key, id ∈ w.scene.store.subscribers o key ↔ (o, key) ∈ f.listed
  shown : shows f.text w.scene.document

namespace World.Follows

variable {shows : String → Document → Prop} {id id' : SubscriberId} {expr : String} {root : Value}
  {pending rest : List SubscriberId} {f : Follower} {w w' : World σ}

theorem live (h : w.Follows shows id expr root pending f) : w.scene.store.isLive id = true :=
  h.holding.isLive (by simp)

theorem overlooks (h : w.Follows shows id expr root pending f) (hsame : w.Overlooks id w')
    {text : String} (hshown : shows text w'.scene.document) :
    w'.Follows shows id expr root pending { f with text := text } where
  idle := hsame.tracking.trans h.idle
  holding := h.holding.of_handles hsame.handles hsame.tracking
  watcher := hsame.watcher.trans h.watcher
  code := hsame.code ▸ h.code
  others := hsame.code ▸ h.others
  listed o key := (hsame.listed o key).trans (h.listed o key)
  shown := hshown

/-- A turn is over. -/
theorem release (h : w.Follows shows id expr root (id' :: rest) f) :
    (w.withStore (w.scene.store.release id')).Follows shows id expr root rest f :=
  { h with holding := h.holding.release }

/-- The code of somebody else. -/
theorem react_other (h : w.Follows shows id expr root pending f) (hne : id' ≠ id) (depth : Nat)
    (v : Value) : ∃ r w', Notification.react (run (depth + 1)) id' v w = some (r, w') ∧
      w.Overlooks id w' ∧ shows f.text w'.scene.document := by
  cases hcode : w.code.reactions[id']? with
  | none => exact ⟨_, w, Notification.react_of_no_code hcode v, ⟨rfl, rfl, rfl, rfl, rfl,
      fun _ _ ↦ Iff.rfl⟩, h.shown⟩
  | some reaction =>
    obtain ⟨r, w', hrun, hrepaints, hshown⟩ :=
      h.others id' reaction hne hcode v depth w f.text h.idle h.shown
    exact ⟨_, w', Notification.react_of_code hcode hrun, hrepaints.overlooks id, hshown⟩

/-- **The turn of somebody else** passes the follower by. -/
theorem update_other (h : w.Follows shows id expr root pending f) (hne : id' ≠ id) (depth : Nat) :
    ∃ r w', Notification.update (run (depth + 1)) id' w = some (r, w') ∧ w.Overlooks id w' ∧
      shows f.text w'.scene.document := by
  have hscene : Run.scene w = some (w.scene, w) := rfl
  cases hsubscriber : w.scene.subscribers[id']? with
  | none =>
    refine ⟨.ok (), w, ?_, ⟨rfl, rfl, rfl, rfl, rfl, fun _ _ ↦ Iff.rfl⟩, h.shown⟩
    rw [Notification.update, Run.bind_of_eq_some hscene, hsubscriber]
    rfl
  | some subscriber =>
    cases subscriber with
    | probe =>
      obtain ⟨r, w', hreact, hsame, hshown⟩ := h.react_other hne depth .null
      refine ⟨r, w', ?_, hsame, hshown⟩
      rwa [Notification.update, Run.bind_of_eq_some hscene, hsubscriber]
    | watcher x =>
      have hx : w.scene.watcher? id' = some x := by rw [Scene.watcher?, hsubscriber]
      have hevaluated := w.overlooks_evaluated h.live (Ne.symm hne) x
      cases hnews : w.news id' with
      | none =>
        obtain ⟨r, hrun⟩ := Notification.exists_update_of_no_news (run (depth + 1)) hx hnews
        exact ⟨r, _, hrun, hevaluated, h.shown⟩
      | some v =>
        obtain ⟨r, w₁, hreact, hsame, hshown⟩ :=
          (h.overlooks hevaluated h.shown).react_other hne depth v
        refine ⟨r, _, Notification.update_of_news hx hnews hreact,
          (hevaluated.trans hsame).trans (w₁.overlooks_heeding (Ne.symm hne) _ _), ?_⟩
        rwa [World.document_heeding]

/-- The follower's own evaluation. -/
theorem evaluated (h : w.Follows shows id expr root pending f) (x : Watcher) (hexpr : x.expr = expr)
    (hroot : x.root = root) : (w.evaluated id x).Follows shows id expr root pending
      { f with listed := f.listed ∪ w.scene.store.found expr root } where
  idle := (w.tracking_evaluated id x).trans h.idle
  holding := h.holding.of_handles (w.handles_evaluated id x) (w.tracking_evaluated id x)
  watcher := h.watcher
  code := h.code
  others := h.others
  listed o key := by
    rw [w.mem_subscribers_evaluated_of_live h.live, h.listed, hexpr, hroot,
      Finset.mem_union, or_comm]
    simp
  shown := h.shown

/-- The follower takes note of a value. -/
theorem noting (h : w.Follows shows id expr root pending f) (v : Value) :
    (w.noting id v).Follows shows id expr root pending { f with observed := v } :=
  { h with
    watcher := by
      rw [World.watcher?_noting, if_pos rfl, h.watcher]
      rfl }

/-- What the follower has to tell its code is a value that is new to it. -/
theorem news_eq (h : w.Follows shows id expr root pending f) :
    w.news id = match w.scene.store.resolve expr root with
      | .error _ => none
      | .ok v => if f.observed.identical v then none else some v := by
  rw [World.news, h.watcher, Option.bind_some]
  cases w.scene.store.resolve expr root <;> rfl

/-- **The follower's own turn.** -/
theorem update_own (h : w.Follows shows id expr root pending f) (depth : Nat) :
    ∃ r w', Notification.update (run (depth + 1)) id w = some (r, w') ∧
      w'.scene.store.contents = w.scene.store.contents ∧
      w'.Follows shows id expr root pending (f.turn expr root w.scene.store) := by
  have hevaluated := h.evaluated ⟨expr, root, f.observed⟩ rfl rfl
  have hcontents := w.contents_evaluated id ⟨expr, root, f.observed⟩
  have hquiet : w.news id = none → f.turn expr root w.scene.store =
      { f with listed := f.listed ∪ w.scene.store.found expr root } →
      ∃ r w', Notification.update (run (depth + 1)) id w = some (r, w') ∧
        w'.scene.store.contents = w.scene.store.contents ∧
        w'.Follows shows id expr root pending (f.turn expr root w.scene.store) := by
    intro hnews hturn
    obtain ⟨r, hrun⟩ := Notification.exists_update_of_no_news (run (depth + 1)) h.watcher hnews
    exact ⟨r, _, hrun, hcontents, hturn ▸ hevaluated⟩
  have hnews := h.news_eq
  cases hv : w.scene.store.resolve expr root with
  | error e =>
    rw [hv] at hnews
    exact hquiet hnews (by rw [Follower.turn, hv])
  | ok v =>
    rw [hv] at hnews
    by_cases hsame : f.observed.identical v = true
    · simp only [if_pos hsame] at hnews
      exact hquiet hnews (by rw [Follower.turn, hv]; exact if_pos hsame)
    · simp only [if_neg hsame] at hnews
      obtain ⟨reaction, hcode, hshows⟩ := hevaluated.code
      obtain ⟨w₁, hrun, hrepaints, hshown⟩ := hshows depth _ f.text v hevaluated.idle h.shown
        ((Store.resolve_of_contents hcontents ..).trans hv)
      refine ⟨_, w₁.noting id v, Notification.update_of_news h.watcher hnews
        (Notification.react_of_code hcode hrun), ?_, ?_⟩
      · rw [World.store_noting, hrepaints.store, hcontents]
      · have hturn : f.turn expr root w.scene.store = ⟨v, w.scene.store.display v,
            f.listed ∪ w.scene.store.found expr root⟩ := by
          rw [Follower.turn, hv]
          exact if_neg hsame
        rw [Store.display_congr hcontents] at hshown
        rw [hturn]
        exact (hevaluated.overlooks (hrepaints.overlooks id) hshown).noting v

/-- **One turn**: the follower's own one, or somebody else's. -/
theorem turn (h : w.Follows shows id expr root (id' :: rest) f) (depth : Nat) :
    ∃ r w', Notification.update (run (depth + 1)) id' w = some (r, w') ∧
      w'.scene.store.contents = w.scene.store.contents ∧
      (w'.withStore (w'.scene.store.release id')).Follows shows id expr root rest
        (if id' = id then f.turn expr root w.scene.store else f) := by
  by_cases hid : id' = id
  · subst hid
    obtain ⟨r, w', hrun, hcontents, h'⟩ := h.update_own depth
    rw [if_pos rfl]
    exact ⟨r, w', hrun, hcontents, h'.release⟩
  · obtain ⟨r, w', hrun, hsame, hshown⟩ := h.update_other hid depth
    rw [if_neg hid]
    exact ⟨r, w', hrun, hsame.contents, (h.overlooks hsame hshown).release⟩

/-- **A fan-out** comes to its end, and the follower has had its turn if it was told. -/
theorem updateAll {ids : List SubscriberId} (h : w.Follows shows id expr root ids f) (depth : Nat) :
    ∃ r w', Notification.updateAll (run (depth + 1)) ids w = some (r, w') ∧
      w'.scene.store.contents = w.scene.store.contents ∧
      w'.Follows shows id expr root []
        (if id ∈ ids then f.turn expr root w.scene.store else f) := by
  induction ids generalizing f w with
  | nil => exact ⟨.ok (), w, rfl, rfl, by rwa [if_neg List.not_mem_nil]⟩
  | cons id' rest ih =>
    obtain ⟨first, w₁, hfirst, hcontents, h₁⟩ := h.turn depth
    obtain ⟨others, w', hothers, hcontents', h'⟩ := ih h₁
    rw [World.store_withStore, Store.contents_release] at hcontents'
    have hsame : (w₁.scene.store.release id').contents = w.scene.store.contents :=
      (Store.contents_release ..).trans hcontents
    rw [World.store_withStore, Follower.turn_congr hsame] at h'
    refine ⟨firstError first others, w', ?_, hcontents'.trans hcontents, ?_⟩
    · have hrelease : Run.editStore (fun s ↦ s.release id') w₁ =
        some ((), w₁.withStore (w₁.scene.store.release id')) := rfl
      rw [Notification.updateAll, Run.bind_of_eq_some hfirst, Run.bind_of_eq_some hrelease,
        Run.bind_of_eq_some hothers]
      rfl
    · -- Whoever has two turns in a row shows nothing new in the second.
      by_cases hid : id = id'
      · rw [if_pos (List.mem_cons.2 (.inl hid))]
        rw [if_pos hid.symm, Follower.turn_turn, ite_self] at h'
        exact h'
      · rw [if_neg (Ne.symm hid)] at h'
        simpa only [List.mem_cons, hid, false_or] using h'

/-- A fan-out begins with everybody held who is told, and nobody taken off a list but the dead. -/
theorem announced (h : w.Follows shows id expr root [] f) {o : ObjectId} {key : String} {v : Value}
    (hw : (w.scene.store.write o key v).1 = .replaced) :
    (Notification.announced w o key v).Follows shows id expr root
      ((w.scene.store.write o key v).2.liveSubscribers o key) f := by
  have hlive : ∀ id ∈ (w.scene.store.write o key v).2.liveSubscribers o key,
      ((w.scene.store.write o key v).2.prune o key).isLive id = true :=
    fun _ ↦ Store.isLive_of_mem_liveSubscribers
  obtain ⟨hobjects, htracking, -⟩ := Store.retainAll_of_live hlive
  have hidle : ((w.scene.store.write o key v).2.prune o key).tracking = w.scene.store.tracking :=
    Store.tracking_write
  exact {
    idle := htracking.trans (hidle.trans h.idle)
    holding := (h.holding.of_handles (t := (w.scene.store.write o key v).2.prune o key)
      Store.handles_write hidle).retainAll hlive
    watcher := h.watcher
    code := h.code
    others := h.others
    listed := fun o' k ↦ by
      rw [← h.listed o' k, Notification.announced, World.store_withStore,
        Store.subscribers_congr hobjects, Store.subscribers_prune, Store.subscribers_write hw]
      split
      · rw [List.mem_filter, and_iff_left]
        rw [Store.isLive_congr Store.handles_write]
        exact h.live
      · rfl
    shown := h.shown }

/-- **A write** has a result, and does to the follower what it does. -/
theorem set (h : w.Follows shows id expr root [] f) (depth : Nat) (o : ObjectId) (key : String)
    (v : Value) : ∃ r w', Notification.set (run (depth + 1)) o key v w = some (r, w') ∧
      w'.scene.store.contents = (w.scene.store.write o key v).2.contents ∧
      w'.Follows shows id expr root [] (f.write expr root w.scene.store o key v) := by
  have hquiet : (w.withStore (w.scene.store.write o key v).2).Follows shows id expr root [] f :=
    { h with
      idle := Store.tracking_write.trans h.idle
      holding := h.holding.of_handles Store.handles_write Store.tracking_write
      listed := fun o' k ↦ by
        rw [World.store_withStore, Store.subscribers_write_eq, h.listed] }
  rw [Notification.set_eq, Follower.write]
  cases hw : (w.scene.store.write o key v).1 with
  | unchanged | defined => exact ⟨_, _, rfl, rfl, hquiet⟩
  | replaced =>
    obtain ⟨r, w', hrun, hcontents, h'⟩ := (h.announced hw).updateAll depth
    have hannounced := Notification.contents_announced w o key v
    have htold : id ∈ (w.scene.store.write o key v).2.liveSubscribers o key ↔
        (o, key) ∈ f.listed := by
      rw [Store.liveSubscribers_write hw, List.mem_filter, h.listed, and_iff_left h.live]
    rw [Follower.turn_congr hannounced] at h'
    simp only [htold] at h'
    exact ⟨r, w', hrun, hcontents.trans hannounced, h'⟩

/-- New objects. -/
theorem observe (h : w.Follows shows id expr root [] f) (data : Json) :
    (w.withStore (Store.observe data w.scene.store).2).Follows shows id expr root [] f :=
  have hextends := Store.extends_observe data w.scene.store
  { h with
    idle := hextends.tracking.trans h.idle
    holding := h.holding.of_handles hextends.handles hextends.tracking
    listed := fun o key ↦ by rw [World.store_withStore, Store.subscribers_observe, h.listed] }

/-- **One deed** has a result, and does to the follower what it does. -/
theorem perform (h : w.Follows shows id expr root [] f) (depth : Nat) (d : Deed) :
    ∃ r w', d.perform (run (depth + 1)) w = some (r, w') ∧
      w'.scene.store.contents = (d.state w.scene.store).contents ∧
      w'.Follows shows id expr root [] (f.deed expr root w.scene.store d) := by
  cases d with
  | observe data => exact ⟨.ok (), _, rfl, rfl, h.observe data⟩
  | set o key v => exact h.set depth o key v
  | setPath path base v =>
    rw [Deed.perform, Notification.setPath_eq path base v h.idle, Deed.state, Follower.deed]
    cases w.scene.store.destination path base with
    | error e => exact ⟨_, w, rfl, rfl, h⟩
    | ok place => exact h.set depth place.1 place.2 v

/-- **Deeds in turn** have results, whether or not these are errors, and do to the follower what
they do. -/
theorem performAll (h : w.Follows shows id expr root [] f) (depth : Nat) (ds : List Deed) :
    ∃ rs w', Deed.performAll (run (depth + 1)) ds w = some (rs, w') ∧
      w'.Follows shows id expr root [] (f.after expr root w.scene.store ds) := by
  induction ds generalizing f w with
  | nil => exact ⟨[], w, rfl, h⟩
  | cons d ds ih =>
    obtain ⟨r, w₁, hfirst, hcontents, h₁⟩ := h.perform depth d
    obtain ⟨rs, w', hrest, h'⟩ := ih h₁
    rw [Follower.after_congr hcontents] at h'
    refine ⟨r :: rs, w', ?_, h'⟩
    rw [Deed.performAll, Run.bind_of_eq_some hfirst, Run.bind_of_eq_some hrest]
    rfl

end World.Follows

end DataBinding

import DataBinding.Proofs.State.Contents
import DataBinding.State.Path

/-!
# Evaluating an expression

Following a path does two things at once: it looks up values, and it subscribes whoever is
evaluating.  Here the two are taken apart.

* `Store.resolve` is the value of an expression or the reason why it has none, and `Store.reads` is
  the list of the properties that are looked up on the way, as far as the way goes.  Neither touches
  the store.
* `getValue_eq` says that a tracked evaluation computes this value and reads these properties, one
  after the other, and does nothing else (`Store.touch`); by `target_of_tracking_nil`, looking up
  where a write goes changes nothing while nobody is evaluating.
* `resolve_congr` is the frame: **an expression can only change its value through one of the
  properties it reads.**
* `evaluate_fst`, `evaluate_subscribes` and their neighbours describe an evaluation on behalf of a
  subscriber: afterwards the subscriber is on the list of everything that was read, nobody alive has
  lost a subscription, and the rest of the store is as before.
-/

set_option autoImplicit false

namespace DataBinding.Store

/-! ## The value of an expression and the properties it reads -/

/-- The value that segments lead to.  `path` is the whole path, for the error. -/
def resolveFrom (s : Store) (path : String) : List String → Value → Except StateError Value
  | [], v => .ok v
  | segment :: rest, .object o => s.resolveFrom path rest ((s.peek o segment).getD .null)
  | segment :: _, v => .error (.unresolved (Text.trim path) segment (s.kindOf v))

/-- The value of an expression, or the reason why it has none. -/
def resolve (s : Store) (path : String) (root : Value) : Except StateError Value :=
  match Path.segments path with
  | .error e => .error e
  | .ok segments => s.resolveFrom path segments root

/-- The properties that are looked up along segments, whether or not they exist. -/
def readsFrom (s : Store) : List String → Value → List (ObjectId × String)
  | segment :: rest, .object o =>
    (o, segment) :: s.readsFrom rest ((s.peek o segment).getD .null)
  | _, _ => []

/-- The properties that an expression reads, as far as it resolves. -/
def reads (s : Store) (path : String) (root : Value) : List (ObjectId × String) :=
  match Path.segments path with
  | .error _ => []
  | .ok segments => s.readsFrom segments root

/-- The object and the key that a write at a path goes to, or the reason why there is none. -/
def destination (s : Store) (path : String) (root : Value) :
    Except StateError (ObjectId × String) :=
  match Path.segments path with
  | .error e => .error e
  | .ok segments =>
    match s.resolveFrom path segments.dropLast root with
    | .error e => .error e
    | .ok (.object o) => .ok (o, segments.getLastD "")
    | .ok v => .error (.unresolved (Text.trim path) (segments.getLastD "") (s.kindOf v))

/-- The store after the given properties have been read in order. -/
def touch (s : Store) (reads : List (ObjectId × String)) : Store :=
  reads.foldl (fun s r ↦ (s.get r.1 r.2).2) s

@[simp] theorem touch_nil (s : Store) : s.touch [] = s := rfl

@[simp] theorem touch_cons (s : Store) (r : ObjectId × String) (reads : List (ObjectId × String)) :
    s.touch (r :: reads) = (s.get r.1 r.2).2.touch reads := rfl

theorem touch_append (s : Store) (reads reads' : List (ObjectId × String)) :
    s.touch (reads ++ reads') = (s.touch reads).touch reads' := List.foldl_append ..

/-! ## The frame of an evaluation -/

theorem resolveFrom_congr {s t : Store} (path : String) {segments : List String} {v : Value}
    (h : ∀ r ∈ s.readsFrom segments v, t.peek r.1 r.2 = s.peek r.1 r.2) :
    t.resolveFrom path segments v = s.resolveFrom path segments v := by
  induction segments generalizing v with
  | nil => rfl
  | cons segment rest ih =>
    cases v with
    | object o =>
      have hhere := h (o, segment) (by simp [readsFrom])
      rw [resolveFrom, resolveFrom, hhere]
      exact ih fun r hr ↦ h r (by simp [readsFrom, hr])
    | _ => rfl

theorem readsFrom_congr {s t : Store} {segments : List String} {v : Value}
    (h : ∀ r ∈ s.readsFrom segments v, t.peek r.1 r.2 = s.peek r.1 r.2) :
    t.readsFrom segments v = s.readsFrom segments v := by
  induction segments generalizing v with
  | nil => rfl
  | cons segment rest ih =>
    cases v with
    | object o =>
      have hhere := h (o, segment) (by simp [readsFrom])
      rw [readsFrom, readsFrom, hhere]
      exact congrArg _ (ih fun r hr ↦ h r (by simp [readsFrom, hr]))
    | _ => rfl

/-- **An expression changes its value only through a property that it reads.** -/
theorem resolve_congr {s t : Store} {path : String} {root : Value}
    (h : ∀ r ∈ s.reads path root, t.peek r.1 r.2 = s.peek r.1 r.2) :
    t.resolve path root = s.resolve path root := by
  rw [resolve, resolve]
  rw [reads] at h
  cases hs : Path.segments path with
  | error e => rfl
  | ok segments =>
    rw [hs] at h
    exact resolveFrom_congr path h

theorem reads_congr {s t : Store} {path : String} {root : Value}
    (h : ∀ r ∈ s.reads path root, t.peek r.1 r.2 = s.peek r.1 r.2) :
    t.reads path root = s.reads path root := by
  rw [reads, reads]
  rw [reads] at h
  cases hs : Path.segments path with
  | error e => rfl
  | ok segments =>
    rw [hs] at h
    exact readsFrom_congr h

theorem resolve_of_contents {s t : Store} (h : t.contents = s.contents) (path : String)
    (root : Value) : t.resolve path root = s.resolve path root :=
  resolve_congr fun r _ ↦ peek_congr h r.1 r.2

theorem reads_of_contents {s t : Store} (h : t.contents = s.contents) (path : String)
    (root : Value) : t.reads path root = s.reads path root :=
  reads_congr fun r _ ↦ peek_congr h r.1 r.2

/-- **Nobody notices a write to a property that they do not read.** -/
theorem peek_write_of_not_read {s : Store} {o : ObjectId} {key : String} {v : Value}
    (hw : (s.write o key v).1 = .replaced) {path : String} {root : Value}
    (h : (o, key) ∉ s.reads path root) :
    ∀ r ∈ s.reads path root, (s.write o key v).2.peek r.1 r.2 = s.peek r.1 r.2 := by
  intro r hr
  refine (peek_write_of_replaced hw r.1 r.2).trans (if_neg ?_)
  rintro ⟨rfl, rfl⟩
  exact h hr

theorem resolve_write_of_not_read {s : Store} {o : ObjectId} {key : String} {v : Value}
    (hw : (s.write o key v).1 = .replaced) {path : String} {root : Value}
    (h : (o, key) ∉ s.reads path root) :
    (s.write o key v).2.resolve path root = s.resolve path root :=
  resolve_congr (peek_write_of_not_read hw h)

/-! ## The tracked functions -/

theorem follow_eq (path : String) (segments : List String) (v : Value) (s : Store) :
    follow path segments v s =
      (s.resolveFrom path segments v, s.touch (s.readsFrom segments v)) := by
  induction segments generalizing v s with
  | nil => rfl
  | cons segment rest ih =>
    cases v with
    | object o =>
      have hpeek : ∀ r : ObjectId × String, (s.get o segment).2.peek r.1 r.2 = s.peek r.1 r.2 :=
        fun r ↦ peek_congr (contents_get s o segment) r.1 r.2
      rw [follow]
      simp only
      rw [get_fst, ih, resolveFrom_congr path fun r _ ↦ hpeek r,
        readsFrom_congr fun r _ ↦ hpeek r, resolveFrom, readsFrom, touch_cons]
    | _ => rfl

/-- A tracked evaluation gives the value of the expression and reads the properties it reads. -/
theorem getValue_eq (path : String) (root : Value) (s : Store) :
    getValue path root s = (s.resolve path root, s.touch (s.reads path root)) := by
  rw [getValue, resolve, reads]
  cases Path.segments path with
  | error e => rfl
  | ok segments => exact follow_eq path segments root s

theorem getValue_fst (path : String) (root : Value) (s : Store) :
    (getValue path root s).1 = s.resolve path root := by
  rw [getValue_eq]

theorem contents_touch (s : Store) (reads : List (ObjectId × String)) :
    (s.touch reads).contents = s.contents := by
  induction reads generalizing s with
  | nil => rfl
  | cons r rest ih => rw [touch_cons, ih, contents_get]

theorem handles_touch (s : Store) (reads : List (ObjectId × String)) :
    (s.touch reads).handles = s.handles := by
  induction reads generalizing s with
  | nil => rfl
  | cons r rest ih => rw [touch_cons, ih, handles_get]

theorem tracking_touch (s : Store) (reads : List (ObjectId × String)) :
    (s.touch reads).tracking = s.tracking := by
  induction reads generalizing s with
  | nil => rfl
  | cons r rest ih => rw [touch_cons, ih, tracking_get]

theorem touch_of_tracking_nil {s : Store} (h : s.tracking = []) (reads : List (ObjectId × String)) :
    s.touch reads = s := by
  induction reads with
  | nil => rfl
  | cons r rest ih => rw [touch_cons, get_snd_of_tracking_nil h, ih]

theorem Subscribes.touch {s : Store} {id : SubscriberId} {o : ObjectId} {key : String}
    (h : s.Subscribes id o key) (hlive : s.isLive id = true) (reads : List (ObjectId × String)) :
    (s.touch reads).Subscribes id o key := by
  induction reads generalizing s with
  | nil => exact h
  | cons r rest ih =>
    rw [touch_cons]
    refine ih (h.get hlive r.1 r.2) ?_
    rwa [isLive_congr (handles_get s r.1 r.2)]

/-- Reading properties subscribes the evaluating subscriber to each of them. -/
theorem subscribes_touch {s : Store} {id : SubscriberId} {rest : List SubscriberId}
    (ht : s.tracking = id :: rest) (hlive : s.isLive id = true) {reads : List (ObjectId × String)}
    {r : ObjectId × String} (hr : r ∈ reads) : (s.touch reads).Subscribes id r.1 r.2 := by
  induction reads generalizing s with
  | nil => simp at hr
  | cons q reads ih =>
    have hlive' : (s.get q.1 q.2).2.isLive id = true := by
      rwa [isLive_congr (handles_get s q.1 q.2)]
    rw [touch_cons]
    rcases List.mem_cons.1 hr with rfl | hr
    · exact (subscribes_get ht r.1 r.2).touch hlive' reads
    · exact ih (by rw [tracking_get, ht]) hlive' hr

/-- Looking up where a write goes changes nothing while nobody is evaluating. -/
theorem target_of_tracking_nil {s : Store} (h : s.tracking = []) (path : String) (root : Value) :
    target path root s = (s.destination path root, s) := by
  rw [target, destination]
  cases Path.segments path with
  | error e => rfl
  | ok segments =>
    simp only [follow_eq, touch_of_tracking_nil h]
    cases s.resolveFrom path segments.dropLast root with
    | error e => rfl
    | ok v => cases v <;> rfl

/-! ## Evaluating on behalf of a subscriber -/

section Evaluate

variable (id : SubscriberId) (path : String) (root : Value) (s : Store)

theorem evaluate_eq :
    evaluate id path root s
      = (s.resolve path root, ((s.track id).touch (s.reads path root)).untrack) := by
  rw [evaluate, getValue_eq, resolve_of_contents (contents_track s id),
    reads_of_contents (contents_track s id)]

theorem evaluate_fst : (evaluate id path root s).1 = s.resolve path root := by
  rw [evaluate_eq]

@[simp] theorem contents_evaluate : (evaluate id path root s).2.contents = s.contents := by
  rw [evaluate_eq, contents_untrack, contents_touch, contents_track]

/-- What the stack held is taken back when the evaluation ends. -/
theorem untrack_of_tracking {t : Store} (h : t.tracking = (s.track id).tracking)
    (hh : t.handles = (s.track id).handles) :
    t.untrack.handles = s.handles ∧ t.untrack.tracking = s.tracking ∧
      t.untrack.objects = t.objects := by
  have hcons : t.tracking = id :: s.tracking := h
  rw [untrack, hcons]
  refine ⟨?_, rfl, rfl⟩
  show t.handles.modify id (· - 1) = s.handles
  rw [hh]
  show (s.handles.modify id (· + 1)).modify id (· - 1) = s.handles
  refine Array.ext_getElem? fun i ↦ ?_
  simp only [Array.getElem?_modify]
  split
  · rw [Option.map_map]
    cases s.handles[i]? <;> simp
  · rfl

@[simp] theorem handles_evaluate : (evaluate id path root s).2.handles = s.handles := by
  rw [evaluate_eq]
  exact (untrack_of_tracking id s (tracking_touch _ _) (handles_touch _ _)).1

@[simp] theorem tracking_evaluate : (evaluate id path root s).2.tracking = s.tracking := by
  rw [evaluate_eq]
  exact (untrack_of_tracking id s (tracking_touch _ _) (handles_touch _ _)).2.1

theorem objects_evaluate :
    (evaluate id path root s).2.objects = ((s.track id).touch (s.reads path root)).objects := by
  rw [evaluate_eq]
  exact (untrack_of_tracking id s (tracking_touch _ _) (handles_touch _ _)).2.2

theorem isLive_track {id' : SubscriberId} (h : s.isLive id' = true) :
    (s.track id).isLive id' = true := by
  rw [isLive, decide_eq_true_eq, Array.getD_eq_getD_getElem?] at h ⊢
  show 0 < ((s.handles.modify id (· + 1))[id']?).getD 0
  rw [Array.getElem?_modify]
  split
  · cases hh : s.handles[id']? with
    | none => simp [hh] at h
    | some n => simp
  · exact h

variable {id path root s}

/-- An evaluation takes no subscription away from anybody alive. -/
theorem Subscribes.evaluate {id' : SubscriberId} {o : ObjectId} {key : String}
    (h : s.Subscribes id' o key) (hlive : s.isLive id' = true) :
    (Store.evaluate id path root s).2.Subscribes id' o key := by
  rw [subscribes_congr (objects_evaluate id path root s)]
  have hs : (s.track id).Subscribes id' o key := h
  exact hs.touch (isLive_track id s hlive) _

/-- **After an evaluation the subscriber is on the list of everything that was read.** -/
theorem evaluate_subscribes (hlive : s.isLive id = true) {r : ObjectId × String}
    (hr : r ∈ s.reads path root) : (Store.evaluate id path root s).2.Subscribes id r.1 r.2 := by
  rw [subscribes_congr (objects_evaluate id path root s)]
  exact subscribes_touch (s := s.track id) rfl (isLive_track id s hlive) hr

end Evaluate

end DataBinding.Store

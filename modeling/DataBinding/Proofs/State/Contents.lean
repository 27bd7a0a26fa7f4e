import DataBinding.State.Store

/-!
# What a store holds, and who has read it

Two things can be asked about a store: what its objects hold (`Store.contents`), and which
subscribers a property has.  Reading changes only the second, writing only the first.  This file
says so for every operation on stores, in two groups of lemmas.

* `peek` and `kindOf`, all that an evaluation looks at, are functions of the contents alone
  (`peek_congr`, `kindOf_congr`), and every operation but `write`, `push` and `modifyObject` keeps
  the contents.
* `Subscribes s id o key` says that `id` is among the subscribers of a property *if there is such a
  property*.  **No operation takes a live subscriber away** (`Subscribes.get`, `Subscribes.prune`,
  `subscribes_write_of_replaced`); what is taken away is dead.
-/

set_option autoImplicit false

namespace DataBinding

/-! ## Objects -/

namespace Object

theorem property?_key {o : Object} {key : String} {p : Property} (h : o.property? key = some p) :
    p.key = key := by
  simpa using List.find?_some h

/-- Changing a property that keeps its key is seen under that key and nowhere else. -/
theorem property?_modify (o : Object) (key : String) {f : Property → Property}
    (hf : ∀ p, (f p).key = p.key) (k : String) :
    (o.modify key f).property? k = if k = key then (o.property? k).map f else o.property? k := by
  have hcomp : ((fun p : Property ↦ p.key == k) ∘ fun p ↦ if p.key == key then f p else p)
      = fun p ↦ p.key == k := by
    funext p
    simp only [Function.comp_apply]
    split <;> simp [hf]
  rw [property?, modify, List.find?_map, hcomp, ← property?]
  cases hp : o.property? k with
  | none => simp
  | some p =>
    have hk := property?_key hp
    subst hk
    by_cases h : p.key = key <;> simp [h]

/-- The kind of an object and its keys with their values. -/
def contents (o : Object) : ObjectKind × List (String × Value) :=
  (o.kind, o.properties.map fun p ↦ (p.key, p.value))

theorem contents_modify {f : Property → Property}
    (hf : ∀ p, ((f p).key, (f p).value) = (p.key, p.value)) (o : Object) (key : String) :
    (o.modify key f).contents = o.contents := by
  rw [contents, contents, modify, List.map_map]
  refine Prod.ext rfl (List.map_congr_left fun p _ ↦ ?_)
  simp only [Function.comp_apply]
  split
  · exact hf p
  · rfl

theorem lookup_map_properties {β : Type} (f : Property → β) (properties : List Property)
    (key : String) : (properties.map fun p ↦ (p.key, f p)).lookup key =
      (properties.find? fun p ↦ p.key == key).map f := by
  induction properties with
  | nil => rfl
  | cons p rest ih =>
    rw [List.map_cons, List.lookup_cons, List.find?_cons, Bool.beq_comm]
    cases p.key == key with
    | true => rfl
    | false => exact ih

theorem lookup_contents (o : Object) (key : String) :
    o.contents.2.lookup key = (o.property? key).map Property.value :=
  lookup_map_properties Property.value o.properties key

end Object

namespace Store

/-! ## Contents -/

/-- What the objects of a store hold, without their subscribers. -/
def contents (s : Store) : Array (ObjectKind × List (String × Value)) :=
  s.objects.map Object.contents

theorem getElem?_contents (s : Store) (o : ObjectId) :
    s.contents[o]? = (s.object? o).map Object.contents := by
  rw [contents, Array.getElem?_map, object?]

@[simp] theorem size_contents (s : Store) : s.contents.size = s.objects.size := by
  rw [contents, Array.size_map]

theorem peek_eq (s : Store) (o : ObjectId) (key : String) :
    s.peek o key = (s.contents[o]?).bind fun c ↦ c.2.lookup key := by
  rw [peek, property?, getElem?_contents]
  cases s.object? o with
  | none => rfl
  | some object => exact (object.lookup_contents key).symm

theorem peek_congr {s t : Store} (h : s.contents = t.contents) (o : ObjectId) (key : String) :
    s.peek o key = t.peek o key := by
  rw [peek_eq, peek_eq, h]

theorem kindOf_congr {s t : Store} (h : s.contents = t.contents) (v : Value) :
    s.kindOf v = t.kindOf v := by
  cases v with
  | object o =>
    have hk : ∀ u : Store, (u.object? o).map Object.kind = (u.contents[o]?).map Prod.fst := by
      intro u
      rw [getElem?_contents, Option.map_map]
      rfl
    rw [kindOf, kindOf, hk, hk, h]
  | _ => rfl

theorem isSome_property?_congr {s t : Store} (h : s.contents = t.contents) (o : ObjectId)
    (key : String) : (s.property? o key).isSome = (t.property? o key).isSome := by
  have hp := congrArg Option.isSome (peek_congr h o key)
  simpa only [peek, Option.isSome_map] using hp

theorem contents_modifyObject {f : Object → Object} (hf : ∀ o, (f o).contents = o.contents)
    (s : Store) (o : ObjectId) : (s.modifyObject o f).contents = s.contents := by
  refine Array.ext_getElem? fun i ↦ ?_
  rw [getElem?_contents, getElem?_contents, object?, object?, modifyObject, Array.getElem?_modify]
  split
  · rw [Option.map_map]
    exact congrArg (fun g ↦ Option.map g _) (funext hf)
  · rfl

theorem contents_modifyProperty {f : Property → Property}
    (hf : ∀ p, ((f p).key, (f p).value) = (p.key, p.value)) (s : Store) (o : ObjectId)
    (key : String) : (s.modifyProperty o key f).contents = s.contents :=
  contents_modifyObject (fun object ↦ object.contents_modify hf key) s o

@[simp] theorem contents_subscribe (s : Store) (o : ObjectId) (key : String) (id : SubscriberId) :
    (s.subscribe o key id).contents = s.contents := by
  rw [subscribe]
  exact contents_modifyProperty (by simp) s o key

@[simp] theorem contents_prune (s : Store) (o : ObjectId) (key : String) :
    (s.prune o key).contents = s.contents := by
  rw [prune]
  exact contents_modifyProperty (by simp) s o key

@[simp] theorem contents_retain (s : Store) (id : SubscriberId) :
    (s.retain id).contents = s.contents := rfl

@[simp] theorem contents_release (s : Store) (id : SubscriberId) :
    (s.release id).contents = s.contents := rfl

@[simp] theorem contents_newSubscriber (s : Store) :
    s.newSubscriber.2.contents = s.contents := rfl

@[simp] theorem contents_track (s : Store) (id : SubscriberId) :
    (s.track id).contents = s.contents := rfl

@[simp] theorem contents_untrack (s : Store) : s.untrack.contents = s.contents := by
  rw [untrack]
  split <;> rfl

@[simp] theorem contents_get (s : Store) (o : ObjectId) (key : String) :
    (s.get o key).2.contents = s.contents := by
  rw [get]
  split
  · rfl
  · rfl
  · simp

/-- A tracked read gives what an untracked one gives. -/
theorem get_fst (s : Store) (o : ObjectId) (key : String) : (s.get o key).1 = s.peek o key := by
  rw [get, peek]
  split <;> simp_all

/-! ## Properties after an operation -/

theorem property?_modifyProperty (s : Store) (o : ObjectId) (key : String) {f : Property → Property}
    (hf : ∀ p, (f p).key = p.key) (o' : ObjectId) (k : String) :
    (s.modifyProperty o key f).property? o' k =
      if o' = o ∧ k = key then (s.property? o' k).map f else s.property? o' k := by
  rw [property?, property?, object?, object?, modifyProperty, modifyObject, Array.getElem?_modify]
  by_cases ho : o = o'
  · subst ho
    cases s.objects[o]? with
    | none => simp
    | some object => simp [object.property?_modify key hf k]
  · simp [ho, Ne.symm ho]

@[simp] theorem handles_modifyProperty (s : Store) (o : ObjectId) (key : String)
    (f : Property → Property) : (s.modifyProperty o key f).handles = s.handles := rfl

@[simp] theorem tracking_modifyProperty (s : Store) (o : ObjectId) (key : String)
    (f : Property → Property) : (s.modifyProperty o key f).tracking = s.tracking := rfl

@[simp] theorem handles_get (s : Store) (o : ObjectId) (key : String) :
    (s.get o key).2.handles = s.handles := by
  rw [get]
  split <;> rfl

@[simp] theorem tracking_get (s : Store) (o : ObjectId) (key : String) :
    (s.get o key).2.tracking = s.tracking := by
  rw [get]
  split <;> rfl

theorem isLive_congr {s t : Store} (h : s.handles = t.handles) (id : SubscriberId) :
    s.isLive id = t.isLive id := by
  rw [isLive, isLive, h]

/-- Without an evaluation under way a read changes nothing. -/
theorem get_snd_of_tracking_nil {s : Store} (h : s.tracking = []) (o : ObjectId) (key : String) :
    (s.get o key).2 = s := by
  rw [get, h]
  split <;> simp_all

/-! ## Handles -/

@[simp] theorem objects_release (s : Store) (id : SubscriberId) :
    (s.release id).objects = s.objects := rfl

@[simp] theorem tracking_release (s : Store) (id : SubscriberId) :
    (s.release id).tracking = s.tracking := rfl

@[simp] theorem size_handles_release (s : Store) (id : SubscriberId) :
    (s.release id).handles.size = s.handles.size := by
  simp [release]

/-- How many handles hold a subscriber. -/
def holders (s : Store) (id : SubscriberId) : Nat := s.handles.getD id 0

theorem isLive_iff_holders (s : Store) (id : SubscriberId) :
    s.isLive id = true ↔ 0 < s.holders id := by
  rw [isLive, decide_eq_true_eq, holders]

theorem holders_newSubscriber (s : Store) (id : SubscriberId) :
    s.newSubscriber.2.holders id = s.holders id + if s.handles.size = id then 1 else 0 := by
  simp only [holders, newSubscriber, Array.getD_eq_getD_getElem?, Array.getElem?_push,
    eq_comm (a := s.handles.size)]
  split
  · rename_i h
    rw [h, Array.getElem?_eq_none (Nat.le_refl _)]
    rfl
  · rfl

theorem holders_release (s : Store) (id id' : SubscriberId) :
    (s.release id).holders id' = s.holders id' - if id = id' then 1 else 0 := by
  simp only [holders, release, Array.getD_eq_getD_getElem?, Array.getElem?_modify]
  split
  · cases s.handles[id']? <;> rfl
  · rfl

/-- Everybody is given back as often as listed. -/
theorem holders_releaseAll (s : Store) (ids : List SubscriberId) (id : SubscriberId) :
    (s.releaseAll ids).holders id = s.holders id - ids.count id := by
  induction ids generalizing s with
  | nil => rfl
  | cons i ids ih =>
    rw [releaseAll, List.foldl_cons, ← releaseAll, ih, holders_release, List.count_cons,
      Nat.sub_sub, Nat.add_comm]
    simp only [beq_iff_eq]

/-- Giving a handle back brings nobody to life. -/
theorem isLive_of_release {s : Store} {id id' : SubscriberId}
    (h : (s.release id).isLive id' = true) : s.isLive id' = true := by
  rw [isLive_iff_holders, holders_release] at h
  rw [isLive_iff_holders]
  exact Nat.lt_of_lt_of_le h (Nat.sub_le ..)

theorem isLive_of_releaseAll {s : Store} {ids : List SubscriberId} {id : SubscriberId}
    (h : (s.releaseAll ids).isLive id = true) : s.isLive id = true := by
  rw [isLive_iff_holders, holders_releaseAll] at h
  rw [isLive_iff_holders]
  exact Nat.lt_of_lt_of_le h (Nat.sub_le ..)

theorem objects_releaseAll (s : Store) (ids : List SubscriberId) :
    (s.releaseAll ids).objects = s.objects := by
  induction ids generalizing s with
  | nil => rfl
  | cons id ids ih => exact ih (s.release id)

theorem isLive_retain {s : Store} {id id' : SubscriberId} :
    (s.retain id).isLive id' = true ↔
      s.isLive id' = true ∨ (id' = id ∧ id < s.handles.size) := by
  rw [isLive, isLive, decide_eq_true_eq, decide_eq_true_eq, Array.getD_eq_getD_getElem?,
    Array.getD_eq_getD_getElem?, retain, Array.getElem?_modify]
  by_cases h : id = id'
  · subst h
    rw [if_pos rfl]
    cases hn : s.handles[id]? with
    | none => simpa [Array.getElem?_eq_none_iff] using hn
    | some n =>
      obtain ⟨hlt, -⟩ := Array.getElem?_eq_some_iff.1 hn
      simp [hlt]
  · simp [h, Ne.symm h]

theorem lt_of_isLive {s : Store} {id : SubscriberId} (h : s.isLive id = true) :
    id < s.handles.size := by
  rw [isLive, decide_eq_true_eq, Array.getD_eq_getD_getElem?] at h
  cases hn : s.handles[id]? with
  | none => simp [hn] at h
  | some n => exact (Array.getElem?_eq_some_iff.1 hn).1

/-- A new subscriber is alive, and nobody else comes to life. -/
theorem isLive_newSubscriber (s : Store) (id : SubscriberId) :
    s.newSubscriber.2.isLive id = true ↔ s.isLive id = true ∨ id = s.handles.size := by
  rw [isLive_iff_holders, isLive_iff_holders, holders_newSubscriber]
  by_cases h : s.handles.size = id
  · simp [h]
  · simp [h, Ne.symm h]

/-- Giving back its only handle ends the life of a subscriber. -/
theorem isLive_release_of_handles {s : Store} {id : SubscriberId} (h : s.handles[id]? = some 1) :
    (s.release id).isLive id = false := by
  have hone : s.holders id = 1 := by
    rw [holders, Array.getD_eq_getD_getElem?, h, Option.getD_some]
  rw [Bool.eq_false_iff, Ne, isLive_iff_holders, holders_release, hone, if_pos rfl]
  exact Nat.lt_irrefl 0

/-- What is left of a store when subscribers that are alive are held once more. -/
theorem retainAll_of_live {s : Store} {ids : List SubscriberId}
    (h : ∀ id ∈ ids, s.isLive id = true) :
    (ids.foldl retain s).objects = s.objects ∧ (ids.foldl retain s).tracking = s.tracking ∧
      (ids.foldl retain s).handles.size = s.handles.size ∧
      ∀ id, (ids.foldl retain s).isLive id = s.isLive id := by
  induction ids generalizing s with
  | nil => exact ⟨rfl, rfl, rfl, fun _ ↦ rfl⟩
  | cons id ids ih =>
    have hsame : ∀ id', (s.retain id).isLive id' = s.isLive id' := by
      intro id'
      rw [Bool.eq_iff_iff, isLive_retain, or_iff_left_iff_imp]
      rintro ⟨rfl, -⟩
      exact h id' (by simp)
    obtain ⟨hobjects, htracking, hsize, hlive⟩ := ih (s := s.retain id) fun id' hid ↦ by
      rw [hsame]
      exact h id' (by simp [hid])
    exact ⟨hobjects, htracking, hsize.trans (by simp [retain]),
      fun id' ↦ (hlive id').trans (hsame id')⟩

/-- Whoever is told about a write is alive, and pruning the list does not change that. -/
theorem isLive_of_mem_liveSubscribers {s : Store} {o : ObjectId} {key : String} {id : SubscriberId}
    (h : id ∈ s.liveSubscribers o key) : (s.prune o key).isLive id = true := by
  rw [liveSubscribers] at h
  split at h
  · simp at h
  · exact (List.mem_filter.1 h).2

theorem holders_retain {s : Store} {id' : SubscriberId} (h : id' < s.handles.size)
    (id : SubscriberId) :
    (s.retain id).holders id' = s.holders id' + if id = id' then 1 else 0 := by
  simp only [holders, retain, Array.getD_eq_getD_getElem?, Array.getElem?_modify,
    Array.getElem?_eq_getElem h]
  split <;> simp

/-- Whoever is held once more for each time its number occurs. -/
theorem holders_retainAll {s : Store} {id' : SubscriberId} (h : id' < s.handles.size)
    (ids : List SubscriberId) :
    (ids.foldl retain s).holders id' = s.holders id' + ids.count id' := by
  induction ids generalizing s with
  | nil => rfl
  | cons id ids ih =>
    have hsize : id' < (s.retain id).handles.size := by
      simpa [retain] using h
    rw [List.foldl_cons, ih hsize, holders_retain h, List.count_cons]
    simp only [beq_iff_eq]
    omega

/-! ## Subscriptions -/

theorem mem_subscribeTo {live : SubscriberId → Bool} {list : List SubscriberId}
    {id id' : SubscriberId} :
    id' ∈ subscribeTo live list id ↔ (id' ∈ list ∧ live id' = true) ∨ id' = id := by
  rw [subscribeTo]
  simp only [List.contains_iff_mem]
  split
  · rename_i h
    rw [List.mem_filter]
    constructor
    · exact .inl
    · rintro (h' | rfl)
      · exact h'
      · exact List.mem_filter.1 h
  · simp [List.mem_filter]

/-- A subscriber is on the list of a property, if there is such a property. -/
def Subscribes (s : Store) (id : SubscriberId) (o : ObjectId) (key : String) : Prop :=
  ∀ p, s.property? o key = some p → id ∈ p.subscribers

theorem subscribes_congr {s t : Store} (h : s.objects = t.objects) {id : SubscriberId}
    {o : ObjectId} {key : String} : s.Subscribes id o key ↔ t.Subscribes id o key := by
  simp only [Subscribes, property?, object?, h]

theorem Subscribes.modifyProperty {s : Store} {id : SubscriberId} {o : ObjectId} {key : String}
    (h : s.Subscribes id o key) {f : Property → Property} (hf : ∀ p, (f p).key = p.key)
    (hmem : ∀ p, id ∈ p.subscribers → id ∈ (f p).subscribers) (o' : ObjectId) (k : String) :
    (s.modifyProperty o' k f).Subscribes id o key := by
  intro p hp
  rw [property?_modifyProperty s o' k hf] at hp
  split at hp
  · obtain ⟨q, hq, rfl⟩ := Option.map_eq_some_iff.1 hp
    exact hmem q (h q hq)
  · exact h p hp

theorem Subscribes.subscribe {s : Store} {id : SubscriberId} {o : ObjectId} {key : String}
    (h : s.Subscribes id o key) (hlive : s.isLive id = true) (o' : ObjectId) (k : String)
    (id' : SubscriberId) : (s.subscribe o' k id').Subscribes id o key := by
  rw [Store.subscribe]
  refine h.modifyProperty (by simp) (fun p hp ↦ ?_) o' k
  exact mem_subscribeTo.2 (.inl ⟨hp, hlive⟩)

theorem subscribes_subscribe (s : Store) (o : ObjectId) (key : String) (id : SubscriberId) :
    (s.subscribe o key id).Subscribes id o key := by
  intro p hp
  rw [Store.subscribe, property?_modifyProperty s o key (by simp), if_pos ⟨rfl, rfl⟩] at hp
  obtain ⟨q, -, rfl⟩ := Option.map_eq_some_iff.1 hp
  exact mem_subscribeTo.2 (.inr rfl)

theorem Subscribes.prune {s : Store} {id : SubscriberId} {o : ObjectId} {key : String}
    (h : s.Subscribes id o key) (hlive : s.isLive id = true) (o' : ObjectId) (k : String) :
    (s.prune o' k).Subscribes id o key := by
  rw [Store.prune]
  refine h.modifyProperty (by simp) (fun p hp ↦ ?_) o' k
  exact List.mem_filter.2 ⟨hp, hlive⟩

/-- A read keeps every subscription of a live subscriber. -/
theorem Subscribes.get {s : Store} {id : SubscriberId} {o : ObjectId} {key : String}
    (h : s.Subscribes id o key) (hlive : s.isLive id = true) (o' : ObjectId) (k : String) :
    (s.get o' k).2.Subscribes id o key := by
  rw [Store.get]
  split
  · exact h
  · exact h
  · exact h.subscribe hlive o' k _

/-- A read subscribes the evaluating subscriber. -/
theorem subscribes_get {s : Store} {id : SubscriberId} {rest : List SubscriberId}
    (h : s.tracking = id :: rest) (o : ObjectId) (key : String) :
    (s.get o key).2.Subscribes id o key := by
  rw [Store.get, h]
  split
  · intro p hp
    simp_all
  · simp_all
  · rename_i heq
    cases heq
    exact s.subscribes_subscribe o key id

/-! ## Writing a key that exists -/

section Write

variable {s : Store} {o : ObjectId} {key : String} {v : Value}

theorem write_ne_defined (h : (s.property? o key).isSome) : (s.write o key v).1 ≠ .defined := by
  rw [write]
  split
  · simp_all
  · split <;> simp

@[simp] theorem handles_write : (s.write o key v).2.handles = s.handles := by
  rw [write]
  split
  · rfl
  · split <;> rfl

@[simp] theorem tracking_write : (s.write o key v).2.tracking = s.tracking := by
  rw [write]
  split
  · rfl
  · split <;> rfl

/-- A write makes no objects. -/
theorem size_write (s : Store) (o : ObjectId) (key : String) (v : Value) :
    (s.write o key v).2.objects.size = s.objects.size := by
  rw [write]
  split
  · simp [modifyObject]
  · split
    · rfl
    · simp [modifyProperty, modifyObject]

theorem write_of_unchanged (h : (s.write o key v).1 = .unchanged) :
    (s.write o key v).2 = s ∧ ∃ u, s.peek o key = some u ∧ u.identical v = true := by
  rw [write] at h ⊢
  rw [peek]
  split at h
  · simp at h
  · rename_i p hp
    by_cases hv : p.value.identical v = true
    · rw [if_pos hv]
      exact ⟨rfl, p.value, by simp [hp], hv⟩
    · rw [if_neg hv] at h
      simp at h

theorem write_of_replaced (h : (s.write o key v).1 = .replaced) :
    (s.write o key v).2 = s.modifyProperty o key (fun p ↦ { p with value := v }) ∧
      ∃ u, s.peek o key = some u ∧ u.identical v = false := by
  rw [write] at h ⊢
  rw [peek]
  split at h
  · simp at h
  · rename_i p hp
    by_cases hv : p.value.identical v = true
    · rw [if_pos hv] at h
      simp at h
    · rw [if_neg hv]
      exact ⟨rfl, p.value, by simp [hp], by simpa using hv⟩

/-- A value is replaced only where there is one. -/
theorem isSome_property?_of_replaced (h : (s.write o key v).1 = .replaced) :
    (s.property? o key).isSome := by
  obtain ⟨-, u, hu, -⟩ := write_of_replaced h
  rw [peek, Option.map_eq_some_iff] at hu
  obtain ⟨p, hp, -⟩ := hu
  rw [hp, Option.isSome_some]

/-- What every property holds after a write that replaced a value. -/
theorem peek_write_of_replaced (h : (s.write o key v).1 = .replaced) (o' : ObjectId) (k : String) :
    (s.write o key v).2.peek o' k = if o' = o ∧ k = key then some v else s.peek o' k := by
  obtain ⟨p, hp⟩ := Option.isSome_iff_exists.1 (isSome_property?_of_replaced h)
  rw [(write_of_replaced h).1, peek, property?_modifyProperty s o key (by simp)]
  split
  · rename_i ho
    simp [ho, hp]
  · rfl

/-- A write that replaces a value keeps the subscriptions. -/
theorem subscribes_write_of_replaced (h : (s.write o key v).1 = .replaced) {id : SubscriberId}
    {o' : ObjectId} {k : String} (hs : s.Subscribes id o' k) :
    (s.write o key v).2.Subscribes id o' k := by
  rw [(write_of_replaced h).1]
  exact hs.modifyProperty (by simp) (by simp) o key

end Write

end Store

end DataBinding

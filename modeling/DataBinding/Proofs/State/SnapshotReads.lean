import Mathlib.Logic.Relation
import DataBinding.Proofs.Engine.Soundness
import DataBinding.Proofs.State.Unfolding

/-!
# Keys in the state and in its snapshot

Whoever has a snapshot goes into it by the names of members and by positions in lists.  Whoever has
the state reads properties by their keys.  On maps the two agree.  A list is written by position,
though, while **a key that is missing is defined behind the others, whatever it is called**, so that
the key `"5"` of an empty list becomes its item number 0 (`gapped`).

What is needed is that a key is `Object.InPlace`: the property at a position has the key exactly if
the key is the number of the position.

* `Acyclic.snapshot_object` is what a snapshot is when nothing is cut: each object is written with
  the snapshots of what it holds.
* `child?_snapshot` goes one step down on both sides, `follow?_snapshot` any number of steps.
* `Store.Derived` are the states that come from plain data by writing, which is where
  `Notification.set` and `Notification.setPath` lead (`derived_set`, `derived_setPath`).  If lists
  only ever got the next position as a new key, all keys are in place there (`Derived.indexed`).
-/

set_option autoImplicit false

namespace DataBinding

/-! ## Following keys -/

/-- The member of an object, or the item of a list, with the given key. -/
def Json.child? (key : String) : Json → Option Json
  | .object members => members.lookup key
  | .array items => ((List.range items.length).find? fun i ↦ i.repr == key).bind fun i ↦ items[i]?
  | _ => none

/-- Follows keys into plain data. -/
def Json.follow? : List String → Json → Option Json
  | [], j => some j
  | key :: rest, j => (j.child? key).bind (follow? rest)

theorem Binary64.child?_toJson (x : Binary64) (key : String) : x.toJson.child? key = none := by
  cases hx : x.toInt? with
  | some n =>
    simp only [toJson, hx]
    split <;> rfl
  | none => cases x <;> simp only [toJson, hx] <;> rfl

namespace Store

/-- The property of a value with the given key, read without recording anything. -/
def child? (s : Store) (key : String) : Value → Option Value
  | .object o => s.peek o key
  | _ => none

/-- Follows keys into the state, without recording anything. -/
def follow? (s : Store) : List String → Value → Option Value
  | [], v => some v
  | key :: rest, v => (s.child? key v).bind (s.follow? rest)

/-- Paths are followed in the same way, except that they take what is missing for null. -/
theorem peekSegments_eq (s : Store) (keys : List String) (v : Value) :
    s.peekSegments keys v = (s.follow? keys v).getD .null := by
  induction keys generalizing v with
  | nil => rfl
  | cons key rest ih =>
    cases v with
    | object o =>
      rw [peekSegments, ih, follow?, child?]
      cases s.peek o key with
      | none => cases rest <;> rfl
      | some w => rfl
    | _ => rfl

/-! ## Graphs without cycles -/

variable {s t : Store} {o o' : ObjectId} {v : Value} {key : String} {object : Object} {p : Property}

/-- An object is held by a property of another one. -/
def Holds (s : Store) (o o' : ObjectId) : Prop :=
  ∃ object, s.object? o = some object ∧ ∃ p ∈ object.properties, p.value = .object o'

/-- The value is an object, or holds it directly or through others. -/
def Below (s : Store) (v : Value) (o : ObjectId) : Prop :=
  ∃ r, v = .object r ∧ Relation.ReflTransGen s.Holds r o

/-- No object that a value leads to holds itself, directly or through others. -/
def Acyclic (s : Store) (v : Value) : Prop := ∀ o, s.Below v o → ¬ Relation.TransGen s.Holds o o

theorem Below.of_property (hobject : s.object? o = some object) (hp : p ∈ object.properties)
    (h : s.Below p.value o') : s.Below (.object o) o' := by
  obtain ⟨r, hr, hpath⟩ := h
  exact ⟨o, rfl, hpath.head ⟨object, hobject, p, hp, hr⟩⟩

namespace Acyclic

theorem property (h : s.Acyclic (.object o)) (hobject : s.object? o = some object)
    (hp : p ∈ object.properties) : s.Acyclic p.value :=
  fun o' hbelow ↦ h o' (hbelow.of_property hobject hp)

theorem ne_of_below (h : s.Acyclic (.object o)) (hobject : s.object? o = some object)
    (hp : p ∈ object.properties) (hbelow : s.Below p.value o') : o' ≠ o := by
  rintro rfl
  obtain ⟨r, hr, hpath⟩ := hbelow
  exact h o' ⟨o', rfl, .refl⟩ (Relation.TransGen.head' ⟨object, hobject, p, hp, hr⟩ hpath)

/-- Objects that only hold objects from before them hold no cycle. -/
theorem of_within (h : ∀ o, (ho : o < s.objects.size) → ∀ p ∈ s.objects[o].properties,
    p.value.Within o) (v : Value) : s.Acyclic v := by
  have hstep : ∀ o o', s.Holds o o' → o' < o := by
    rintro o o' ⟨object, hobject, p, hp, hvalue⟩
    obtain ⟨ho, rfl⟩ := Array.getElem?_eq_some_iff.1 hobject
    have hwithin := h o ho p hp
    rwa [hvalue] at hwithin
  intro o _ hcycle
  have hlt : ∀ o', Relation.TransGen s.Holds o o' → o' < o := by
    intro o' hpath
    induction hpath with
    | single hlast => exact hstep _ _ hlast
    | tail _ hlast ih => exact Nat.lt_trans (hstep _ _ hlast) ih
  exact Nat.lt_irrefl o (hlt o hcycle)

/-- What an object holds is apart from the object, too. -/
theorem apart_cons {ancestors ancestors' : List ObjectId} (h : s.Acyclic (.object o))
    (hobject : s.object? o = some object)
    (hapart : ∀ o', s.Below (.object o) o' → o' ∉ ancestors ∧ o' ∉ ancestors') :
    ∀ p ∈ object.properties, ∀ o', s.Below p.value o' →
      o' ∉ o :: ancestors ∧ o' ∉ o :: ancestors' := by
  intro p hp o' hbelow
  have hne := h.ne_of_below hobject hp hbelow
  have hold := hapart o' (hbelow.of_property hobject hp)
  exact ⟨List.not_mem_cons_of_ne_of_not_mem hne hold.1,
    List.not_mem_cons_of_ne_of_not_mem hne hold.2⟩

end Acyclic

mutual

/-- **Without cycles it does not matter what a value is inside of.** -/
theorem Unfolds.move {s : Store} {ancestors ancestors' : List ObjectId} {v : Value} {j : Json}
    (h : s.Unfolds ancestors v j) (hacyclic : s.Acyclic v)
    (hapart : ∀ o, s.Below v o → o ∉ ancestors ∧ o ∉ ancestors') : s.Unfolds ancestors' v j := by
  match h with
  | .scalar h => exact .scalar h
  | .again (o := o) hold => exact absurd hold (hapart o ⟨o, rfl, .refl⟩).1
  | .array (o := o) hfresh hobject hitems =>
    exact .array (hapart o ⟨o, rfl, .refl⟩).2 hobject
      (UnfoldsEach.move hitems (fun p hp ↦ hacyclic.property hobject hp)
        (hacyclic.apart_cons hobject hapart))
  | .map (o := o) hfresh hobject hitems =>
    exact .map (hapart o ⟨o, rfl, .refl⟩).2 hobject
      (UnfoldsEach.move hitems (fun p hp ↦ hacyclic.property hobject hp)
        (hacyclic.apart_cons hobject hapart))

theorem UnfoldsEach.move {s : Store} {ancestors ancestors' : List ObjectId}
    {properties : List Property} {items : List Json} (h : s.UnfoldsEach ancestors properties items)
    (hacyclic : ∀ p ∈ properties, s.Acyclic p.value)
    (hapart : ∀ p ∈ properties, ∀ o, s.Below p.value o → o ∉ ancestors ∧ o ∉ ancestors') :
    s.UnfoldsEach ancestors' properties items := by
  match h with
  | .nil => exact .nil
  | .cons hitem hitems =>
    exact .cons (Unfolds.move hitem (hacyclic _ (.head _)) (hapart _ (.head _)))
      (UnfoldsEach.move hitems (fun p hp ↦ hacyclic p (.tail _ hp))
        fun p hp ↦ hapart p (.tail _ hp))

end

/-- **The snapshot of an object that is in no cycle** is made of the snapshots of what it holds. -/
theorem Acyclic.snapshot_object (h : s.Acyclic (.object o)) (hs : s.WellFormed)
    (hobject : s.object? o = some object) :
    s.snapshot (.object o) = match object.kind with
      | .array => .array (object.properties.map fun p ↦ s.snapshot p.value)
      | .map => Json.ofMembers (object.properties.map fun p ↦ (p.key, s.snapshot p.value)) := by
  have hparts : s.UnfoldsEach [o] object.properties
      (object.properties.map fun p ↦ s.snapshot p.value) := by
    refine unfoldsEach_map fun p hp ↦ ?_
    have hinside := hs.unfolds_snapshot ((hs o object hobject).within p hp)
    refine hinside.move (h.property hobject hp) fun o' hbelow ↦ ⟨by simp, ?_⟩
    simpa using h.ne_of_below hobject hp hbelow
  obtain ⟨kind, properties⟩ := object
  cases kind with
  | array => exact (Unfolds.array (by simp) hobject hparts).snapshot_eq
  | map =>
    have hmap := (Unfolds.map (by simp) hobject hparts).snapshot_eq
    rwa [List.zip_map'] at hmap

end Store

/-! ## One step -/

/-- The properties with the given key are the one in the position that the key names, if there is
such a position. -/
def Object.InPlace (object : Object) (key : String) : Prop :=
  ∀ (i : Nat) (p : Property), object.properties[i]? = some p → (p.key = key ↔ i.repr = key)

theorem Object.InPlace.property?_eq {object : Object} {key : String} (h : object.InPlace key) :
    object.property? key = ((List.range object.properties.length).find? fun i ↦ i.repr == key).bind
      fun i ↦ object.properties[i]? := by
  cases hfind : (List.range object.properties.length).find? fun i ↦ i.repr == key with
  | none =>
    refine List.find?_eq_none.2 fun p hp hkey ↦ ?_
    obtain ⟨i, hi⟩ := List.getElem?_of_mem hp
    have hlt := (List.getElem?_eq_some_iff.1 hi).1
    have hnone := List.find?_eq_none.1 hfind i (List.mem_range.2 hlt)
    exact hnone (by simpa using (h i p hi).1 (by simpa using hkey))
  | some i =>
    have hrepr : i.repr = key := by simpa using List.find?_some hfind
    have hlt := List.mem_range.1 (List.mem_of_find?_eq_some hfind)
    have hi := List.getElem?_eq_getElem hlt
    have hsome : (object.property? key).isSome := by
      rw [isSome_property?, ← (h i _ hi).2 hrepr]
      exact List.mem_map_of_mem (List.getElem_mem hlt)
    obtain ⟨q, hq⟩ := Option.isSome_iff_exists.1 hsome
    obtain ⟨k, hk⟩ := List.getElem?_of_mem (List.mem_of_find?_eq_some hq)
    have hsame : k = i := by
      refine repr_injective (((h k q hk).1 (property?_key hq)).trans hrepr.symm)
    rw [hq, Option.bind_some, ← hk, hsame]

namespace Store

variable {s t : Store} {o o' : ObjectId} {v w root : Value} {key : String} {object : Object}
  {p : Property}

/-- If the value is a list, the key is in place there. -/
def Addresses (s : Store) (key : String) (v : Value) : Prop :=
  ∀ o properties, v = .object o → s.object? o = some ⟨.array, properties⟩ →
    Object.InPlace ⟨.array, properties⟩ key

/-- **One key leads to the same on both sides.** -/
theorem child?_snapshot (hs : s.WellFormed) (hv : v.Within s.objects.size) (h : s.Acyclic v)
    (hkey : s.Addresses key v) : (s.snapshot v).child? key = (s.child? key v).map s.snapshot := by
  cases v with
  | object o =>
    obtain ⟨⟨kind, properties⟩, hobject⟩ : ∃ object, s.object? o = some object :=
      ⟨s.objects[o], Array.getElem?_eq_getElem hv⟩
    rw [h.snapshot_object hs hobject, child?, peek, property?, hobject, Option.bind_some,
      Option.map_map]
    cases kind with
    | array =>
      rw [(hkey o properties rfl hobject).property?_eq, Json.child?, List.length_map,
        Option.map_bind]
      refine Option.bind_congr fun i _ ↦ ?_
      rw [List.getElem?_map]
      rfl
    | map =>
      have hnames : ((properties.map fun p ↦ (p.key, s.snapshot p.value)).map Prod.fst).Nodup := by
        rw [List.map_map]
        exact (hs o _ hobject).nodup_keys
      show (Json.sortMembers _).lookup key = _
      rw [Json.lookup_sortMembers hnames, Object.lookup_map_properties fun p ↦ s.snapshot p.value]
      rfl
  | number x =>
    rw [snapshot, snapshotWithin, x.child?_toJson]
    rfl
  | _ =>
    rw [snapshot, snapshotWithin]
    rfl

theorem Acyclic.child? (h : s.Acyclic v) (hchild : s.child? key v = some w) : s.Acyclic w := by
  cases v with
  | object o =>
    obtain ⟨p, hp, rfl⟩ := Option.map_eq_some_iff.1 hchild
    obtain ⟨object, hobject, hp⟩ := Option.bind_eq_some_iff.1 hp
    exact h.property hobject (List.mem_of_find?_eq_some hp)
  | _ => cases hchild

theorem Closed.child? (h : s.Closed) (hchild : s.child? key v = some w) :
    w.Within s.objects.size := by
  cases v with
  | object o => exact h o key w hchild
  | _ => cases hchild

/-! ## Any number of steps -/

/-- The keys are in place in all lists that following them passes. -/
def AddressesAll (s : Store) : List String → Value → Prop
  | [], _ => True
  | key :: rest, v => s.Addresses key v ∧ ∀ w, s.child? key v = some w → s.AddressesAll rest w

theorem follow?_snapshot (hs : s.WellFormed) (hv : v.Within s.objects.size) (h : s.Acyclic v)
    {keys : List String} (hkeys : s.AddressesAll keys v) :
    (s.snapshot v).follow? keys = (s.follow? keys v).map s.snapshot := by
  induction keys generalizing v with
  | nil => rfl
  | cons key rest ih =>
    obtain ⟨hkey, hrest⟩ := hkeys
    rw [Json.follow?, follow?, child?_snapshot hs hv h hkey, Option.bind_map, Option.map_bind]
    refine Option.bind_congr fun w hw ↦ ?_
    exact ih (hs.closed.child? hw) (h.child? hw) (hrest w hw)

end Store

/-! ## States that come from plain data -/

/-- The keys of a list are its positions, in order. -/
def Object.Indexed (object : Object) : Prop :=
  object.kind = .array → object.keys = (List.range object.properties.length).map Nat.repr

namespace Object

variable {object : Object} {key : String}

theorem Built.indexed (h : object.Built) : object.Indexed := by
  intro hkind
  rwa [Built, hkind] at h

theorem Indexed.inPlace (h : object.Indexed) (hkind : object.kind = .array) (key : String) :
    object.InPlace key := by
  intro i p hp
  have hlt := (List.getElem?_eq_some_iff.1 hp).1
  have hi := congrArg (fun keys ↦ keys[i]?) (h hkind)
  simp only [keys, List.getElem?_map, hp, List.getElem?_range hlt, Option.map_some,
    Option.some_inj] at hi
  rw [hi]

/-- The next position may become a key. -/
theorem Indexed.define (h : object.Indexed)
    (hkey : object.kind = .array → key = object.properties.length.repr) (v : Value) :
    (object.define key v).Indexed := by
  intro hkind
  have hkeys : (object.define key v).keys = object.keys ++ [key] := by simp [keys, Object.define]
  have hlength : (object.define key v).properties.length = object.properties.length + 1 := by
    simp [Object.define]
  rw [hkeys, hlength, List.range_succ, List.map_append, h hkind, hkey hkind, List.map_singleton]

theorem Indexed.modify (h : object.Indexed) {f : Property → Property}
    (hf : ∀ p, (f p).key = p.key) :
    (object.modify key f).Indexed := by
  intro hkind
  rw [keys_modify object key hf, h hkind, Object.modify, List.length_map]

end Object

namespace Store

variable {s t : Store} {o : ObjectId} {v root : Value} {key path : String}
  {allowed : Store → ObjectId → String → Prop}

/-- The states that come from plain data by writing keys of objects, new ones if `allowed` says so.
What is written are scalars and objects of the state or of other data.  Reads and subscriptions may
happen in between; they leave what the objects hold as it is. -/
inductive Derived (allowed : Store → ObjectId → String → Prop) : Value → Store → Prop
  | start {j : Json} (hj : j.Regular fun _ ↦ True) :
      Derived allowed (Store.observe j .empty).1 (Store.observe j .empty).2
  | observe {root : Value} {s : Store} {j : Json} (h : Derived allowed root s)
      (hj : j.Regular fun _ ↦ True) : Derived allowed root (Store.observe j s).2
  | write {root : Value} {s : Store} {o : ObjectId} {key : String} {v : Value}
      (h : Derived allowed root s) (ho : o < s.objects.size) (hv : v.Within s.objects.size)
      (hallowed : s.peek o key = none → allowed s o key) : Derived allowed root (s.write o key v).2
  | read {root : Value} {s t : Store} (h : Derived allowed root s)
      (hsame : t.contents = s.contents) :
      Derived allowed root t

/-- If the object is a list, the key is the position behind its last item. -/
def Appends (s : Store) (o : ObjectId) (key : String) : Prop :=
  ∀ properties, s.object? o = some ⟨.array, properties⟩ → key = properties.length.repr

theorem exists_object?_of_contents (h : t.contents = s.contents) {object : Object}
    (hobject : t.object? o = some object) :
    ∃ object', s.object? o = some object' ∧ object'.contents = object.contents := by
  have hsame := congrArg (fun entries ↦ entries[o]?) h
  simp only [getElem?_contents, hobject, Option.map_some] at hsame
  exact Option.map_eq_some_iff.1 hsame.symm

theorem keys_of_contents {object object' : Object} (h : object'.contents = object.contents) :
    object'.keys = object.keys := by
  have hmap := congrArg (List.map Prod.fst) (congrArg Prod.snd h)
  rw [Object.contents, Object.contents, List.map_map, List.map_map] at hmap
  exact hmap

/-- A write keeps the keys of all lists their positions, if a key that is new is the next one. -/
theorem indexed_write (h : ∀ o object, s.object? o = some object → object.Indexed)
    (happends : s.peek o key = none → s.Appends o key) :
    ∀ o' object, (s.write o key v).2.object? o' = some object → object.Indexed := by
  intro o' object hobject
  rw [Store.write] at hobject
  cases hp : s.property? o key with
  | none =>
    rw [hp] at hobject
    dsimp only at hobject
    rw [object?_modifyObject] at hobject
    split at hobject
    · rename_i hsame
      subst hsame
      obtain ⟨⟨kind, properties⟩, hobject', rfl⟩ := Option.map_eq_some_iff.1 hobject
      refine (h o _ hobject').define (fun hkind ↦ ?_) v
      cases hkind
      exact happends (by rw [peek, hp, Option.map_none]) properties hobject'
    · exact h o' object hobject
  | some p =>
    rw [hp] at hobject
    dsimp only at hobject
    split at hobject
    · exact h o' object hobject
    · dsimp only at hobject
      rw [modifyProperty, object?_modifyObject] at hobject
      split at hobject
      · rename_i hsame
        subst hsame
        obtain ⟨object', hobject', rfl⟩ := Option.map_eq_some_iff.1 hobject
        exact (h o object' hobject').modify fun _ ↦ rfl
      · exact h o' object hobject

namespace Derived

theorem wellFormed_and_within (h : s.Derived allowed root) :
    s.WellFormed ∧ root.Within s.objects.size := by
  induction h with
  | start hj =>
    exact ⟨wellFormed_empty.observe hj, (observe_observed _ wellFormed_empty.closed).2⟩
  | observe _ hj ih => exact ⟨ih.1.observe hj, ih.2.mono (extends_observe _ _).size_le⟩
  | write _ ho hv _ ih =>
    rw [size_write]
    exact ⟨ih.1.write hv _ _, ih.2⟩
  | @read root s t _ hsame ih =>
    have hsize : t.objects.size = s.objects.size := by
      rw [← size_contents, hsame, size_contents]
    have hclosed : t.Closed := by
      intro o key v hv
      rw [hsize]
      exact ih.1.closed o key v ((peek_congr hsame o key).symm.trans hv)
    refine ⟨hclosed.wellFormed fun o object hobject ↦ ?_, hsize ▸ ih.2⟩
    obtain ⟨object', hobject', hcontents⟩ := exists_object?_of_contents hsame hobject
    rw [← keys_of_contents hcontents]
    exact (ih.1 o object' hobject').nodup_keys

/-- **If new keys only ever append, the keys of all lists are their positions.** -/
theorem indexed (h : s.Derived allowed root)
    (happends : ∀ s o key, allowed s o key → s.Appends o key) :
    ∀ o object, s.object? o = some object → object.Indexed := by
  induction h with
  | start hj =>
    intro o object hobject
    rcases built_observe hj hobject with hold | hnew
    · simp [object?, empty] at hold
    · exact hnew.indexed
  | observe _ hj ih =>
    intro o object hobject
    exact (built_observe hj hobject).elim (ih o object) Object.Built.indexed
  | @write root s o key v _ ho _ hallowed ih =>
    exact indexed_write ih fun hnone ↦ happends _ _ _ (hallowed hnone)
  | read _ hsame ih =>
    intro o object hobject
    obtain ⟨object', hobject', hcontents⟩ := exists_object?_of_contents hsame hobject
    have hkind : object'.kind = object.kind := congrArg Prod.fst hcontents
    have hkeys := keys_of_contents hcontents
    have hlength : object'.properties.length = object.properties.length := by
      simpa [Object.keys] using congrArg List.length hkeys
    intro harray
    rw [← hkeys, ← hlength]
    exact ih o object' hobject' (hkind.trans harray)

theorem addressesAll (h : s.Derived allowed root)
    (happends : ∀ s o key, allowed s o key → s.Appends o key) (keys : List String) (v : Value) :
    s.AddressesAll keys v := by
  induction keys generalizing v with
  | nil => trivial
  | cons key rest ih =>
    refine ⟨fun o properties _ hobject ↦ ?_, fun w _ ↦ ih w⟩
    exact (h.indexed happends o _ hobject).inPlace rfl key

end Derived

end Store

/-! ## Writes that tell subscribers -/

namespace Notification

open Run

variable {σ : Type} {call : Call σ} {allowed : Store → ObjectId → String → Prop} {root v : Value}

theorem keeps_derived_onStore {α : Type} {f : Store → α × Store}
    (hf : ∀ s, (f s).2.contents = s.contents) :
    Keeps (fun w ↦ w.scene.store.Derived allowed root) (onStore f : Run σ α) :=
  .change fun w hw ↦ hw.read (hf w.scene.store)

variable (hcall : ∀ a, Keeps (fun w : World σ ↦ w.scene.store.Derived allowed root) (call a))

include hcall

theorem keeps_derived_update (id : SubscriberId) :
    Keeps (fun w ↦ w.scene.store.Derived allowed root) (update call id) := by
  refine .bind .look fun scene ↦ ?_
  cases scene.subscribers[id]? with
  | none => exact .pure _
  | some subscriber =>
    cases subscriber with
    | probe => exact keeps_react hcall id .null
    | watcher x =>
      refine .bind (keeps_derived_onStore fun _ ↦ Store.contents_evaluate ..) fun r ↦ ?_
      cases r with
      | error e => exact .pure _
      | ok u =>
        show Keeps _ (if x.observed.identical u then _ else _)
        split
        · exact .pure _
        · refine .bind (keeps_react hcall id u) fun r ↦ ?_
          cases r with
          | error e => exact .pure _
          | ok _ => exact .bind (.change fun _ hw ↦ hw) fun _ ↦ .pure _

theorem keeps_derived_updateAll (ids : List SubscriberId) :
    Keeps (fun w ↦ w.scene.store.Derived allowed root) (updateAll call ids) := by
  induction ids with
  | nil => exact .pure _
  | cons id rest ih =>
    exact .bind (keeps_derived_update hcall id) fun _ ↦
      .bind (keeps_derived_onStore fun s ↦ Store.contents_release s id) fun _ ↦
        .bind ih fun _ ↦ .pure _

variable {w w' : World σ} {r : Except StateError Unit} (h : w.scene.store.Derived allowed root)
  (hv : v.Within w.scene.store.objects.size)

include h hv

/-- **Writing a property and telling its subscribers** leads to such a state, if their code does. -/
theorem derived_set {o : ObjectId} {key : String} (ho : o < w.scene.store.objects.size)
    (hallowed : w.scene.store.peek o key = none → allowed w.scene.store o key)
    (hrun : set call o key v w = some (r, w')) : w'.scene.store.Derived allowed root := by
  have hwritten := h.write ho hv hallowed
  rw [set_eq] at hrun
  cases hw : (w.scene.store.write o key v).1 with
  | replaced =>
    rw [hw] at hrun
    exact (keeps_derived_updateAll hcall _).kept _ _ _ hrun
      (hwritten.read (contents_announced w o key v))
  | defined | unchanged =>
    rw [hw] at hrun
    cases hrun
    exact hwritten

/-- And so does writing at a path. -/
theorem derived_setPath {path : String} {start : Value}
    (hstart : start.Within w.scene.store.objects.size)
    (hallowed : ∀ o key s, Store.target path start w.scene.store = (.ok (o, key), s) →
      s.peek o key = none → allowed s o key)
    (hrun : setPath call path start v w = some (r, w')) :
    w'.scene.store.Derived allowed root := by
  have hs := h.wellFormed_and_within.1
  have htouched := h.read (w.scene.store.contents_touch (w.scene.store.approach path start))
  have hsize : (w.scene.store.touch (w.scene.store.approach path start)).objects.size =
      w.scene.store.objects.size := by
    rw [← Store.size_contents, Store.contents_touch, Store.size_contents]
  rw [setPath, Run.onStore_bind, Store.target_eq] at hrun
  rw [Store.target_eq] at hallowed
  cases hplace : w.scene.store.destination path start with
  | error e =>
    rw [hplace] at hrun
    cases hrun
    exact htouched
  | ok place =>
    rw [hplace] at hrun hallowed
    have ho := hs.closed.destination_lt hstart hplace
    exact derived_set hcall
      (w := w.withStore (w.scene.store.touch (w.scene.store.approach path start))) htouched
        (hsize ▸ hv) (hsize ▸ ho) (hallowed place.1 place.2 _ rfl) hrun

end Notification

namespace Store

variable {s : Store} {root : Value} {allowed : Store → ObjectId → String → Prop}

/-- **The snapshot agrees with reads.**  Let a state come from plain data by writing, without cycles
below its root.  Then keys that are in place in the lists on their way lead to a value in the
snapshot exactly if they lead to one in the state, and what they lead to is the snapshot of that
value.  If keys that were missing from a list were only ever defined at its end, this is so for all
keys. -/
theorem snapshot_agrees_with_reads (h : s.Derived allowed root) (hacyclic : s.Acyclic root)
    (keys : List String)
    (hkeys : s.AddressesAll keys root ∨ ∀ s o key, allowed s o key → s.Appends o key) :
    (s.snapshot root).follow? keys = (s.follow? keys root).map s.snapshot := by
  obtain ⟨hs, hroot⟩ := h.wellFormed_and_within
  refine follow?_snapshot hs hroot hacyclic ?_
  rcases hkeys with hkeys | happends
  · exact hkeys
  · exact h.addressesAll happends keys root

/-- An empty list, to which the key `"5"` was written. -/
def gapped : Store :=
  ((Store.observe (.object [("a", .array [])]) .empty).2.write 0 "5" (.bool true)).2

/-- The snapshot has an item 0, and the state has no property of that key. -/
theorem gapped_disagrees :
    gapped.Derived (fun _ _ _ ↦ True) (.object 1) ∧ gapped.Acyclic (.object 1) ∧
      (gapped.snapshot (.object 1)).follow? ["a", "0"] = some (.bool true) ∧
      gapped.follow? ["a", "0"] (.object 1) = none := by
  have hdata : (Json.object [("a", .array [])]).Regular fun _ ↦ True := by
    refine .object (by decide) ?_
    rintro m (_ | ⟨_, ⟨⟩⟩)
    exact .array (by simp)
  exact ⟨.write (.start hdata) (by decide) trivial fun _ ↦ trivial, .of_within (by decide) _,
    rfl, rfl⟩

/-- A list of one item, to which the map beside it was written as the next one. -/
def doubled : Store :=
  ((Store.observe (.object [("item", .object [("x", .bool true)]), ("list", .array [.null])])
    .empty).2.write 1 "1" (.object 0)).2

theorem snapshot_agrees_with_reads_of_doubled :
    doubled.Derived Appends (.object 2) ∧ doubled.Acyclic (.object 2) ∧
      doubled.follow? ["list", "1", "x"] (.object 2) = some (.bool true) ∧
      (doubled.snapshot (.object 2)).follow? ["list", "1", "x"]
        = (doubled.follow? ["list", "1", "x"] (.object 2)).map doubled.snapshot := by
  have hdata : (Json.object
      [("item", .object [("x", .bool true)]), ("list", .array [.null])]).Regular fun _ ↦ True := by
    refine .object (by decide) ?_
    rintro m (_ | ⟨_, _ | ⟨_, ⟨⟩⟩⟩)
    · exact .object (by decide) (by simp [Json.Regular.bool])
    · exact .array (by simp [Json.Regular.null])
  have hderived : doubled.Derived Appends (.object 2) := by
    refine .write (.start hdata) (by decide) (by decide) fun _ properties hobject ↦ ?_
    cases hobject
    rfl
  have hacyclic : doubled.Acyclic (.object 2) := .of_within (by decide) _
  exact ⟨hderived, hacyclic, rfl,
    snapshot_agrees_with_reads hderived hacyclic _ (.inr fun _ _ _ h ↦ h)⟩

end Store

end DataBinding

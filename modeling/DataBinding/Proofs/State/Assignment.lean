import DataBinding.Proofs.State.Observation
import DataBinding.Proofs.State.WrittenValues

/-!
# Assigning to a path

A write at a path first goes *towards* its target, reading the properties that all segments but the
last name (`Store.approach`), and then assigns to one property of the object it has come to.
Objects are shared, so that one property may lie on the way of many paths, that of the write among
them.  Three facts describe all of it.

* A path leads to a target exactly if it has a value, and fails with the same error otherwise
  (`resolve_eq_error_iff`); a path that has a target reads the way to it and then the target itself
  (`reads_of_destination`).
* **A write assigns to one property** (`exists_assigned_write`).  `Store.Assigned` says what that
  leaves of the objects: everything but this property is as it was.
* What a path leads to changes only if it reads the property (`Assigned.resolve_eq`), and the path
  of the write leads to what was written unless the property lies on the way
  (`Assigned.resolve_self`).
-/

set_option autoImplicit false

namespace DataBinding

/-! ## The way to a target -/

/-- A path that is not blank has a last segment. -/
theorem Path.segments_cases (path : String) :
    (∃ e, Path.segments path = .error e) ∨ ∃ init last,
    Path.segments path = .ok (init ++ [last]) := by
  cases h : Path.segments path with
  | error e => exact .inl ⟨e, rfl⟩
  | ok segments =>
    obtain ⟨init, last, rfl⟩ := List.eq_nil_or_concat segments |>.resolve_left
      (Path.segments_ne_nil h)
    exact .inr ⟨init, last, by rw [List.concat_eq_append]⟩

namespace Store

variable {s t u : Store} {o : ObjectId} {key path : String} {root v x : Value}

/-- The properties that are read on the way to the target of a write. -/
def approach (s : Store) (path : String) (root : Value) : List (ObjectId × String) :=
  match Path.segments path with
  | .error _ => []
  | .ok segments => s.readsFrom segments.dropLast root

/-- Looking up where a write goes reads the way and nothing else, whoever is evaluating. -/
theorem target_eq (path : String) (root : Value) (s : Store) :
    target path root s = (s.destination path root, s.touch (s.approach path root)) := by
  rw [target, destination, approach]
  cases Path.segments path with
  | error e => rfl
  | ok segments =>
    simp only [follow_eq]
    cases s.resolveFrom path segments.dropLast root with
    | error e => rfl
    | ok v => cases v <;> rfl

theorem approach_of_segments {init : List String} {last : String}
    (h : Path.segments path = .ok (init ++ [last])) (s : Store) (root : Value) :
    s.approach path root = s.readsFrom init root := by
  rw [approach, h]
  simp only [List.dropLast_concat]

theorem destination_of_segments {init : List String} {last : String}
    (h : Path.segments path = .ok (init ++ [last])) (s : Store) (root : Value) :
    s.destination path root = match s.resolveFrom path init root with
      | .error e => .error e
      | .ok (.object o) => .ok (o, last)
      | .ok v => .error (.unresolved (Text.trim path) last (s.kindOf v)) := by
  rw [destination, h]
  cases hv : s.resolveFrom path init root with
  | error e => simp only [List.dropLast_concat, hv]
  | ok v => cases v <;> simp only [List.dropLast_concat, List.getLastD_concat, hv]

theorem resolve_of_segments {init : List String} {last : String}
    (h : Path.segments path = .ok (init ++ [last])) (s : Store) (root : Value) :
    s.resolve path root = (s.resolveFrom path init root).bind (s.resolveFrom path [last]) := by
  rw [resolve, h]
  exact resolveFrom_append_singleton s path last init root

theorem readsFrom_append_singleton (s : Store) (path last : String) (init : List String)
    (v : Value) :
    s.readsFrom (init ++ [last]) v = s.readsFrom init v ++
      match s.resolveFrom path init v with
      | .ok (.object o) => [(o, last)]
      | _ => [] := by
  induction init generalizing v with
  | nil => cases v <;> rfl
  | cons segment init ih =>
    cases v with
    | object o => exact congrArg (List.cons (o, segment)) (ih _)
    | _ => rfl

/-- **A path has no target exactly if it has no value**, and for the same reason. -/
theorem resolve_eq_error_iff {e : StateError} :
    s.resolve path root = .error e ↔ s.destination path root = .error e := by
  obtain ⟨e', h⟩ | ⟨init, last, h⟩ := Path.segments_cases path
  · rw [resolve, destination, h]
    simp
  · rw [resolve_of_segments h, destination_of_segments h]
    cases s.resolveFrom path init root with
    | error e => simp [Except.bind]
    | ok v => cases v <;> simp [Except.bind, resolveFrom]

/-- The value of a path is what its target holds. -/
theorem resolve_of_destination (h : s.destination path root = .ok (o, key)) :
    s.resolve path root = .ok ((s.peek o key).getD .null) := by
  obtain ⟨e', hsegments⟩ | ⟨init, last, hsegments⟩ := Path.segments_cases path
  · rw [destination, hsegments] at h
    cases h
  · rw [destination_of_segments hsegments] at h
    rw [resolve_of_segments hsegments]
    cases hv : s.resolveFrom path init root with
    | error e =>
      rw [hv] at h
      cases h
    | ok v =>
      rw [hv] at h
      cases v with
      | object o' =>
        cases h
        rfl
      | _ => cases h

/-- The target of a path is the last thing that the path reads. -/
theorem reads_of_destination (h : s.destination path root = .ok (o, key)) :
    s.reads path root = s.approach path root ++ [(o, key)] := by
  obtain ⟨e', hsegments⟩ | ⟨init, last, hsegments⟩ := Path.segments_cases path
  · rw [destination, hsegments] at h
    cases h
  · rw [destination_of_segments hsegments] at h
    rw [approach_of_segments hsegments, reads, hsegments]
    simp only
    rw [readsFrom_append_singleton s path]
    cases hv : s.resolveFrom path init root with
    | error e =>
      rw [hv] at h
      cases h
    | ok v =>
      rw [hv] at h
      cases v with
      | object o' =>
        cases h
        rfl
      | _ => cases h

/-- A target is the property that the last segment names, of the object that the others lead to. -/
theorem destination_eq_ok_iff : s.destination path root = .ok (o, key) ↔
    ∃ segments, Path.segments path = .ok segments ∧
      s.resolveFrom path segments.dropLast root = .ok (.object o) ∧ segments.getLastD "" = key := by
  rw [destination]
  cases Path.segments path with
  | error e => simp
  | ok segments =>
    simp only [Except.ok.injEq, exists_eq_left']
    cases s.resolveFrom path segments.dropLast root with
    | error e => simp
    | ok v => cases v <;> simp

/-- A target changes only through a property on the way. -/
theorem destination_congr (h : ∀ r ∈ s.approach path root, t.peek r.1 r.2 = s.peek r.1 r.2) :
    t.destination path root = s.destination path root := by
  obtain ⟨e, hsegments⟩ | ⟨init, last, hsegments⟩ := Path.segments_cases path
  · rw [destination, destination, hsegments]
  · rw [approach_of_segments hsegments] at h
    rw [destination_of_segments hsegments, destination_of_segments hsegments,
      resolveFrom_congr path h]
    cases s.resolveFrom path init root with
    | error e => rfl
    | ok v => cases v <;> rfl

theorem Closed.approach_lt (hs : s.Closed) (hroot : root.Within s.objects.size)
    {r : ObjectId × String} (hr : r ∈ s.approach path root) : r.1 < s.objects.size := by
  rw [approach] at hr
  split at hr
  · simp at hr
  · exact hs.readsFrom_lt hroot hr

/-- A write goes to an object that is there. -/
theorem Closed.destination_lt (hs : s.Closed) (hroot : root.Within s.objects.size)
    (h : s.destination path root = .ok (o, key)) : o < s.objects.size := by
  have hmem : (o, key) ∈ s.reads path root := by simp [reads_of_destination h]
  exact hs.reads_lt hroot hmem

end Store

/-! ## Assigning to a property -/

theorem Object.isSome_property? (object : Object) (key : String) :
    (object.property? key).isSome ↔ key ∈ object.keys := by
  simp [Object.property?, Object.keys, List.find?_isSome]

theorem Object.property?_define (object : Object) (key : String) (v : Value) (k : String) :
    (object.define key v).property? k =
      (object.property? k).or (if key = k then some ⟨key, v, []⟩ else none) := by
  rw [Object.property?, Object.define, List.find?_append, ← Object.property?, List.find?_singleton]
  simp

namespace Store

variable {s t u : Store} {o : ObjectId} {key path : String} {root v x : Value}

/-- A write to a missing key of an object gives it the value, and tells nobody. -/
theorem write_of_missing (h : s.peek o key = none) (v : Value) :
    s.write o key v = (.defined, s.modifyObject o fun object ↦ object.define key v) := by
  rw [peek, Option.map_eq_none_iff] at h
  rw [write, h]

theorem object?_modifyObject (s : Store) (o : ObjectId) (f : Object → Object) (o' : ObjectId) :
    (s.modifyObject o f).object? o' = if o = o' then (s.object? o').map f else s.object? o' := by
  rw [object?, object?, modifyObject, Array.getElem?_modify]

theorem peek_modifyObject_of_ne {o' : ObjectId} (h : o' ≠ o) (f : Object → Object) (k : String) :
    (s.modifyObject o f).peek o' k = s.peek o' k := by
  rw [peek, peek, property?, property?, object?_modifyObject, if_neg (Ne.symm h)]

/-- The keys of an object, in the order of their definition. -/
def keys? (s : Store) (o : ObjectId) : Option (List String) := (s.object? o).map Object.keys

/-- The kind of an object. -/
def kind? (s : Store) (o : ObjectId) : Option ObjectKind := (s.object? o).map Object.kind

theorem keys?_congr {o' : ObjectId} (h : t.contents[o']? = s.contents[o']?) :
    t.keys? o' = s.keys? o' := by
  have hkeys : ∀ u : Store, u.keys? o' = (u.contents[o']?).map fun c ↦ c.2.map Prod.fst := by
    intro u
    rw [keys?, getElem?_contents, Option.map_map]
    refine congrArg (Option.map · _) (funext fun object ↦ ?_)
    simp [Object.contents, Object.keys]
  rw [hkeys, hkeys, h]

theorem kind?_congr {o' : ObjectId} (h : t.contents[o']? = s.contents[o']?) :
    t.kind? o' = s.kind? o' := by
  have hkind : ∀ u : Store, u.kind? o' = (u.contents[o']?).map Prod.fst := by
    intro u
    rw [kind?, getElem?_contents, Option.map_map]
    rfl
  rw [hkind, hkind, h]

/-- One property has been assigned a value, or has been created with it.  Everything else that the
objects of the first store hold is as it was; there may be more objects. -/
structure Assigned (s t : Store) (o : ObjectId) (key : String) (x : Value) : Prop where
  size_le : s.objects.size ≤ t.objects.size
  elsewhere : ∀ o' < s.objects.size, o' ≠ o → t.contents[o']? = s.contents[o']?
  kind : t.kind? o = s.kind? o
  keys : t.keys? o = (s.keys? o).map fun list ↦ if key ∈ list then list else list ++ [key]
  value : ∀ k, t.peek o k = if k = key then some x else s.peek o k

/-- A new property comes behind those that are there. -/
theorem assigned_define {object : Object} (hobject : s.object? o = some object)
    (hnew : object.property? key = none) (v : Value) :
    s.Assigned (s.modifyObject o fun object ↦ object.define key v) o key v where
  size_le := Nat.le_of_eq (Array.size_modify ..).symm
  elsewhere o' _ hne := by
    rw [getElem?_contents, getElem?_contents, object?_modifyObject, if_neg (Ne.symm hne)]
  kind := by
    rw [kind?, kind?, object?_modifyObject, if_pos rfl, hobject]
    rfl
  keys := by
    have hkey : key ∉ object.keys := by
      rw [← object.isSome_property?, hnew]
      simp
    have hkeys : (object.define key v).keys = object.keys ++ [key] := by
      simp [Object.define, Object.keys]
    rw [keys?, keys?, object?_modifyObject, if_pos rfl, hobject]
    simp only [Option.map_some, hkeys, if_neg hkey]
  value k := by
    rw [peek, peek, property?, property?, object?_modifyObject, if_pos rfl, hobject,
      Option.map_some, Option.bind_some, Option.bind_some, Object.property?_define]
    by_cases hk : k = key
    · subst hk
      simp [hnew]
    · simp [hk, Ne.symm hk]

/-- A property is one of its object's. -/
theorem exists_mem_keys (hkey : (s.property? o key).isSome) :
    ∃ object, s.object? o = some object ∧ key ∈ object.keys := by
  obtain ⟨p, hp⟩ := Option.isSome_iff_exists.1 hkey
  obtain ⟨object, hobject, hp⟩ := Option.bind_eq_some_iff.1 hp
  refine ⟨object, hobject, ?_⟩
  rw [← object.isSome_property?, hp]
  rfl

/-- A property that is there keeps its place. -/
theorem assigned_modify (hkey : (s.property? o key).isSome) (v : Value) :
    s.Assigned (s.modifyProperty o key fun p ↦ { p with value := v }) o key v where
  size_le := Nat.le_of_eq (Array.size_modify ..).symm
  elsewhere o' _ hne := by
    rw [getElem?_contents, getElem?_contents, modifyProperty, object?_modifyObject,
      if_neg (Ne.symm hne)]
  kind := by
    rw [kind?, kind?, modifyProperty, object?_modifyObject, if_pos rfl, Option.map_map]
    rfl
  keys := by
    obtain ⟨object, hobject, hmem⟩ := exists_mem_keys hkey
    have hsame : (object.modify key fun p ↦ { p with value := v }).keys = object.keys := by
      rw [Object.keys, Object.modify, List.map_map]
      refine List.map_congr_left fun p _ ↦ ?_
      simp only [Function.comp_apply]
      split <;> rfl
    rw [keys?, keys?, modifyProperty, object?_modifyObject, if_pos rfl, hobject]
    simp [hmem, hsame]
  value k := by
    rw [peek, peek, property?_modifyProperty s o key (by simp)]
    by_cases hk : k = key
    · subst hk
      obtain ⟨p, hp⟩ := Option.isSome_iff_exists.1 hkey
      simp [hp]
    · simp [hk]

/-- A write of what is there already. -/
theorem assigned_self (h : s.peek o key = some x) : s.Assigned s o key x where
  size_le := Nat.le_refl _
  elsewhere _ _ _ := rfl
  kind := rfl
  keys := by
    rw [peek, Option.map_eq_some_iff] at h
    obtain ⟨p, hp, -⟩ := h
    obtain ⟨object, hobject, hmem⟩ := exists_mem_keys (Option.isSome_iff_exists.2 ⟨p, hp⟩)
    simp [keys?, hobject, hmem]
  value k := by
    split
    · rename_i hk
      rw [hk, h]
    · rfl

/-- **A write assigns to one property.**  The property holds the value that was written, or had one
that is identical. -/
theorem exists_assigned_write (ho : o < s.objects.size) (key : String) (v : Value) :
    ∃ x, v.Alike x ∧ s.Assigned (s.write o key v).2 o key x := by
  cases hp : s.peek o key with
  | none =>
    refine ⟨v, .refl v, ?_⟩
    obtain ⟨object, hobject⟩ : ∃ object, s.object? o = some object :=
      ⟨s.objects[o], Array.getElem?_eq_getElem ho⟩
    rw [write_of_missing hp]
    rw [peek, Option.map_eq_none_iff, property?, hobject, Option.bind_some] at hp
    exact assigned_define hobject hp v
  | some u =>
    have hkey : (s.property? o key).isSome := by
      rw [peek, Option.map_eq_some_iff] at hp
      obtain ⟨p, hp, -⟩ := hp
      simp [hp]
    cases hw : (s.write o key v).1 with
    | defined => exact absurd hw (write_ne_defined hkey)
    | unchanged =>
      obtain ⟨heq, u', hu', hsame⟩ := write_of_unchanged hw
      rw [heq]
      exact ⟨u', .inl (by rwa [Value.identical_comm]), assigned_self hu'⟩
    | replaced =>
      rw [(write_of_replaced hw).1]
      exact ⟨v, .refl v, assigned_modify hkey v⟩

namespace Assigned

theorem of_contents_eq (h : t.Assigned u o key x) (hst : t.contents = s.contents) :
    s.Assigned u o key x where
  size_le := by
    rw [← size_contents, ← hst, size_contents]
    exact h.size_le
  elsewhere o' ho' hne := by
    rw [← hst]
    refine h.elsewhere o' ?_ hne
    rwa [← size_contents, hst, size_contents]
  kind := h.kind.trans (kind?_congr (by rw [hst]))
  keys := h.keys.trans (congrArg (Option.map _) (keys?_congr (by rw [hst])))
  value k := by rw [h.value, peek_congr hst]

theorem peek_eq (h : s.Assigned t o key x) {o' : ObjectId} (ho' : o' < s.objects.size)
    (k : String) :
    t.peek o' k = if o' = o ∧ k = key then some x else s.peek o' k := by
  by_cases hne : o' = o
  · subst hne
    simpa using h.value k
  · rw [Store.peek_eq, h.elsewhere o' ho' hne, ← Store.peek_eq]
    simp [hne]

/-- **What a path leads to changes only if it reads the property.** -/
theorem resolve_eq (h : s.Assigned t o key x) (hs : s.Closed) {q : String} {root : Value}
    (hroot : root.Within s.objects.size) (hread : (o, key) ∉ s.reads q root) :
    t.resolve q root = s.resolve q root := by
  refine resolve_congr fun r hr ↦ ?_
  rw [h.peek_eq (hs.reads_lt hroot hr), if_neg]
  rintro ⟨rfl, rfl⟩
  exact hread hr

/-- **The path of a write leads to what was written**, unless the property lies on the way. -/
theorem resolve_self (h : s.Assigned t o key x) (hs : s.Closed) (hroot : root.Within s.objects.size)
    (hd : s.destination path root = .ok (o, key)) (hread : (o, key) ∉ s.approach path root) :
    t.resolve path root = .ok x := by
  have hd' : t.destination path root = .ok (o, key) := by
    rw [← hd]
    refine destination_congr fun r hr ↦ ?_
    rw [h.peek_eq (hs.approach_lt hroot hr), if_neg]
    rintro ⟨rfl, rfl⟩
    exact hread hr
  rw [resolve_of_destination hd', h.value key, if_pos rfl]
  rfl

end Assigned

end Store

end DataBinding

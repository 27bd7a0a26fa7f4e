import Mathlib.Data.List.Nodup
import DataBinding.Proofs.Json.Ordering
import DataBinding.Proofs.State.Assignment

/-!
# The graph of objects

The objects of a store hold each other, and nothing keeps them from doing so in circles.  What can
be relied on is less: **the keys of an object are distinct, and every object that is held is there**
(`Store.WellFormed`).  Observing data and writing both keep it so (`WellFormed.observe`,
`WellFormed.write`): the members of plain data have different names, the items of a list get the
numbers of their positions as keys, and a write defines a key only where it is missing.
-/

set_option autoImplicit false

namespace DataBinding

/-- The keys are distinct, and the values are scalars or among the first `n` objects. -/
structure Object.WellFormed (n : Nat) (object : Object) : Prop where
  nodup_keys : object.keys.Nodup
  within : ∀ p ∈ object.properties, p.value.Within n

instance (n : Nat) (v : Value) : Decidable (v.Within n) :=
  match v with
  | .object o => inferInstanceAs (Decidable (o < n))
  | .null | .bool _ | .number _ | .string _ => isTrue trivial

instance (n : Nat) (object : Object) : Decidable (object.WellFormed n) :=
  decidable_of_iff (object.keys.Nodup ∧ ∀ p ∈ object.properties, p.value.Within n)
    ⟨fun h ↦ ⟨h.1, h.2⟩, fun h ↦ ⟨h.nodup_keys, h.within⟩⟩

namespace Object

variable {n : Nat} {object : Object} {key : String} {v : Value}

/-- Distinct keys find their properties. -/
theorem property?_eq_of_nodup (h : object.keys.Nodup) {p : Property} (hp : p ∈ object.properties) :
    object.property? p.key = some p := by
  have hsome : (object.property? p.key).isSome := by
    rw [isSome_property?]
    exact List.mem_map_of_mem hp
  obtain ⟨q, hq⟩ := Option.isSome_iff_exists.1 hsome
  have hsame : q = p := List.inj_on_of_nodup_map h (List.mem_of_find?_eq_some hq) hp
    (property?_key hq)
  rw [hq, hsame]

theorem WellFormed.define (h : object.WellFormed n) (hkey : object.property? key = none)
    (hv : v.Within n) : (object.define key v).WellFormed n where
  nodup_keys := by
    have hnew : key ∉ object.keys := by
      rw [← isSome_property?, hkey]
      simp
    rw [keys, Object.define, List.map_append, List.nodup_append]
    refine ⟨h.nodup_keys, by simp, fun k hk k' hk' ↦ ?_⟩
    rw [List.map_singleton, List.mem_singleton] at hk'
    rintro rfl
    rw [hk'] at hk
    exact hnew hk
  within p hp := by
    rcases List.mem_append.1 hp with hp | hp
    · exact h.within p hp
    · rw [List.mem_singleton.1 hp]
      exact hv

theorem keys_modify (object : Object) (key : String) {f : Property → Property}
    (hf : ∀ p, (f p).key = p.key) : (object.modify key f).keys = object.keys := by
  rw [keys, modify, List.map_map]
  refine List.map_congr_left fun p _ ↦ ?_
  simp only [Function.comp_apply]
  split
  · exact hf p
  · rfl

theorem WellFormed.modify (h : object.WellFormed n) {f : Property → Property}
    (hkey : ∀ p, (f p).key = p.key) (hvalue : ∀ p, p.value.Within n → (f p).value.Within n) :
    (object.modify key f).WellFormed n where
  nodup_keys := by
    rw [keys_modify object key hkey]
    exact h.nodup_keys
  within p hp := by
    obtain ⟨q, hq, rfl⟩ := List.mem_map.1 hp
    split
    · exact hvalue q (h.within q hq)
    · exact h.within q hq

/-! ## Objects as they are built -/

/-- Different positions are written differently. -/
theorem repr_injective : Function.Injective Nat.repr := by
  intro i k h
  rw [Nat.repr_eq_ofList_toDigits, Nat.repr_eq_ofList_toDigits] at h
  have hread := congrArg (Nat.ofDigitChars 10 · 0) (String.ofList_injective h)
  rwa [Nat.ofDigitChars_toDigits (by omega) (by omega),
    Nat.ofDigitChars_toDigits (by omega) (by omega)] at hread

/-- The keys are those of a new object: for a list they are its positions, for a map they are
distinct. -/
def Built (object : Object) : Prop :=
  match object.kind with
  | .array => object.keys = (List.range object.properties.length).map Nat.repr
  | .map => object.keys.Nodup

theorem Built.nodup_keys (h : object.Built) : object.keys.Nodup := by
  rw [Built] at h
  split at h
  · rw [h]
    exact List.nodup_range.map repr_injective
  · exact h

end Object

namespace Store

variable {s t : Store} {o : ObjectId} {key : String} {v : Value}

/-- The keys of every object are distinct, and every object that is held is there. -/
def WellFormed (s : Store) : Prop :=
  ∀ o object, s.object? o = some object → object.WellFormed s.objects.size

theorem wellFormed_iff :
    s.WellFormed ↔ ∀ object ∈ s.objects.toList, object.WellFormed s.objects.size := by
  refine ⟨fun h object hobject ↦ ?_, fun h o object hobject ↦ h object ?_⟩
  · obtain ⟨o, ho⟩ := List.getElem?_of_mem hobject
    exact h o object (by rwa [Array.getElem?_toList] at ho)
  · exact Array.mem_toList_iff.2 (Array.mem_of_getElem? hobject)

instance (s : Store) : Decidable s.WellFormed := decidable_of_iff' _ wellFormed_iff

theorem WellFormed.closed (h : s.WellFormed) : s.Closed := by
  intro o key v hv
  obtain ⟨p, hp, rfl⟩ := Option.map_eq_some_iff.1 hv
  obtain ⟨object, hobject, hp⟩ := Option.bind_eq_some_iff.1 hp
  exact (h o object hobject).within p (List.mem_of_find?_eq_some hp)

theorem lt_of_object? {object : Object} (h : s.object? o = some object) : o < s.objects.size :=
  (Array.getElem?_eq_some_iff.1 h).1

theorem object?_push (s : Store) (object : Object) (o : ObjectId) :
    (s.push object).2.object? o = if o = s.objects.size then some object else s.object? o :=
  Array.getElem?_push

theorem Extends.object?_eq (h : s.Extends t) (ho : o < s.objects.size) :
    t.object? o = s.object? o := by
  obtain ⟨new, hnew⟩ := h.objects
  rw [object?, object?, hnew, Array.getElem?_append_left ho]

/-- An object is changed into one that is in order, too. -/
theorem WellFormed.modifyObject (h : s.WellFormed) {f : Object → Object}
    (hf : ∀ object, s.object? o = some object → (f object).WellFormed s.objects.size) :
    (s.modifyObject o f).WellFormed := by
  have hsize : (s.modifyObject o f).objects.size = s.objects.size := Array.size_modify ..
  intro o' object' ho
  rw [hsize]
  rw [object?_modifyObject] at ho
  split at ho
  · rename_i hsame
    subst hsame
    obtain ⟨object, hobject, rfl⟩ := Option.map_eq_some_iff.1 ho
    exact hf object hobject
  · exact h o' object' ho

/-- **Writing keeps the graph well-formed.** -/
theorem WellFormed.write (h : s.WellFormed) (hv : v.Within s.objects.size) (o : ObjectId)
    (key : String) : (s.write o key v).2.WellFormed := by
  rw [Store.write]
  cases hp : s.property? o key with
  | none =>
    refine h.modifyObject fun object hobject ↦ ?_
    rw [property?, hobject, Option.bind_some] at hp
    exact (h o object hobject).define hp hv
  | some p =>
    dsimp only
    split
    · exact h
    · exact h.modifyObject fun object hobject ↦
        (h o object hobject).modify (fun _ ↦ rfl) fun _ _ ↦ hv

/-! ## Observing -/

theorem keys_observeItems (index : Nat) (items : List Json) (s : Store) :
    (observeItems index items s).1.map Property.key
      = (List.range' index items.length).map Nat.repr := by
  induction items generalizing index s with
  | nil => rfl
  | cons item rest ih =>
    rw [observeItems, List.map_cons, ih, List.length_cons, List.range'_succ, List.map_cons]

theorem keys_observeMembers (members : List (String × Json)) (s : Store) :
    (observeMembers members s).1.map Property.key = members.map Prod.fst := by
  induction members generalizing s with
  | nil => rfl
  | cons m rest ih =>
    obtain ⟨name, item⟩ := m
    rw [observeMembers, List.map_cons, ih, List.map_cons]

theorem built_array (items : List Json) (s : Store) :
    Object.Built ⟨.array, (observeItems 0 items s).1⟩ := by
  have hkeys := keys_observeItems 0 items s
  have hlength := congrArg List.length hkeys
  rw [List.length_map, List.length_map, List.length_range'] at hlength
  rw [Object.Built, Object.keys, hkeys, hlength, List.range_eq_range']

theorem built_map {members : List (String × Json)} (hnames : Json.Ascending members) (s : Store) :
    Object.Built ⟨.map, (observeMembers members s).1⟩ := by
  rw [Object.Built, Object.keys, keys_observeMembers]
  exact hnames.imp fun hlt ↦ ne_of_lt hlt

theorem built_push {t : Store} {object new : Object} {o : ObjectId} (hnew : new.Built)
    (hold : t.object? o = some object → s.object? o = some object ∨ object.Built)
    (h : (t.push new).2.object? o = some object) : s.object? o = some object ∨ object.Built := by
  rw [object?_push] at h
  split at h
  · cases h
    exact .inr hnew
  · exact hold h

mutual

/-- **Observing leaves the objects that are there and builds others.** -/
theorem built_observe {number : Json → Prop} {j : Json} (hj : j.Regular number) {s : Store}
    {o : ObjectId} {object : Object} (h : (observe j s).2.object? o = some object) :
    s.object? o = some object ∨ object.Built := by
  match j, hj with
  | .null, _ | .bool _, _ | .int _, _ | .float _, _ | .string _, _ => exact .inl h
  | .array items, .array hitems =>
    exact built_push (built_array items s) (built_observeItems 0 hitems) h
  | .object members, .object hnames hmembers =>
    exact built_push (built_map hnames s) (built_observeMembers hmembers) h

theorem built_observeItems {number : Json → Prop} (index : Nat) {items : List Json}
    (hitems : ∀ item ∈ items, item.Regular number) {s : Store} {o : ObjectId} {object : Object}
    (h : (observeItems index items s).2.object? o = some object) :
    s.object? o = some object ∨ object.Built := by
  match items with
  | [] => exact .inl h
  | item :: rest =>
    have hrest := built_observeItems (index + 1) (fun item hitem ↦ hitems item (.tail _ hitem)) h
    exact hrest.elim (built_observe (hitems item (.head _))) .inr

theorem built_observeMembers {number : Json → Prop} {members : List (String × Json)}
    (hmembers : ∀ m ∈ members, m.2.Regular number) {s : Store} {o : ObjectId} {object : Object}
    (h : (observeMembers members s).2.object? o = some object) :
    s.object? o = some object ∨ object.Built := by
  match members with
  | [] => exact .inl h
  | (name, item) :: rest =>
    have hrest := built_observeMembers (fun m hm ↦ hmembers m (.tail _ hm)) h
    exact hrest.elim (built_observe (hmembers (name, item) (.head _))) .inr

end

/-- With distinct keys, what is held is what can be read. -/
theorem Closed.wellFormed (h : s.Closed)
    (hkeys : ∀ o object, s.object? o = some object → object.keys.Nodup) : s.WellFormed := by
  refine fun o object hobject ↦ ⟨hkeys o object hobject, fun p hp ↦ h o p.key p.value ?_⟩
  rw [peek, property?, hobject, Option.bind_some,
    Object.property?_eq_of_nodup (hkeys o object hobject) hp, Option.map_some]

/-- **Observing keeps the graph well-formed.** -/
theorem WellFormed.observe (h : s.WellFormed) {number : Json → Prop} {j : Json}
    (hj : j.Regular number) : (Store.observe j s).2.WellFormed := by
  refine (observe_observed j h.closed).1.closed.wellFormed fun o object hobject ↦ ?_
  rcases built_observe hj hobject with hold | hnew
  · exact (h o object hold).nodup_keys
  · exact hnew.nodup_keys

theorem wellFormed_empty : Store.empty.WellFormed := by
  intro o object h
  simp [object?, empty] at h

end Store

end DataBinding

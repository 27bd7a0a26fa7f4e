import DataBinding.Proofs.State.Evaluation
import DataBinding.State.Observe

/-!
# Adding objects

Observing plain data adds objects behind those that are there.  An expression cannot notice: it only
ever meets objects that something in the store refers to, and **nothing in the store refers to an
object that is not there** (`Store.Closed`).

`extends_observe` and `observe_observed` say that observing keeps this so, and
`Closed.resolve_of_extends` that expressions keep their values.
-/

set_option autoImplicit false

namespace DataBinding

/-- A value that is a scalar or one of the first `n` objects. -/
def Value.Within (n : Nat) : Value → Prop
  | .object o => o < n
  | _ => True

theorem Value.Within.mono {n m : Nat} {v : Value} (h : v.Within n) (hnm : n ≤ m) : v.Within m := by
  cases v with
  | object o => exact Nat.lt_of_lt_of_le h hnm
  | _ => trivial

theorem Value.within_of_isScalar {v : Value} (h : v.isScalar = true) (n : Nat) : v.Within n := by
  cases v with
  | object o => simp [Value.isScalar] at h
  | _ => trivial

namespace Store

/-- Every object that a property refers to is in the store. -/
def Closed (s : Store) : Prop :=
  ∀ o key v, s.peek o key = some v → v.Within s.objects.size

/-- The second store has the objects of the first one and possibly more. -/
structure Extends (s t : Store) : Prop where
  /-- The objects of the first store come first and are unchanged. -/
  objects : ∃ new, t.objects = s.objects ++ new
  handles : t.handles = s.handles
  tracking : t.tracking = s.tracking

theorem Extends.refl (s : Store) : s.Extends s := ⟨⟨#[], by simp⟩, rfl, rfl⟩

theorem Extends.trans {s t u : Store} (hst : s.Extends t) (htu : t.Extends u) : s.Extends u := by
  obtain ⟨new, hnew⟩ := hst.objects
  obtain ⟨new', hnew'⟩ := htu.objects
  refine ⟨⟨new ++ new', ?_⟩, htu.handles.trans hst.handles, htu.tracking.trans hst.tracking⟩
  rw [hnew', hnew, Array.append_assoc]

theorem extends_push (s : Store) (object : Object) : s.Extends (s.push object).2 :=
  ⟨⟨#[object], by simp [push]⟩, rfl, rfl⟩

theorem Extends.size_le {s t : Store} (h : s.Extends t) : s.objects.size ≤ t.objects.size := by
  obtain ⟨new, hnew⟩ := h.objects
  rw [hnew, Array.size_append]
  omega

theorem Extends.property?_eq {s t : Store} (h : s.Extends t) {o : ObjectId}
    (ho : o < s.objects.size) (key : String) : t.property? o key = s.property? o key := by
  obtain ⟨new, hnew⟩ := h.objects
  rw [property?, property?, object?, object?, hnew, Array.getElem?_append_left ho]

theorem Extends.peek_eq {s t : Store} (h : s.Extends t) {o : ObjectId} (ho : o < s.objects.size)
    (key : String) : t.peek o key = s.peek o key := by
  rw [peek, peek, h.property?_eq ho]

/-! ## What an expression can meet -/

theorem Closed.getD_within {s : Store} (h : s.Closed) (o : ObjectId) (key : String) :
    ((s.peek o key).getD .null).Within s.objects.size := by
  cases hp : s.peek o key with
  | none => trivial
  | some v => exact h o key v hp

theorem Closed.readsFrom_lt {s : Store} (h : s.Closed) {segments : List String} {v : Value}
    (hv : v.Within s.objects.size) {r : ObjectId × String} (hr : r ∈ s.readsFrom segments v) :
    r.1 < s.objects.size := by
  induction segments generalizing v with
  | nil => simp [readsFrom] at hr
  | cons segment rest ih =>
    cases v with
    | object o =>
      rw [readsFrom, List.mem_cons] at hr
      rcases hr with rfl | hr
      · exact hv
      · exact ih (h.getD_within o segment) hr
    | _ => simp [readsFrom] at hr

theorem Closed.reads_lt {s : Store} (h : s.Closed) {path : String} {root : Value}
    (hroot : root.Within s.objects.size) {r : ObjectId × String} (hr : r ∈ s.reads path root) :
    r.1 < s.objects.size := by
  rw [reads] at hr
  split at hr
  · simp at hr
  · exact h.readsFrom_lt hroot hr

theorem Closed.peek_of_extends {s t : Store} (h : s.Closed) (hst : s.Extends t) {path : String}
    {root : Value} (hroot : root.Within s.objects.size) :
    ∀ r ∈ s.reads path root, t.peek r.1 r.2 = s.peek r.1 r.2 :=
  fun _ hr ↦ hst.peek_eq (h.reads_lt hroot hr) _

/-- **Expressions do not notice new objects.** -/
theorem Closed.resolve_of_extends {s t : Store} (h : s.Closed) (hst : s.Extends t) {path : String}
    {root : Value} (hroot : root.Within s.objects.size) :
    t.resolve path root = s.resolve path root :=
  resolve_congr (h.peek_of_extends hst hroot)

theorem Closed.subscribes_of_extends {s t : Store} (h : s.Closed) (hst : s.Extends t)
    {path : String} {root : Value} (hroot : root.Within s.objects.size) {id : SubscriberId}
    {r : ObjectId × String} (hr : r ∈ s.reads path root) (hs : s.Subscribes id r.1 r.2) :
    t.Subscribes id r.1 r.2 := by
  intro p hp
  rw [hst.property?_eq (h.reads_lt hroot hr)] at hp
  exact hs p hp

/-! ## Closedness is kept -/

theorem closed_of_contents {s t : Store} (h : s.Closed) (heq : t.contents = s.contents) :
    t.Closed := by
  intro o key v hv
  rw [peek_congr heq] at hv
  rw [← size_contents, heq, size_contents]
  exact h o key v hv

theorem Closed.write {s : Store} (h : s.Closed) {o : ObjectId} {key : String} {v : Value}
    (hv : v.Within s.objects.size) (hkey : (s.property? o key).isSome) :
    (s.write o key v).2.Closed := by
  cases hw : (s.write o key v).1 with
  | defined => exact absurd hw (write_ne_defined hkey)
  | unchanged => rwa [(write_of_unchanged hw).1]
  | replaced =>
    intro o' k u hu
    rw [size_write]
    rw [peek_write_of_replaced hw] at hu
    split at hu
    · cases hu
      exact hv
    · exact h o' k u hu

theorem Closed.push {s : Store} (h : s.Closed) {object : Object}
    (hvalues : ∀ p ∈ object.properties, p.value.Within s.objects.size) :
    (s.push object).2.Closed := by
  intro o key v hv
  have hsize : (s.push object).2.objects.size = s.objects.size + 1 := by simp [Store.push]
  rw [hsize]
  rcases Nat.lt_trichotomy o s.objects.size with ho | ho | ho
  · rw [(s.extends_push object).peek_eq ho] at hv
    exact (h o key v hv).mono (Nat.le_succ _)
  · subst ho
    rw [peek, property?, object?, Store.push, Array.getElem?_push_size] at hv
    obtain ⟨p, hp, rfl⟩ := Option.map_eq_some_iff.1 hv
    exact (hvalues p (List.mem_of_find?_eq_some hp)).mono (Nat.le_succ _)
  · rw [peek, property?, object?, Store.push, Array.getElem?_eq_none (by simp; omega)] at hv
    simp at hv

mutual

/-- **Observing data adds objects and changes nothing else.** -/
theorem extends_observe (j : Json) (s : Store) : s.Extends (observe j s).2 := by
  match j with
  | .null | .bool _ | .int _ | .float _ | .string _ => exact .refl s
  | .array items => exact (extends_observeItems 0 items s).trans (extends_push _ _)
  | .object members => exact (extends_observeMembers members s).trans (extends_push _ _)

theorem extends_observeItems (index : Nat) (items : List Json) (s : Store) :
    s.Extends (observeItems index items s).2 := by
  match items with
  | [] => exact .refl s
  | item :: rest => exact (extends_observe item s).trans (extends_observeItems (index + 1) rest _)

theorem extends_observeMembers (members : List (String × Json)) (s : Store) :
    s.Extends (observeMembers members s).2 := by
  match members with
  | [] => exact .refl s
  | (_, item) :: rest => exact (extends_observe item s).trans (extends_observeMembers rest _)

end

/-- What observing keeps: old objects stay, references lead somewhere. -/
structure Observed (s t : Store) : Prop where
  extends_ : s.Extends t
  closed : t.Closed

mutual

theorem observe_observed (j : Json) {s : Store} (h : s.Closed) :
    s.Observed (observe j s).2 ∧ (observe j s).1.Within (observe j s).2.objects.size := by
  match j with
  | .null | .bool _ | .int _ | .float _ | .string _ => exact ⟨⟨.refl s, h⟩, trivial⟩
  | .array items =>
    obtain ⟨⟨-, hclosed⟩, hvalues⟩ := observeItems_observed 0 items h
    exact ⟨⟨extends_observe _ s, hclosed.push hvalues⟩, by simp [observe, Value.Within, push]⟩
  | .object members =>
    obtain ⟨⟨-, hclosed⟩, hvalues⟩ := observeMembers_observed members h
    exact ⟨⟨extends_observe _ s, hclosed.push hvalues⟩, by simp [observe, Value.Within, push]⟩

theorem observeItems_observed (index : Nat) (items : List Json) {s : Store} (h : s.Closed) :
    s.Observed (observeItems index items s).2 ∧
      ∀ p ∈ (observeItems index items s).1,
        p.value.Within (observeItems index items s).2.objects.size := by
  match items with
  | [] => exact ⟨⟨.refl s, h⟩, by simp [observeItems]⟩
  | item :: rest =>
    obtain ⟨⟨-, hclosed⟩, hvalue⟩ := observe_observed item h
    obtain ⟨⟨hext', hclosed'⟩, hvalues⟩ := observeItems_observed (index + 1) rest hclosed
    refine ⟨⟨extends_observeItems index _ s, hclosed'⟩, fun p hp ↦ ?_⟩
    rcases List.mem_cons.1 hp with rfl | hp
    · exact hvalue.mono hext'.size_le
    · exact hvalues p hp

theorem observeMembers_observed (members : List (String × Json)) {s : Store} (h : s.Closed) :
    s.Observed (observeMembers members s).2 ∧
      ∀ p ∈ (observeMembers members s).1,
        p.value.Within (observeMembers members s).2.objects.size := by
  match members with
  | [] => exact ⟨⟨.refl s, h⟩, by simp [observeMembers]⟩
  | (name, item) :: rest =>
    obtain ⟨⟨-, hclosed⟩, hvalue⟩ := observe_observed item h
    obtain ⟨⟨hext', hclosed'⟩, hvalues⟩ := observeMembers_observed rest hclosed
    refine ⟨⟨extends_observeMembers _ s, hclosed'⟩, fun p hp ↦ ?_⟩
    rcases List.mem_cons.1 hp with rfl | hp
    · exact hvalue.mono hext'.size_le
    · exact hvalues p hp

end

end Store

end DataBinding

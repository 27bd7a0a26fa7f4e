import DataBinding.Proofs.State.Assignment
import DataBinding.Proofs.State.Rendering
import DataBinding.State.Observe

/-!
# Stores that hold the same

What a store holds, `Store.contents`, leaves out who is subscribed to what and who is alive.
Reading, showing and writing state are a matter of the contents alone: **over stores with the same
contents a write does the same, and leaves the same contents behind** (`write_congr`), it goes to
the same place (`destination_of_contents`), and turning plain data into state gives the same value
(`observe_congr`).
-/

set_option autoImplicit false

namespace DataBinding

namespace Store

variable {s t : Store}

/-! ## Changes of an object -/

/-- Changing an object changes its contents, if the change can be told from these. -/
theorem contents_modifyObject_of {f : Object → Object}
    {g : ObjectKind × List (String × Value) → ObjectKind × List (String × Value)}
    (hf : ∀ object, (f object).contents = g object.contents) (s : Store) (o : ObjectId) :
    (s.modifyObject o f).contents = s.contents.modify o g := by
  refine Array.ext_getElem? fun i ↦ ?_
  rw [getElem?_contents, object?, modifyObject, Array.getElem?_modify, Array.getElem?_modify,
    getElem?_contents, object?]
  split
  · rw [Option.map_map, Option.map_map]
    exact congrArg (fun g ↦ Option.map g _) (funext hf)
  · rfl

theorem contents_push (s : Store) (object : Object) :
    (s.push object).2.contents = s.contents.push object.contents := by
  rw [contents, push, Array.map_push, ← contents]

/-! ## Writing -/

/-- **A write does the same over the same contents.** -/
theorem write_congr (h : t.contents = s.contents) (o : ObjectId) (key : String) (v : Value) :
    (t.write o key v).1 = (s.write o key v).1 ∧
      (t.write o key v).2.contents = (s.write o key v).2.contents := by
  have hpeek := peek_congr h o key
  rw [peek, peek] at hpeek
  rw [write, write]
  cases hs : s.property? o key with
  | none =>
    rw [hs, Option.map_none, Option.map_eq_none_iff] at hpeek
    rw [hpeek]
    have hdefine := contents_modifyObject_of (f := fun object ↦ object.define key v)
      (g := fun c ↦ (c.1, c.2 ++ [(key, v)])) fun object ↦ by
        rw [Object.contents, Object.define, List.map_append]
        rfl
    exact ⟨rfl, by rw [hdefine, hdefine, h]⟩
  | some p =>
    rw [hs, Option.map_some, Option.map_eq_some_iff] at hpeek
    obtain ⟨q, hq, hvalue⟩ := hpeek
    rw [hq]
    simp only [hvalue]
    split
    · exact ⟨rfl, h⟩
    · have hreplace := contents_modifyObject_of
        (f := fun object ↦ object.modify key fun p ↦ { p with value := v })
        (g := fun c ↦ (c.1, c.2.map fun p ↦ if p.1 == key then (p.1, v) else p)) fun object ↦ by
          rw [Object.contents, Object.contents, Object.modify, List.map_map, List.map_map]
          refine Prod.ext rfl (List.map_congr_left fun p _ ↦ ?_)
          simp only [Function.comp_apply]
          split <;> rfl
      exact ⟨rfl, by rw [modifyProperty, modifyProperty, hreplace, hreplace, h]⟩

theorem destination_of_contents (h : t.contents = s.contents) (path : String) (root : Value) :
    t.destination path root = s.destination path root :=
  destination_congr fun r _ ↦ peek_congr h r.1 r.2

/-! ## New objects -/

mutual

/-- **Plain data becomes the same state over the same contents.** -/
theorem observe_congr {s t : Store} (h : t.contents = s.contents) (data : Json) :
    (observe data t).1 = (observe data s).1 ∧
      (observe data t).2.contents = (observe data s).2.contents := by
  have hpush : ∀ {t s : Store} (object : Object), t.contents = s.contents →
      (t.push object).1 = (s.push object).1 ∧
        (t.push object).2.contents = (s.push object).2.contents := fun object h ↦
    ⟨by rw [push, push, ← size_contents, h, size_contents],
      by rw [contents_push, contents_push, h]⟩
  match data with
  | .null | .bool _ | .int _ | .float _ | .string _ => exact ⟨rfl, h⟩
  | .array items =>
    obtain ⟨hproperties, hcontents⟩ := observeItems_congr h 0 items
    simp only [observe, hproperties]
    exact (hpush _ hcontents).imp_left (congrArg Value.object)
  | .object members =>
    obtain ⟨hproperties, hcontents⟩ := observeMembers_congr h members
    simp only [observe, hproperties]
    exact (hpush _ hcontents).imp_left (congrArg Value.object)

theorem observeItems_congr {s t : Store} (h : t.contents = s.contents) (index : Nat)
    (items : List Json) :
    (observeItems index items t).1 = (observeItems index items s).1 ∧
      (observeItems index items t).2.contents = (observeItems index items s).2.contents := by
  match items with
  | [] => exact ⟨rfl, h⟩
  | item :: rest =>
    obtain ⟨hvalue, hfirst⟩ := observe_congr h item
    obtain ⟨hproperties, hcontents⟩ := observeItems_congr hfirst (index + 1) rest
    simp only [observeItems, hvalue, hproperties]
    exact ⟨trivial, hcontents⟩

theorem observeMembers_congr {s t : Store} (h : t.contents = s.contents)
    (members : List (String × Json)) :
    (observeMembers members t).1 = (observeMembers members s).1 ∧
      (observeMembers members t).2.contents = (observeMembers members s).2.contents := by
  match members with
  | [] => exact ⟨rfl, h⟩
  | (name, item) :: rest =>
    obtain ⟨hvalue, hfirst⟩ := observe_congr h item
    obtain ⟨hproperties, hcontents⟩ := observeMembers_congr hfirst rest
    simp only [observeMembers, hvalue, hproperties]
    exact ⟨trivial, hcontents⟩

end

end Store

end DataBinding

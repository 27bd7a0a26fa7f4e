import Mathlib.Data.Finset.Card
import Mathlib.Data.Finset.SDiff
import DataBinding.Proofs.State.Graph
import DataBinding.State.Snapshot

/-!
# Unfolding the graph of objects

A snapshot is a tree, the state is a graph, which may have cycles.  What the tree has to be is said
by the rules of `Store.Unfolds`: an object is followed into everything it holds **unless it is one
of the objects that it is inside of**, which are the `ancestors`; then it is null.

* `Unfolds.snapshotWithin_eq` and `WellFormed.unfolds_snapshotWithin`: every value has exactly one
  unfolding, and it is what the snapshot computes.  The room that the snapshot is given is the
  number of objects that are not among the ancestors (`Store.unvisited`), and each step down uses up
  one.
* `Store.Serializes` is the same computation by one worker with one stack: it pushes an object,
  serializes the parts one after the other with whatever stack the part before left behind, and
  pops.  `serializes_iff` says that **every part leaves the stack as it found it**, so that an
  object which several siblings share is written in full each time.
* `Store.Part` goes down the graph and the snapshot at the same time, and says which part of the
  snapshot stands for which occurrence of an object.
-/

set_option autoImplicit false

namespace DataBinding

/-- The plain data that a scalar is. -/
def Value.toJson? : Value → Option Json
  | .null => some .null
  | .bool b => some (.bool b)
  | .number x => some x.toJson
  | .string t => some (.string t)
  | .object _ => none

namespace Store

/-! ## The rules -/

mutual

/-- The value, being inside the objects `ancestors`, unfolds to this tree. -/
inductive Unfolds (s : Store) : List ObjectId → Value → Json → Prop
  /-- A scalar is what it is. -/
  | scalar {ancestors : List ObjectId} {v : Value} {j : Json} (h : v.toJson? = some j) :
      Unfolds s ancestors v j
  /-- An object inside itself is cut. -/
  | again {ancestors : List ObjectId} {o : ObjectId} (h : o ∈ ancestors) :
      Unfolds s ancestors (.object o) .null
  /-- A list becomes a list of its items. -/
  | array {ancestors : List ObjectId} {o : ObjectId} {properties : List Property}
      {items : List Json} (hfresh : o ∉ ancestors)
      (hobject : s.object? o = some ⟨.array, properties⟩)
      (hitems : UnfoldsEach s (o :: ancestors) properties items) :
      Unfolds s ancestors (.object o) (.array items)
  /-- A map becomes the members that its properties are, in order. -/
  | map {ancestors : List ObjectId} {o : ObjectId} {properties : List Property} {items : List Json}
      (hfresh : o ∉ ancestors) (hobject : s.object? o = some ⟨.map, properties⟩)
      (hitems : UnfoldsEach s (o :: ancestors) properties items) :
      Unfolds s ancestors (.object o) (Json.ofMembers ((properties.map Property.key).zip items))

/-- The values of the properties unfold to these trees, one by one. -/
inductive UnfoldsEach (s : Store) : List ObjectId → List Property → List Json → Prop
  | nil {ancestors : List ObjectId} : UnfoldsEach s ancestors [] []
  | cons {ancestors : List ObjectId} {p : Property} {properties : List Property} {item : Json}
      {items : List Json} (hitem : Unfolds s ancestors p.value item)
      (hitems : UnfoldsEach s ancestors properties items) :
      UnfoldsEach s ancestors (p :: properties) (item :: items)

end

variable {s : Store} {ancestors stack after : List ObjectId} {o : ObjectId} {v w : Value}
  {j part : Json} {properties : List Property} {items : List Json} {room : Nat}

theorem UnfoldsEach.length_eq (h : s.UnfoldsEach ancestors properties items) :
    items.length = properties.length := by
  induction properties generalizing items with
  | nil =>
    cases h
    rfl
  | cons p rest ih =>
    cases h with
    | cons _ hitems => rw [List.length_cons, List.length_cons, ih hitems]

theorem UnfoldsEach.getElem? (h : s.UnfoldsEach ancestors properties items) {i : Nat} {p : Property}
    {item : Json} (hp : properties[i]? = some p) (hitem : items[i]? = some item) :
    s.Unfolds ancestors p.value item := by
  induction properties generalizing items i with
  | nil => simp at hp
  | cons p' rest ih =>
    cases h with
    | cons hfirst hitems =>
      cases i with
      | zero =>
        cases hp
        cases hitem
        exact hfirst
      | succ i => exact ih hitems hp hitem

theorem unfoldsEach_map {render : Property → Json}
    (h : ∀ p ∈ properties, s.Unfolds ancestors p.value (render p)) :
    s.UnfoldsEach ancestors properties (properties.map render) := by
  induction properties with
  | nil => exact .nil
  | cons p rest ih => exact .cons (h p (.head _)) (ih fun p' hp' ↦ h p' (.tail _ hp'))

/-- **An object is cut if it is inside itself, and only then.** -/
theorem Unfolds.eq_null_iff (h : s.Unfolds ancestors (.object o) j) :
    j = .null ↔ o ∈ ancestors := by
  cases h with
  | scalar h => cases h
  | again h => simp [h]
  | array hfresh => simp [hfresh]
  | map hfresh => simp [hfresh, Json.ofMembers]

/-! ## The room that is left -/

/-- The number of objects that are not among the ancestors. -/
def unvisited (s : Store) (ancestors : List ObjectId) : Nat :=
  (Finset.range s.objects.size \ ancestors.toFinset).card

theorem unvisited_nil (s : Store) : s.unvisited [] = s.objects.size := by
  simp [unvisited]

/-- **Each step down leaves one object less.** -/
theorem unvisited_cons (ho : o < s.objects.size) (hfresh : o ∉ ancestors) :
    s.unvisited (o :: ancestors) + 1 = s.unvisited ancestors := by
  rw [unvisited, List.toFinset_cons, Finset.sdiff_insert]
  refine Finset.card_erase_add_one ?_
  rw [Finset.mem_sdiff, Finset.mem_range, List.mem_toFinset]
  exact ⟨ho, hfresh⟩

/-! ## Every value has one unfolding -/

theorem snapshotWithin_of_toJson? (h : v.toJson? = some j) :
    s.snapshotWithin room ancestors v = j := by
  cases v <;> cases h <;> rw [snapshotWithin]

theorem snapshotWithin_of_mem (h : o ∈ ancestors) :
    s.snapshotWithin room ancestors (.object o) = .null := by
  cases room with
  | zero => rw [snapshotWithin]
  | succ room => rw [snapshotWithin, if_pos (List.contains_iff_mem.2 h)]

theorem snapshotWithin_succ (hfresh : o ∉ ancestors) {object : Object}
    (hobject : s.object? o = some object) :
    s.snapshotWithin (room + 1) ancestors (.object o) = match object.kind with
      | .array => .array
          (object.properties.map fun p ↦ s.snapshotWithin room (o :: ancestors) p.value)
      | .map => Json.ofMembers
          (object.properties.map fun p ↦
            (p.key, s.snapshotWithin room (o :: ancestors) p.value)) := by
  obtain ⟨kind, properties⟩ := object
  cases kind <;> simp [snapshotWithin, hobject, hfresh]

/-- Whoever goes down into an object has room for it. -/
theorem exists_room (hfresh : o ∉ ancestors) {object : Object} (hobject : s.object? o = some object)
    (hroom : s.unvisited ancestors ≤ room) :
    ∃ inner, room = inner + 1 ∧ s.unvisited (o :: ancestors) ≤ inner := by
  have hstep := unvisited_cons (lt_of_object? hobject) hfresh
  exact ⟨room - 1, by omega, by omega⟩

mutual

/-- **An unfolding is what the snapshot computes**, if the room is enough for all objects that may
come. -/
theorem Unfolds.snapshotWithin_eq {s : Store} {ancestors : List ObjectId} {v : Value} {j : Json}
    {room : Nat} (h : s.Unfolds ancestors v j) (hroom : s.unvisited ancestors ≤ room) :
    s.snapshotWithin room ancestors v = j := by
  cases h with
  | scalar h => exact snapshotWithin_of_toJson? h
  | again h => exact snapshotWithin_of_mem h
  | array hfresh hobject hitems =>
    obtain ⟨inner, rfl, hinner⟩ := exists_room hfresh hobject hroom
    rw [snapshotWithin_succ hfresh hobject]
    exact congrArg Json.array (UnfoldsEach.map_eq hitems hinner)
  | map hfresh hobject hitems =>
    obtain ⟨inner, rfl, hinner⟩ := exists_room hfresh hobject hroom
    rw [snapshotWithin_succ hfresh hobject, ← UnfoldsEach.map_eq hitems hinner, List.zip_map']

theorem UnfoldsEach.map_eq {s : Store} {ancestors : List ObjectId} {properties : List Property}
    {items : List Json} {room : Nat} (h : s.UnfoldsEach ancestors properties items)
    (hroom : s.unvisited ancestors ≤ room) :
    properties.map (fun p ↦ s.snapshotWithin room ancestors p.value) = items := by
  cases h with
  | nil => rfl
  | cons hitem hitems =>
    rw [List.map_cons, Unfolds.snapshotWithin_eq hitem hroom, UnfoldsEach.map_eq hitems hroom]

end

theorem unfolds_of_isScalar (h : v.isScalar = true) :
    s.Unfolds ancestors v (s.snapshotWithin room ancestors v) := by
  cases v with
  | object o => cases h
  | _ =>
    refine .scalar ?_
    rw [snapshotWithin]
    rfl

/-- **What the snapshot computes is an unfolding.** -/
theorem WellFormed.unfolds_snapshotWithin (hs : s.WellFormed) (hv : v.Within s.objects.size)
    (hroom : s.unvisited ancestors ≤ room) :
    s.Unfolds ancestors v (s.snapshotWithin room ancestors v) := by
  induction room generalizing ancestors v with
  | zero =>
    cases v with
    | object o =>
      have hold : o ∈ ancestors := by
        by_contra hfresh
        have hstep := unvisited_cons (s := s) hv hfresh
        omega
      rw [snapshotWithin_of_mem hold]
      exact .again hold
    | _ => exact unfolds_of_isScalar rfl
  | succ room ih =>
    cases v with
    | object o =>
      by_cases hold : o ∈ ancestors
      · rw [snapshotWithin_of_mem hold]
        exact .again hold
      · obtain ⟨⟨kind, properties⟩, hobject⟩ : ∃ object, s.object? o = some object :=
          ⟨s.objects[o], Array.getElem?_eq_getElem hv⟩
        have hstep := unvisited_cons (s := s) hv hold
        have hparts : s.UnfoldsEach (o :: ancestors) properties
            (properties.map fun p ↦ s.snapshotWithin room (o :: ancestors) p.value) :=
          unfoldsEach_map fun p hp ↦ ih ((hs o _ hobject).within p hp) (by omega)
        rw [snapshotWithin_succ hold hobject]
        cases kind with
        | array => exact .array hold hobject hparts
        | map =>
          have hmap := Unfolds.map hold hobject hparts
          rwa [List.zip_map'] at hmap
    | _ => exact unfolds_of_isScalar rfl

/-- The unfolding of a value, whatever it is inside of, is unique. -/
theorem Unfolds.unique {j' : Json} (h : s.Unfolds ancestors v j) (h' : s.Unfolds ancestors v j') :
    j = j' :=
  (h.snapshotWithin_eq (Nat.le_refl _)).symm.trans (h'.snapshotWithin_eq (Nat.le_refl _))

theorem Unfolds.snapshot_eq (h : s.Unfolds [] v j) : s.snapshot v = j :=
  h.snapshotWithin_eq (Nat.le_of_eq s.unvisited_nil)

theorem WellFormed.unfolds_snapshot (hs : s.WellFormed) (hv : v.Within s.objects.size) :
    s.Unfolds [] v (s.snapshot v) :=
  hs.unfolds_snapshotWithin hv (Nat.le_of_eq s.unvisited_nil)

/-! ## One stack for all -/

mutual

/-- Serializing a value with the objects on the stack gives the tree, and leaves the stack
`after`. -/
inductive Serializes (s : Store) : List ObjectId → Value → Json → List ObjectId → Prop
  | scalar {stack : List ObjectId} {v : Value} {j : Json} (h : v.toJson? = some j) :
      Serializes s stack v j stack
  | again {stack : List ObjectId} {o : ObjectId} (h : o ∈ stack) :
      Serializes s stack (.object o) .null stack
  | array {stack after : List ObjectId} {o : ObjectId} {properties : List Property}
      {items : List Json} (hfresh : o ∉ stack) (hobject : s.object? o = some ⟨.array, properties⟩)
      (hitems : SerializesEach s (o :: stack) properties items after) :
      Serializes s stack (.object o) (.array items) after.tail
  | map {stack after : List ObjectId} {o : ObjectId} {properties : List Property}
      {items : List Json} (hfresh : o ∉ stack) (hobject : s.object? o = some ⟨.map, properties⟩)
      (hitems : SerializesEach s (o :: stack) properties items after) :
      Serializes s stack (.object o) (Json.ofMembers ((properties.map Property.key).zip items))
        after.tail

/-- Serializing the properties one after the other, each with the stack that the one before left. -/
inductive SerializesEach (s : Store) :
    List ObjectId → List Property → List Json → List ObjectId → Prop
  | nil {stack : List ObjectId} : SerializesEach s stack [] [] stack
  | cons {stack between after : List ObjectId} {p : Property} {properties : List Property}
      {item : Json} {items : List Json} (hitem : Serializes s stack p.value item between)
      (hitems : SerializesEach s between properties items after) :
      SerializesEach s stack (p :: properties) (item :: items) after

end

mutual

theorem Serializes.restored {s : Store} {stack after : List ObjectId} {v : Value} {j : Json}
    (h : s.Serializes stack v j after) : after = stack ∧ s.Unfolds stack v j := by
  match h with
  | .scalar h => exact ⟨rfl, .scalar h⟩
  | .again h => exact ⟨rfl, .again h⟩
  | .array hfresh hobject hitems =>
    obtain ⟨hafter, hparts⟩ := SerializesEach.restored hitems
    exact ⟨congrArg List.tail hafter, .array hfresh hobject hparts⟩
  | .map hfresh hobject hitems =>
    obtain ⟨hafter, hparts⟩ := SerializesEach.restored hitems
    exact ⟨congrArg List.tail hafter, .map hfresh hobject hparts⟩

theorem SerializesEach.restored {s : Store} {stack after : List ObjectId}
    {properties : List Property} {items : List Json}
    (h : s.SerializesEach stack properties items after) :
    after = stack ∧ s.UnfoldsEach stack properties items := by
  match h with
  | .nil => exact ⟨rfl, .nil⟩
  | .cons hitem hitems =>
    obtain ⟨hbetween, hfirst⟩ := Serializes.restored hitem
    obtain ⟨hafter, hrest⟩ := SerializesEach.restored hitems
    exact ⟨hafter.trans hbetween, .cons hfirst (hbetween ▸ hrest)⟩

end

mutual

theorem Unfolds.serializes {s : Store} {stack : List ObjectId} {v : Value} {j : Json}
    (h : s.Unfolds stack v j) : s.Serializes stack v j stack := by
  match h with
  | .scalar h => exact .scalar h
  | .again h => exact .again h
  | .array hfresh hobject hitems => exact .array hfresh hobject (UnfoldsEach.serializes hitems)
  | .map hfresh hobject hitems => exact .map hfresh hobject (UnfoldsEach.serializes hitems)

theorem UnfoldsEach.serializes {s : Store} {stack : List ObjectId} {properties : List Property}
    {items : List Json} (h : s.UnfoldsEach stack properties items) :
    s.SerializesEach stack properties items stack := by
  match h with
  | .nil => exact .nil
  | .cons hitem hitems => exact .cons (Unfolds.serializes hitem) (UnfoldsEach.serializes hitems)

end

/-- **Serializing leaves the stack as it was**, and gives the unfolding below it. -/
theorem serializes_iff :
    s.Serializes stack v j after ↔ after = stack ∧ s.Unfolds stack v j := by
  constructor
  · exact Serializes.restored
  · rintro ⟨rfl, h⟩
    exact h.serializes

/-! ## Occurrences -/

/-- Going down from `v` and its tree `j` at once, through `ancestors`, one comes to a value and to
the part of the tree that stands for it. -/
inductive Part (s : Store) (v : Value) (j : Json) : List ObjectId → Value → Json → Prop
  | whole : Part s v j [] v j
  | item {ancestors : List ObjectId} {o : ObjectId} {properties : List Property} {items : List Json}
      {i : Nat} {p : Property} {part : Json} (h : Part s v j ancestors (.object o) (.array items))
      (hobject : s.object? o = some ⟨.array, properties⟩) (hp : properties[i]? = some p)
      (hpart : items[i]? = some part) : Part s v j (o :: ancestors) p.value part
  | member {ancestors : List ObjectId} {o : ObjectId} {properties : List Property}
      {members : List (String × Json)} {p : Property} {part : Json}
      (h : Part s v j ancestors (.object o) (.object members))
      (hobject : s.object? o = some ⟨.map, properties⟩) (hp : p ∈ properties)
      (hpart : members.lookup p.key = some part) : Part s v j (o :: ancestors) p.value part

theorem Unfolds.array_inv (h : s.Unfolds ancestors (.object o) (.array items))
    (hobject : s.object? o = some ⟨.array, properties⟩) :
    s.UnfoldsEach (o :: ancestors) properties items := by
  generalize hj : Json.array items = j at h
  cases h with
  | scalar h => cases h
  | again h => cases hj
  | array _ hobject' hitems =>
    cases hj
    rw [hobject] at hobject'
    cases hobject'
    exact hitems
  | map => cases hj

theorem Unfolds.map_inv {members : List (String × Json)}
    (h : s.Unfolds ancestors (.object o) (.object members))
    (hobject : s.object? o = some ⟨.map, properties⟩) :
    ∃ items, s.UnfoldsEach (o :: ancestors) properties items ∧
      members = Json.sortMembers ((properties.map Property.key).zip items) := by
  generalize hj : Json.object members = j at h
  cases h with
  | scalar h => cases h
  | again h => cases hj
  | array => cases hj
  | map _ hobject' hitems =>
    cases hj
    rw [hobject] at hobject'
    cases hobject'
    exact ⟨_, hitems, rfl⟩

/-- The member of a property is the tree that the property unfolds to. -/
theorem UnfoldsEach.exists_lookup (h : s.UnfoldsEach ancestors properties items)
    (hkeys : (properties.map Property.key).Nodup) {p : Property} (hp : p ∈ properties) :
    ∃ part, (Json.sortMembers ((properties.map Property.key).zip items)).lookup p.key = some part ∧
      s.Unfolds ancestors p.value part := by
  have hnames : ((properties.map Property.key).zip items).map Prod.fst
      = properties.map Property.key := by
    rw [List.map_fst_zip]
    rw [h.length_eq, List.length_map]
  rw [Json.lookup_sortMembers (by rwa [hnames])]
  clear hnames
  induction properties generalizing items with
  | nil => cases hp
  | cons p' rest ih =>
    cases h with
    | cons hitem hitems =>
      obtain ⟨hnew, hrest⟩ := List.nodup_cons.1 hkeys
      rw [List.map_cons, List.zip_cons_cons, List.lookup_cons]
      rcases List.mem_cons.1 hp with rfl | hp
      · rw [beq_self_eq_true]
        exact ⟨_, rfl, hitem⟩
      · have hne : p.key ≠ p'.key := by
          intro heq
          exact hnew (heq ▸ List.mem_map_of_mem hp)
        rw [beq_false_of_ne hne]
        exact ih hitems hrest hp

namespace Part

/-- **Every part of a snapshot is the unfolding of what it stands for.** -/
theorem unfolds (h : s.Part v j ancestors w part) (hs : s.WellFormed) (hj : s.Unfolds [] v j) :
    s.Unfolds ancestors w part := by
  induction h with
  | whole => exact hj
  | item _ hobject hp hpart ih => exact (ih.array_inv hobject).getElem? hp hpart
  | member _ hobject hp hpart ih =>
    obtain ⟨items, hitems, rfl⟩ := ih.map_inv hobject
    obtain ⟨part, hpart', hunfolds⟩ := hitems.exists_lookup (hs _ _ hobject).nodup_keys hp
    rw [hpart] at hpart'
    cases hpart'
    exact hunfolds

/-- **An object that is not cut is there in full**: whatever it holds has its part. -/
theorem exists_child (h : s.Part v j ancestors (.object o) part) (hs : s.WellFormed)
    (hpart : s.Unfolds ancestors (.object o) part) (hfresh : o ∉ ancestors) {object : Object}
    (hobject : s.object? o = some object) {p : Property} (hp : p ∈ object.properties) :
    ∃ inner, s.Part v j (o :: ancestors) p.value inner := by
  cases hpart with
  | scalar h => cases h
  | again hold => exact absurd hold hfresh
  | array _ hobject' hitems =>
    rw [hobject] at hobject'
    cases hobject'
    obtain ⟨i, hi⟩ := List.getElem?_of_mem hp
    have hlt : i < _ := hitems.length_eq ▸ (List.getElem?_eq_some_iff.1 hi).1
    exact ⟨_, .item h hobject hi (List.getElem?_eq_getElem hlt)⟩
  | map _ hobject' hitems =>
    rw [hobject] at hobject'
    cases hobject'
    obtain ⟨inner, hinner, -⟩ := hitems.exists_lookup (hs _ _ hobject).nodup_keys hp
    exact ⟨inner, .member h hobject hp hinner⟩

end Part

/-! ## The snapshot -/

/-- **Snapshots terminate and cut exactly the cycles.**  In every graph of objects, with any sharing
and any cycles, serializing a value comes to an end, with an empty stack, and gives the snapshot;
this is the unfolding of the value.  Wherever an object occurs in it, the part that stands for the
object is null exactly if the object is inside itself there; otherwise it is the unfolding of the
object in that place, with a part for everything that the object holds. -/
theorem snapshot_laws (hs : s.WellFormed) (hv : v.Within s.objects.size) :
    (∃ j, s.Serializes [] v j []) ∧
    (∀ j after, s.Serializes [] v j after → j = s.snapshot v ∧ after = []) ∧
    (∀ j, s.Unfolds [] v j ↔ j = s.snapshot v) ∧
    ∀ ancestors o part, s.Part v (s.snapshot v) ancestors (.object o) part →
      s.Unfolds ancestors (.object o) part ∧ (part = .null ↔ o ∈ ancestors) ∧
      (o ∉ ancestors → ∀ object, s.object? o = some object → ∀ p ∈ object.properties,
        ∃ inner, s.Part v (s.snapshot v) (o :: ancestors) p.value inner) := by
  have hsnapshot := hs.unfolds_snapshot hv
  refine ⟨⟨_, hsnapshot.serializes⟩, fun j after h ↦ ?_, fun j ↦ ⟨fun h ↦ h.snapshot_eq.symm, ?_⟩,
    fun ancestors o part h ↦ ?_⟩
  · obtain ⟨hafter, hj⟩ := serializes_iff.1 h
    exact ⟨hj.snapshot_eq.symm, hafter⟩
  · rintro rfl
    exact hsnapshot
  · have hpart := h.unfolds hs hsnapshot
    exact ⟨hpart, hpart.eq_null_iff, fun hfresh object hobject p hp ↦
      h.exists_child hs hpart hfresh hobject hp⟩

/-- An object that holds itself, and holds another one twice. -/
def tangle : Store where
  objects := #[⟨.map, [⟨"me", .object 0, []⟩, ⟨"left", .object 1, []⟩, ⟨"right", .object 1, []⟩]⟩,
    ⟨.array, [⟨"0", .bool true, []⟩]⟩]
  handles := #[]
  tracking := []

theorem snapshot_laws_of_tangle :
    tangle.WellFormed ∧ (Value.object 0).Within tangle.objects.size ∧
      tangle.snapshot (.object 0) = .object
        [("left", .array [.bool true]), ("me", .null), ("right", .array [.bool true])] ∧
      ∃ j, tangle.Serializes [] (.object 0) j [] := by
  have hs : tangle.WellFormed := by decide
  exact ⟨hs, by decide, rfl, (snapshot_laws hs (by decide)).1⟩

end Store

end DataBinding

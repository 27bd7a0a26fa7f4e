import DataBinding.Document.Edit

/-!
# Looking at a document after an operation

A node has a content and two kinds of links.  Operations on documents change the one or the other at
few places, and the lemmas here say what is seen afterwards at every place: at `setContent`
contents, at `detach`, `append` and `clearChildren` links, at `push` one new node.  Nothing here
assumes that the nodes are a forest.
-/

set_option autoImplicit false

namespace DataBinding.Document

variable (d : Document)

theorem node?_modify (id : NodeId) (f : Node → Node) (i : NodeId) :
    (d.modify id f).node? i = if i = id then (d.node? i).map f else d.node? i := by
  rw [node?, node?, modify, Array.getElem?_modify]
  by_cases h : id = i
  · rw [if_pos h, if_pos h.symm]
  · rw [if_neg h, if_neg (Ne.symm h)]

theorem children_eq (i : NodeId) : d.children i = ((d.node? i).map Node.children).getD [] := by
  rw [children]
  cases d.node? i <;> rfl

/-! ## One node is changed -/

section Modify

variable {d} {id : NodeId} {f : Node → Node}

theorem parent?_modify (hf : ∀ n, (f n).parent = n.parent) (i : NodeId) :
    (d.modify id f).parent? i = d.parent? i := by
  rw [parent?, parent?, node?_modify]
  split
  · cases d.node? i <;> simp [hf]
  · rfl

theorem children_modify (hf : ∀ n, (f n).children = n.children) (i : NodeId) :
    (d.modify id f).children i = d.children i := by
  rw [children_eq, children_eq, node?_modify]
  split
  · cases d.node? i <;> simp [hf]
  · rfl

theorem content?_modify (hf : ∀ n, (f n).content = n.content) (i : NodeId) :
    (d.modify id f).content? i = d.content? i := by
  rw [content?, content?, node?_modify]
  split
  · cases d.node? i <;> simp [hf]
  · rfl

end Modify

@[simp] theorem size_modify (id : NodeId) (f : Node → Node) :
    (d.modify id f).nodes.size = d.nodes.size := by
  rw [modify, Array.size_modify]

theorem node?_isSome_iff (i : NodeId) : (d.node? i).isSome ↔ i < d.nodes.size := by
  simp [node?]

theorem node?_eq_none {i : NodeId} (h : d.nodes.size ≤ i) : d.node? i = none := by
  rw [node?, Array.getElem?_eq_none h]

theorem children_of_size_le {i : NodeId} (h : d.nodes.size ≤ i) : d.children i = [] := by
  rw [children_eq, node?_eq_none d h]
  rfl

theorem lt_size_of_parent? {d : Document} {i p : NodeId} (h : d.parent? i = some p) :
    i < d.nodes.size := by
  rw [← node?_isSome_iff]
  rw [parent?, Option.bind_eq_some_iff] at h
  obtain ⟨n, hn, -⟩ := h
  simp [hn]

theorem lt_size_of_mem_children {d : Document} {p c : NodeId} (h : c ∈ d.children p) :
    p < d.nodes.size := by
  rw [← node?_isSome_iff]
  rw [children] at h
  cases hn : d.node? p with
  | none => simp [hn] at h
  | some n => simp

/-- A node with a content is there. -/
theorem lt_size_of_content? {d : Document} {i : NodeId} {c : Content}
    (h : d.content? i = some c) : i < d.nodes.size := by
  rw [← node?_isSome_iff]
  rw [content?, Option.map_eq_some_iff] at h
  obtain ⟨node, hnode, -⟩ := h
  simp [hnode]

theorem exists_content? {d : Document} {i : NodeId} (h : i < d.nodes.size) :
    ∃ c, d.content? i = some c := by
  rw [← Option.isSome_iff_exists, content?, Option.isSome_map, node?_isSome_iff]
  exact h

theorem element?_eq_some_iff {d : Document} {i : NodeId} {x : Element} :
    d.element? i = some x ↔ d.content? i = some (.element x) := by
  rw [element?]
  split
  · rename_i e h
    rw [h]
    simp
  · rename_i h
    exact ⟨fun hx ↦ (nomatch hx), fun hx ↦ absurd hx (h x)⟩

/-! ## Contents -/

@[simp] theorem parent?_setContent (id : NodeId) (c : Content) (i : NodeId) :
    (d.setContent id c).parent? i = d.parent? i := parent?_modify (by simp) i

@[simp] theorem children_setContent (id : NodeId) (c : Content) (i : NodeId) :
    (d.setContent id c).children i = d.children i := children_modify (by simp) i

theorem content?_setContent (id : NodeId) (c : Content) (i : NodeId) :
    (d.setContent id c).content? i =
      if i = id then (d.content? i).map fun _ ↦ c else d.content? i := by
  rw [content?, content?, setContent, node?_modify]
  split
  · cases d.node? i <;> simp
  · rfl

@[simp] theorem size_setContent (id : NodeId) (c : Content) :
    (d.setContent id c).nodes.size = d.nodes.size := size_modify d id _

/-! ## A new node -/

theorem node?_push_of_lt (c : Content) {i : NodeId} (h : i < d.nodes.size) :
    (d.push c).2.node? i = d.node? i := by
  rw [node?, node?, push, Array.getElem?_push_lt h, Array.getElem?_eq_getElem h]

theorem node?_push_size (c : Content) :
    (d.push c).2.node? d.nodes.size = some ⟨none, [], c⟩ := by
  rw [node?, push, Array.getElem?_push_size]

@[simp] theorem size_push (c : Content) : (d.push c).2.nodes.size = d.nodes.size + 1 := by
  rw [push, Array.size_push]

@[simp] theorem push_fst (c : Content) : (d.push c).1 = d.nodes.size := rfl

@[simp] theorem parent?_push (c : Content) (i : NodeId) :
    (d.push c).2.parent? i = d.parent? i := by
  rw [parent?, parent?]
  rcases Nat.lt_trichotomy i d.nodes.size with h | h | h
  · rw [node?_push_of_lt d c h]
  · rw [h, node?_push_size, node?_eq_none d (Nat.le_refl _)]
    rfl
  · rw [node?_eq_none _ (by rw [size_push]; omega), node?_eq_none d (Nat.le_of_lt h)]

@[simp] theorem children_push (c : Content) (i : NodeId) :
    (d.push c).2.children i = d.children i := by
  rw [children, children]
  rcases Nat.lt_trichotomy i d.nodes.size with h | h | h
  · rw [node?_push_of_lt d c h]
  · rw [h, node?_push_size, node?_eq_none d (Nat.le_refl _)]
  · rw [node?_eq_none _ (by rw [size_push]; omega), node?_eq_none d (Nat.le_of_lt h)]

theorem content?_push_of_lt (c : Content) {i : NodeId} (h : i < d.nodes.size) :
    (d.push c).2.content? i = d.content? i := by
  rw [content?, content?, node?_push_of_lt d c h]

theorem content?_push_size (c : Content) : (d.push c).2.content? d.nodes.size = some c := by
  rw [content?, node?_push_size]
  rfl

/-! ## Unlinking -/

theorem parent?_modify_set (id : NodeId) (p : Option NodeId) (i : NodeId)
    (h : i < d.nodes.size) :
    (d.modify id fun node ↦ { node with parent := p }).parent? i =
      if i = id then p else d.parent? i := by
  rw [← node?_isSome_iff, Option.isSome_iff_exists] at h
  obtain ⟨n, hn⟩ := h
  rw [parent?, parent?, node?_modify, hn]
  split <;> rfl

theorem children_modify_map (id : NodeId) (f : List NodeId → List NodeId)
    (hf : f [] = [] ∨ id < d.nodes.size) (i : NodeId) :
    (d.modify id fun node ↦ { node with children := f node.children }).children i =
      if i = id then f (d.children i) else d.children i := by
  rw [children_eq, children_eq, node?_modify]
  split
  · rename_i h
    cases hn : d.node? i with
    | none =>
      rcases hf with hf | hf
      · simp [hf]
      · rw [h, node?, Array.getElem?_eq_getElem hf] at hn
        cases hn
    | some n => simp
  · rfl

theorem parent?_detach (id i : NodeId) :
    (d.detach id).parent? i = if i = id then none else d.parent? i := by
  rw [detach]
  cases hp : d.parent? id with
  | none =>
    by_cases h : i = id
    · rw [h, hp, if_pos rfl]
    · rw [if_neg h]
  | some parent =>
    simp only
    rw [parent?_modify (by simp)]
    by_cases hi : i < d.nodes.size
    · exact parent?_modify_set d id none i hi
    · have hi' : d.nodes.size ≤ i := Nat.le_of_not_lt hi
      rw [parent?, parent?, node?_eq_none _ (by rwa [size_modify]), node?_eq_none d hi']
      simp

theorem children_detach (id i : NodeId) :
    (d.detach id).children i =
      if d.parent? id = some i then (d.children i).filter (· != id) else d.children i := by
  rw [detach]
  cases hp : d.parent? id with
  | none => simp
  | some parent =>
    simp only
    rw [children_modify_map _ parent (List.filter (· != id)) (.inl rfl), children_modify (by simp)]
    by_cases h : i = parent
    · subst h
      simp
    · simp [h, Ne.symm h]

@[simp] theorem content?_detach (id i : NodeId) : (d.detach id).content? i = d.content? i := by
  rw [detach]
  split
  · rfl
  · rw [content?_modify (by simp), content?_modify (by simp)]

@[simp] theorem size_detach (id : NodeId) : (d.detach id).nodes.size = d.nodes.size := by
  rw [detach]
  split
  · rfl
  · rw [size_modify, size_modify]

theorem parent?_clearChildren (id i : NodeId) :
    (d.clearChildren id).parent? i = if i ∈ d.children id then none else d.parent? i := by
  rw [clearChildren]
  have hfold : ∀ (cs : List NodeId) (e : Document),
      (cs.foldl (fun d child ↦ d.modify child fun node ↦ { node with parent := none }) e).parent? i
        = if i ∈ cs then none else e.parent? i := by
    intro cs
    induction cs with
    | nil => simp
    | cons c cs ih =>
      intro e
      rw [List.foldl_cons, ih]
      by_cases hi : i < e.nodes.size
      · rw [parent?_modify_set e c none i hi]
        by_cases hc : i = c <;> simp [hc]
      · have hi' : e.nodes.size ≤ i := Nat.le_of_not_lt hi
        have hnone : e.parent? i = none := by rw [parent?, node?_eq_none e hi']; rfl
        have hnone' : (e.modify c fun node ↦ { node with parent := none }).parent? i = none := by
          rw [parent?, node?_eq_none _ (by rwa [size_modify])]
          rfl
        rw [hnone, hnone']
        simp
  rw [hfold, parent?_modify (by simp)]

/-- What each step of a fold keeps, the fold keeps. -/
theorem foldl_kept {α β : Type} (look : Document → α) {f : Document → β → Document}
    (h : ∀ d b, look (f d b) = look d) (bs : List β) (d : Document) :
    look (bs.foldl f d) = look d := by
  induction bs generalizing d with
  | nil => rfl
  | cons b bs ih => rw [List.foldl_cons, ih, h]

theorem children_clearChildren (id i : NodeId) :
    (d.clearChildren id).children i = if i = id then [] else d.children i := by
  rw [clearChildren, foldl_kept (·.children i) fun _ _ ↦ children_modify (by simp) i,
    children_modify_map d id (fun _ ↦ []) (.inl rfl)]

@[simp] theorem content?_clearChildren (id i : NodeId) :
    (d.clearChildren id).content? i = d.content? i := by
  rw [clearChildren, foldl_kept (·.content? i) fun _ _ ↦ content?_modify (by simp) i,
    content?_modify (by simp)]

@[simp] theorem size_clearChildren (id : NodeId) :
    (d.clearChildren id).nodes.size = d.nodes.size := by
  rw [clearChildren, foldl_kept (·.nodes.size) fun _ _ ↦ size_modify _ _ _, size_modify]

/-! ## An element is changed -/

section ModifyElement

variable (id : NodeId) (f : Element → Element)

theorem modifyElement_eq : d.modifyElement id f =
    match d.element? id with
    | some e => d.setContent id (.element (f e))
    | none => d := rfl

@[simp] theorem size_modifyElement : (d.modifyElement id f).nodes.size = d.nodes.size := by
  rw [modifyElement_eq]
  split <;> simp

@[simp] theorem parent?_modifyElement (i : NodeId) :
    (d.modifyElement id f).parent? i = d.parent? i := by
  rw [modifyElement_eq]
  split <;> simp

@[simp] theorem children_modifyElement (i : NodeId) :
    (d.modifyElement id f).children i = d.children i := by
  rw [modifyElement_eq]
  split <;> simp

end ModifyElement

end DataBinding.Document

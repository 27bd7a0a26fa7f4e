import DataBinding.Proofs.Document.ContentMaps

/-!
# Contents and links are independent

Some edits change the content of one node and some change links, and links are changed without
looking at contents.  So **a change of the content of a node commutes with moving nodes, and with
giving a single child to a node that it is no child of** (`mapContent_restore`,
`mapContent_replaceContent`).  Two changes of contents commute when they concern different nodes, or
different fields of an element.
-/

set_option autoImplicit false

namespace DataBinding

theorem Content.sameSort_congr {a b c : Content} (h : b.sameSort c = true) :
    a.sameSort b = a.sameSort c := by
  cases b <;> cases c <;> cases h <;> cases a <;> rfl

namespace Document

variable {d e : Document} {i j n p : NodeId} {f g : Content → Content} {c c' : Content}

/-! ## Changing one content -/

/-- Changes the content of a node. -/
def mapContent (d : Document) (i : NodeId) (f : Content → Content) : Document :=
  d.modify i fun node ↦ { node with content := f node.content }

section Views

variable (d) (i : NodeId) (f : Content → Content)

@[simp] theorem parent?_mapContent (k : NodeId) : (d.mapContent i f).parent? k = d.parent? k :=
  parent?_modify (by simp) k

@[simp] theorem children_mapContent (k : NodeId) : (d.mapContent i f).children k = d.children k :=
  children_modify (by simp) k

@[simp] theorem size_mapContent : (d.mapContent i f).nodes.size = d.nodes.size := size_modify ..

theorem content?_mapContent (k : NodeId) :
    (d.mapContent i f).content? k = if k = i then (d.content? k).map f else d.content? k := by
  rw [content?, content?, mapContent, node?_modify]
  split
  · cases d.node? k <;> rfl
  · rfl

theorem setContent_eq (c : Content) : d.setContent i c = d.mapContent i fun _ ↦ c := rfl

theorem modifyElement_eq_mapContent (f : Element → Element) :
    d.modifyElement i f = d.mapContent i (Content.onElement f) := by
  refine ext_of_views (by simp) (by simp) (by simp) fun k ↦ ?_
  rw [content?_mapContent, modifyElement_eq, element?]
  by_cases hk : k = i
  · subst hk
    rw [if_pos rfl]
    cases hc : d.content? k with
    | none => simp [hc]
    | some c => cases c <;> simp [hc, content?_setContent, Content.onElement]
  · rw [if_neg hk]
    split
    · rw [content?_setContent, if_neg hk]
    · rfl

end Views

theorem mapContent_mapContent (d : Document) (i : NodeId) (f g : Content → Content) :
    (d.mapContent i f).mapContent i g = d.mapContent i fun c ↦ g (f c) := by
  refine ext_of_views (by simp) (by simp) (by simp) fun k ↦ ?_
  simp only [content?_mapContent]
  split
  · cases d.content? k <;> rfl
  · rfl

/-- Changes of contents commute that do not meet. -/
theorem mapContent_comm (d : Document) (h : i ≠ j ∨ ∀ c, g (f c) = f (g c)) :
    (d.mapContent i f).mapContent j g = (d.mapContent j g).mapContent i f := by
  refine ext_of_views (by simp) (by simp) (by simp) fun k ↦ ?_
  simp only [content?_mapContent]
  by_cases hi : k = i
  · by_cases hj : k = j
    · have hfg := h.resolve_left fun hne ↦ hne (hi.symm.trans hj)
      cases d.content? k <;> simp [hi, ← hj, hfg]
    · simp [hi, hi ▸ hj]
  · simp [hi]

/-! ## Links do not look at contents -/

/-- A change of one content is a change of all that leaves the others as they are. -/
theorem mapContent_eq_recast : d.mapContent i f = d.recast fun k ↦ if k = i then f else id := by
  refine ext_of_node? fun k ↦ ?_
  rw [mapContent, node?_modify, node?_recast]
  split
  · rfl
  · cases d.node? k <;> rfl

theorem mapContent_append (parent child : NodeId) :
    (d.mapContent i f).append parent child = (d.append parent child).mapContent i f := by
  rw [mapContent_eq_recast, mapContent_eq_recast, recast_append]

/-- **Moving nodes commutes with a change of content.** -/
theorem mapContent_restore (staged root : NodeId) :
    (d.mapContent i f).restore staged root = (d.restore staged root).mapContent i f := by
  rw [mapContent_eq_recast, mapContent_eq_recast, recast_restore]

/-! ## A single child -/

theorem mapContent_clearChildren (k : NodeId) :
    (d.mapContent i f).clearChildren k = (d.clearChildren k).mapContent i f := by
  rw [mapContent_eq_recast, mapContent_eq_recast, recast_clearChildren]

theorem mapContent_push (hi : i < d.nodes.size) (c : Content) :
    ((d.mapContent i f).push c).2 = (d.push c).2.mapContent i f := by
  rw [mapContent_eq_recast, mapContent_eq_recast, recast_push, if_neg (Nat.ne_of_gt hi), id]

theorem mapContent_freshened (hi : i < d.nodes.size) (n : NodeId) (c : Content) :
    (d.mapContent i f).freshened n c = (d.freshened n c).mapContent i f := by
  rw [freshened, freshened, mapContent_clearChildren, size_mapContent,
    mapContent_push (by simpa using hi), mapContent_append]

theorem spot_mapContent (hi : i ∉ d.children n) (c : Content) :
    (d.mapContent i f).spot n c = d.spot n c := by
  rw [spot, spot, children_mapContent, size_mapContent]
  cases hch : d.children n with
  | nil => rfl
  | cons only rest =>
    cases rest with
    | cons _ _ => rfl
    | nil =>
      rw [hch, List.mem_singleton] at hi
      simp only
      rw [content?_mapContent, if_neg (Ne.symm hi)]

/-- **Giving a node a single child commutes with a change of content elsewhere.** -/
theorem mapContent_replaceContent (hi : i < d.nodes.size) (hn : i ∉ d.children n) (c : Content) :
    (d.mapContent i f).replaceContent n c = (d.replaceContent n c).mapContent i f := by
  rw [replaceContent_eq, replaceContent_eq, spot_mapContent hn, size_mapContent]
  split
  · exact mapContent_freshened hi n c
  · rename_i hspot
    have hch := ((d.spot_cases n c).resolve_left hspot).1
    rw [setContent_eq, setContent_eq, mapContent_comm _ (.inl fun heq ↦ hn ?_)]
    rw [heq, hch]
    exact List.mem_singleton_self _

theorem spot_congr (h : c.sameSort c' = true) (d : Document) (n : NodeId) :
    d.spot n c = d.spot n c' := by
  rw [spot, spot]
  simp only [Content.sameSort_congr h]

/-- **Giving a node a single child twice** is the same as doing it once, if the contents are of the
same sort. -/
theorem replaceContent_replaceContent (hn : n < d.nodes.size) (h : c.sameSort c' = true) :
    (d.replaceContent n c).replaceContent n c' = d.replaceContent n c' := by
  have hr := replaceContent_replaced hn c
  rw [replaceContent_again hr.children_self hr.content?_spot h, replaceContent_eq,
    replaceContent_eq, ← spot_congr h]
  split
  · rename_i hspot
    rw [hspot]
    refine ext_of_views ?_ (fun k ↦ ?_) (fun k ↦ ?_) fun k ↦ ?_
    · rw [size_setContent, size_freshened hn, size_freshened hn]
    · rw [parent?_setContent, parent?_freshened hn, parent?_freshened hn]
    · rw [children_setContent, children_freshened hn, children_freshened hn]
    · rw [content?_setContent, content?_freshened hn, content?_freshened hn]
      split <;> simp
  · rw [setContent_setContent]

end Document

end DataBinding

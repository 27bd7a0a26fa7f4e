import DataBinding.Proofs.Document.ReplacedContent
import DataBinding.Proofs.Document.MovedChildren

/-!
# Links do not look at contents

`recast` changes the contents of all nodes of a document and leaves the links as they are.
Operations on links do not look at contents, so **it makes no difference whether contents are
changed before such an operation or after it** (`recast_appendAll`, `recast_restore`,
`recast_stage`, …).

The same goes for showing texts when only elements are changed (`recast_setText`,
`recast_setMarkup`), and for the change of one element that goes through the change of all
(`recast_modifyElement`).
-/

set_option autoImplicit false

namespace DataBinding

/-- Changes what is an element and leaves other contents alone. -/
def Content.onElement (f : Element → Element) : Content → Content
  | .element e => .element (f e)
  | c => c

theorem Content.sameSort_onElement (f : Element → Element) (c c' : Content) :
    (c.onElement f).sameSort c' = c.sameSort c' := by
  cases c <;> cases c' <;> rfl

namespace Document

/-- The document with its contents changed. -/
def recast (h : NodeId → Content → Content) (d : Document) : Document :=
  ⟨d.nodes.mapIdx fun i node ↦ { node with content := h i node.content }⟩

theorem climbsTo_congr {d e : Document} (h : ∀ k, d.parent? k = e.parent? k) (a : NodeId)
    (fuel : Nat) (x : NodeId) : d.climbsTo a fuel x = e.climbsTo a fuel x := by
  induction fuel generalizing x with
  | zero => rfl
  | succ fuel ih =>
    rw [climbsTo, climbsTo, h x]
    simp only [ih]

/-- Documents with the same nodes are the same. -/
theorem ext_of_node? {d e : Document} (h : ∀ i, d.node? i = e.node? i) : d = e := by
  cases d
  cases e
  exact congrArg Document.mk (Array.ext_getElem? h)

variable (h : NodeId → Content → Content) (d : Document)

/-! ## What is seen of it -/

@[simp] theorem size_recast : (d.recast h).nodes.size = d.nodes.size := Array.size_mapIdx

theorem node?_recast (i : NodeId) : (d.recast h).node? i =
    (d.node? i).map fun node ↦ { node with content := h i node.content } :=
  Array.getElem?_mapIdx

@[simp] theorem parent?_recast (i : NodeId) : (d.recast h).parent? i = d.parent? i := by
  rw [parent?, parent?, node?_recast]
  cases d.node? i <;> rfl

@[simp] theorem children_recast (i : NodeId) : (d.recast h).children i = d.children i := by
  rw [children_eq, children_eq, node?_recast]
  cases d.node? i <;> rfl

theorem content?_recast (i : NodeId) : (d.recast h).content? i = (d.content? i).map (h i) := by
  rw [content?, content?, node?_recast]
  cases d.node? i <;> rfl

@[simp] theorem isNone_node?_recast (i : NodeId) :
    ((d.recast h).node? i).isNone = (d.node? i).isNone := by
  rw [node?_recast, Option.isNone_map]

@[simp] theorem makesCycle_recast (parent child : NodeId) :
    (d.recast h).makesCycle parent child = d.makesCycle parent child := by
  rw [makesCycle, makesCycle, children_recast, isInclusiveAncestor, isInclusiveAncestor,
    climbsTo_congr (parent?_recast h d), size_recast]

/-! ## Operations on links -/

/-- Changes of a node that leave its content alone go through a change of contents. -/
theorem recast_modify {f : Node → Node}
    (hf : ∀ (node : Node) (k : Content → Content),
      f { node with content := k node.content } = { f node with content := k (f node).content })
    (i : NodeId) : (d.modify i f).recast h = (d.recast h).modify i f := by
  refine ext_of_node? fun j ↦ ?_
  rw [node?_recast, node?_modify, node?_modify, node?_recast]
  split
  · cases d.node? j with
    | none => rfl
    | some node => exact congrArg some (hf node (h j)).symm
  · rfl

theorem recast_push (c : Content) :
    (d.push c).2.recast h = ((d.recast h).push (h d.nodes.size c)).2 := by
  refine congrArg Document.mk ?_
  show (d.nodes.push _).mapIdx _ = (d.nodes.mapIdx _).push _
  rw [Array.mapIdx_push]

theorem recast_detach (i : NodeId) : (d.detach i).recast h = (d.recast h).detach i := by
  rw [detach, detach, parent?_recast]
  cases d.parent? i with
  | none => rfl
  | some p => rw [recast_modify _ _ fun _ _ ↦ rfl, recast_modify _ _ fun _ _ ↦ rfl]

theorem recast_append (parent child : NodeId) :
    (d.append parent child).recast h = (d.recast h).append parent child := by
  rw [append, append, isNone_node?_recast, isNone_node?_recast, makesCycle_recast]
  split
  · rfl
  · rw [recast_modify _ _ fun _ _ ↦ rfl, recast_modify _ _ fun _ _ ↦ rfl, recast_detach]

/-- **Moving nodes goes through a change of contents.** -/
theorem recast_appendAll (parent : NodeId) (cs : List NodeId) :
    (d.appendAll parent cs).recast h = (d.recast h).appendAll parent cs := by
  rw [appendAll, appendAll]
  induction cs generalizing d with
  | nil => rfl
  | cons c cs ih => rw [List.foldl_cons, List.foldl_cons, ih, recast_append]

theorem recast_restore (staged root : NodeId) :
    (d.restore staged root).recast h = (d.recast h).restore staged root := by
  rw [restore, restore, children_recast, recast_appendAll]

theorem recast_clearChildren (i : NodeId) :
    (d.clearChildren i).recast h = (d.recast h).clearChildren i := by
  rw [clearChildren, clearChildren, children_recast, ← recast_modify _ _ fun _ _ ↦ rfl]
  generalize d.modify i (fun node ↦ { node with children := [] }) = e
  induction d.children i generalizing e with
  | nil => rfl
  | cons c cs ih => rw [List.foldl_cons, List.foldl_cons, ih, recast_modify _ _ fun _ _ ↦ rfl]

theorem recast_setContent (i : NodeId) (c : Content) :
    (d.setContent i c).recast h = (d.recast h).setContent i (h i c) := by
  refine ext_of_node? fun j ↦ ?_
  rw [setContent, setContent, node?_recast, node?_modify, node?_modify, node?_recast]
  split
  · rename_i hj
    subst hj
    cases d.node? j <;> rfl
  · rfl

/-! ## Changes of elements -/

section Elements

variable (g : NodeId → Element → Element)

theorem element?_recast (i : NodeId) :
    (d.recast fun i ↦ Content.onElement (g i)).element? i = (d.element? i).map (g i) := by
  rw [element?, element?, content?_recast]
  cases d.content? i with
  | none => rfl
  | some c => cases c <;> rfl

theorem recast_stage (i : NodeId) : (d.stage i).2.recast (fun i ↦ Content.onElement (g i)) =
    ((d.recast fun i ↦ Content.onElement (g i)).stage i).2 := by
  show ((d.push .fragment).2.appendAll d.nodes.size ((d.push .fragment).2.children i)).recast _ =
    ((d.recast _).push .fragment).2.appendAll (d.recast _).nodes.size
      (((d.recast _).push .fragment).2.children i)
  rw [recast_appendAll, recast_push, children_push, children_push, children_recast, size_recast]
  rfl

/-- **A node is given a single child before as after**, if the child is no element. -/
theorem recast_replaceContent (n : NodeId) {c : Content} (hc : ∀ f, c.onElement f = c) :
    (d.replaceContent n c).recast (fun i ↦ Content.onElement (g i)) =
      (d.recast fun i ↦ Content.onElement (g i)).replaceContent n c := by
  have hspot : (d.recast fun i ↦ Content.onElement (g i)).spot n c = d.spot n c := by
    rw [spot, spot, children_recast, size_recast]
    simp only [content?_recast, Option.any_map, Content.sameSort_onElement]
  rw [replaceContent_eq, replaceContent_eq, hspot, size_recast]
  split
  · rw [freshened, freshened, recast_append, recast_push, recast_clearChildren, hc, size_recast]
  · rw [recast_setContent, hc]

theorem recast_setText (n : NodeId) (text : String) :
    (d.setText n text).recast (fun i ↦ Content.onElement (g i)) =
      (d.recast fun i ↦ Content.onElement (g i)).setText n text := by
  rw [setText, setText, content?_recast]
  cases d.content? n with
  | none => rfl
  | some c =>
    cases c with
    | text t => exact recast_setContent ..
    | raw t => rfl
    | _ => exact recast_replaceContent d g n fun _ ↦ rfl

theorem recast_setMarkup (n : NodeId) (markup : String) :
    (d.setMarkup n markup).recast (fun i ↦ Content.onElement (g i)) =
      (d.recast fun i ↦ Content.onElement (g i)).setMarkup n markup := by
  rw [setMarkup, setMarkup, content?_recast]
  cases d.content? n with
  | none => rfl
  | some c =>
    cases c with
    | text t => exact recast_setContent ..
    | raw t => exact recast_setContent ..
    | _ => exact recast_replaceContent d g n fun _ ↦ rfl

/-- **The change of one element**, where it goes through the change of all. -/
theorem recast_modifyElement {n : NodeId} {f f' : Element → Element}
    (hf : ∀ x, d.element? n = some x → g n (f x) = f' (g n x)) :
    (d.modifyElement n f).recast (fun i ↦ Content.onElement (g i)) =
      (d.recast fun i ↦ Content.onElement (g i)).modifyElement n f' := by
  rw [modifyElement, modifyElement, element?_recast]
  cases hx : d.element? n with
  | none => rfl
  | some x =>
    simp only [Option.map_some]
    rw [recast_setContent, Content.onElement, hf x hx]

end Elements

end Document

end DataBinding

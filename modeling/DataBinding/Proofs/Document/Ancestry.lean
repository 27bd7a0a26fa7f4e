import DataBinding.Proofs.Document.WalkTermination

/-!
# Up and down

Whether a node is above another one can be found out in two ways.  `isInclusiveAncestor` climbs from
the lower one along the links to parents; `descendants` walks down from the upper one along the
lists of children.  By climbing `append` refuses what would close a circle, and listeners are taken
away; by walking down nodes are selected and texts are read.

**In every document that comes from the empty one both ways agree**, and `append`, which does not
climb for a node without children, refuses what it would refuse if it did (`Becomes.kinship`).  This
is said of documents that single steps lead to, since `append` asks its question in the middle of
other operations.
-/

set_option autoImplicit false

namespace DataBinding.Document

variable {d : Document} {a n x : NodeId}

/-- A document that can be built comes from the empty one. -/
theorem Built.becomes (h : d.Built) : Document.empty.Becomes d := by
  induction h with
  | empty => exact .refl
  | parse h => exact .parse h
  | edit _ edit ih => exact ih.apply edit

/-! ## Both ways agree -/

/-- **Walking down from a node visits what is at or below it.** -/
theorem IsForest.mem_descendants_iff (hd : d.IsForest) :
    x ∈ d.descendants n ↔ n < d.nodes.size ∧ d.AtOrAbove n x := by
  obtain ⟨way, -, -, hmem, hway⟩ := hd.exists_walks n
  rw [hway, hmem]

/-- **Climbing from a node meets the nodes from which one walks down to it.** -/
theorem IsForest.isInclusiveAncestor_iff_mem_descendants (hd : d.IsForest) (ha : a < d.nodes.size) :
    d.isInclusiveAncestor a n = true ↔ n ∈ d.descendants a := by
  rw [hd.isInclusiveAncestor_iff, hd.mem_descendants_iff]
  exact (and_iff_right ha).symm

/-- **Nobody is above others without having children**, so `append` need not climb for such
nodes. -/
theorem IsForest.makesCycle_eq (hd : d.IsForest) (parent child : NodeId) :
    d.makesCycle parent child = d.isInclusiveAncestor child parent := by
  rw [Bool.eq_iff_iff, hd.makesCycle_iff, hd.isInclusiveAncestor_iff]

/-- **In every document that comes up, climbing and walking down agree** about each node that is
there, and whether appending would close a circle is answered as by climbing, for any numbers.
Neither answer is one of loops that were cut short: both come to an end, having met everything on
their ways. -/
theorem Becomes.kinship (h : Document.empty.Becomes d) :
    (∀ a < d.nodes.size, ∀ n, d.isInclusiveAncestor a n = true ↔ n ∈ d.descendants a) ∧
      (∀ parent child, d.makesCycle parent child = d.isInclusiveAncestor child parent) ∧
      ∀ a n, ∃ up down, d.Climbs n up ∧ d.Walks [a] down ∧
        (d.isInclusiveAncestor a n = true ↔ a ∈ up) ∧ d.descendants a = down := by
  have hd := h.isForest .empty
  refine ⟨fun a ha n ↦ hd.isInclusiveAncestor_iff_mem_descendants ha, hd.makesCycle_eq,
    fun a n ↦ ?_⟩
  obtain ⟨up, hup⟩ := hd.exists_climbs n
  obtain ⟨down, hdown, -, -, hvisit⟩ := hd.exists_walks a
  exact ⟨up, down, hup, hdown, hd.isInclusiveAncestor_iff.trans hup.mem_iff.symm, hvisit⟩

/-- A list of two items, the first one with a text. -/
def twoItems : String := "<ul><li>x</li><li></li></ul>"

/-- The list with its first item put into the second one. -/
def nestedItem : Document := ((parse twoItems).toOption.getD .empty).append 4 2

theorem kinship_nestedItem :
    Document.empty.Becomes nestedItem ∧ 4 < nestedItem.nodes.size ∧
      (nestedItem.isInclusiveAncestor 4 3 = true ↔ 3 ∈ nestedItem.descendants 4) ∧
      nestedItem.descendants 4 = [4, 2, 3] ∧ nestedItem.makesCycle 2 4 = true ∧
      nestedItem.makesCycle 4 3 = nestedItem.isInclusiveAncestor 3 4 ∧
      nestedItem.makesCycle 4 3 = false := by
  have hparse : parse twoItems = .ok ((parse twoItems).toOption.getD .empty) := by
    decide +kernel
  have hbecomes : Document.empty.Becomes nestedItem := (Becomes.parse hparse).append 4 2
  have hknown : 4 < nestedItem.nodes.size := by decide +kernel
  obtain ⟨hagree, hshort, -⟩ := hbecomes.kinship
  exact ⟨hbecomes, hknown, hagree 4 hknown 3, by decide +kernel, by decide +kernel, hshort 4 3,
    by decide +kernel⟩

end DataBinding.Document

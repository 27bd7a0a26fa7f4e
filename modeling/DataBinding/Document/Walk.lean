import DataBinding.Document.Basic

/-!
# Walking over a document

The nodes of a tree are visited in document order with an explicit list of the nodes that are still
to be visited, so that the depth of a tree costs nothing.  In a forest every node is taken from that
list once at most, which is why the number of nodes bounds the walk.
-/

set_option autoImplicit false

namespace DataBinding.Document

/-- Visits the pending nodes and what is below them, at most `fuel` nodes.  Numbers that no node has
are passed over. -/
def visit (d : Document) : Nat → List NodeId → List NodeId
  | _, [] => []
  | 0, _ :: _ => []
  | fuel + 1, id :: pending =>
    match d.node? id with
    | none => d.visit fuel pending
    | some node => id :: d.visit fuel (node.children ++ pending)

/-- A node and everything below it, in document order. -/
def descendants (d : Document) (id : NodeId) : List NodeId := d.visit (d.nodes.size + 1) [id]

/-- The texts of a node and of everything below it, raw markup included as it is written. -/
def textContent (d : Document) (id : NodeId) : String :=
  String.join <| (d.descendants id).map fun node ↦
    match d.content? node with
    | some (.text t) => t
    | some (.raw markup) => markup
    | _ => ""

end DataBinding.Document

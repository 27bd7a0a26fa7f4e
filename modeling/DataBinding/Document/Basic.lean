import DataBinding.Document.Node

/-!
# Documents

A `Document` is an array of nodes, of which node 0 is the document itself.  The number of a node is
its place in the array, and stays valid for ever.

Two kinds of links tie the nodes together, from a child up to its parent and from a parent down to
its children, and every operation here changes both in step.  `append` refuses to put a node below
itself; together with the links being kept in step this is what makes the nodes a forest.

Every operation takes any number for a node; on a number that no node has it does nothing.
-/

set_option autoImplicit false

namespace DataBinding

/-- All nodes that were ever made, linked into trees. -/
structure Document where
  nodes : Array Node
  deriving DecidableEq, Repr

namespace Document

/-- The document with nothing in it. -/
def empty : Document := ⟨#[⟨none, [], .document⟩]⟩

instance : Inhabited Document := ⟨empty⟩

/-- The node that is the document itself. -/
def root : NodeId := 0

/-! ## Looking at a node -/

/-- The node with the given number. -/
def node? (d : Document) (id : NodeId) : Option Node := d.nodes[id]?

/-- The content of a node. -/
def content? (d : Document) (id : NodeId) : Option Content := (d.node? id).map Node.content

/-- The element a node is, if it is one. -/
def element? (d : Document) (id : NodeId) : Option Element :=
  match d.content? id with
  | some (.element e) => some e
  | _ => none

/-- The text a node is, and nothing for a node that is no text. -/
def textOf (d : Document) (id : NodeId) : String :=
  match d.content? id with
  | some (.text t) => t
  | _ => ""

/-- The children of a node, in order. -/
def children (d : Document) (id : NodeId) : List NodeId :=
  match d.node? id with
  | some node => node.children
  | none => []

/-- The parent of a node. -/
def parent? (d : Document) (id : NodeId) : Option NodeId := (d.node? id).bind Node.parent

/-- The attributes of a node, none if it is no element. -/
def attributes (d : Document) (id : NodeId) : List (String × String) :=
  match d.element? id with
  | some e => e.attributes
  | none => []

/-- The value of an attribute of a node. -/
def attribute? (d : Document) (id : NodeId) (name : String) : Option String :=
  (d.element? id).bind fun e ↦ e.attribute? name

/-- The value a form control holds. -/
def control? (d : Document) (id : NodeId) : Option String :=
  (d.element? id).bind Element.control

/-- Climbs from a node towards the root of its tree until it meets `ancestor`; `fuel` bounds the
number of nodes on the way. -/
def climbsTo (d : Document) (ancestor : NodeId) : Nat → NodeId → Bool
  | 0, _ => false
  | fuel + 1, id =>
    if id = ancestor then true
    else match d.parent? id with
      | none => false
      | some parent => d.climbsTo ancestor fuel parent

/-- Whether the first node is the second one or above it. -/
def isInclusiveAncestor (d : Document) (ancestor id : NodeId) : Bool :=
  d.climbsTo ancestor (d.nodes.size + 1) id

/-! ## Changing links -/

/-- Changes one node. -/
def modify (d : Document) (id : NodeId) (f : Node → Node) : Document := ⟨d.nodes.modify id f⟩

/-- Changes the content of one node. -/
def setContent (d : Document) (id : NodeId) (content : Content) : Document :=
  d.modify id fun node ↦ { node with content := content }

/-- Makes a node that stands alone and gives its number. -/
def push (d : Document) (content : Content) : NodeId × Document :=
  (d.nodes.size, ⟨d.nodes.push ⟨none, [], content⟩⟩)

/-- Unlinks a node from its parent. -/
def detach (d : Document) (id : NodeId) : Document :=
  match d.parent? id with
  | none => d
  | some parent =>
    (d.modify id fun node ↦ { node with parent := none }).modify parent fun node ↦
      { node with children := node.children.filter (· != id) }

/-- Whether making `child` a child of `parent` would put it below itself.  A node without children
can only be below itself by being its own parent. -/
def makesCycle (d : Document) (parent child : NodeId) : Bool :=
  if (d.children child).isEmpty then child == parent else d.isInclusiveAncestor child parent

/-- Makes a node the last child of another one, away from its former parent. -/
def append (d : Document) (parent child : NodeId) : Document :=
  if (d.node? child).isNone || (d.node? parent).isNone || d.makesCycle parent child then d
  else
    ((d.detach child).modify child fun node ↦ { node with parent := some parent }).modify parent
      fun node ↦ { node with children := node.children ++ [child] }

/-- Appends several nodes in turn. -/
def appendAll (d : Document) (parent : NodeId) (children : List NodeId) : Document :=
  children.foldl (fun d child ↦ d.append parent child) d

/-- Unlinks all children of a node. -/
def clearChildren (d : Document) (id : NodeId) : Document :=
  (d.children id).foldl (fun d child ↦ d.modify child fun node ↦ { node with parent := none })
    (d.modify id fun node ↦ { node with children := [] })

/-- Gives a node a single child with the given content.  A lone child of the same sort is changed in
place, so that showing a binding again makes no new node. -/
def replaceContent (d : Document) (id : NodeId) (content : Content) : Document :=
  let fresh := fun (_ : Unit) ↦
    let (child, d) := (d.clearChildren id).push content
    d.append id child
  match d.children id with
  | [only] =>
    match d.content? only with
    | some old => if old.sameSort content then d.setContent only content else fresh ()
    | none => fresh ()
  | _ => fresh ()

end Document

end DataBinding

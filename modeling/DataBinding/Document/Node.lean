import DataBinding.Text.Blank

/-!
# Nodes of a document

A document is a collection of numbered nodes.  A node has a content — it is the document itself, a
fragment used to hold nodes aside, an element, a text, or markup to be shown as it stands — and
links to its parent and its children.  Nodes are never taken away: what is unlinked keeps its
number.

Here are the contents and their attributes; the links are the business of `Document`.
-/

set_option autoImplicit false

namespace DataBinding

/-- The number of a node. -/
abbrev NodeId := Nat

/-- An element: its tag, its attributes in document order, and the value that a form control holds
at the moment, which markup does not show. -/
structure Element where
  tag : String
  attributes : List (String × String)
  control : Option String
  deriving DecidableEq, Repr

namespace Element

/-- An element without attributes. -/
def ofTag (tag : String) : Element := ⟨tag, [], none⟩

/-- The value of an attribute. -/
def attribute? (e : Element) (name : String) : Option String := e.attributes.lookup name

/-- A list of attributes with one of them set, in its place if it is there already and at the end if
not. -/
def putAttribute (name value : String) : List (String × String) → List (String × String)
  | [] => [(name, value)]
  | (k, v) :: rest =>
    if k == name then (k, value) :: rest else (k, v) :: putAttribute name value rest

/-- Sets an attribute. -/
def setAttribute (e : Element) (name value : String) : Element :=
  { e with attributes := putAttribute name value e.attributes }

/-- Takes an attribute away. -/
def removeAttribute (e : Element) (name : String) : Element :=
  { e with attributes := e.attributes.filter fun (k, _) ↦ k != name }

/-- The words of the `class` attribute. -/
def classes (e : Element) : List String :=
  (Text.words ((e.attribute? "class").getD "").toList).map String.ofList

end Element

/-- What a node is. -/
inductive Content where
  | document
  /-- Holds nodes that are set aside. -/
  | fragment
  | element (e : Element)
  | text (t : String)
  /-- Markup that is shown as it stands. -/
  | raw (markup : String)
  deriving DecidableEq, Repr

namespace Content

/-- Whether two contents are of the same sort. -/
def sameSort : Content → Content → Bool
  | .document, .document => true
  | .fragment, .fragment => true
  | .element _, .element _ => true
  | .text _, .text _ => true
  | .raw _, .raw _ => true
  | _, _ => false

end Content

/-- A node with its links. -/
structure Node where
  parent : Option NodeId
  children : List NodeId
  content : Content
  deriving DecidableEq, Repr

end DataBinding

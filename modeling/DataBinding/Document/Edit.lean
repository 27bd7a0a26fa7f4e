import DataBinding.Document.Basic

/-!
# Editing a document

`Edit` lists everything that may be done to a document, as data.  Running code can ask for these
edits and for no others, so a fact that each of them preserves is a fact about every document there
can be.

Edits that do not fit the node they are meant for — a control value on a text, say — do nothing.
-/

set_option autoImplicit false

namespace DataBinding

/-- Something to be done to a document. -/
inductive Edit where
  | createElement (tag : String)
  | createText (text : String)
  | createFragment
  | append (parent child : NodeId)
  | detach (id : NodeId)
  | setText (id : NodeId) (text : String)
  | setMarkup (id : NodeId) (markup : String)
  | setControl (id : NodeId) (value : String)
  | setAttribute (id : NodeId) (name value : String)
  | removeAttribute (id : NodeId) (name : String)
  /-- Moves the children of a node into a new fragment. -/
  | stage (id : NodeId)
  /-- Moves the children of the first node to the end of the second one's. -/
  | restore (staged id : NodeId)
  deriving DecidableEq, Repr

namespace Document

/-- Makes a text of a text node, and the only content of an element, a fragment or the document.  On
raw markup it does nothing. -/
def setText (d : Document) (id : NodeId) (text : String) : Document :=
  match d.content? id with
  | some (.text _) => d.setContent id (.text text)
  | some (.element _) | some .fragment | some .document => d.replaceContent id (.text text)
  | _ => d

/-- Makes raw markup of a text or of raw markup, and the only content of an element, a fragment or
the document. -/
def setMarkup (d : Document) (id : NodeId) (markup : String) : Document :=
  match d.content? id with
  | some (.text _) | some (.raw _) => d.setContent id (.raw markup)
  | some _ => d.replaceContent id (.raw markup)
  | none => d

/-- Changes an element; other nodes stay as they are. -/
def modifyElement (d : Document) (id : NodeId) (f : Element → Element) : Document :=
  match d.element? id with
  | some e => d.setContent id (.element (f e))
  | none => d

/-- Sets the value a form control holds. -/
def setControl (d : Document) (id : NodeId) (value : String) : Document :=
  d.modifyElement id fun e ↦ { e with control := some value }

/-- Sets an attribute of an element. -/
def setAttribute (d : Document) (id : NodeId) (name value : String) : Document :=
  d.modifyElement id fun e ↦ e.setAttribute name value

/-- Takes an attribute of an element away. -/
def removeAttribute (d : Document) (id : NodeId) (name : String) : Document :=
  d.modifyElement id fun e ↦ e.removeAttribute name

/-- Moves the children of a node into a new fragment, and gives its number. -/
def stage (d : Document) (id : NodeId) : NodeId × Document :=
  let (fragment, d) := d.push .fragment
  (fragment, d.appendAll fragment (d.children id))

/-- Moves the children of one node to the end of another one's. -/
def restore (d : Document) (staged id : NodeId) : Document := d.appendAll id (d.children staged)

/-- Does an edit.  A node that an edit makes has the number that was the count of nodes before. -/
def apply (d : Document) : Edit → Document
  | .createElement tag => (d.push (.element (Element.ofTag (Text.lower tag)))).2
  | .createText text => (d.push (.text text)).2
  | .createFragment => (d.push .fragment).2
  | .append parent child => d.append parent child
  | .detach id => d.detach id
  | .setText id text => d.setText id text
  | .setMarkup id markup => d.setMarkup id markup
  | .setControl id value => d.setControl id value
  | .setAttribute id name value => d.setAttribute id name value
  | .removeAttribute id name => d.removeAttribute id name
  | .stage id => (d.stage id).2
  | .restore staged id => d.restore staged id

end Document

end DataBinding

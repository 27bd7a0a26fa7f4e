import DataBinding.Document.Walk
import DataBinding.Text.Alphanumeric

/-!
# Selectors

A selector is one simple condition on an element: its identifier, one of its classes, or its tag.
-/

set_option autoImplicit false

namespace DataBinding

/-- A condition on an element. -/
inductive Selector where
  | id (name : String)
  | className (name : String)
  | tag (name : String)
  deriving DecidableEq, Repr

namespace Selector

/-- Whether a text may be a name in a selector: letters, digits, hyphens and underscores, one at
least. -/
def isName (s : List Char) : Bool :=
  !s.isEmpty && s.all fun c ↦ Text.isAlphanumeric c || c == '-' || c == '_'

/-- Reads a selector, blanks around it not counting. -/
def ofString? (text : String) : Option Selector :=
  match Text.trimChars text.toList with
  | '#' :: name => if isName name then some (.id (String.ofList name)) else none
  | '.' :: name => if isName name then some (.className (String.ofList name)) else none
  | name => if isName name then some (.tag (Text.lower (String.ofList name))) else none

/-- Whether an element meets the condition. -/
def holdsOf (selector : Selector) (e : Element) : Bool :=
  match selector with
  | .id name => e.attribute? "id" == some name
  | .className name => e.classes.contains name
  | .tag name => e.tag == name

end Selector

namespace Document

/-- The elements at and below a node that meet a selector, in document order.  A text that is no
selector selects nothing. -/
def selectAll (d : Document) (start : NodeId) (selector : String) : List NodeId :=
  match Selector.ofString? selector with
  | none => []
  | some selector => (d.descendants start).filter fun id ↦ (d.element? id).any selector.holdsOf

/-- The first element at or below a node that meets a selector. -/
def select? (d : Document) (start : NodeId) (selector : String) : Option NodeId :=
  (d.selectAll start selector).head?

end Document

end DataBinding

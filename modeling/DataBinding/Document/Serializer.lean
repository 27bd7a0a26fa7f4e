import DataBinding.Document.Basic

/-!
# A document as markup

Texts and attribute values are escaped, raw markup is written as it stands, and an attribute with an
empty value is written by its name alone.  The void elements have neither content nor a closing tag.

The writer keeps a list of what is still to be written, nodes and closing tags, so that the depth of
a tree costs nothing.  In a forest every node is entered once and closed once at most.
-/

set_option autoImplicit false

namespace DataBinding

namespace Markup

/-- The elements without content and closing tag. -/
def voidTags : List String :=
  ["area", "base", "br", "col", "embed", "hr", "img", "input", "link", "meta", "source", "track",
   "wbr"]

/-- Whether a tag is one of the void elements. -/
def isVoid (tag : String) : Bool := voidTags.contains tag

/-- A character as it stands in text. -/
def escapeTextChar (c : Char) : List Char :=
  if c = '&' then ['&', 'a', 'm', 'p', ';']
  else if c = '<' then ['&', 'l', 't', ';']
  else if c = '>' then ['&', 'g', 't', ';']
  else [c]

/-- A character as it stands in an attribute value. -/
def escapeValueChar (c : Char) : List Char :=
  if c = '"' then ['&', 'q', 'u', 'o', 't', ';'] else escapeTextChar c

/-- A text, escaped. -/
def escapeText (s : String) : List Char := s.toList.flatMap escapeTextChar

/-- An attribute value, escaped. -/
def escapeValue (s : String) : List Char := s.toList.flatMap escapeValueChar

/-- An attribute with the blank before it. -/
def writeAttribute (a : String × String) : List Char :=
  ' ' :: (a.1.toList ++
    if a.2.isEmpty then [] else ['=', '"'] ++ escapeValue a.2 ++ ['"'])

/-- The opening tag of an element. -/
def openTag (e : Element) : List Char :=
  '<' :: (e.tag.toList ++ e.attributes.flatMap writeAttribute ++ ['>'])

/-- The closing tag of an element. -/
def closeTag (tag : String) : List Char := ['<', '/'] ++ tag.toList ++ ['>']

end Markup

namespace Document

/-- What is still to be written. -/
inductive Pending where
  | enter (id : NodeId)
  | close (tag : String)
  deriving DecidableEq, Repr

/-- Writes what is pending, in at most `fuel` steps. -/
def writePending (d : Document) : Nat → List Pending → List Char
  | _, [] => []
  | 0, _ :: _ => []
  | fuel + 1, .close tag :: pending => Markup.closeTag tag ++ d.writePending fuel pending
  | fuel + 1, .enter id :: pending =>
    match d.node? id with
    | none => d.writePending fuel pending
    | some node =>
      match node.content with
      | .document | .fragment =>
        d.writePending fuel (node.children.map .enter ++ pending)
      | .text t => Markup.escapeText t ++ d.writePending fuel pending
      | .raw markup => markup.toList ++ d.writePending fuel pending
      | .element e =>
        Markup.openTag e ++
          if Markup.isVoid e.tag then d.writePending fuel pending
          else d.writePending fuel (node.children.map .enter ++ .close e.tag :: pending)

/-- How many steps writing takes at most: every node is entered once and closed once. -/
def writeFuel (d : Document) : Nat := 2 * d.nodes.size + 1

/-- The markup of a node with its own tag. -/
def outerMarkup (d : Document) (id : NodeId) : String :=
  String.ofList (d.writePending d.writeFuel [.enter id])

/-- The markup of the children of a node. -/
def innerMarkup (d : Document) (id : NodeId) : String :=
  String.ofList ((d.children id).flatMap fun child ↦ d.writePending d.writeFuel [.enter child])

end Document

end DataBinding

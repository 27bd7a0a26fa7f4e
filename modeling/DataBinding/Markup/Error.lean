/-!
# What can be wrong with markup

Every error says where it was found, as the number of bytes before that point.
-/

set_option autoImplicit false

namespace DataBinding

/-- The part of markup that an input can end inside of. -/
inductive Construct where
  | element
  | comment
  | declaration
  | closingTag
  | tag
  | attributeValue
  deriving DecidableEq, Repr

/-- The name of a construct. -/
def Construct.name : Construct → String
  | .element => "element"
  | .comment => "comment"
  | .declaration => "declaration"
  | .closingTag => "closing tag"
  | .tag => "tag"
  | .attributeValue => "attribute value"

/-- Why markup was refused. -/
inductive MarkupError where
  /-- The input ended inside a construct. -/
  | unexpectedEnd (offset : Nat) (inside : Construct)
  /-- A closing tag while no element was open. -/
  | unexpectedClose (tag : String) (offset : Nat)
  /-- A closing tag for another element than the innermost open one. -/
  | mismatchedClose (expected found : String) (offset : Nat)
  /-- Something else where a name, or the end of a tag, was expected. -/
  | invalidName (offset : Nat)
  deriving DecidableEq, Repr

/-- The text of the error. -/
def MarkupError.message : MarkupError → String
  | .unexpectedEnd offset inside =>
    "unexpected end of input at byte " ++ offset.repr ++ " inside " ++ inside.name
  | .unexpectedClose tag offset =>
    "closing tag `</" ++ tag ++ ">` at byte " ++ offset.repr ++ " has no open element"
  | .mismatchedClose expected found offset =>
    "closing tag `</" ++ found ++ ">` at byte " ++ offset.repr ++ " does not match `<" ++
      expected ++ ">`"
  | .invalidName offset => "invalid tag name at byte " ++ offset.repr

end DataBinding

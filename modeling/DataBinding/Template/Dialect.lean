import DataBinding.State.Value
import DataBinding.Text.Blank

/-!
# Recognising the attributes of a template

Some attributes of a template are instructions and not attributes of the document.  Two prefixes
tell them: one for directives, `bind-text` or `bind-attr:href`, and one for events, `@click`.  The
prefixes of a `Dialect` are chosen so that no attribute can start with both.
-/

set_option autoImplicit false

namespace DataBinding

/-- Why a binding could not be made, or why an event failed. -/
inductive BindError where
  | state (e : StateError)
  /-- No directive of this name is known. -/
  | unknownDirective (name : String)
  /-- The directive needs a detail after a colon. -/
  | missingArgument (directive : String)
  /-- There is no method of this name. -/
  | missingHandler (name : String)
  /-- The two prefixes could not be told apart. -/
  | ambiguousPrefixes (directive event : String)
  deriving DecidableEq, Repr

/-- The text of the error. -/
def BindError.message : BindError → String
  | .state e => e.message
  | .unknownDirective name => "unknown directive `" ++ name ++ "`"
  | .missingArgument directive =>
    "directive `" ++ directive ++ "` requires an argument (`" ++ directive ++ ":<name>`)"
  | .missingHandler name => "no method named `" ++ name ++ "`"
  | .ambiguousPrefixes directive event =>
    "ambiguous directive syntax: `" ++ directive ++ "` and `" ++ event ++ "`"

/-- An instruction among the attributes, in its parts. -/
inductive Marker where
  | directive (kind : String) (detail : Option String)
  | event (name : String)
  deriving DecidableEq, Repr

/-- The prefixes by which directives and events are recognised. -/
structure Dialect where
  directive : String
  event : String
  deriving DecidableEq, Repr

namespace Dialect

/-- The usual prefixes. -/
def standard : Dialect := ⟨"bind-", "@"⟩

/-- Whether a text starts with another one. -/
def startsWith (text start : String) : Bool := (Text.dropStart? start.toList text.toList).isSome

/-- The dialect with these prefixes.  An empty prefix, or one that the other one starts with, is
refused. -/
def ofPrefixes (directive event : String) : Except BindError Dialect :=
  if directive.isEmpty || event.isEmpty || startsWith directive event || startsWith event directive
  then .error (.ambiguousPrefixes directive event)
  else .ok ⟨directive, event⟩

/-- A directive without its prefix, cut at its first colon.  An empty detail is no detail. -/
def directiveOf (rest : List Char) : Marker :=
  let kind := String.ofList (rest.takeWhile (· != ':'))
  match rest.dropWhile (· != ':') with
  | [] => .directive kind none
  | [_] => .directive kind none
  | _ :: detail => .directive kind (some (String.ofList detail))

/-- What an attribute name says, if it is an instruction. -/
def classify (d : Dialect) (name : String) : Option Marker :=
  match Text.dropStart? d.directive.toList name.toList with
  | some rest => some (directiveOf rest)
  | none => (Text.dropStart? d.event.toList name.toList).map fun rest ↦ .event (String.ofList rest)

end Dialect

end DataBinding

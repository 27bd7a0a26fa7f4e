import DataBinding.Document.Edit
import DataBinding.State.Interpolation
import DataBinding.Template.Dialect

/-!
# Directives

A directive asks for bindings between state and the node it stands on.  What it asks for is data: a
handler turns a directive into a list of `Binding`s and touches nothing itself, and the compiler
makes the bindings in order.  A table says which handler serves which kind of directive, and may be
extended.

The five standard kinds are

* `text` — the text of the node follows the value of an expression, or a template;
* `markup` — the raw markup in the node follows the value of an expression;
* `value` — the control value follows an expression, and what the user enters is written back;
* `attr:name` — the attribute gets the expression itself as its value, once;
* `on:event` — the event calls the method the expression names.
-/

set_option autoImplicit false

namespace DataBinding

/-- A place on a node that shows a text. -/
inductive Slot where
  | text
  | markup
  | control
  | attribute (name : String)
  deriving DecidableEq, Repr

/-- The edit that shows a text in a slot of a node. -/
def Slot.edit (slot : Slot) (node : NodeId) (text : String) : Edit :=
  match slot with
  | .text => .setText node text
  | .markup => .setMarkup node text
  | .control => .setControl node text
  | .attribute name => .setAttribute node name text

/-- Something that a directive asks for. -/
inductive Binding where
  /-- Show a text once. -/
  | fixed (slot : Slot) (text : String)
  /-- Keep a slot equal to the value of an expression. -/
  | live (slot : Slot) (expr : String)
  /-- Keep the text of the node equal to a template. -/
  | template (text : String)
  /-- Write what the user enters to a path. -/
  | writeBack (expr : String)
  /-- Call a method when an event fires. -/
  | listen (event method : String)
  /-- Call a method at once, with an event of this name and value. -/
  | call (method event value : String)
  /-- Refuse the directive. -/
  | refuse (e : BindError)
  deriving DecidableEq, Repr

/-- One occurrence of a directive: the value of its attribute, and the detail after the colon. -/
structure Directive where
  expr : String
  detail : Option String
  deriving DecidableEq, Repr

/-- What a kind of directive asks for. -/
abbrev DirectiveHandler := Directive → List Binding

/-- The event that a change of a control by the user fires. -/
def inputEvent : String := "input"

namespace DirectiveHandler

/-- The handler of `text`. -/
def text : DirectiveHandler := fun d ↦
  if Template.hasExpression d.expr then [.template d.expr] else [.live .text d.expr]

/-- The handler of `markup`. -/
def markup : DirectiveHandler := fun d ↦ [.live .markup d.expr]

/-- The handler of `value`. -/
def value : DirectiveHandler := fun d ↦ [.live .control d.expr, .writeBack (Text.trim d.expr)]

/-- The handler of `attr`. -/
def attr : DirectiveHandler := fun d ↦
  match d.detail with
  | some name => [.fixed (.attribute name) d.expr]
  | none => [.refuse (.missingArgument "attr")]

/-- The handler of `on`. -/
def on : DirectiveHandler := fun d ↦
  match d.detail with
  | some event => [.listen event (Text.trim d.expr)]
  | none => [.refuse (.missingArgument "on")]

end DirectiveHandler

/-- Kinds of directives and their handlers, each kind once. -/
abbrev DirectiveTable := List (String × DirectiveHandler)

namespace DirectiveTable

/-- The table of the five standard kinds. -/
def standard : DirectiveTable :=
  [("text", .text), ("markup", .markup), ("value", .value), ("attr", .attr), ("on", .on)]

/-- Adds a handler or replaces the one of the same kind; says whether there was one. -/
def register (t : DirectiveTable) (kind : String) (handler : DirectiveHandler) :
    Bool × DirectiveTable :=
  if (t.lookup kind).isSome then
    (true, t.map fun (k, h) ↦ if k == kind then (k, handler) else (k, h))
  else (false, t ++ [(kind, handler)])

/-- The kinds in ascending order. -/
def kinds (t : DirectiveTable) : List String :=
  (t.map Prod.fst).mergeSort fun a b ↦ decide (a ≤ b)

end DirectiveTable

end DataBinding

import DataBinding.Engine.Scene
import DataBinding.State.Snapshot
import DataBinding.Text.Quoted
import DataBinding.ViewModel.Configuration

/-!
# Diagnostic texts

How the things of the library show themselves to a developer: a record by its name and its fields
between braces, a text quoted, a number always positionally.  A record that does not show all it has
ends in two points.
-/

set_option autoImplicit false

namespace DataBinding

namespace Diagnostic

/-- Parts between commas. -/
def commas (parts : List String) : String := String.intercalate ", " parts

/-- The fields of a record, and two points if there are more than are shown. -/
def record (name : String) (fields : List (String × String)) (more : Bool) : String :=
  let shown := fields.map fun (field, text) ↦ field ++ ": " ++ text
  name ++ " \x7b " ++ commas (if more then shown ++ [".."] else shown) ++ " \x7d"

/-- A thing with one part. -/
def wrapped (name part : String) : String := name ++ "(" ++ part ++ ")"

/-- Something that may be missing. -/
def optional (part : Option String) : String :=
  match part with
  | none => "None"
  | some part => wrapped "Some" part

/-- A truth value. -/
def truth (b : Bool) : String := if b then "true" else "false"

/-- A node by its number. -/
def node (id : NodeId) : String := wrapped "NodeId" id.repr

/-- A value; an object shows its snapshot. -/
def value (s : Store) : Value → String
  | .null => "Null"
  | .bool b => wrapped "Bool" (truth b)
  | .number x => wrapped "Number" (Layout.diagnostic.write x)
  | .string t => wrapped "String" (Text.quote t)
  | .object o => wrapped "Object" (s.snapshot (.object o)).text

/-- The name of a kind of object. -/
def objectKind : ObjectKind → String
  | .map => "Map"
  | .array => "Array"

/-- An object by its kind and its keys. -/
def object (o : Object) : String :=
  record "Object" [("kind", objectKind o.kind), ("keys", Text.quoteList o.keys)] false

/-- A scope by the number of its watchers. -/
def scope (watchers : List SubscriberId) : String :=
  record "BindingScope" [("binding_count", watchers.length.repr)] false

/-- A list of subscribers by the number of the live ones. -/
def subscribers (count : Nat) : String := record "Dep" [("subscriber_count", count.repr)] false

/-- A document by the numbers of its nodes and listeners. -/
def document (nodes listeners : Nat) : String :=
  record "Dom" [("nodes", nodes.repr), ("listeners", listeners.repr)] false

/-- A dialect by its prefixes. -/
def dialect (d : Dialect) : String :=
  record "Syntax"
    [("directive_prefix", Text.quote d.directive), ("event_prefix", Text.quote d.event)] false

/-- What templates are compiled with. -/
def compiler (d : Dialect) (t : DirectiveTable) : String :=
  record "Compiler"
    [("syntax", dialect d),
     ("table", record "DirectiveTable" [("kinds", Text.quoteList t.kinds)] false)] true

/-- A view-model by its root, the keys of its state and the number of its bindings. -/
def viewModel (s : Store) (v : ViewModel) : String :=
  record "ViewModel"
    [("root", optional (v.root.map node)),
     ("keys", Text.quoteList ((s.object? v.state).elim [] Object.keys)),
     ("bindings", v.compiled.scope.length.repr)] true

mutual

/-- A piece of plain data. -/
def json : Json → String
  | .null => "Null"
  | .bool b => wrapped "Bool" (truth b)
  | .int n => wrapped "Number" (Json.int n).text
  | .float x => wrapped "Number" (Json.float x).text
  | .string t => wrapped "String" (Text.quote t)
  | .array items => "Array [" ++ commas (jsonItems items) ++ "]"
  | .object members => "Object \x7b" ++ commas (jsonMembers members) ++ "\x7d"

/-- The items of a list. -/
def jsonItems : List Json → List String
  | [] => []
  | item :: rest => json item :: jsonItems rest

/-- The members of an object, each with its quoted name. -/
def jsonMembers : List (String × Json) → List String
  | [] => []
  | (name, item) :: rest => (Text.quote name ++ ": " ++ json item) :: jsonMembers rest

end

/-- The place a view-model is attached to. -/
def attachTarget : AttachTarget → String
  | .selector text => wrapped "Selector" (Text.quote text)
  | .node id => wrapped "Node" (node id)

/-- The options of a view-model. -/
def options (o : ViewModelOptions) : String :=
  record "Options"
    [("attach", optional (o.attach.map attachTarget)),
     ("state", json o.state),
     ("methods", Text.quoteList o.methods),
     ("syntax", dialect o.dialect)] false

end Diagnostic

end DataBinding

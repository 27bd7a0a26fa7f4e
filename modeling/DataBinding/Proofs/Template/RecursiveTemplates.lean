import DataBinding.Proofs.Document.Tree
import DataBinding.Proofs.Template.CompilationErrands

/-!
# A template by recursion

A compilation takes nodes from a list of what is pending and edits the document while it goes over
it.  Here the same is said by recursion on the tree that a template is, without a document: `ofTree`
gives the tree that the template becomes, and keeps a `Ledger` of the watchers and listeners that
are made on the way and of what is counted.

* The node comes before its children, and attributes come in order.
* A marker makes what its directive says, and is not among the attributes of the tree that results.
* The children of an element are left out if a directive owns its content, which is then one node.
* The first error is the result.
-/

set_option autoImplicit false

namespace DataBinding

/-- What is done when an event fires that a template listens to. -/
inductive Answer where
  /-- A method is called. -/
  | method (name : String)
  /-- What the user has entered is written to a path. -/
  | write (path : String)
  deriving DecidableEq, Repr

/-- What a template asks for, in the order in which it is made. -/
structure Ledger where
  /-- For each watcher the bond it serves and the expression it watches. -/
  watchers : List (Bond × String)
  /-- For each listener its node, its event and what it does. -/
  listeners : List (NodeId × String × Answer)
  stats : CompileStats

/-- The ledger of a template that has not been begun. -/
def Ledger.empty : Ledger := ⟨[], [], .zero⟩

/-- A step by recursion, which may end with an error. -/
abbrev Recursive (α : Type) : Type := StateT Ledger (Except BindError) α

/-- An element while its directives are dealt with, and what is below it. -/
structure Draft where
  element : Element
  content : List (Tree Content)

/-- What is below a node once its content is shown in one node.  A lone node of the same sort stays,
with what is below it in turn. -/
def Tree.lone (c : Content) : List (Tree Content) → List (Tree Content)
  | [.node c' ts] => [.node c (if c'.sameSort c then ts else [])]
  | _ => [.node c []]

/-- An element without the attributes that are markers. -/
def Dialect.plain (dialect : Dialect) (e : Element) : Element :=
  { e with attributes := e.attributes.filter fun a ↦ (dialect.classify a.1).isNone }

namespace Recursive

variable {α : Type}

/-- Ends with an error. -/
def refuse (e : BindError) : Recursive α := throw e

/-- Looks something up in the state. -/
def ask (r : Except StateError α) : Recursive α := StateT.lift (r.mapError BindError.state)

/-- Changes what has been counted. -/
def count (f : CompileStats → CompileStats) : Recursive Unit :=
  modify fun l ↦ { l with stats := f l.stats }

/-- Makes a watcher. -/
def watch (b : Bond) (expr : String) : Recursive Unit :=
  modify fun l ↦ { l with watchers := l.watchers ++ [(b, expr)] }

/-- Makes a listener. -/
def listen (n : NodeId) (event : String) (answer : Answer) : Recursive Unit :=
  modify fun l ↦ { l with listeners := l.listeners ++ [(n, event, answer)] }

variable (s : Store) (state : Value)

/-- Makes a bond, and gives its text. -/
def bond (b : Bond) : Recursive String := do
  let text ← ask (b.text s state)
  b.exprs.forM (watch b)
  return text

/-- Deals with a standard directive.  `unknown` is the name to complain about. -/
def ofDirective (n : NodeId) (unknown kind : String) (d : Directive) (x : Draft) :
    Recursive Draft :=
  match kind with
  | "text" => do
    let text ← bond s state
      (if Template.hasExpression d.expr then .template n d.expr else .value n .text d.expr)
    return { x with content := Tree.lone (.text text) x.content }
  | "markup" => do
    let markup ← bond s state (.value n .markup d.expr)
    return { x with content := Tree.lone (.raw markup) x.content }
  | "value" => do
    let text ← bond s state (.value n .control d.expr)
    listen n inputEvent (.write (Text.trim d.expr))
    return { x with element := { x.element with control := some text } }
  | "attr" =>
    match d.detail with
    | some name => return { x with element := x.element.setAttribute name d.expr }
    | none => refuse (.missingArgument "attr")
  | "on" =>
    match d.detail with
    | some event => do
      listen n event (.method (Text.trim d.expr))
      return x
    | none => refuse (.missingArgument "on")
  | _ => refuse (.unknownDirective unknown)

variable (dialect : Dialect)

/-- Deals with an attribute. -/
def ofAttribute (n : NodeId) (x : Draft) (a : String × String) : Recursive Draft :=
  match dialect.classify a.1 with
  | none => return x
  | some (.directive kind detail) => do
    let x ← ofDirective s state n a.1 kind ⟨a.2, detail⟩ x
    count fun s ↦ { s with directives := s.directives + 1 }
    return x
  | some (.event event) => do
    let x ← ofDirective s state n a.1 "on" ⟨a.2, if event.isEmpty then none else some event⟩ x
    count fun s ↦ { s with events := s.events + 1 }
    return x

/-- What an element becomes, below which there are the given trees. -/
def ofElement (n : NodeId) (e : Element) (content : List (Tree Content)) :
    Recursive Draft := do
  count fun s ↦ { s with elements := s.elements + 1 }
  e.attributes.foldlM (ofAttribute s state dialect n) ⟨dialect.plain e, content⟩

/-- What a text becomes. -/
def ofText (n : NodeId) (t : String) : Recursive String := do
  if Template.hasExpression t then
    count fun s ↦ { s with texts := s.texts + 1 }
    bond s state (.template n t)
  else return t

mutual

/-- What a template becomes. -/
def ofTree : Tree (NodeId × Content) → Recursive (Tree Content)
  | .node (n, .element e) ts => do
    let x ← ofElement s state dialect n e (Tree.mapAll Prod.snd ts)
    if dialect.owns (some (.element e)) then return .node (.element x.element) x.content
    else return .node (.element x.element) (← ofTrees ts)
  | .node (n, .text t) ts => do
    let t ← ofText s state n t
    return .node (.text t) (← ofTrees ts)
  | .node (_, c) ts => return .node c (← ofTrees ts)

/-- What templates become that stand side by side. -/
def ofTrees : List (Tree (NodeId × Content)) → Recursive (List (Tree Content))
  | [] => return []
  | t :: ts => return (← ofTree t) :: (← ofTrees ts)

end

end Recursive

/-- What the templates become that a job compiles, and the ledger that is kept of it. -/
def CompileJob.recursively {σ : Type} (job : CompileJob σ) (s : Store)
    (ts : List (Tree (NodeId × Content))) : Except BindError (List (Tree Content) × Ledger) :=
  (Recursive.ofTrees s job.state job.dialect ts).run .empty

end DataBinding

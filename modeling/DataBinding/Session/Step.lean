import DataBinding.Engine.Action
import DataBinding.ViewModel.Configuration

/-!
# The steps of a session

A session is a script that drives the library step by step: it keeps what it makes under names —
watchers, scopes, probes, lists of subscribers, compiled templates, view-models — and the callbacks
it hands to the library are scripts again.

A `Step` is a command together with the scripts that the command may need.  Commands themselves hold
no scripts, so that they can be sorted by what they are about: the state, watchers, scopes, probes,
templates, the document, and view-models.
-/

set_option autoImplicit false

namespace DataBinding.Session

/-- Where the value that a step needs comes from. -/
inductive ValueSource where
  /-- Plain data, to be observed. -/
  | data (j : Json)
  | number (x : Binary64)
  /-- What the state holds at a path. -/
  | stored (path : String)
  /-- What the running callback was called with. -/
  | event

/-- How a step names a node. -/
inductive NodeSource where
  | id (n : NodeId)
  | selector (text : String)
  /-- The target of the event that the running callback was called with. -/
  | target
  /-- No node is named. -/
  | missing
  deriving DecidableEq, Repr

/-- An error that a step makes on purpose. -/
inductive Failing where
  | missingHandler (name : String)
  | missingArgument (directive : String)
  | unknownDirective (name : String)
  | unresolved (path : String)
  | emptyExpression
  deriving DecidableEq, Repr

/-- Steps about the state.  `place` is the path of an object. -/
inductive StateCommand where
  | setPath (path : String) (value : ValueSource)
  | getPath (path : String)
  | render (template : String)
  | set (place key : String) (value : ValueSource)
  | get (place key : String)
  | peek (place key : String)
  | describe (place : String)
  | subscriberCount (place key : String)
  | identical (a b : ValueSource)
  | replaceRoot (value : ValueSource)
  | fail (error : Failing)

/-- Steps about watchers. -/
inductive WatcherCommand where
  | create (name path : String)
  | update (name : String)
  | describe (name : String)
  | share (name copy : String)
  | drop (name : String)

/-- Steps about scopes, which are lists of watchers. -/
inductive ScopeCommand where
  | create (name : String)
  | watch (name watcher path : String)
  | hold (name watcher : String)
  | absorb (name other : String)
  | absorbCompiled (name template : String)
  | clear (name : String)
  | drop (name : String)
  | describe (name : String)
  | update (name : String)

/-- Steps about probes, lists of subscribers, and the stack of evaluating subscribers. -/
inductive ProbeCommand where
  | create (name : String)
  | drop (name : String)
  | createList (name : String)
  | subscribe (list probe : String)
  | notify (list : String)
  | describeList (list : String)
  | track (name : String)
  | untrack
  | describeTracking

/-- The handlers that a session can put into a table of directives. -/
inductive SampleHandler where
  /-- Sets the text to the expression in upper case. -/
  | upper
  /-- Sets the text to the expression. -/
  | inject
  /-- Keeps an attribute equal to the value of the expression. -/
  | live
  /-- Calls the method that the expression names at once. -/
  | call
  /-- Refuses. -/
  | refuse
  deriving DecidableEq, Repr

/-- How a session builds a table of directives. -/
structure TableRecipe where
  /-- Whether to start from the standard table and not from the empty one. -/
  standard : Bool
  register : List (String × SampleHandler)

/-- Steps about compiled templates. -/
inductive TemplateCommand where
  | compile (name : String) (root : NodeSource) (prefixes : Option (String × String))
      (table : Option TableRecipe)
  | describe (name : String)
  | drop (name : String)

/-- Steps about the document. -/
inductive DocumentCommand where
  | createElement (tag : String)
  | createText (text : String)
  | createFragment
  | append (parent child : NodeSource)
  | detach (node : NodeSource)
  | setText (node : NodeSource) (text : String)
  | setMarkup (node : NodeSource) (markup : String)
  | setControl (node : NodeSource) (value : String)
  | setAttribute (node : NodeSource) (name value : String)
  | removeAttribute (node : NodeSource) (name : String)
  | attribute (node : NodeSource) (name : String)
  | stage (node : NodeSource)
  | restore (staged node : NodeSource)
  | select (selector : String)
  | selectAll (selector : String)
  | selectWithin (node : NodeSource) (selector : String)
  | describeAll
  | describe (node : NodeSource)
  | listen (node : NodeSource) (event name : String)
  | dispatch (node : NodeSource) (event : String) (value : ValueSource)
  | input (node : NodeSource) (value : ValueSource)
  | readControl (node : NodeSource) (event : String) (value : ValueSource)
  | clearListeners (node : NodeSource)

/-- What a session makes a view-model from.  `text` holds options to start from; the other parts are
set after that. -/
structure ViewModelRecipe where
  text : Option String
  state : Option Json
  prefixes : Option (String × String)
  attach : Option AttachTarget

/-- Steps about view-models.  A step in a method that names no view-model means the one whose method
it is. -/
inductive ViewModelCommand where
  | create (name : String) (recipe : ViewModelRecipe)
  | drop (name : String)
  | get (name : Option String) (key : String)
  | set (name : Option String) (key : String) (value : ValueSource)
  | getPath (name : Option String) (path : String)
  | setPath (name : Option String) (path : String) (value : ValueSource)
  | watch (name : Option String) (watcher path : String)
  | describe (name : Option String)
  | increment (name : Option String) (key : String)

/-- What a step does. -/
inductive Command where
  | state (c : StateCommand)
  | watcher (c : WatcherCommand)
  | scope (c : ScopeCommand)
  | probe (c : ProbeCommand)
  | template (c : TemplateCommand)
  | document (c : DocumentCommand)
  | viewModel (c : ViewModelCommand)
  | unknown (name : String)

/-- Whether a command fails on purpose. -/
def Command.isFail : Command → Bool
  | .state (.fail _) => true
  | _ => false

/-- A step of a session. -/
inductive Step where
  /-- A command.  `propagates` says whether, inside a script, an error of the step ends the script;
  `script` is what the callback that the command makes does the first `times` times it is called;
  `methods` are the scripts of methods, each of which does the same `Step.usualTimes` times. -/
  | mk (command : Command) (propagates : Bool) (times : Nat) (script : List Step)
      (methods : List (String × List Step))

instance : Inhabited Step := ⟨.mk (.unknown "") false 0 [] []⟩

/-- How many calls a script answers by doing its steps, where nothing else is said.  Later calls do
nothing, so scripts that call each other come to an end. -/
def Step.usualTimes : Nat := 1000

/-- Why a step failed. -/
inductive Failure where
  | state (e : StateError)
  | bind (e : BindError)
  | opening (e : OpenError)
  | configuration (e : ConfigurationError)
  /-- Nothing is kept under the name. -/
  | unknownName (name : String)
  | notAnObject
  /-- The field of the step names no node. -/
  | noNode (field : String)
  | noWatcher
  | noScope
  | unknownStep (name : String)

namespace Failure

/-- The failure as the error of a binding.  What is neither of state nor of a binding counts as an
empty expression. -/
def toBind : Failure → BindError
  | .bind e => e
  | .state e => .state e
  | _ => .state .emptyExpression

/-- What the session itself has to complain about, if the failure is its own. -/
def complaint? : Failure → Option String
  | .unknownName name => some ("no `" ++ name ++ "`")
  | .notAnObject => some "not an object"
  | .noNode field => some ("no node for `" ++ field ++ "`")
  | .noWatcher => some "no watcher"
  | .noScope => some "no scope"
  | .unknownStep name => some ("unknown step " ++ name)
  | _ => none

end Failure

end DataBinding.Session

import DataBinding.Engine.Run
import DataBinding.Markup.Parser
import DataBinding.Session.Document
import DataBinding.Session.Template

/-!
# Running a session

A step makes its answer from the command and, where the command needs callbacks, from the scripts of
the step.  A script does its steps in order and writes each into the log; an error ends it only if
the step says so, or is there to fail.

A session is a world whose data is a desk.  Its steps are run one after the other, each with a fresh
log, and each leaves a row: its answer, the text of the state, the log, and the markup of the
document.
-/

set_option autoImplicit false

namespace DataBinding.Session

/-- Whether a script has been called less than `times` times so far; the call is counted. -/
def countCall (script times : Nat) : Work Bool := do
  let calls ← Work.desk fun d ↦ d.calls.getD script 0
  Program.modify fun d ↦ { d with calls := d.calls.modify script (· + 1) }
  return decide (calls < times)

/-- Gives numbers to scripts that have not been called so far, one after the other, and answers the
first number. -/
def numberScripts (count : Nat) : Task Nat := do
  let number ← Task.desk fun d ↦ d.calls.size
  Task.edit fun d ↦ { d with calls := d.calls ++ Array.replicate count 0 }
  return number

mutual

/-- Does a step.  The script of its callback and those of its methods are counted apart. -/
def perform : Step → Context → Task Reply
  | .mk command _ times script methods, ctx => do
    let number ← numberScripts (methods.length + 1)
    let body := fun (name : String) (ctx : Context) ↦ do
      if ← countCall number times then performAll script name ctx else return .ok ()
    let callbacks : Callbacks := {
      watcher := fun name v ↦ do
        Work.log (.fired name (← Work.shown v).text)
        body name ⟨some v, none, none⟩
      probe := fun name ↦ do
        Work.log (.probed name)
        body name .none
      listener := fun name event ↦ do
        Work.log (.event name event.name event.target (← Work.shown event.value).text)
        body name ⟨some event.value, some event.target, none⟩
      method := fun vm name event ↦ performMethod methods (number + 1) name event vm }
    match command with
    | .state c => c.perform ctx
    | .watcher c => c.perform callbacks
    | .scope c => c.perform callbacks
    | .probe c => c.perform callbacks
    | .template c => c.perform callbacks ctx
    | .document c => c.perform callbacks ctx
    | .viewModel c => c.perform callbacks ctx (methods.map Prod.fst)
    | .unknown name => Task.fail (.unknownStep name)

/-- Does the steps of the script of a callback. -/
def performAll : List Step → String → Context → Work (Except BindError Unit)
  | [], _, _ => return .ok ()
  | step :: rest, name, ctx => do
    let result ← (perform step ctx).run
    Work.log (.step name result)
    match result, step with
    | .error e, .mk command propagates _ _ _ =>
      if propagates || command.isFail then return .error e.toBind else performAll rest name ctx
    | .ok _, _ => performAll rest name ctx

/-- Does the script of the method with the given name.  `number` is the number of the script of the
first method. -/
def performMethod : List (String × List Step) → Nat → String → Event → Option ViewModelId →
    Work (Except BindError Unit)
  | [], _, name, _, _ => return .error (.missingHandler name)
  | (other, script) :: rest, number, name, event, vm => do
    if other == name then
      Work.log (.method name event.name event.target (← Work.shown event.value).text)
      if ← countCall number Step.usualTimes then
        performAll script name ⟨some event.value, some event.target, vm⟩
      else return .ok ()
    else performMethod rest (number + 1) name event vm

end

/-- What there is to see after a step. -/
structure Row where
  result : Except Failure Reply
  /-- The text of the state. -/
  state : String
  log : List LogEntry
  /-- The markup of the document. -/
  markup : String

/-- How deep callbacks of a session may nest. -/
def nesting : Nat := 1000000

/-- The world at the start of a session. -/
def start (document : Document) (state : ValueSource) : World Desk :=
  let w := World.start document (Desk.ofRoot .null)
  let (root, store) := state.resolve .null w.scene.store
  { w with scene := { w.scene with store := store, data := Desk.ofRoot root } }

/-- The code that does a step and leaves the outcome on the desk. -/
def stepAction (step : Step) : Action Desk :=
  perform step .none fun result ↦
    .modify (fun d ↦ { d with outcome := some result }) (.done (.ok ()))

/-- Runs a step.  There is no row when callbacks nest too deeply. -/
def runStep (step : Step) (w : World Desk) : Option (Row × World Desk) := do
  let desk := { w.scene.data with log := [], outcome := none }
  let (_, w) ← run nesting (stepAction step) { w with scene := { w.scene with data := desk } }
  let s := w.scene
  let result ← s.data.outcome
  return (
    { result
      state := (s.store.snapshot s.data.root).text
      log := s.data.log.reverse
      markup := s.document.innerMarkup Document.root }, w)

/-- Runs steps one after the other. -/
def runSteps : List Step → World Desk → Option (List Row)
  | [], _ => some []
  | step :: rest, w => do
    let (row, w) ← runStep step w
    return row :: (← runSteps rest w)

end DataBinding.Session

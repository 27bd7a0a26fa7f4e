import DataBinding.Session.State

/-!
# Steps about templates and view-models

Compiling a template with a table of directives that the step describes, and making, using and
dropping view-models.
-/

set_option autoImplicit false

namespace DataBinding.Session

/-! ## Templates -/

/-- The attribute that the sample handler `live` sets if no other one is named. -/
def liveAttribute : String := "data-live"

/-- The event that the sample handler `call` calls a method with. -/
def callEvent : String := "bind"

/-- The handler that a name stands for. -/
def SampleHandler.handler : SampleHandler → DirectiveHandler
  | .upper => fun d ↦ [.fixed .text (Text.upper d.expr)]
  | .inject => fun d ↦ [.fixed .text d.expr]
  | .live => fun d ↦ [.live (.attribute (d.detail.getD liveAttribute)) d.expr]
  | .call => fun d ↦ [.call d.expr callEvent (d.detail.getD "")]
  | .refuse => fun d ↦ [.refuse (.missingArgument d.expr)]

/-- Registers handlers one after the other, and says of each whether it replaced one. -/
def registerAll (t : DirectiveTable) :
    List (String × SampleHandler) → List Bool × DirectiveTable
  | [] => ([], t)
  | (kind, sample) :: rest =>
    let (replaced, t) := t.register kind sample.handler
    let (others, t) := registerAll t rest
    (replaced :: others, t)

/-- Builds the table of directives for a dialect and takes note of it. -/
def buildTable (d : Dialect) (recipe : TableRecipe) : Task DirectiveTable := do
  let base := if recipe.standard then DirectiveTable.standard else []
  let (replaced, t) := registerAll base recipe.register
  Task.log (.table replaced t.length (Diagnostic.compiler d t))
  return t

/-- The dialect with the prefixes that a step names, if it names some. -/
def dialectOf : Option (String × String) → Task Dialect
  | none => return .standard
  | some (directive, event) =>
    Task.attempt .bind (pure (Dialect.ofPrefixes directive event))

/-- Does a step about templates. -/
def TemplateCommand.perform (callbacks : Callbacks) (ctx : Context) :
    TemplateCommand → Task Reply
  | .compile name root prefixes table => do
    let dialect ← dialectOf prefixes
    let table ← match table with
      | none => pure DirectiveTable.standard
      | some recipe => buildTable dialect recipe
    let root ← Task.node ctx "root" root
    let state ← Task.desk Desk.root
    let note := fun (c : HostCall) (d : Desk) ↦ { d with log := .host c :: d.log }
    let compiled ← Task.attempt .bind <|
      Program.compile ⟨root, state, dialect, table, note⟩ (callbacks.method none)
    let old := (← Task.desk Desk.templates).lookup name
    Task.edit fun d ↦ { d with templates := Shelf.put name compiled d.templates }
    Task.releaseAll (old.elim [] Compiled.scope)
    return .compiled compiled.stats compiled.scope.length
      (← Task.scene fun s ↦ s.watched compiled.scope)
  | .describe name => do
    match (← Task.desk Desk.templates).lookup name with
    | none => return .template none
    | some compiled =>
      return .template (some (compiled.stats, ← Task.scene fun s ↦ s.watched compiled.scope))
  | .drop name => do
    match (← Task.desk Desk.templates).lookup name with
    | none => return .flag false
    | some compiled =>
      Task.edit fun d ↦ { d with templates := Shelf.remove name d.templates }
      Task.releaseAll compiled.scope
      return .flag true

/-! ## View-models -/

/-- The view-model that a step means. -/
def viewModelOf (ctx : Context) : Option String → Task ViewModelId
  | some name => Task.named Desk.viewModels name
  | none =>
    match ctx.viewModel with
    | some vm => return vm
    | none => Task.named Desk.viewModels ""

/-- Does something with the object of state of the view-model that a step means.  The view-model is
held until that is done, so code that drops it on the way does not end it yet. -/
def onStateOf {α : Type} (ctx : Context) (name : Option String) (body : ObjectId → Task α) :
    Task α := do
  let vm ← viewModelOf ctx name
  let o := (← Task.scene fun s ↦ s.viewModels[vm]?).elim 0 ViewModel.state
  Task.holding vm (body o)

/-- The options that a recipe describes, for methods of the given names. -/
def optionsOf (recipe : ViewModelRecipe) (methods : List String) : Task ViewModelOptions := do
  let options ← match recipe.text with
    | none => pure ViewModelOptions.standard
    | some text => Task.attempt .configuration (pure (ViewModelOptions.ofText text))
  let state := recipe.state.getD options.state
  let dialect ← match recipe.prefixes with
    | none => pure options.dialect
    | some _ => dialectOf recipe.prefixes
  return ⟨recipe.attach.or options.attach, state, dialect, methods⟩

/-- The report about a view-model. -/
def viewModelReport (s : Scene Desk) (v : ViewModel) : ViewModelReport :=
  { keys := (s.store.object? v.state).elim [] Object.keys
    data := (s.store.snapshot (.object v.state)).text
    root := v.root
    bindings := v.compiled.scope.length
    stats := v.compiled.stats
    diagnostic := Diagnostic.viewModel s.store v
    nodes := s.document.nodes.size }

/-- One more than a number; what is no number counts as zero. -/
def successor (v : Option Value) : Value :=
  match v with
  | some (.number x) => .number (x.add (Binary64.ofInt 1))
  | _ => .number (Binary64.ofInt 1)

/-- Does a step about view-models.  `methods` are the names of the methods of a new one. -/
def ViewModelCommand.perform (callbacks : Callbacks) (ctx : Context) (methods : List String) :
    ViewModelCommand → Task Reply
  | .create name recipe => do
    let options ← optionsOf recipe methods
    let vm ← Task.attempt .opening <|
      Program.openViewModel options fun method vm event ↦ callbacks.method (some vm) method event
    let old := (← Task.desk Desk.viewModels).lookup name
    let made ← Task.scene fun s ↦ s.viewModels[vm]?
    let v := made.getD ⟨0, none, 0, [], ⟨[], .zero⟩⟩
    Task.edit fun d ↦
      { d with
        root := .object v.state
        viewModels := Shelf.put name vm d.viewModels }
    match old with
    | none => pure ()
    | some old => Task.lift (Program.releaseViewModel old)
    return .opened v.root v.compiled.scope.length v.compiled.stats options.methods
  | .drop name => do
    match (← Task.desk Desk.viewModels).lookup name with
    | none => return .flag false
    | some vm =>
      Task.edit fun d ↦ { d with viewModels := Shelf.remove name d.viewModels }
      Task.lift (Program.releaseViewModel vm)
      return .flag true
  | .get name key => onStateOf ctx name fun o ↦ do
    Task.shown? (← Task.lift (Program.get o key))
  | .set name key value => onStateOf ctx name fun o ↦ do
    let v ← Task.value ctx value
    Task.attempt .state (Program.set o key v)
    return .done
  | .getPath name path => onStateOf ctx name fun o ↦ do
    Task.shown (← Task.attempt .state (Program.getPath path (.object o)))
  | .setPath name path value => onStateOf ctx name fun o ↦ do
    let v ← Task.value ctx value
    Task.attempt .state (Program.setPath path (.object o) v)
    return .done
  | .watch name watcher path => onStateOf ctx name fun o ↦ do
    let (id, reply) ← createWatcher callbacks watcher path (.object o)
    Task.keepWatcher watcher id
    return reply
  | .describe name => do
    let vm ← viewModelOf ctx name
    match ← Task.scene fun s ↦ (s.viewModels[vm]?).map (viewModelReport s) with
    | some report => return .viewModel report
    | none => Task.fail (.unknownName (name.getD ""))
  | .increment name key => onStateOf ctx name fun o ↦ do
    let v ← Task.lift (Program.get o key)
    Task.attempt .state (Program.set o key (successor v))
    return .done

end DataBinding.Session

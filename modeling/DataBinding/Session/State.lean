import DataBinding.Diagnostic
import DataBinding.Session.Desk

/-!
# Steps about the state, its watchers and its subscribers

Reads and writes of the state, watchers, scopes of watchers, probes, and lists of subscribers that
belong to no property.
-/

set_option autoImplicit false

namespace DataBinding.Session

/-- What the callbacks that a command makes do. -/
structure Callbacks where
  watcher : String → Value → Work (Except BindError Unit)
  probe : String → Work (Except BindError Unit)
  listener : String → Event → Work (Except BindError Unit)
  method : Option ViewModelId → String → Event → Work (Except BindError Unit)

/-- The failure that an error stands for. -/
def Failing.failure : Failing → Failure
  | .missingHandler name => .bind (.missingHandler name)
  | .missingArgument directive => .bind (.missingArgument directive)
  | .unknownDirective name => .bind (.unknownDirective name)
  | .unresolved path => .state (.unresolved path "seg" .null)
  | .emptyExpression => .state .emptyExpression

/-- The report about an object. -/
def objectReport (s : Store) (o : ObjectId) : ObjectReport :=
  let object := (s.object? o).getD ⟨.map, []⟩
  { rows := object.properties.map fun p ↦ (p.key, s.countLive p.subscribers)
    isArray := object.kind == .array
    data := (s.snapshot (.object o)).text
    diagnostic := Diagnostic.object object }

/-- Does a step about the state. -/
def StateCommand.perform (ctx : Context) : StateCommand → Task Reply
  | .setPath path value => do
    let v ← Task.value ctx value
    let root ← Task.desk Desk.root
    Task.attempt .state (Program.setPath path root v)
    return .done
  | .getPath path => do
    let root ← Task.desk Desk.root
    Task.shown (← Task.attempt .state (Program.getPath path root))
  | .render template => do
    let root ← Task.desk Desk.root
    return .text (← Task.attempt .state (Program.render template root))
  | .set place key value => do
    let o ← Task.objectAt place
    let v ← Task.value ctx value
    Task.attempt .state (Program.set o key v)
    return .done
  | .get place key => do
    let o ← Task.objectAt place
    Task.shown? (← Task.lift (Program.get o key))
  | .peek place key => do
    let o ← Task.objectAt place
    Task.shown? (← Task.scene fun s ↦ s.store.peek o key)
  | .describe place => do
    let o ← Task.objectAt place
    return .object (← Task.scene fun s ↦ objectReport s.store o)
  | .subscriberCount place key => do
    let o ← Task.objectAt place
    return .count (← Task.scene fun s ↦ s.store.subscriberCount? o key)
  | .identical a b => do
    let a ← Task.value ctx a
    let b ← Task.value ctx b
    return .flag (a.identical b)
  | .replaceRoot value => do
    let v ← Task.value ctx value
    Task.edit fun d ↦ { d with root := v }
    return .done
  | .fail error => Task.fail error.failure

/-! ## Watchers -/

/-- Makes a watcher on a root and answers its first value, with the number of the watcher. -/
def createWatcher (callbacks : Callbacks) (name path : String) (root : Value) :
    Task (SubscriberId × Reply) := do
  let id ← Task.attempt .state (Program.watch path root (callbacks.watcher name))
  let observed ← Task.scene fun s ↦ (s.watcher? id).map Watcher.observed
  return (id, ← Task.shown (observed.getD .null))

/-- Does a step about watchers. -/
def WatcherCommand.perform (callbacks : Callbacks) : WatcherCommand → Task Reply
  | .create name path => do
    let (id, reply) ← createWatcher callbacks name path (← Task.desk Desk.root)
    Task.keepWatcher name id
    return reply
  | .update name => do
    let id ← Task.named Desk.watchers name
    Task.attempt .state (Program.notify [id])
    return .done
  | .describe name => do
    let id ← Task.named Desk.watchers name
    let w ← Task.scene fun s ↦ s.watcher? id
    let v ← Task.lift (Work.shown (w.elim .null Watcher.observed))
    return .watcher (w.elim "" Watcher.expr) v
  | .share name copy => do
    let id ← Task.named Desk.watchers name
    Task.lift (Program.retain id)
    Task.keepWatcher copy id
    return .done
  | .drop name => do
    match (← Task.desk Desk.watchers).lookup name with
    | none => return .flag false
    | some id =>
      Task.edit fun d ↦ { d with watchers := Shelf.remove name d.watchers }
      Task.lift (Program.release id)
      return .flag true

/-! ## Scopes -/

/-- Updates watchers one by one, all of them held until the end. -/
def updateEach : List SubscriberId → Task (List (Except StateError Unit))
  | [] => return []
  | id :: rest => do
    let result ← Task.lift (Program.notify [id])
    return result :: (← updateEach rest)

/-- Does a step about scopes. -/
def ScopeCommand.perform (callbacks : Callbacks) : ScopeCommand → Task Reply
  | .create name => do
    let old ← Task.scopeOf name
    Task.keepScope name []
    Task.releaseAll old
    return .done
  | .watch name watcher path => do
    Task.keepScope name (← Task.scopeOf name)
    let (id, reply) ← createWatcher callbacks watcher path (← Task.desk Desk.root)
    Task.keepScope name ((← Task.scopeOf name) ++ [id])
    return reply
  | .hold name watcher => do
    match (← Task.desk Desk.watchers).lookup watcher with
    | none => Task.fail .noWatcher
    | some id =>
      Task.edit fun d ↦ { d with watchers := Shelf.remove watcher d.watchers }
      Task.keepScope name ((← Task.scopeOf name) ++ [id])
      return .done
  | .absorb name other => do
    match (← Task.desk Desk.scopes).lookup other with
    | none => Task.fail .noScope
    | some ids =>
      Task.edit fun d ↦ { d with scopes := Shelf.remove other d.scopes }
      Task.keepScope name ((← Task.scopeOf name) ++ ids)
      return .done
  | .absorbCompiled name template => do
    match (← Task.desk Desk.templates).lookup template with
    | none => Task.fail .noScope
    | some compiled =>
      Task.edit fun d ↦ { d with templates := Shelf.remove template d.templates }
      Task.keepScope name ((← Task.scopeOf name) ++ compiled.scope)
      return .done
  | .clear name => do
    match (← Task.desk Desk.scopes).lookup name with
    | none => return .done
    | some ids =>
      Task.keepScope name []
      Task.releaseAll ids
      return .done
  | .drop name => do
    match (← Task.desk Desk.scopes).lookup name with
    | none => return .flag false
    | some ids =>
      Task.edit fun d ↦ { d with scopes := Shelf.remove name d.scopes }
      Task.releaseAll ids
      return .flag true
  | .describe name => do
    match (← Task.desk Desk.scopes).lookup name with
    | none => return .scope none
    | some ids =>
      return .scope (some ⟨← Task.scene fun s ↦ s.watched ids, Diagnostic.scope ids⟩)
  | .update name => do
    let ids ← Task.scopeOf name
    ids.forM fun id ↦ Task.lift (Program.retain id)
    let results ← updateEach ids
    Task.releaseAll ids
    return .updates results

/-! ## Probes and lists of subscribers -/

/-- Changes a list of subscribers. -/
def editList (name : String) (ids : List SubscriberId) : Task Unit :=
  Task.edit fun d ↦ { d with lists := Shelf.put name ids d.lists }

/-- Does a step about probes. -/
def ProbeCommand.perform (callbacks : Callbacks) : ProbeCommand → Task Reply
  | .create name => do
    let id ← Task.lift (Program.probe (callbacks.probe name))
    let old := (← Task.desk Desk.probes).lookup name
    Task.edit fun d ↦
      { d with
        probes := Shelf.put name id d.probes
        probeNames := (id, name) :: d.probeNames }
    Task.releaseAll old.toList
    return .done
  | .drop name => do
    match (← Task.desk Desk.probes).lookup name with
    | none => return .flag false
    | some id =>
      Task.edit fun d ↦ { d with probes := Shelf.remove name d.probes }
      Task.lift (Program.release id)
      return .flag true
  | .createList name => do
    editList name []
    return .done
  | .subscribe list probe => do
    let id ← Task.named Desk.probes probe
    let ids ← Task.named Desk.lists list
    editList list (← Task.scene fun s ↦ subscribeTo s.store.isLive ids id)
    return .done
  | .notify list => do
    let ids ← Task.named Desk.lists list
    let live ← Task.scene fun s ↦ ids.filter s.store.isLive
    editList list live
    Task.attempt .state (Program.notify live)
    return .done
  | .describeList list => do
    let ids ← Task.named Desk.lists list
    let count ← Task.scene fun s ↦ s.store.countLive ids
    return .subscribers count (Diagnostic.subscribers count)
  | .track name => do
    let id ← Task.named Desk.probes name
    Task.lift (Program.track id)
    return .done
  | .untrack => do
    let tracking ← Task.scene fun s ↦ s.store.tracking
    Task.lift Program.untrack
    return .flag (!tracking.isEmpty)
  | .describeTracking => do
    let tracking ← Task.scene fun s ↦ s.store.tracking
    let names ← Task.desk Desk.probeNames
    return .tracking tracking.length (tracking.head?.bind fun id ↦ names.lookup id)

end DataBinding.Session

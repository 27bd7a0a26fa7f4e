import DataBinding.Document.Serializer
import DataBinding.Session.State

/-!
# Steps about the document

Making and linking nodes, showing texts, attributes, selectors, listeners and events.
-/

set_option autoImplicit false

namespace DataBinding.Session

/-- The report about a node. -/
def nodeReport (s : Scene Desk) (id : NodeId) : NodeReport :=
  let d := s.document
  { id
    content := d.content? id
    parent := d.parent? id
    children := d.children id
    attributes := d.attributes id
    own := d.textOf id
    control := d.control? id
    text := d.textContent id
    listeners := s.listenerCount id
    outer := d.outerMarkup id
    inner := d.innerMarkup id }

/-- Does an edit that makes a node, and answers its number. -/
def makeNode (e : Edit) : Task Reply := do
  let id ← Task.scene fun s ↦ s.document.nodes.size
  Task.lift (Program.edit e)
  return .node (some id)

/-- Does an edit. -/
def doEdit (e : Edit) : Task Reply := do
  Task.lift (Program.edit e)
  return .done

/-- Does a step about the document. -/
def DocumentCommand.perform (callbacks : Callbacks) (ctx : Context) :
    DocumentCommand → Task Reply
  | .createElement tag => makeNode (.createElement tag)
  | .createText text => makeNode (.createText text)
  | .createFragment => makeNode .createFragment
  | .append parent child => do
    let parent ← Task.node ctx "parent" parent
    let child ← Task.node ctx "child" child
    doEdit (.append parent child)
  | .detach node => do doEdit (.detach (← Task.node ctx "node" node))
  | .setText node text => do doEdit (.setText (← Task.node ctx "node" node) text)
  | .setMarkup node markup => do doEdit (.setMarkup (← Task.node ctx "node" node) markup)
  | .setControl node value => do doEdit (.setControl (← Task.node ctx "node" node) value)
  | .setAttribute node name value => do
    doEdit (.setAttribute (← Task.node ctx "node" node) name value)
  | .removeAttribute node name => do doEdit (.removeAttribute (← Task.node ctx "node" node) name)
  | .attribute node name => do
    let id ← Task.node ctx "node" node
    return .attribute (← Task.scene fun s ↦ s.document.attribute? id name)
  | .stage node => do makeNode (.stage (← Task.node ctx "node" node))
  | .restore staged node => do
    let staged ← Task.node ctx "staged" staged
    let node ← Task.node ctx "node" node
    doEdit (.restore staged node)
  | .select selector =>
    return .node (← Task.scene fun s ↦ s.document.select? Document.root selector)
  | .selectAll selector =>
    return .nodes (← Task.scene fun s ↦ s.document.selectAll Document.root selector)
  | .selectWithin node selector => do
    let id ← Task.node ctx "node" node
    return .node (← Task.scene fun s ↦ s.document.select? id selector)
  | .describeAll => do
    let nodes ← Task.scene fun s ↦ s.document.nodes.size
    let listeners ← Task.scene fun s ↦ s.listeners.length
    return .document nodes (Diagnostic.document nodes listeners)
  | .describe node => do
    let id ← Task.node ctx "node" node
    return .nodeReport (← Task.scene fun s ↦ nodeReport s id)
  | .listen node event name => do
    let id ← Task.node ctx "node" node
    Task.lift (Program.listen id event (callbacks.listener name))
    return .done
  | .dispatch node event value => do
    let id ← Task.node ctx "node" node
    let v ← Task.value ctx value
    Task.attempt .bind (Program.dispatch id event v)
    return .done
  | .input node value => do
    let id ← Task.node ctx "node" node
    let v ← Task.value ctx value
    Task.attempt .bind (Program.input id v)
    return .done
  | .readControl node event value => do
    let id ← Task.node ctx "node" node
    let v ← Task.value ctx value
    Task.shown (← Task.scene fun s ↦ s.controlValue ⟨id, event, v⟩)
  | .clearListeners node => do
    let id ← Task.node ctx "node" node
    Task.lift (Program.unlisten id)
    return .done

end DataBinding.Session

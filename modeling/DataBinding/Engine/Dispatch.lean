import DataBinding.Engine.Notification

/-!
# Firing events

Listeners stand on nodes, in one list for the whole document.  Firing an event on a node calls the
listeners that stand on that node for that event at the moment of firing, in the order in which they
were put there.  **What the listeners do to the list does not change who is called**, every one of
them is called whatever the others return, and the first error is the result.
-/

set_option autoImplicit false

namespace DataBinding

namespace Scene

variable {σ : Type}

/-- The code of the listeners on a node for an event, in the order in which they were put there. -/
def handlersFor (s : Scene σ) (node : NodeId) (event : String) : List Nat :=
  (s.listeners.filter fun l ↦ l.node == node && l.event == event).map Listener.handler

/-- The scene without the listeners at and below a node. -/
def clearListeners (s : Scene σ) (root : NodeId) : Scene σ :=
  { s with listeners := s.listeners.filter fun l ↦ !s.document.isInclusiveAncestor root l.node }

end Scene

namespace Dispatch

variable {σ : Type}

/-- Calls one handler, if there is code for it. -/
def callOne (call : Call σ) (event : Event) (handler : Nat) : Run σ (Except BindError Unit) := do
  match (← get).code.handlers[handler]? with
  | none => return .ok ()
  | some code => call (code event)

/-- Calls handlers in turn. -/
def callAll (call : Call σ) (event : Event) : List Nat → Run σ (Except BindError Unit)
  | [] => return .ok ()
  | handler :: rest => do
    let first ← callOne call event handler
    let others ← callAll call event rest
    return firstError first others

/-- Fires an event. -/
def fire (call : Call σ) (node : NodeId) (event : String) (value : Value) :
    Run σ (Except BindError Unit) := do
  callAll call ⟨node, event, value⟩ ((← Run.scene).handlersFor node event)

/-- Puts a listener on a node, after all others. -/
def listen (node : NodeId) (event : String) (handler : Event → Action σ) : Run σ Unit := do
  let number := (← get).code.handlers.size
  Run.editCode fun code ↦ { code with handlers := code.handlers.push handler }
  Run.editScene fun s ↦ { s with listeners := s.listeners ++ [⟨node, event, number⟩] }

end Dispatch

end DataBinding

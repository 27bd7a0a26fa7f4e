import DataBinding.Engine.Lifetime

/-!
# Running code

`follow` walks down an action and does what it says, given a way to call other code.  `run` ties the
knot: code that is called may call further code, to the depth of the number given, and when that
depth is not enough there is no result at all.
-/

set_option autoImplicit false

namespace DataBinding

variable {σ : Type}

/-- Does what an action says.  `limit` bounds the nodes that a compilation visits. -/
def follow (call : Call σ) (limit : Nat) : Action σ → Run σ (Except BindError Unit)
  | .done result => return result
  | .inspect next => do follow call limit (next (← Run.scene))
  | .modify f next => do
    Run.editScene fun s ↦ { s with data := f s.data }
    follow call limit next
  | .observe data next => do follow call limit (next (← Run.onStore (Store.observe data)))
  | .get o key next => do follow call limit (next (← Run.onStore (Store.get · o key)))
  | .getPath path root next => do
    follow call limit (next (← Run.onStore (Store.getValue path root)))
  | .render template root next => do
    follow call limit (next (← Run.onStore (Store.render template root)))
  | .set o key value next => do
    follow call limit (next (← Notification.set call o key value))
  | .setPath path root value next => do
    follow call limit (next (← Notification.setPath call path root value))
  | .watch expr root reaction next => do
    follow call limit (next (← Notification.watch expr root reaction))
  | .probe reaction next => do follow call limit (next (← Notification.probe reaction))
  | .retain id next => do
    Run.editStore (Store.retain · id)
    follow call limit next
  | .release id next => do
    Run.editStore (Store.release · id)
    follow call limit next
  | .track id next => do
    Run.editStore (Store.track · id)
    follow call limit next
  | .untrack next => do
    Run.editStore Store.untrack
    follow call limit next
  | .notify ids next => do follow call limit (next (← Notification.notify call ids))
  | .edit e next => do
    Run.editDocument (Document.apply · e)
    follow call limit next
  | .listen node event handler next => do
    Dispatch.listen node event handler
    follow call limit next
  | .unlisten root next => do
    Run.editScene (Scene.clearListeners · root)
    follow call limit next
  | .dispatch node event value next => do
    follow call limit (next (← Dispatch.fire call node event value))
  | .compile job methods next => do
    follow call limit (next (← Compilation.compile call limit job methods))
  | .openViewModel options methods next => do
    follow call limit (next (← Lifetime.openViewModel call limit options methods))
  | .retainViewModel vm next => do
    Lifetime.retain vm
    follow call limit next
  | .releaseViewModel vm next => do
    Lifetime.release vm
    follow call limit next
  | .invoke vm method event next => do
    follow call limit (next (← Lifetime.invoke call vm method event))

/-- Runs an action in which code is nested to the given depth at most. -/
def run : Nat → Call σ
  | 0 => fun _ ↦ Run.tooDeep
  | depth + 1 => follow (run depth) depth

end DataBinding

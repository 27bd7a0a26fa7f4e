import DataBinding.Proofs.Document.Ancestry
import DataBinding.Proofs.Engine.ReachedWorlds

/-!
# An event goes to those who were there

While the listeners of an event are called, they may put listeners and take them away, edit the
document, and fire further events, on the same node too.  None of this matters to who is called:
**firing an event is calling the code that is registered for it at that moment, one after another,
and the first error is the result** (`World.Arises.dispatch_laws`).  It is said of every world that
comes up in a run, so of the events that listeners fire as well.

A listener has the number that the supply of code had when it was put (`Dispatch.listen`), so the
order of numbers is the order of registration.
-/

set_option autoImplicit false

namespace DataBinding

variable {σ : Type}

/-- Every listener has its code, and those that were put later stand later in the list. -/
structure World.Enlisted (w : World σ) : Prop where
  forest : w.scene.document.IsForest
  answered : w.Answered
  ordered : w.scene.listeners.Pairwise (·.handler < ·.handler)

theorem World.enlisted_start {document : Document} (h : document.IsForest) (data : σ) :
    (World.start document data).Enlisted :=
  ⟨h, fun _ hl ↦ absurd hl List.not_mem_nil, List.Pairwise.nil⟩

/-- **The list of listeners stays in order**, whatever code does. -/
theorem World.robust_enlisted : World.Robust (σ := σ) World.Enlisted where
  store _ hw := ⟨hw.forest, hw.answered, hw.ordered⟩
  scene _ _ hdocument hlisteners hw :=
    { forest := hdocument ▸ hw.forest
      answered := fun l hl ↦ hw.answered l (hlisteners.subset hl)
      ordered := hw.ordered.sublist hlisteners }
  edited e hw := ⟨hw.forest.apply e, hw.answered, hw.ordered⟩
  enrolled _ _ hw := ⟨hw.forest, hw.answered, hw.ordered⟩
  posted n event handler hw :=
    { forest := hw.forest
      answered := World.robust_answered.posted n event handler hw.answered
      ordered := by
        refine List.pairwise_append.2 ⟨hw.ordered, List.pairwise_singleton _ _, fun l hl m hm ↦ ?_⟩
        rw [List.mem_singleton.1 hm]
        exact hw.answered l hl }
  supplied _ hw := ⟨hw.forest, hw.answered, hw.ordered⟩

theorem World.Answered.exists_codes {w : World σ} (hw : w.Answered) {listeners : List Listener}
    (h : ∀ l ∈ listeners, l ∈ w.scene.listeners) : ∃ codes : List (Event → Action σ),
      listeners.map (fun l ↦ w.code.handlers[l.handler]?) = codes.map some := by
  induction listeners with
  | nil => exact ⟨[], rfl⟩
  | cons l listeners ih =>
    obtain ⟨codes, hcodes⟩ := ih fun m hm ↦ h m (List.mem_cons_of_mem l hm)
    have hcode := Array.getElem?_eq_getElem (hw l (h l List.mem_cons_self))
    exact ⟨_ :: codes, by rw [List.map_cons, List.map_cons, hcodes, hcode]⟩

/-! ## Taking listeners away -/

/-- **Listeners are taken away exactly from a node and from what is below it.** -/
theorem Scene.mem_clearListeners {s : Scene σ} (hd : s.document.IsForest) (root : NodeId)
    (l : Listener) : l ∈ (s.clearListeners root).listeners ↔
      l ∈ s.listeners ∧ ¬s.document.AtOrAbove root l.node := by
  rw [Scene.clearListeners, List.mem_filter, ← hd.isInclusiveAncestor_iff, Bool.not_eq_true',
    Bool.not_eq_true]

/-- They are those on the nodes that are visited by walking down. -/
theorem Scene.mem_clearListeners_iff_not_mem_descendants {s : Scene σ} (hd : s.document.IsForest)
    {root : NodeId} (hroot : root < s.document.nodes.size) (l : Listener) :
    l ∈ (s.clearListeners root).listeners ↔
      l ∈ s.listeners ∧ l.node ∉ s.document.descendants root := by
  rw [Scene.mem_clearListeners hd, ← hd.isInclusiveAncestor_iff,
    hd.isInclusiveAncestor_iff_mem_descendants hroot]

theorem World.robust_becomes (d : Document) :
    World.Robust (σ := σ) fun w ↦ d.Becomes w.scene.document where
  store _ hw := hw
  scene _ _ hdocument _ hw := hdocument ▸ hw
  edited e hw := hw.apply e
  enrolled _ _ hw := hw
  posted _ _ _ hw := hw
  supplied _ hw := hw

/-- **Whatever code does, the document comes from the one in which the run began.** -/
theorem World.Arises.becomes {w₀ w : World σ} (h : w₀.Arises w) :
    w₀.scene.document.Becomes w.scene.document :=
  h _ (World.robust_becomes _) .refl

/-- **In every world that comes up, the listeners that are left are those that walking down from the
node does not come to.** -/
theorem World.Arises.mem_clearListeners_iff {document : Document} (hdocument : document.Built)
    {data : σ} {w : World σ} (h : (World.start document data).Arises w) {root : NodeId}
    (hroot : root < w.scene.document.nodes.size) (l : Listener) :
    l ∈ (w.scene.clearListeners root).listeners ↔
      l ∈ w.scene.listeners ∧ l.node ∉ w.scene.document.descendants root :=
  Scene.mem_clearListeners_iff_not_mem_descendants
    ((hdocument.becomes.trans h.becomes).isForest .empty) hroot l

/-! ## Calling listeners -/

/-- The listeners on a node for an event. -/
def Scene.listenersFor (s : Scene σ) (n : NodeId) (event : String) : List Listener :=
  s.listeners.filter fun l ↦ l.node == n && l.event == event

/-- The first error among some results. -/
def firstErrorOf {ε : Type} (results : List (Except ε Unit)) : Except ε Unit :=
  (results.find? fun r ↦ !r.isOk).getD (.ok ())

theorem firstErrorOf_cons {ε : Type} (r : Except ε Unit) (results : List (Except ε Unit)) :
    firstErrorOf (r :: results) = firstError r (firstErrorOf results) := by
  cases r <;> rfl

namespace Dispatch

/-- Runs pieces of code one after another, whatever their results; the first error is the result. -/
def runEach (depth : Nat) (codes : List (Action σ)) : Run σ (Except BindError Unit) := do
  return firstErrorOf (← codes.mapM (run depth))

theorem runEach_cons (depth : Nat) (code : Action σ) (codes : List (Action σ)) :
    runEach depth (code :: codes) = (run depth code >>= fun first ↦
      runEach depth codes >>= fun others ↦ pure (firstError first others)) := by
  simp only [runEach, List.mapM_cons, bind_assoc, pure_bind, firstErrorOf_cons]

/-- The code of handlers is looked up when it is their turn.  It is the code that they had in an
earlier world, since code that has been supplied stays supplied. -/
theorem callAll_eq_runEach {w₀ w : World σ} {depth : Nat} {e : Event} {handlers : List Nat}
    {codes : List (Event → Action σ)}
    (hcodes : handlers.map (w₀.code.handlers[·]?) = codes.map some)
    (hgrows : w₀.code.Grows w.code) :
    callAll (run depth) e handlers w = runEach depth (codes.map (· e)) w := by
  induction handlers generalizing codes w with
  | nil =>
    rw [List.map_eq_nil_iff.1 hcodes.symm]
    rfl
  | cons handler handlers ih =>
    obtain ⟨code, codes, rfl⟩ : ∃ code rest, codes = code :: rest := by
      cases codes with
      | nil => cases hcodes
      | cons code rest => exact ⟨code, rest, rfl⟩
    obtain ⟨hcode, hcodes⟩ := List.cons.inj hcodes
    have hfirst : callOne (run depth) e handler w = run depth (code e) w :=
      callOne_of_code ((hgrows.handlers_eq (Array.getElem?_eq_some_iff.1 hcode).1).trans hcode)
    rw [callAll, List.map_cons, runEach_cons]
    show (callOne (run depth) e handler w).bind _ = (run depth (code e) w).bind _
    rw [hfirst]
    cases hrun : run depth (code e) w with
    | none => rfl
    | some p =>
      obtain ⟨r, w₁⟩ := p
      have hgrows₁ := (run_keeps (Code.robust_grows w₀.code) depth (code e)).kept w r w₁ hrun hgrows
      exact congrArg (Option.bind · _) (ih hcodes hgrows₁)

end Dispatch

/-- **Firing an event is running the code that is registered for it**, each piece once, in the order
in which the listeners were put, and the first error is the result, whatever the code does to the
listeners, to the document or to anything else while it runs.  If any of it does not come to an end,
neither does the event.  And taking the listeners at and below a node away takes exactly these, and
leaves the others as they stand. -/
theorem World.Arises.dispatch_laws {document : Document} (hdocument : document.Built) {data : σ}
    {w : World σ} (h : (World.start document data).Arises w) (depth : Nat) (n : NodeId)
    (event : String) (v : Value) :
    (∃ codes : List (Event → Action σ),
      (w.scene.listenersFor n event).map (fun l ↦ w.code.handlers[l.handler]?) = codes.map some ∧
      Dispatch.fire (run depth) n event v w =
        Dispatch.runEach depth (codes.map fun code ↦ code ⟨n, event, v⟩) w) ∧
      (w.scene.listenersFor n event).Sublist w.scene.listeners ∧
      (∀ l, l ∈ w.scene.listenersFor n event ↔
        l ∈ w.scene.listeners ∧ l.node = n ∧ l.event = event) ∧
      w.scene.listeners.Pairwise (·.handler < ·.handler) ∧
      (∀ l ∈ w.scene.listeners, l.handler < w.code.handlers.size) ∧
      ∀ root, (w.scene.clearListeners root).listeners.Sublist w.scene.listeners ∧
        ∀ l, l ∈ (w.scene.clearListeners root).listeners ↔
          l ∈ w.scene.listeners ∧ ¬w.scene.document.AtOrAbove root l.node := by
  have hw : w.Enlisted := h _ World.robust_enlisted (World.enlisted_start hdocument.isForest data)
  have hmem : ∀ l, l ∈ w.scene.listenersFor n event ↔
      l ∈ w.scene.listeners ∧ l.node = n ∧ l.event = event := by
    intro l
    rw [Scene.listenersFor, List.mem_filter, Bool.and_eq_true, beq_iff_eq, beq_iff_eq]
  refine ⟨?_, List.filter_sublist, hmem, hw.ordered, hw.answered, fun root ↦
    ⟨List.filter_sublist, Scene.mem_clearListeners hw.forest root⟩⟩
  obtain ⟨codes, hcodes⟩ := hw.answered.exists_codes fun l hl ↦ ((hmem l).1 hl).1
  refine ⟨codes, hcodes, ?_⟩
  have hhandlers : (w.scene.handlersFor n event).map (w.code.handlers[·]?) = codes.map some := by
    rw [← hcodes, Scene.handlersFor, List.map_map]
    rfl
  exact Dispatch.callAll_eq_runEach hhandlers (.refl _)

/-- Notes down that it has been called, and ends as it is told. -/
def logging (number : Nat) (r : Except BindError Unit) :
    Program (List Nat) (Except BindError Unit) := do
  Program.modify (· ++ [number])
  return r

/-- Notes down that it has been called, takes all listeners away, puts a new one, empties the page,
fires the event over again, and fails. -/
def takingOver : Program (List Nat) (Except BindError Unit) := do
  let _ ← logging 1 (.ok ())
  Program.unlisten 1
  Program.listen 2 "click" fun _ ↦ logging 4 (.ok ())
  Program.edit (.setText 1 "gone")
  let _ ← Program.dispatch 2 "click" .null
  return .error (.missingHandler "first")

/-- Puts three listeners on a button. -/
def puttingThree : Action (List Nat) := Program.action do
  Program.listen 2 "click" fun _ ↦ takingOver
  Program.listen 2 "click" fun _ ↦ logging 2 (.error (.missingHandler "second"))
  Program.listen 2 "click" fun _ ↦ logging 3 (.ok ())
  return .ok ()

/-- A button within a paragraph. -/
def buttonPage : Document :=
  ((Document.empty.apply (.createElement "p")).apply (.createElement "button")).apply (.append 1 2)

/-- The listener that comes in addition is called by the event that is fired within, which calls
nobody else; the outer event goes on with those who were there. -/
theorem dispatch_laws_of_takingOver : ∃ w : World (List Nat),
    (World.start buttonPage []).Arises w ∧ (w.scene.listenersFor 2 "click").length = 3 ∧
      (∃ codes : List (Event → Action (List Nat)),
        (w.scene.listenersFor 2 "click").map (fun l ↦ w.code.handlers[l.handler]?) =
          codes.map some ∧
        Dispatch.fire (run 4) 2 "click" .null w =
          Dispatch.runEach 4 (codes.map fun code ↦ code ⟨2, "click", .null⟩) w) ∧
      (Dispatch.fire (run 4) 2 "click" .null w).map (fun p ↦ (p.1, p.2.scene.data)) =
        some (.error (.missingHandler "first"), [1, 4, 2, 3]) := by
  have hrun : ((run 1 puttingThree (.start buttonPage [])).bind fun p ↦
      (Dispatch.fire (run 4) 2 "click" .null p.2).map fun q ↦
        ((p.2.scene.listenersFor 2 "click").length, q.1, q.2.scene.data)) =
      some (3, .error (.missingHandler "first"), [1, 4, 2, 3]) := by
    decide +kernel
  have hbuilt : buttonPage.Built := ((Document.Built.empty.edit _).edit _).edit _
  obtain ⟨⟨r, w⟩, hput, hrun⟩ := Option.bind_eq_some_iff.1 hrun
  obtain ⟨⟨r', w'⟩, hfire, hfacts⟩ := Option.map_eq_some_iff.1 hrun
  simp only [Prod.mk.injEq] at hfacts
  obtain ⟨hthree, rfl, hdata⟩ := hfacts
  have harises := (World.Arises.refl _).of_run hput
  obtain ⟨hsnapshot, -⟩ := harises.dispatch_laws hbuilt 4 2 "click" .null
  exact ⟨w, harises, hthree, hsnapshot, by rw [hfire, ← hdata]; rfl⟩

end DataBinding

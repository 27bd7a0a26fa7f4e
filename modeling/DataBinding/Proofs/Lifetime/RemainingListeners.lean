import DataBinding.Engine.Run
import DataBinding.Proofs.Lifetime.Opening
import DataBinding.Proofs.Template.DocumentOrderWork

/-!
# What view-models take with them

Listeners have no owners.  When a view-model goes — its last handle is given back, or it could not
be made because its template does not compile — the listeners at and below its root are taken away,
whoever has put them there.

So **what is left are the listeners that stand elsewhere, in the order in which they were put**
(`World.Departs.spares`), and firing an event runs their code and nothing else.  A view-model that
fails has put listeners of its own before the error; none of them is left, since all of them stand
below its root (`Compilation.compile_posts`).  But a view-model inside the root of another one goes
silent when the other one goes (`inner_goes_silent`).
-/

set_option autoImplicit false

namespace DataBinding

variable {σ : Type}

/-! ## Running the code of listeners -/

/-- The code that some listeners have for an event on a node, in the order of the listeners. -/
def World.codeOf (w : World σ) (listeners : List Listener) (n : NodeId) (event : String) :
    List (Event → Action σ) :=
  (listeners.filter fun l ↦ l.node == n && l.event == event).filterMap fun l ↦
    w.code.handlers[l.handler]?

namespace Dispatch

/-- Runs code in turn; the first error is the result. -/
def inTurn (call : Call σ) (event : Event) : List (Event → Action σ) → Run σ (Except BindError Unit)
  | [] => return .ok ()
  | code :: rest => do
    let first ← call (code event)
    let others ← inTurn call event rest
    return firstError first others

/-- Handlers that are there are called with their code, whatever code is supplied meanwhile. -/
theorem callAll_eq_inTurn {call : Call σ} (hgrows : ∀ (c : Code σ) a,
    Run.Keeps (fun w ↦ c.Grows w.code) (call a)) {c : Code σ} {w : World σ} (hw : c.Grows w.code)
    (event : Event) {handlers : List Nat} (hhandlers : ∀ k ∈ handlers, k < c.handlers.size) :
    callAll call event handlers w =
      inTurn call event (handlers.filterMap fun k ↦ c.handlers[k]?) w := by
  induction handlers generalizing w with
  | nil => rfl
  | cons k rest ih =>
    have hk := hhandlers k List.mem_cons_self
    have hcode : w.code.handlers[k]? = some c.handlers[k] := by
      rw [hw.handlers_eq hk, Array.getElem?_eq_getElem hk]
    rw [List.filterMap_cons_some (Array.getElem?_eq_getElem hk)]
    show (callOne call event k w).bind _ = (call (c.handlers[k] event) w).bind _
    rw [callOne_of_code hcode]
    cases hrun : call (c.handlers[k] event) w with
    | none => rfl
    | some x =>
      exact congrArg (Option.bind · _) (ih ((hgrows c _).kept w x.1 x.2 hrun hw) fun k' hk' ↦
        hhandlers k' (List.mem_cons_of_mem k hk'))

/-- **Firing an event runs the code of the listeners for it**, in the order in which they were
put. -/
theorem fire_eq_inTurn {w : World σ} (hanswered : w.Answered) (depth : Nat) (n : NodeId)
    (event : String) (v : Value) :
    fire (run depth) n event v w =
      inTurn (run depth) ⟨n, event, v⟩ (w.codeOf w.scene.listeners n event) w := by
  have hcode : w.codeOf w.scene.listeners n event =
      (w.scene.handlersFor n event).filterMap fun k ↦ w.code.handlers[k]? := by
    rw [World.codeOf, Scene.handlersFor, List.filterMap_map]
    rfl
  rw [hcode]
  refine callAll_eq_inTurn (fun c a ↦ run_keeps (Code.robust_grows c) depth a) (.refl w.code) _
    fun k hk ↦ ?_
  obtain ⟨l, hl, rfl⟩ := List.mem_map.1 hk
  exact hanswered l (List.mem_filter.1 hl).1

end Dispatch

/-! ## Going -/

/-- The node that a view-model is attached to while it is made; none if it comes to nothing
before. -/
def Lifetime.rootOf (d : Document) (options : ViewModelOptions) : Option NodeId :=
  match stateOf options.state, locate d options.attach with
  | .ok _, .ok root => root
  | _, _ => none

/-- A view-model with the given root goes. -/
inductive World.Departs : Option NodeId → World σ → World σ → Prop
  /-- Its last handle is given back. -/
  | dropped {vm : ViewModelId} {v : ViewModel} {w w' : World σ}
      (hv : w.scene.viewModels[vm]? = some v) (hlast : v.handles = 1)
      (hrun : Lifetime.release vm w = some ((), w')) : Departs v.root w w'
  /-- It cannot be made. -/
  | failed {call : Call σ} {limit : Nat} {options : ViewModelOptions}
      {methods : String → ViewModelId → Event → Action σ} {e : OpenError} {w w' : World σ}
      (hrun : Lifetime.openViewModel call limit options methods w = some (.error e, w')) :
      Departs (Lifetime.rootOf w.scene.document options) w w'

theorem Scene.isUnder_eq_false_iff {s : Scene σ} (hd : s.document.IsForest) {root : Option NodeId}
    {n : NodeId} : s.isUnder root n = false ↔ ∀ r, root = some r → ¬s.document.AtOrAbove r n := by
  rw [isUnder, Option.any_eq_false]
  refine forall₂_congr fun r _ ↦ ?_
  rw [← hd.isInclusiveAncestor_iff, Bool.not_eq_true]

/-- Of the listeners of `w` those are left in `w'` that do not stand at or below the root, and
events run their code. -/
structure World.Spares (root : Option NodeId) (w w' : World σ) : Prop where
  listeners_eq : w'.scene.listeners =
    w.scene.listeners.filter fun l ↦ !w'.scene.isUnder root l.node
  /-- Nobody who stood elsewhere has come to stand below the root. -/
  elsewhere : ∀ l ∈ w.scene.listeners, l.node < w.scene.document.nodes.size →
    w.scene.isUnder root l.node = false → l ∈ w'.scene.listeners
  fire_eq : ∀ (depth : Nat) (n : NodeId) (event : String) (v : Value),
    Dispatch.fire (run depth) n event v w' =
      Dispatch.inTurn (run depth) ⟨n, event, v⟩ (w.codeOf w'.scene.listeners n event) w'

namespace World.Spares

variable {root : Option NodeId} {w w' : World σ}

/-- It is enough to know the listeners, and that links have only been cut. -/
theorem of_cut (hd : w.scene.document.IsForest) (hd' : w'.scene.document.IsForest)
    (hanswered : w.Answered) (hcut : w.scene.document.Cut w'.scene.document)
    (hgrows : w.code.Grows w'.code) (hlisteners : w'.scene.listeners =
      w.scene.listeners.filter fun l ↦ !w'.scene.isUnder root l.node) : w.Spares root w' where
  listeners_eq := hlisteners
  elsewhere l hl hlt hout := by
    rw [Scene.isUnder_eq_false_iff hd] at hout
    rw [hlisteners, List.mem_filter, Bool.not_eq_true', Scene.isUnder_eq_false_iff hd']
    exact ⟨hl, fun r hr habove ↦ hout r hr (habove.imp_right (hcut.above hd hlt))⟩
  fire_eq depth n event v := by
    have hmem : ∀ l ∈ w'.scene.listeners, l ∈ w.scene.listeners := fun l hl ↦ by
      rw [hlisteners] at hl
      exact (List.mem_filter.1 hl).1
    have hanswered' : w'.Answered := fun l hl ↦
      Nat.lt_of_lt_of_le (hanswered l (hmem l hl)) (by simpa using hgrows.handlers.length_le)
    have hcode : w'.codeOf w'.scene.listeners n event = w.codeOf w'.scene.listeners n event :=
      List.filterMap_congr fun l hl ↦
        hgrows.handlers_eq (hanswered l (hmem l (List.mem_filter.1 hl).1))
    rw [Dispatch.fire_eq_inTurn hanswered', hcode]

end World.Spares

namespace Lifetime

/-- A view-model that cannot be made leaves the listeners that stand elsewhere. -/
theorem open_failed {call : Call σ} {limit : Nat} {options : ViewModelOptions}
    {methods : String → ViewModelId → Event → Action σ} {e : OpenError} {w w' : World σ}
    (hd : w.scene.document.IsForest)
    (hrun : openViewModel call limit options methods w = some (.error e, w')) :
    w'.scene.document.IsForest ∧ w.scene.document.Cut w'.scene.document ∧ w.code.Grows w'.code ∧
      w'.scene.listeners = w.scene.listeners.filter fun l ↦
        !w'.scene.isUnder (rootOf w.scene.document options) l.node := by
  have hnothing : ∀ s : Scene σ,
      w.scene.listeners = w.scene.listeners.filter fun l ↦ !s.isUnder none l.node :=
    fun _ ↦ (List.filter_eq_self.2 fun _ _ ↦ rfl).symm
  cases open_outcome hrun with
  | stateless hstate =>
    rw [rootOf, hstate]
    exact ⟨hd, .refl _, .refl _, hnothing _⟩
  | astray hstate hlocate =>
    rw [rootOf, hstate, hlocate]
    exact ⟨hd, .refl _, .refl _, hnothing _⟩
  | @failed data state root e w₁ hstate hlocate hobserve hcompile =>
    have hd₀ : (w.withViewModel options methods (some root) state
        (Store.observe data w.scene.store).2).scene.document.IsForest := hd
    have hposts := Compilation.compile_posts DirectiveTable.standard_orderly hd₀ hcompile
    obtain ⟨made, hlisteners, hmade⟩ := hposts.posted
    have hvm : w₁.scene.viewModels[w.scene.viewModels.size]? =
        some ⟨1, some root, state, options.methods, ⟨[], .zero⟩⟩ := by
      rw [hposts.viewModels_eq]
      exact Array.getElem?_push_size
    have hown : ∀ l ∈ made, w₁.scene.isUnder (some root) l.node = true := fun l hl ↦
      hposts.forest.isInclusiveAncestor_iff.2 (.inr (hmade l hl))
    rw [rootOf, hstate, hlocate, World.released, hvm]
    refine ⟨hposts.forest, hposts.cut, (Code.Grows.of_methods ..).trans hposts.grows, ?_⟩
    show w₁.scene.listeners.filter (fun l ↦ !w₁.scene.isUnder (some root) l.node) = _
    rw [hlisteners, List.filter_append,
      (List.filter_eq_nil_iff (l := made)).2 fun l hl ↦ by simp [hown l hl], List.append_nil]
    rfl

end Lifetime

/-- **When a view-model goes, the listeners elsewhere stay and go on answering events.** -/
theorem World.Departs.spares {root : Option NodeId} {w w' : World σ} (h : w.Departs root w')
    (hd : w.scene.document.IsForest) (hanswered : w.Answered) : w.Spares root w' := by
  cases h with
  | dropped hv hlast hrun =>
    rw [Lifetime.release_eq, World.released, hv] at hrun
    simp only [hlast, if_true] at hrun
    cases hrun
    exact .of_cut hd hd hanswered (.refl _) (.refl _) rfl
  | failed hrun =>
    obtain ⟨hd', hcut, hgrows, hlisteners⟩ := Lifetime.open_failed hd hrun
    exact .of_cut hd hd' hanswered hcut hgrows hlisteners

/-! ## Two view-models on one page -/

/-- Makes two view-models whose method `hit` says so on the node that was hit. -/
def openTwo (first second : NodeId) : Action Unit :=
  Program.action do
    let options := fun n ↦ (⟨some (.node n), .null, .standard, ["hit"]⟩ : ViewModelOptions)
    let hit := fun _ _ (e : Event) ↦ do
      Program.edit (.setText e.target "hit")
      return .ok ()
    let _ ← Program.openViewModel (options first) hit
    let _ ← Program.openViewModel (options second) hit
    return .ok ()

/-- A page on which the two have been made. -/
def pageOfTwo (markup : String) (first second : NodeId) : Option (World Unit) :=
  (run 6 (openTwo first second) (.ofMarkup markup)).map Prod.snd

/-- What the node says after it has been clicked. -/
def World.afterClick (w : World Unit) (n : NodeId) : Option String :=
  (run 3 (.dispatch n "click" .null .done) w).map fun r ↦ r.2.scene.document.textContent n

/-- In a page on which view-models have been made, the document is a forest and listeners have
code. -/
theorem pageOfTwo_sound {markup : String} {first second : NodeId} {w : World Unit}
    (h : pageOfTwo markup first second = some w) : w.scene.document.IsForest ∧ w.Answered := by
  obtain ⟨⟨r, w⟩, hrun, rfl⟩ := Option.map_eq_some_iff.1 h
  exact ⟨((run_keeps World.robust_sound _ _).kept _ _ _ hrun (World.sound_ofMarkup markup)).forest,
    (run_keeps World.robust_answered _ _).kept _ _ _ hrun fun _ hl ↦ nomatch hl⟩

/-- Side by side, the second view-model goes on when the first one has gone. -/
theorem neighbour_goes_on : ∃ w w', pageOfTwo
      "<p><b @click=\"hit\"></b></p><p><b @click=\"hit\"></b></p>" 1 3 = some w ∧
    w.Departs (some 1) w' ∧ w.Spares (some 1) w' ∧ w'.afterClick 2 = some "" ∧
      w'.afterClick 4 = some "hit" := by
  have hpage :
      ((pageOfTwo "<p><b @click=\"hit\"></b></p><p><b @click=\"hit\"></b></p>" 1 3).any fun w ↦
        (w.scene.viewModels[0]?).any fun v ↦ decide (v.root = some 1 ∧ v.handles = 1 ∧
          (w.released 0).afterClick 2 = some "" ∧
          (w.released 0).afterClick 4 = some "hit")) = true := by
    decide +kernel
  obtain ⟨w, hw, hpage⟩ := (Option.any_eq_true _ _).1 hpage
  obtain ⟨v, hv, hpage⟩ := (Option.any_eq_true _ _).1 hpage
  obtain ⟨hroot, hlast, hrest⟩ := of_decide_eq_true hpage
  have hdeparts : w.Departs (some 1) (w.released 0) :=
    hroot ▸ .dropped hv hlast (Lifetime.release_eq 0 w)
  obtain ⟨hd, hanswered⟩ := pageOfTwo_sound hw
  exact ⟨w, w.released 0, hw, hdeparts, hdeparts.spares hd hanswered, hrest⟩

/-- **Inside the root of another one, a view-model goes silent** when the other one goes, though it
is still held. -/
theorem inner_goes_silent :
    ∃ w w', pageOfTwo "<div><p><b @click=\"hit\"></b></p></div>" 2 1 = some w ∧
    w.Departs (some 1) w' ∧ w'.scene.isOpen 0 = true ∧ w.scene.listenerCount 3 = 1 ∧
      w'.scene.listenerCount 3 = 0 ∧ w.afterClick 3 = some "hit" ∧ w'.afterClick 3 = some "" := by
  have hpage : ((pageOfTwo "<div><p><b @click=\"hit\"></b></p></div>" 2 1).any fun w ↦
      (w.scene.viewModels[1]?).any fun v ↦ decide (v.root = some 1 ∧ v.handles = 1 ∧
        (w.released 1).scene.isOpen 0 = true ∧ w.scene.listenerCount 3 = 1 ∧
        (w.released 1).scene.listenerCount 3 = 0 ∧ w.afterClick 3 = some "hit" ∧
        (w.released 1).afterClick 3 = some "")) = true := by decide +kernel
  obtain ⟨w, hw, hpage⟩ := (Option.any_eq_true _ _).1 hpage
  obtain ⟨v, hv, hpage⟩ := (Option.any_eq_true _ _).1 hpage
  obtain ⟨hroot, hlast, hrest⟩ := of_decide_eq_true hpage
  exact ⟨w, w.released 1, hw, hroot ▸ .dropped hv hlast (Lifetime.release_eq 1 w), hrest⟩

end DataBinding

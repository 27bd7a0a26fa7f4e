import DataBinding.Proofs.Engine.OrderPreservation
import DataBinding.Proofs.Engine.Traversal
import DataBinding.Proofs.Template.CompilationErrands

/-!
# Compilations that succeed

**Visiting a node is doing its errands** (`visitContent_eq`), whatever becomes of them.  If they
succeed, it is known what each of them has done (`present_succeeds`, `watch_succeeds`,
`bind_succeeds`).
-/

set_option autoImplicit false

namespace DataBinding

variable {σ : Type}

namespace Compilation

variable {α β : Type}

/-- A step of a compilation succeeds, with its result and what it leaves behind. -/
def Succeeds (m : Compilation σ α) (p : Progress) (w : World σ) (a : α) (p' : Progress)
    (w' : World σ) : Prop :=
  m.run.run p w = some ((.ok a, p'), w')

variable {p p' : Progress} {w w' : World σ}

theorem succeeds_pure {a b : α} :
    (pure a : Compilation σ α).Succeeds p w b p' w' ↔ b = a ∧ p' = p ∧ w' = w := by
  show some ((Except.ok a, p), w) = some ((Except.ok b, p'), w') ↔ _
  simp [eq_comm, and_assoc]

theorem succeeds_bind {m : Compilation σ α} {f : α → Compilation σ β} {b : β} :
    (m >>= f).Succeeds p w b p' w' ↔
      ∃ a p₁ w₁, m.Succeeds p w a p₁ w₁ ∧ (f a).Succeeds p₁ w₁ b p' w' := by
  rw [Succeeds, run_bind, Run.bind_eq_some_iff]
  constructor
  · rintro ⟨⟨x, p₁⟩, w₁, hm, hf⟩
    cases x with
    | error e => cases hf
    | ok a => exact ⟨a, p₁, w₁, hm, hf⟩
  · rintro ⟨a, p₁, w₁, hm, hf⟩
    exact ⟨(.ok a, p₁), w₁, hm, hf⟩

/-- What follows a step that succeeds. -/
theorem succeeds_bind_of {m : Compilation σ α} {f : α → Compilation σ β} {a : α} {b : β}
    {p₁ : Progress} {w₁ : World σ} (h : m.Succeeds p w a p₁ w₁) :
    (m >>= f).Succeeds p w b p' w' ↔ (f a).Succeeds p₁ w₁ b p' w' := by
  rw [succeeds_bind]
  constructor
  · rintro ⟨_, _, _, hm, hf⟩
    cases h.symm.trans hm
    exact hf
  · exact fun hf ↦ ⟨a, p₁, w₁, h, hf⟩

theorem succeeds_lift {r : Run σ α} {a : α} :
    (lift r).Succeeds p w a p' w' ↔ r w = some (a, w') ∧ p' = p := by
  rw [Succeeds, run_lift, Run.bind_eq_some_iff]
  constructor
  · rintro ⟨b, w₁, hr, h⟩
    cases h
    exact ⟨hr, rfl⟩
  · rintro ⟨hr, rfl⟩
    exact ⟨a, w', hr, rfl⟩

theorem succeeds_attempt {r : Run σ (Except BindError α)} {a : α} :
    (attempt r).Succeeds p w a p' w' ↔ r w = some (.ok a, w') ∧ p' = p := by
  rw [Succeeds, run_attempt, Run.bind_eq_some_iff]
  constructor
  · rintro ⟨x, w₁, hr, h⟩
    cases h
    exact ⟨hr, rfl⟩
  · rintro ⟨hr, rfl⟩
    exact ⟨.ok a, w', hr, rfl⟩

theorem succeeds_attemptState {r : Run σ (Except StateError α)} {a : α} :
    (attemptState r).Succeeds p w a p' w' ↔ r w = some (.ok a, w') ∧ p' = p := by
  rw [attemptState, succeeds_attempt]
  refine and_congr_left fun _ ↦ ?_
  rw [Run.bind_eq_some_iff]
  constructor
  · rintro ⟨x, w₁, hr, h⟩
    cases x with
    | error e => cases h
    | ok a =>
      cases h
      exact hr
  · exact fun h ↦ ⟨_, _, h, rfl⟩

theorem succeeds_hold {id : SubscriberId} {u : Unit} :
    (hold id : Compilation σ Unit).Succeeds p w u p' w' ↔
      p' = { p with scope := p.scope ++ [id] } ∧ w' = w := by
  show some ((Except.ok PUnit.unit, { p with scope := p.scope ++ [id] }), w)
    = some ((Except.ok u, p'), w') ↔ _
  simp [eq_comm]

theorem succeeds_count {f : CompileStats → CompileStats} {u : Unit} :
    (count f : Compilation σ Unit).Succeeds p w u p' w' ↔
      p' = { p with stats := f p.stats } ∧ w' = w := by
  show some ((Except.ok PUnit.unit, { p with stats := f p.stats }), w)
    = some ((Except.ok u, p'), w') ↔ _
  simp [eq_comm]

theorem not_succeeds_refuse {e : BindError} {a : α} :
    ¬(refuse e : Compilation σ α).Succeeds p w a p' w' := by
  show ¬some ((Except.error e, p), w) = some ((Except.ok a, p'), w')
  simp

/-! ## Compilations as lists of errands -/

section Errands

variable (call : Call σ) (job : CompileJob σ) (methods : String → Event → Action σ)

/-- Does an errand. -/
def perform : Errand → Compilation σ Unit
  | .count f => count f
  | .bind n b => bind call job methods n b
  | .strip n name => lift (Run.editDocument fun d ↦ d.removeAttribute n name)

/-- Does errands in turn. -/
def performAll : List Errand → Compilation σ Unit
  | [] => pure ()
  | e :: rest => do
    perform call job methods e
    performAll rest

/-- What visiting a node does that has the given content. -/
def visitContent (n : NodeId) : Option Content → Compilation σ Bool
  | some (.element e) => do
    count fun s ↦ { s with elements := s.elements + 1 }
    visitAttributes call job methods n e.attributes
  | some (.text text) => do
    if Template.hasExpression text then
      count fun s ↦ { s with texts := s.texts + 1 }
      direct call job methods n "text" "text" ⟨text, none⟩
    return false
  | _ => return false

theorem visitNode_eq (n : NodeId) :
    visitNode call job methods n = (do
      let s ← lift Run.scene
      visitContent call job methods n (s.document.content? n)) := rfl

variable {call job methods} {u : Unit}

theorem performAll_append_eq (es es' : List Errand) :
    performAll call job methods (es ++ es') = (do
      performAll call job methods es
      performAll call job methods es') := by
  induction es with
  | nil => rw [List.nil_append, performAll, pure_bind]
  | cons e es ih => rw [List.cons_append, performAll, performAll, ih, bind_assoc]

theorem direct_eq (n : NodeId) (unknown kind : String) (directive : Directive) :
    direct call job methods n unknown kind directive =
      performAll call job methods (Errand.ofDirective job.table n unknown kind directive) := by
  rw [direct, Errand.ofDirective]
  cases job.table.lookup kind with
  | none => rfl
  | some handler =>
    show (handler directive).forM _ =
      performAll call job methods ((handler directive).map (.bind n))
    generalize handler directive = bs
    induction bs with
    | nil => rfl
    | cons b bs ih =>
      rw [List.map_cons, performAll, ← ih]
      rfl

theorem visitAttribute_eq (n : NodeId) (name value : String) :
    visitAttribute call job methods n name value = (do
      performAll call job methods (Errand.ofAttribute job.table job.dialect n (name, value))
      return job.dialect.givesContent name) := by
  rw [visitAttribute, Errand.ofAttribute, Dialect.givesContent]
  cases job.dialect.classify name with
  | none => rw [performAll, pure_bind]
  | some marker =>
    cases marker <;>
      simp only [direct_eq, performAll_append_eq, performAll, perform, bind_assoc, pure_bind]

theorem visitAttributes_eq (n : NodeId) (as : List (String × String)) :
    visitAttributes call job methods n as = (do
      performAll call job methods (as.flatMap (Errand.ofAttribute job.table job.dialect n))
      return as.any fun a ↦ job.dialect.givesContent a.1) := by
  induction as with
  | nil => rw [visitAttributes, List.flatMap_nil, performAll, pure_bind, List.any_nil]
  | cons a as ih =>
    rw [visitAttributes, visitAttribute_eq, ih, List.flatMap_cons, performAll_append_eq,
      List.any_cons]
    simp only [bind_assoc, pure_bind]

/-- **Visiting a node is doing its errands**, whatever becomes of them. -/
theorem visitContent_eq (n : NodeId) (c : Option Content) :
    visitContent call job methods n c = (do
      performAll call job methods (Errand.ofNode job.table job.dialect n c)
      return job.dialect.owns c) := by
  cases c with
  | none => exact (pure_bind _ _).symm
  | some c =>
    cases c with
    | document | fragment | raw _ => exact (pure_bind _ _).symm
    | element x =>
      rw [visitContent, visitAttributes_eq, Errand.ofNode, performAll, bind_assoc]
      rfl
    | text t =>
      rw [visitContent, Errand.ofNode]
      split
      · rw [direct_eq, performAll, bind_assoc]
        rfl
      · exact (pure_bind _ _).symm

/-! ### Errands that succeed -/

theorem performAll_nil :
    (performAll call job methods []).Succeeds p w u p' w' ↔ p' = p ∧ w' = w := by
  rw [performAll, succeeds_pure]
  simp

theorem performAll_cons {e : Errand} {es : List Errand} :
    (performAll call job methods (e :: es)).Succeeds p w u p' w' ↔
      ∃ p₁ w₁, (perform call job methods e).Succeeds p w () p₁ w₁ ∧
        (performAll call job methods es).Succeeds p₁ w₁ u p' w' := by
  rw [performAll, succeeds_bind]
  exact ⟨fun ⟨_, p₁, w₁, h⟩ ↦ ⟨p₁, w₁, h⟩, fun ⟨p₁, w₁, h⟩ ↦ ⟨(), p₁, w₁, h⟩⟩

theorem performAll_singleton {e : Errand} :
    (performAll call job methods [e]).Succeeds p w u p' w' ↔
      (perform call job methods e).Succeeds p w () p' w' := by
  rw [performAll_cons]
  simp only [performAll_nil]
  constructor
  · rintro ⟨p₁, w₁, h, rfl, rfl⟩
    exact h
  · exact fun h ↦ ⟨p', w', h, rfl, rfl⟩

/-- **Visiting a node succeeds if its errands do.** -/
theorem visitNode_succeeds {n : NodeId} {b : Bool} :
    (visitNode call job methods n).Succeeds p w b p' w' ↔
      b = job.dialect.owns (w.scene.document.content? n) ∧ (performAll call job methods
        (Errand.ofNode job.table job.dialect n (w.scene.document.content? n))).Succeeds
          p w () p' w' := by
  simp only [visitNode_eq, visitContent_eq, succeeds_bind, succeeds_lift, succeeds_pure]
  constructor
  · rintro ⟨s, p₁, w₁, ⟨hs, rfl⟩, _, p₂, w₂, h, rfl, rfl, rfl⟩
    cases hs
    exact ⟨rfl, h⟩
  · rintro ⟨rfl, h⟩
    exact ⟨w.scene, p, w, ⟨rfl, rfl⟩, (), p', w', h, rfl, rfl, rfl⟩

end Errands

end Compilation

/-! ## What errands do to the world -/

namespace World

/-- The world after a binding has shown a text. -/
def presenting (w : World σ) (job : CompileJob σ) (n : NodeId) (slot : Slot) (text : String) :
    World σ :=
  { w with scene := { w.scene with
      data := job.note (.show n slot text) w.scene.data
      document := w.scene.document.apply (slot.edit n text) } }

/-- The world after a binding has put a listener on a node. -/
def listening (w : World σ) (job : CompileJob σ) (n : NodeId) (event : String)
    (handler : Event → Action σ) : World σ where
  scene := { w.scene with
    data := job.note (.listen n event) w.scene.data
    listeners := w.scene.listeners ++ [⟨n, event, w.code.handlers.size⟩] }
  code := { w.code with handlers := w.code.handlers.push handler }

/-- The world after a watcher has been made whose expression has a value. -/
def joined (w : World σ) (expr : String) (root : Value) (reaction : Value → Action σ) (v : Value) :
    World σ :=
  let id := w.scene.store.handles.size
  let x : Watcher := ⟨Text.trim expr, root, .null⟩
  ((w.enrolled (.watcher x) reaction).evaluated id x).noting id v

end World

/-- The code of the watchers of a bond. -/
def Bond.reaction (job : CompileJob σ) : Bond → Value → Action σ
  | .value n slot _ => job.showingValue n slot
  | .template n text => fun _ ↦ job.showingTemplate n text

namespace Compilation

variable {call : Call σ} {job : CompileJob σ} {methods : String → Event → Action σ}
  {p p' : Progress} {w w' : World σ} {u : Unit}

theorem present_succeeds {n : NodeId} {slot : Slot} {text : String} :
    (present job n slot text).Succeeds p w u p' w' ↔
      p' = p ∧ w' = w.presenting job n slot text := by
  rw [present, succeeds_lift, and_comm]
  refine and_congr_right fun _ ↦ ?_
  show some ((), w.presenting job n slot text) = some (u, w') ↔ _
  simp [eq_comm]

theorem listen_succeeds {n : NodeId} {event : String} {handler : Event → Action σ} :
    (listen job n event handler).Succeeds p w u p' w' ↔
      p' = p ∧ w' = w.listening job n event handler := by
  rw [listen, succeeds_lift, and_comm]
  refine and_congr_right fun _ ↦ ?_
  show some ((), w.listening job n event handler) = some (u, w') ↔ _
  simp [eq_comm]

theorem watch_succeeds {expr : String} {reaction : Value → Action σ} :
    (watch job expr reaction).Succeeds p w u p' w' ↔
      ∃ v, w.scene.store.resolve expr job.state = .ok v ∧
        p' = { p with scope := p.scope ++ [w.scene.store.handles.size] } ∧
        w' = w.joined expr job.state reaction v := by
  rw [watch, succeeds_bind]
  simp only [succeeds_attemptState, succeeds_hold, Notification.watch_eq, Store.resolve_trim]
  cases w.scene.store.resolve expr job.state with
  | error e => simp
  | ok v =>
    simp only [Option.some.injEq, Prod.mk.injEq, Except.ok.injEq]
    constructor
    · rintro ⟨_, _, _, ⟨⟨rfl, rfl⟩, rfl⟩, rfl, rfl⟩
      exact ⟨v, rfl, rfl, rfl⟩
    · rintro ⟨_, rfl, rfl, rfl⟩
      exact ⟨_, p, _, ⟨⟨rfl, rfl⟩, rfl⟩, rfl, rfl⟩

/-- Reading the value of an expression for a binding. -/
theorem value_succeeds (hidle : w.scene.store.tracking = []) {expr : String} {v : Value} :
    (attemptState (Run.onStore (Store.getValue expr job.state)) : Compilation σ Value).Succeeds
        p w v p' w' ↔
      w.scene.store.resolve expr job.state = .ok v ∧ w' = w ∧ p' = p := by
  have hvalue : Run.onStore (Store.getValue expr job.state) w
      = some (w.scene.store.resolve expr job.state, w) := by
    rw [Run.onStore, Store.getValue_eq, Store.touch_of_tracking_nil hidle]
  rw [succeeds_attemptState, hvalue, Option.some.injEq, Prod.mk.injEq, and_assoc,
    eq_comm (a := w)]

/-- Rendering a template for a binding. -/
theorem render_succeeds (hidle : w.scene.store.tracking = []) {template text : String} :
    (attemptState (Run.onStore (Store.render template job.state)) : Compilation σ String).Succeeds
        p w text p' w' ↔
      w.scene.store.filled template job.state = .ok text ∧ w' = w ∧ p' = p := by
  have hrender : Run.onStore (Store.render template job.state) w
      = some (w.scene.store.filled template job.state, w) := by
    rw [Run.onStore, Store.render_eq hidle]
  rw [succeeds_attemptState, hrender, Option.some.injEq, Prod.mk.injEq, and_assoc,
    eq_comm (a := w)]

/-- **Making a bond** is showing its text and watching its expressions. -/
theorem bind_succeeds {n : NodeId} {binding : Binding} {b : Bond}
    (hb : binding.bond? n = some b) (hidle : w.scene.store.tracking = []) :
    (bind call job methods n binding).Succeeds p w u p' w' ↔
      ∃ text, b.text w.scene.store job.state = .ok text ∧
        (b.exprs.forM fun expr ↦ watch job expr (b.reaction job)).Succeeds p
          (w.presenting job b.node b.slot text) u p' w' := by
  cases binding with
  | live slot expr =>
    cases hb
    rw [bind, succeeds_bind]
    simp only [value_succeeds hidle]
    show _ ↔ ∃ text, (w.scene.store.resolve expr job.state).map w.scene.store.display = .ok text ∧
      (watch job expr (job.showingValue n slot) >>= fun _ ↦ pure ()).Succeeds p
        (w.presenting job n slot text) u p' w'
    have hrest : ∀ v, (do
        present job n slot ((← lift Run.scene).store.display v)
        watch job expr fun v ↦ job.showingValue n slot v : Compilation σ Unit).Succeeds
          p w u p' w' ↔
        (watch job expr (job.showingValue n slot)).Succeeds p
          (w.presenting job n slot (w.scene.store.display v)) u p' w' := by
      intro v
      have hscene : (lift Run.scene : Compilation σ (Scene σ)).Succeeds p w w.scene p w :=
        succeeds_lift.2 ⟨rfl, rfl⟩
      rw [succeeds_bind_of hscene, succeeds_bind_of (present_succeeds (u := ()).2 ⟨rfl, rfl⟩)]
    have hlast : ∀ w₁, (watch job expr (job.showingValue n slot) >>= fun _ ↦ pure ()).Succeeds p w₁
        u p' w' ↔ (watch job expr (job.showingValue n slot)).Succeeds p w₁ u p' w' := by
      intro w₁
      rw [bind_pure]
    simp only [hlast]
    constructor
    · rintro ⟨v, p₁, w₁, ⟨hv, hw, hp⟩, h⟩
      rw [hw, hp] at h
      exact ⟨w.scene.store.display v, by rw [hv]; rfl, (hrest v).1 h⟩
    · rintro ⟨text, htext, h⟩
      cases hv : w.scene.store.resolve expr job.state with
      | error e =>
        rw [hv] at htext
        cases htext
      | ok v =>
        rw [hv] at htext
        cases htext
        exact ⟨v, p, w, ⟨rfl, rfl, rfl⟩, (hrest v).2 h⟩
  | template text =>
    cases hb
    rw [bind, succeeds_bind]
    simp only [render_succeeds hidle]
    constructor
    · rintro ⟨t, p₁, w₁, ⟨ht, hw, hp⟩, h⟩
      rw [hw, hp] at h
      exact ⟨t, ht, (succeeds_bind_of (present_succeeds (u := ()).2 ⟨rfl, rfl⟩)).1 h⟩
    · rintro ⟨t, ht, h⟩
      exact ⟨t, p, w, ⟨ht, rfl, rfl⟩,
        (succeeds_bind_of (present_succeeds (u := ()).2 ⟨rfl, rfl⟩)).2 h⟩
  | _ => cases hb

end Compilation

end DataBinding

import DataBinding.Proofs.Engine.Soundness
import DataBinding.Proofs.Template.CompilationErrands

/-!
# Code that keeps to rules

`Rules` say which edits code may make, and which subscribers are *spent*: nobody holds them any
more, and no code takes hold of them again.  Code *obeys* the rules if it and all code that it
supplies keeps to them (`Action.Obeys`).

Two worlds are `Alike` if they show the same scene and their code differs at most where it belongs
to spent subscribers; and all their other code obeys.  Then **whatever obedient code is run, it ends
alike in both worlds, with the same result** (`run_upholds`): the code of spent subscribers is never
called.  And if the edits that are allowed keep a property of the document, it is kept by the run.
A world is alike to itself, so this says something about single runs, too.
-/

set_option autoImplicit false

namespace DataBinding

variable {σ : Type}

/-- What code has to keep to. -/
structure Rules where
  /-- The edits that code may make. -/
  allows : Edit → Prop
  /-- The subscribers that code leaves alone. -/
  spent : SubscriberId → Prop

namespace Rules

/-- Nobody holds the spent subscribers. -/
def Fair (r : Rules) (s : Scene σ) : Prop :=
  ∀ id, r.spent id → id < s.store.handles.size ∧ s.store.isLive id = false

/-- Allowed edits keep a property of documents. -/
def Keeps (r : Rules) (P : Document → Prop) : Prop := ∀ e, r.allows e → ∀ d, P d → P (d.apply e)

end Rules

/-- The code keeps to the rules.  Code that looks at the scene may rely on spent subscribers being
dead, and code that makes subscribers on their not being spent.  Only where all edits are allowed
may it compile. -/
inductive Action.Obeys (r : Rules) : Action σ → Prop
  | done (result : Except BindError Unit) : Obeys r (.done result)
  | inspect {next : Scene σ → Action σ} (h : ∀ s, r.Fair s → Obeys r (next s)) :
      Obeys r (.inspect next)
  | modify (f : σ → σ) {next : Action σ} (h : Obeys r next) : Obeys r (.modify f next)
  | observe (data : Json) {next : Value → Action σ} (h : ∀ v, Obeys r (next v)) :
      Obeys r (.observe data next)
  | get (o : ObjectId) (key : String) {next : Option Value → Action σ} (h : ∀ v, Obeys r (next v)) :
      Obeys r (.get o key next)
  | getPath (path : String) (root : Value) {next : Except StateError Value → Action σ}
      (h : ∀ x, Obeys r (next x)) : Obeys r (.getPath path root next)
  | render (template : String) (root : Value) {next : Except StateError String → Action σ}
      (h : ∀ x, Obeys r (next x)) : Obeys r (.render template root next)
  | set (o : ObjectId) (key : String) (v : Value) {next : Except StateError Unit → Action σ}
      (h : ∀ x, Obeys r (next x)) : Obeys r (.set o key v next)
  | setPath (path : String) (root v : Value) {next : Except StateError Unit → Action σ}
      (h : ∀ x, Obeys r (next x)) : Obeys r (.setPath path root v next)
  | watch (expr : String) (root : Value) {reaction : Value → Action σ}
      {next : Except StateError SubscriberId → Action σ} (hreaction : ∀ v, Obeys r (reaction v))
      (h : ∀ x, (∀ id, x = .ok id → ¬r.spent id) → Obeys r (next x)) :
      Obeys r (.watch expr root reaction next)
  | probe {reaction : Action σ} {next : SubscriberId → Action σ} (hreaction : Obeys r reaction)
      (h : ∀ id, ¬r.spent id → Obeys r (next id)) : Obeys r (.probe reaction next)
  | retain {id : SubscriberId} {next : Action σ} (hid : ¬r.spent id) (h : Obeys r next) :
      Obeys r (.retain id next)
  | release (id : SubscriberId) {next : Action σ} (h : Obeys r next) : Obeys r (.release id next)
  | track {id : SubscriberId} {next : Action σ} (hid : ¬r.spent id) (h : Obeys r next) :
      Obeys r (.track id next)
  | untrack {next : Action σ} (h : Obeys r next) : Obeys r (.untrack next)
  | notify {ids : List SubscriberId} {next : Except StateError Unit → Action σ}
      (hids : ∀ id ∈ ids, ¬r.spent id) (h : ∀ x, Obeys r (next x)) : Obeys r (.notify ids next)
  | edit {e : Edit} {next : Action σ} (he : r.allows e) (h : Obeys r next) : Obeys r (.edit e next)
  | listen (n : NodeId) (event : String) {handler : Event → Action σ} {next : Action σ}
      (hhandler : ∀ e, Obeys r (handler e)) (h : Obeys r next) :
      Obeys r (.listen n event handler next)
  | unlisten (root : NodeId) {next : Action σ} (h : Obeys r next) : Obeys r (.unlisten root next)
  | dispatch (n : NodeId) (event : String) (v : Value) {next : Except BindError Unit → Action σ}
      (h : ∀ x, Obeys r (next x)) : Obeys r (.dispatch n event v next)
  | compile (job : CompileJob σ) {methods : String → Event → Action σ}
      {next : Except BindError Compiled → Action σ} (hall : ∀ e, r.allows e)
      (hmethods : ∀ name e, Obeys r (methods name e)) (h : ∀ x, Obeys r (next x)) :
      Obeys r (.compile job methods next)
  | openViewModel (options : ViewModelOptions) {methods : String → ViewModelId → Event → Action σ}
      {next : Except OpenError ViewModelId → Action σ} (hall : ∀ e, r.allows e)
      (hmethods : ∀ name vm e, Obeys r (methods name vm e)) (h : ∀ x, Obeys r (next x)) :
      Obeys r (.openViewModel options methods next)
  | retainViewModel (vm : ViewModelId) {next : Action σ} (h : Obeys r next) :
      Obeys r (.retainViewModel vm next)
  | releaseViewModel (vm : ViewModelId) {next : Action σ} (h : Obeys r next) :
      Obeys r (.releaseViewModel vm next)
  | invoke (vm : ViewModelId) (method : String) (event : Event)
      {next : Except BindError Unit → Action σ} (h : ∀ x, Obeys r (next x)) :
      Obeys r (.invoke vm method event next)

/-- All code obeys, but that of spent subscribers. -/
structure Code.Obeys (r : Rules) (c : Code σ) : Prop where
  reactions : ∀ (id : SubscriberId) reaction, ¬r.spent id → c.reactions[id]? = some reaction →
    ∀ v, (reaction v).Obeys r
  handlers : ∀ (n : Nat) handler, c.handlers[n]? = some handler → ∀ e, (handler e).Obeys r
  methods : ∀ (vm : ViewModelId) methods, c.methods[vm]? = some methods →
    ∀ name vm e, (methods name vm e).Obeys r

theorem Code.obeys_ofTemplate (r : Rules) (markup : String) (state : Json) :
    (World.ofTemplate markup state).code.Obeys r where
  reactions _ _ _ h := by simp [World.ofTemplate, World.ofMarkup, World.start] at h
  handlers _ _ h := by simp [World.ofTemplate, World.ofMarkup, World.start] at h
  methods _ _ h := by simp [World.ofTemplate, World.ofMarkup, World.start] at h

/-- Two supplies of code differ at most where it belongs to spent subscribers. -/
structure Code.Alike (r : Rules) (c c' : Code σ) : Prop where
  size_eq : c.reactions.size = c'.reactions.size
  reactions : ∀ id : SubscriberId, ¬r.spent id → c.reactions[id]? = c'.reactions[id]?
  handlers : c.handlers = c'.handlers
  methods : c.methods = c'.methods

/-- Two worlds that differ only in the code of spent subscribers, and in which everything else
obeys. -/
structure World.Alike (r : Rules) (P : Document → Prop) (v w : World σ) : Prop where
  scene : v.scene = w.scene
  aligned : w.Aligned
  document : P w.scene.document
  fair : r.Fair w.scene
  code : v.code.Alike r w.code
  obeys : w.code.Obeys r

/-- A world in which all code obeys is like itself. -/
theorem World.Alike.refl {r : Rules} {P : Document → Prop} {w : World σ} (haligned : w.Aligned)
    (hdocument : P w.scene.document) (hfair : r.Fair w.scene) (hobeys : w.code.Obeys r) :
    World.Alike r P w w :=
  ⟨rfl, haligned, hdocument, hfair, ⟨rfl, fun _ _ ↦ rfl, rfl, rfl⟩, hobeys⟩

/-- Something done with a store makes nobody, and brings none of the spent subscribers back. -/
structure Store.Spares {α : Type} (spent : SubscriberId → Prop) (f : Store → α × Store) : Prop
    extends Store.MakesNobody f where
  dead : ∀ s id, spent id → s.isLive id = false → (f s).2.isLive id = false

namespace Store.Spares

variable {α : Type} {spent : SubscriberId → Prop} {id : SubscriberId}

theorem of_handles {f : Store → α × Store} (h : ∀ s, (f s).2.handles = s.handles) :
    Spares spent f :=
  ⟨.of_handles h, fun s id _ hdead ↦ (Store.isLive_congr (h s) id).trans hdead⟩

theorem isLive_retain_eq_false {s : Store} {k : SubscriberId} (hne : k ≠ id)
    (h : s.isLive k = false) : (s.retain id).isLive k = false := by
  rw [Bool.eq_false_iff] at h ⊢
  rw [Ne, Store.isLive_retain]
  exact fun hlive ↦ hlive.elim h fun hid ↦ hne hid.1

theorem isLive_release_eq_false {s : Store} {k : SubscriberId} (h : s.isLive k = false) :
    (s.release id).isLive k = false := by
  rw [Bool.eq_false_iff] at h ⊢
  exact mt Store.isLive_of_release h

theorem retain (hid : ¬spent id) : Spares spent fun s ↦ ((), s.retain id) where
  toMakesNobody := .retain id
  dead _ _ hk := isLive_retain_eq_false fun heq ↦ hid (heq ▸ hk)

theorem track (hid : ¬spent id) : Spares spent fun s ↦ ((), s.track id) where
  toMakesNobody := .track id
  dead _ _ hk := isLive_retain_eq_false fun heq ↦ hid (heq ▸ hk)

theorem release (id : SubscriberId) : Spares spent fun s ↦ ((), s.release id) where
  toMakesNobody := .release id
  dead _ _ _ := isLive_release_eq_false

theorem untrack : Spares spent fun s ↦ ((), s.untrack) where
  toMakesNobody := .untrack
  dead s k _ hdead := by
    show s.untrack.isLive k = false
    rw [Store.untrack]
    split
    · exact hdead
    · exact isLive_release_eq_false hdead

theorem retainAll {ids : List SubscriberId} (hids : ∀ id ∈ ids, ¬spent id) :
    Spares spent fun s ↦ ((), ids.foldl Store.retain s) where
  toMakesNobody := .retainAll ids
  dead s k hk hdead := by
    induction ids generalizing s with
    | nil => exact hdead
    | cons id ids ih =>
      exact ih (fun i hi ↦ hids i (List.mem_cons_of_mem _ hi)) _
        ((retain (hids id List.mem_cons_self)).dead s k hk hdead)

theorem releaseAll (ids : List SubscriberId) : Spares spent fun s ↦ ((), s.releaseAll ids) where
  toMakesNobody := .releaseAll ids
  dead s k hk hdead := by
    induction ids generalizing s with
    | nil => exact hdead
    | cons id ids ih => exact ih _ ((release id).dead s k hk hdead)

theorem observe (data : Json) : Spares spent (Store.observe data) :=
  .of_handles fun s ↦ (Store.extends_observe data s).handles

theorem get (o : ObjectId) (key : String) : Spares spent fun s ↦ s.get o key :=
  .of_handles fun s ↦ s.handles_get o key

theorem getValue (path : String) (root : Value) : Spares spent (Store.getValue path root) :=
  .of_handles (Store.handles_getValue path root)

theorem render (template : String) (root : Value) : Spares spent (Store.render template root) :=
  .of_handles (Store.handles_render template root)

theorem target (path : String) (root : Value) : Spares spent (Store.target path root) :=
  .of_handles (Store.handles_target path root)

theorem evaluate (id : SubscriberId) (path : String) (root : Value) :
    Spares spent (Store.evaluate id path root) := .of_handles fun _ ↦ Store.handles_evaluate ..

theorem write (o : ObjectId) (key : String) (v : Value) : Spares spent fun s ↦ s.write o key v :=
  .of_handles fun _ ↦ Store.handles_write

theorem audience (o : ObjectId) (key : String) : Spares spent (Notification.audience o key) :=
  .of_handles fun _ ↦ rfl

end Store.Spares

/-! ## Ending alike -/

/-- A computation ends alike in worlds that are alike, with an answer of which something is
known. -/
structure Run.Upholds {α : Type} (r : Rules) (P : Document → Prop) (Q : α → Prop) (m : Run σ α) :
    Prop where
  related : ∀ v w, World.Alike r P v w →
    Option.Rel (fun x y ↦ x.1 = y.1 ∧ Q y.1 ∧ World.Alike r P x.2 y.2) (m v) (m w)

namespace Run.Upholds

variable {α β : Type} {r : Rules} {P : Document → Prop} {Q : α → Prop} {Q' : β → Prop} {m : Run σ α}

protected theorem pure {a : α} (ha : Q a) : Run.Upholds r P Q (pure a : Run σ α) :=
  ⟨fun _ _ h ↦ .some ⟨rfl, ha, h⟩⟩

protected theorem bind {f : α → Run σ β} (hm : Run.Upholds r P Q m)
    (hf : ∀ a, Q a → Run.Upholds r P Q' (f a)) : Run.Upholds r P Q' (m >>= f) := by
  refine ⟨fun v w h ↦ ?_⟩
  show Option.Rel _ ((m v).bind fun x ↦ f x.1 x.2) ((m w).bind fun x ↦ f x.1 x.2)
  have hrelated := hm.related v w h
  generalize m v = x, m w = y at hrelated ⊢
  cases hrelated with
  | none => exact .none
  | @some x y hxy =>
    obtain ⟨a, v₁⟩ := x
    obtain ⟨b, w₁⟩ := y
    obtain ⟨rfl, ha, h₁⟩ := hxy
    exact (hf a ha).related v₁ w₁ h₁

/-- A computation changes the world. -/
theorem change {f : World σ → α} {g : World σ → World σ}
    (h : ∀ v w, World.Alike r P v w → f v = f w ∧ Q (f w) ∧ World.Alike r P (g v) (g w)) :
    Run.Upholds r P Q fun w ↦ some (f w, g w) :=
  ⟨fun v w hvw ↦ .some (h v w hvw)⟩

/-- A computation looks at the world and goes on by what it has seen. -/
theorem get {k : World σ → Run σ α}
    (h : ∀ v w, World.Alike r P v w → k v = k w ∧ Run.Upholds r P Q (k w)) :
    Run.Upholds r P Q (MonadState.get >>= k) := by
  refine ⟨fun v w hvw ↦ ?_⟩
  obtain ⟨heq, hk⟩ := h v w hvw
  show Option.Rel _ (k v v) (k w w)
  rw [heq]
  exact hk.related v w hvw

theorem scene : Run.Upholds r P r.Fair (Run.scene : Run σ (Scene σ)) :=
  change fun _ _ h ↦ ⟨h.scene, h.fair, h⟩

theorem tooDeep : Run.Upholds r P Q (Run.tooDeep : Run σ α) := ⟨fun _ _ _ ↦ .none⟩

/-- A single run of it. -/
theorem kept (h : Run.Upholds r P Q m) {w w' : World σ} {a : α} (hrun : m w = some (a, w'))
    (hw : World.Alike r P w w) : Q a ∧ World.Alike r P w' w' := by
  have hrelated := h.related w w hw
  rw [hrun] at hrelated
  cases hrelated with
  | some h => exact h.2

end Run.Upholds

section Steps

open Run

variable {α : Type} {r : Rules} {P : Document → Prop}

/-- A change of the scene. -/
theorem upholds_onScene {f : Scene σ → α × Scene σ} {Q : α → Prop}
    (h : ∀ s : Scene σ, s.subscribers.size = s.store.handles.size → P s.document → r.Fair s →
      Q (f s).1 ∧ (f s).2.subscribers.size = s.subscribers.size ∧
        (f s).2.store.handles.size = s.store.handles.size ∧ P (f s).2.document ∧ r.Fair (f s).2) :
    Upholds r P Q fun w ↦ some ((f w.scene).1, { w with scene := (f w.scene).2 }) :=
  .change fun v w hvw ↦ by
    obtain ⟨hQ, hsubscribers, hhandles, hdocument, hfair⟩ :=
      h w.scene hvw.aligned.subscribers hvw.document hvw.fair
    refine ⟨by rw [hvw.scene], hQ, by simp only [hvw.scene], ⟨?_, ?_⟩, hdocument, hfair, hvw.code,
      hvw.obeys⟩
    · exact hsubscribers.trans (hvw.aligned.subscribers.trans hhandles.symm)
    · exact hvw.aligned.reactions.trans hsubscribers.symm

/-- Something done with the store, of whose answer something is known. -/
theorem upholds_onStore_of {f : Store → α × Store} {Q : α → Prop} (h : Store.Spares r.spent f)
    (hQ : ∀ s : Scene σ, r.Fair s → Q (f s.store).1) : Upholds r P Q (onStore f : Run σ α) :=
  upholds_onScene (f := fun s ↦ ((f s.store).1, { s with store := (f s.store).2 }))
    fun s _ hdocument hfair ↦ ⟨hQ s hfair, rfl, h.size_eq s.store, hdocument, fun id hid ↦
      ⟨Nat.lt_of_lt_of_eq (hfair id hid).1 (h.size_eq s.store).symm,
        h.dead s.store id hid (hfair id hid).2⟩⟩

theorem upholds_onStore {f : Store → α × Store} (h : Store.Spares r.spent f) :
    Upholds r P (fun _ ↦ True) (onStore f : Run σ α) :=
  upholds_onStore_of h fun _ _ ↦ trivial

/-- A change of what is neither store nor document. -/
theorem upholds_editScene {f : Scene σ → Scene σ} (hstore : ∀ s, (f s).store = s.store)
    (hsubscribers : ∀ s, (f s).subscribers.size = s.subscribers.size)
    (hdocument : ∀ s, (f s).document = s.document) :
    Upholds r P (fun _ ↦ True) (editScene f) :=
  upholds_onScene (f := fun s ↦ ((), f s)) fun s _ hP hfair ↦
    ⟨trivial, hsubscribers s, by rw [hstore], by rw [hdocument]; exact hP, fun id hid ↦ by
      rw [hstore]
      exact hfair id hid⟩

theorem upholds_onDocument {f : Document → α × Document} (h : ∀ d, P d → P (f d).2) :
    Upholds r P (fun _ ↦ True) (onDocument f : Run σ α) :=
  upholds_onScene (f := fun s ↦ ((f s.document).1, { s with document := (f s.document).2 }))
    fun s _ hP hfair ↦ ⟨trivial, rfl, rfl, h s.document hP, hfair⟩

theorem upholds_edit {e : Edit} (h : ∀ d, P d → P (d.apply e)) :
    Upholds r P (fun _ ↦ True) (editDocument fun d ↦ d.apply e : Run σ Unit) :=
  upholds_onDocument h

end Steps

/-! ## Telling subscribers -/

namespace Notification

open Run

variable {call : Call σ} {r : Rules} {P : Document → Prop} {id : SubscriberId}
  {ids : List SubscriberId}

theorem upholds_subscriber (s : Subscriber) {reaction : Value → Action σ}
    (hreaction : ∀ v, (reaction v).Obeys r) :
    Upholds r P (fun id ↦ ¬r.spent id) (subscriber s reaction) :=
  .change (f := fun w ↦ w.scene.store.handles.size) (g := fun w ↦ w.enrolled s reaction)
    fun v w hvw ↦ by
      have hnew : ¬r.spent w.scene.store.handles.size := fun hspent ↦
        Nat.lt_irrefl _ (hvw.fair _ hspent).1
      have hsize : w.code.reactions.size = w.scene.store.handles.size :=
        hvw.aligned.reactions.trans hvw.aligned.subscribers
      refine ⟨by rw [hvw.scene], hnew, ?_, ⟨?_, ?_⟩, hvw.document, fun id hid ↦ ?_,
        ⟨?_, fun id hid ↦ ?_, hvw.code.handlers, hvw.code.methods⟩,
        ⟨fun id code hid hcode ↦ ?_, hvw.obeys.handlers, hvw.obeys.methods⟩⟩
      · simp only [World.enrolled, hvw.scene]
      · simp [World.enrolled, Store.newSubscriber, hvw.aligned.subscribers]
      · simp [World.enrolled, hvw.aligned.reactions]
      · obtain ⟨hlt, hdead⟩ := hvw.fair id hid
        refine ⟨by simpa [World.enrolled, Store.newSubscriber] using Nat.lt_succ_of_lt hlt, ?_⟩
        rw [Bool.eq_false_iff, Ne]
        show ¬w.scene.store.newSubscriber.2.isLive id = true
        rw [Store.isLive_newSubscriber, hdead]
        rintro (hlive | rfl)
        · cases hlive
        · exact hnew hid
      · simp [World.enrolled, hvw.code.size_eq]
      · simp only [World.enrolled, Array.getElem?_push, hvw.code.size_eq, hvw.code.reactions id hid]
      · replace hcode : (w.code.reactions.push reaction)[id]? = some code := hcode
        rw [Array.getElem?_push] at hcode
        split at hcode
        · cases hcode
          exact hreaction
        · exact hvw.obeys.reactions id code hid hcode

theorem upholds_observed (id : SubscriberId) (v : Value) :
    Upholds r P (fun _ ↦ True) (observed id v : Run σ Unit) :=
  upholds_editScene (fun _ ↦ rfl) (fun _ ↦ Array.size_modify) fun _ ↦ rfl

theorem upholds_watch (expr : String) (root : Value) {reaction : Value → Action σ}
    (hreaction : ∀ v, (reaction v).Obeys r) :
    Upholds r P (fun x ↦ ∀ id, x = .ok id → ¬r.spent id) (watch expr root reaction) := by
  refine .bind (upholds_subscriber _ hreaction) fun id hid ↦
    .bind (upholds_onStore (.evaluate ..)) fun x _ ↦ ?_
  cases x with
  | error e => exact .bind (upholds_onStore (.release id)) fun _ _ ↦ .pure fun _ h ↦ nomatch h
  | ok v =>
    refine .bind (upholds_observed id v) fun _ _ ↦ .pure fun id' h ↦ ?_
    cases h
    exact hid

variable (hcall : ∀ a : Action σ, a.Obeys r → Upholds r P (fun _ ↦ True) (call a))

include hcall

theorem upholds_react (hid : ¬r.spent id) (v : Value) :
    Upholds r P (fun _ ↦ True) (react call id v) := by
  refine .get fun u w hvw ↦ ⟨by rw [hvw.code.reactions id hid], ?_⟩
  cases hcode : w.code.reactions[id]? with
  | none => exact .pure trivial
  | some reaction =>
    exact .bind (hcall _ (hvw.obeys.reactions id reaction hid hcode v)) fun _ _ ↦ .pure trivial

theorem upholds_update (hid : ¬r.spent id) : Upholds r P (fun _ ↦ True) (update call id) := by
  refine .bind .scene fun s _ ↦ ?_
  split
  · exact .pure trivial
  · exact upholds_react hcall hid .null
  · refine .bind (upholds_onStore (.evaluate ..)) fun x _ ↦ ?_
    split
    · exact .pure trivial
    · split
      · exact .pure trivial
      · refine .bind (upholds_react hcall hid _) fun x _ ↦ ?_
        split
        · exact .pure trivial
        · exact .bind (upholds_observed id _) fun _ _ ↦ .pure trivial

theorem upholds_updateAll (hids : ∀ id ∈ ids, ¬r.spent id) :
    Upholds r P (fun _ ↦ True) (updateAll call ids) := by
  induction ids with
  | nil => exact .pure trivial
  | cons id ids ih =>
    exact .bind (upholds_update hcall (hids id List.mem_cons_self)) fun _ _ ↦
      .bind (upholds_onStore (.release id)) fun _ _ ↦
        .bind (ih fun i hi ↦ hids i (List.mem_cons_of_mem _ hi)) fun _ _ ↦ .pure trivial

theorem upholds_notify (hids : ∀ id ∈ ids, ¬r.spent id) :
    Upholds r P (fun _ ↦ True) (notify call ids) :=
  .bind (upholds_onStore (.retainAll hids)) fun _ _ ↦ upholds_updateAll hcall hids

/-- **A write** tells nobody who is spent: those it tells are alive. -/
theorem upholds_set (o : ObjectId) (key : String) (v : Value) :
    Upholds r P (fun _ ↦ True) (set call o key v) := by
  refine .bind (upholds_onStore (.write o key v)) fun x _ ↦ ?_
  split
  · exact .pure trivial
  · exact .pure trivial
  · refine .bind (upholds_onStore_of (Q := fun ids ↦ ∀ id ∈ ids, ¬r.spent id) (.audience o key)
      fun s hfair id hmem hspent ↦ ?_) fun ids hids ↦ upholds_notify hcall hids
    have hlive := Store.isLive_of_mem_liveSubscribers hmem
    rw [Store.isLive_congr (s := s.store.prune o key) (t := s.store) rfl,
      (hfair id hspent).2] at hlive
    cases hlive

theorem upholds_setPath (path : String) (root v : Value) :
    Upholds r P (fun _ ↦ True) (setPath call path root v) := by
  refine .bind (upholds_onStore (.target path root)) fun x _ ↦ ?_
  split
  · exact .pure trivial
  · exact upholds_set hcall ..

end Notification

namespace Dispatch

open Run

variable {call : Call σ} {r : Rules} {P : Document → Prop}

theorem upholds_listen (n : NodeId) (event : String) {handler : Event → Action σ}
    (hhandler : ∀ e, (handler e).Obeys r) : Upholds r P (fun _ ↦ True) (listen n event handler) :=
  .change (f := fun _ ↦ ()) (g := fun w ↦
    { scene := { w.scene with listeners := w.scene.listeners ++ [⟨n, event, w.code.handlers.size⟩] }
      code := { w.code with handlers := w.code.handlers.push handler } }) fun v w hvw ↦ by
    refine ⟨rfl, trivial, by simp only [hvw.scene, hvw.code.handlers], ⟨hvw.aligned.subscribers,
      hvw.aligned.reactions⟩, hvw.document, hvw.fair, ⟨hvw.code.size_eq, hvw.code.reactions,
      by simp only [hvw.code.handlers], hvw.code.methods⟩,
      ⟨hvw.obeys.reactions, fun k code hcode ↦ ?_, hvw.obeys.methods⟩⟩
    rw [Array.getElem?_push] at hcode
    split at hcode
    · cases hcode
      exact hhandler
    · exact hvw.obeys.handlers k code hcode

/-- **An event.** -/
theorem upholds_fire (hcall : ∀ a : Action σ, a.Obeys r → Upholds r P (fun _ ↦ True) (call a))
    (n : NodeId) (event : String) (v : Value) :
    Upholds r P (fun _ ↦ True) (fire call n event v) := by
  have hall : ∀ handlers, Upholds r P (fun _ ↦ True) (callAll call ⟨n, event, v⟩ handlers) := by
    intro handlers
    induction handlers with
    | nil => exact .pure trivial
    | cons k handlers ih =>
      have hone : Upholds r P (fun _ ↦ True) (callOne call ⟨n, event, v⟩ k) := by
        refine .get fun v w hvw ↦ ⟨by rw [hvw.code.handlers], ?_⟩
        cases hcode : w.code.handlers[k]? with
        | none => exact .pure trivial
        | some code => exact hcall _ (hvw.obeys.handlers k code hcode _)
      exact .bind hone fun _ _ ↦ .bind ih fun _ _ ↦ .pure trivial
  exact .bind .scene fun s _ ↦ hall _

end Dispatch

/-! ## Compiling -/

namespace Compilation

open Run

/-- A step of a compilation ends alike in worlds that are alike. -/
structure Upholds {α : Type} (r : Rules) (P : Document → Prop) (m : Compilation σ α) : Prop where
  run : ∀ p, Run.Upholds r P (fun _ ↦ True) (m.run.run p)

namespace Upholds

variable {α β : Type} {r : Rules} {P : Document → Prop} {m : Compilation σ α}

protected theorem pure (a : α) : Upholds r P (pure a : Compilation σ α) := ⟨fun _ ↦ .pure trivial⟩

protected theorem bind {f : α → Compilation σ β} (hm : Upholds r P m)
    (hf : ∀ a, Upholds r P (f a)) :
    Upholds r P (m >>= f) := by
  refine ⟨fun p ↦ ?_⟩
  rw [run_bind]
  refine .bind (hm.run p) fun x _ ↦ ?_
  obtain ⟨_ | a, p'⟩ := x
  · exact .pure trivial
  · exact (hf a).run p'

theorem refuse (e : BindError) : Upholds r P (Compilation.refuse e : Compilation σ α) :=
  ⟨fun _ ↦ .pure trivial⟩

theorem hold (id : SubscriberId) : Upholds r P (Compilation.hold id : Compilation σ Unit) :=
  ⟨fun _ ↦ .pure trivial⟩

theorem count (f : CompileStats → CompileStats) :
    Upholds r P (Compilation.count f : Compilation σ Unit) := ⟨fun _ ↦ .pure trivial⟩

theorem lift {Q : α → Prop} {m : Run σ α} (h : Run.Upholds r P Q m) :
    Upholds r P (Compilation.lift m) := by
  refine ⟨fun p ↦ ?_⟩
  rw [run_lift]
  exact .bind h fun _ _ ↦ .pure trivial

theorem attempt {Q : Except BindError α → Prop} {m : Run σ (Except BindError α)}
    (h : Run.Upholds r P Q m) : Upholds r P (Compilation.attempt m) := by
  refine ⟨fun p ↦ ?_⟩
  rw [run_attempt]
  exact .bind h fun _ _ ↦ .pure trivial

theorem attemptState {Q : Except StateError α → Prop} {m : Run σ (Except StateError α)}
    (h : Run.Upholds r P Q m) : Upholds r P (Compilation.attemptState m) :=
  attempt (.bind h fun _ _ ↦ .pure (Q := fun _ ↦ True) trivial)

theorem compositional : Compositional fun _ (m : Compilation σ _) ↦ Upholds r P m where
  pure := .pure
  bind := .bind
  refuse := refuse
  scene := lift .scene
  count := count
  tooDeep := lift (Run.Upholds.tooDeep (Q := fun _ ↦ True))

end Upholds

variable {call : Call σ} {job : CompileJob σ} {methods : String → Event → Action σ} {r : Rules}
  {P : Document → Prop}

theorem upholds_present {n : NodeId} {slot : Slot} {text : String}
    (h : ∀ d, P d → P (d.apply (slot.edit n text))) : Upholds r P (present job n slot text) :=
  .lift <| .bind (upholds_editScene (fun _ ↦ rfl) (fun _ ↦ rfl) fun _ ↦ rfl) fun _ _ ↦
    upholds_edit h

theorem upholds_listen (n : NodeId) (event : String) {handler : Event → Action σ}
    (hhandler : ∀ e, (handler e).Obeys r) : Upholds r P (listen job n event handler) :=
  .lift <| .bind (upholds_editScene (fun _ ↦ rfl) (fun _ ↦ rfl) fun _ ↦ rfl) fun _ _ ↦
    Dispatch.upholds_listen n event hhandler

theorem upholds_watch (expr : String) {reaction : Value → Action σ}
    (hreaction : ∀ v, (reaction v).Obeys r) : Upholds r P (watch job expr reaction) :=
  .bind (.attemptState (Notification.upholds_watch _ _ hreaction)) fun id ↦ .hold id

/-- What a bond shows is an edit. -/
theorem obeys_showing {n : NodeId} {slot : Slot} {text : String} (h : r.allows (slot.edit n text)) :
    (job.showing n slot text).Obeys r :=
  .modify _ (.edit h (.done _))

theorem obeys_showingValue {n : NodeId} {slot : Slot} (h : ∀ text, r.allows (slot.edit n text))
    (v : Value) : (job.showingValue n slot v).Obeys r :=
  .inspect fun _ _ ↦ obeys_showing (h _)

theorem obeys_showingTemplate {n : NodeId} (h : ∀ text, r.allows (Slot.text.edit n text))
    (template : String) : (job.showingTemplate n template).Obeys r :=
  .render _ _ fun x ↦ match x with
    | .ok text => obeys_showing (h text)
    | .error _ => .done _

theorem obeys_writing (path : String) (e : Event) : (job.writing path e).Obeys r :=
  .inspect fun _ _ ↦ .setPath _ _ _ fun _ ↦ .done _

/-- A binding ends alike if what it shows at once keeps the property, and what it shows later is
allowed. -/
theorem upholds_bind (hkeeps : r.Keeps P)
    (hmethods : ∀ name e, (methods name e).Obeys r) {n : NodeId} {binding : Binding}
    (hcall : binding.isCall = true →
      ∀ a : Action σ, a.Obeys r → Run.Upholds r P (fun _ ↦ True) (call a))
    (hfixed : ∀ slot text, binding = .fixed slot text → ∀ d, P d → P (d.apply (slot.edit n text)))
    (hbond : ∀ b, binding.bond? n = some b → ∀ text, r.allows (b.edit text)) :
    Upholds r P (bind call job methods n binding) := by
  cases binding with
  | fixed slot text => exact upholds_present (hfixed slot text rfl)
  | live slot expr =>
    have hallowed : ∀ text, r.allows (slot.edit n text) := hbond _ rfl
    exact .bind (.attemptState (upholds_onStore (.getValue ..))) fun v ↦
      .bind (.lift .scene) fun _ ↦
      .bind (upholds_present (hkeeps _ (hallowed _))) fun _ ↦
        upholds_watch expr (obeys_showingValue hallowed)
  | template text =>
    have hallowed : ∀ text, r.allows (Slot.text.edit n text) := hbond _ rfl
    exact .bind (.attemptState (upholds_onStore (.render ..))) fun _ ↦
      .bind (upholds_present (hkeeps _ (hallowed _))) fun _ ↦
        Upholds.compositional.forM fun _ _ ↦
          upholds_watch _ fun _ ↦ obeys_showingTemplate hallowed text
  | writeBack expr => exact upholds_listen n _ (obeys_writing expr)
  | listen event method => exact upholds_listen n event (hmethods method)
  | call method event value => exact .attempt (hcall rfl _ (hmethods ..))
  | refuse e => exact .refuse e

/-- **Compiling**, where all edits are allowed. -/
theorem upholds_compile (hkeeps : r.Keeps P) (hall : ∀ e, r.allows e)
    (hcall : ∀ a : Action σ, a.Obeys r → Run.Upholds r P (fun _ ↦ True) (call a)) (limit : Nat)
    (job : CompileJob σ) (hmethods : ∀ name e, (methods name e).Obeys r) :
    Run.Upholds r P (fun _ ↦ True) (compile call limit job methods) := by
  have hedit : ∀ e d, P d → P (d.apply e) := fun e ↦ hkeeps e (hall e)
  refine .bind (upholds_onDocument (hedit (.stage job.root))) fun staged _ ↦
    .bind
      ((Upholds.compositional.visit
        (fun _ _ _ _ _ _ _ ↦ upholds_bind hkeeps hmethods (fun _ ↦ hcall) (fun _ _ _ ↦ hedit _)
          fun _ _ _ ↦ hall _)
        (fun n name ↦ .lift (upholds_edit (hedit (.removeAttribute n name))))
        limit [staged]).run .start)
      fun x _ ↦ .bind (upholds_edit (hedit (.restore staged job.root))) fun _ _ ↦ ?_
  split
  · exact .pure trivial
  · exact .bind (upholds_onStore (.releaseAll _)) fun _ _ ↦ .pure trivial

end Compilation

/-! ## View-models -/

namespace Lifetime

open Run

variable {call : Call σ} {r : Rules} {P : Document → Prop}

theorem upholds_edit (vm : ViewModelId) (f : ViewModel → ViewModel) :
    Upholds r P (fun _ ↦ True) (edit vm f : Run σ Unit) :=
  upholds_editScene (fun _ ↦ rfl) (fun _ ↦ rfl) fun _ ↦ rfl

theorem upholds_release (vm : ViewModelId) :
    Upholds r P (fun _ ↦ True) (release vm : Run σ Unit) := by
  refine .bind .scene fun s _ ↦ ?_
  split
  · exact .pure trivial
  · rename_i v _
    refine .bind (upholds_edit vm _) fun _ _ ↦ ?_
    have hreleased : Upholds r P (fun _ ↦ True)
        (Run.editStore fun s ↦ s.releaseAll v.compiled.scope : Run σ Unit) :=
      upholds_onStore (.releaseAll _)
    split
    · split
      · exact hreleased
      · exact .bind (upholds_editScene (fun _ ↦ rfl) (fun _ ↦ rfl) fun _ ↦ rfl) fun _ _ ↦ hreleased
    · exact .pure trivial

variable (hcall : ∀ a : Action σ, a.Obeys r → Upholds r P (fun _ ↦ True) (call a))

include hcall

theorem upholds_invoke (vm : ViewModelId) (method : String) (event : Event) :
    Upholds r P (fun _ ↦ True) (invoke call vm method event) := by
  refine .get fun v w hvw ↦ ⟨by rw [hvw.scene, hvw.code.methods], ?_⟩
  split
  · rename_i v methods _ hmethods
    split
    · exact .pure trivial
    · split
      · exact .pure trivial
      · exact .bind (upholds_edit vm _) fun _ _ ↦
          .bind (hcall _ (hvw.obeys.methods vm methods hmethods ..)) fun _ _ ↦
            .bind (upholds_release vm) fun _ _ ↦ .pure trivial
  · exact .pure trivial

/-- **Opening a view-model**, where all edits are allowed. -/
theorem upholds_openViewModel (hkeeps : r.Keeps P) (hall : ∀ e, r.allows e) (limit : Nat)
    (options : ViewModelOptions) {methods : String → ViewModelId → Event → Action σ}
    (hmethods : ∀ name vm e, (methods name vm e).Obeys r) :
    Upholds r P (fun _ ↦ True) (openViewModel call limit options methods) := by
  have hpush : Upholds r P (fun _ ↦ True) (editCode fun code ↦
      { code with methods := code.methods.push methods } : Run σ Unit) :=
    .change fun v w hvw ↦ by
      refine ⟨rfl, trivial, hvw.scene, ⟨hvw.aligned.subscribers, hvw.aligned.reactions⟩,
        hvw.document, hvw.fair, ⟨hvw.code.size_eq, hvw.code.reactions, hvw.code.handlers, ?_⟩,
        ⟨hvw.obeys.reactions, hvw.obeys.handlers, fun vm code hcode ↦ ?_⟩⟩
      · simp only [hvw.code.methods]
      · rw [Array.getElem?_push] at hcode
        split at hcode
        · cases hcode
          exact hmethods
        · exact hvw.obeys.methods vm code hcode
  rw [openViewModel]
  split
  · exact .pure trivial
  · refine .bind (upholds_onStore (.observe _)) fun v _ ↦ ?_
    split
    · refine .bind .scene fun s _ ↦ ?_
      split
      · exact .pure trivial
      · refine .bind .scene fun s _ ↦
          .bind (upholds_editScene (fun _ ↦ rfl) (fun _ ↦ rfl) fun _ ↦ rfl) fun _ _ ↦
            .bind hpush fun _ _ ↦ ?_
        split
        · exact .pure trivial
        · refine .bind (Compilation.upholds_compile hkeeps hall hcall limit _
            fun _ _ ↦ .invoke _ _ _ fun _ ↦ .done _) fun x _ ↦ ?_
          split
          · exact .bind (upholds_edit ..) fun _ _ ↦ .pure trivial
          · exact .bind (upholds_release _) fun _ _ ↦ .pure trivial
    · exact .pure trivial

end Lifetime

/-! ## Running -/

section Follow

open Run

variable {r : Rules} {P : Document → Prop}

/-- **Following an obedient action ends alike**, given that the code it calls does. -/
theorem follow_upholds (hkeeps : r.Keeps P) {call : Call σ}
    (hcall : ∀ a : Action σ, a.Obeys r → Upholds r P (fun _ ↦ True) (call a)) (limit : Nat)
    {a : Action σ} (ha : a.Obeys r) : Upholds r P (fun _ ↦ True) (follow call limit a) := by
  induction ha with
  | done x => exact .pure trivial
  | inspect _ ih => exact .bind .scene fun s hs ↦ ih s hs
  | modify f _ ih =>
    exact .bind (upholds_editScene (fun _ ↦ rfl) (fun _ ↦ rfl) fun _ ↦ rfl) fun _ _ ↦ ih
  | observe data _ ih => exact .bind (upholds_onStore (.observe data)) fun v _ ↦ ih v
  | get o key _ ih => exact .bind (upholds_onStore (.get o key)) fun v _ ↦ ih v
  | getPath path root _ ih => exact .bind (upholds_onStore (.getValue path root)) fun x _ ↦ ih x
  | render template root _ ih =>
    exact .bind (upholds_onStore (.render template root)) fun x _ ↦ ih x
  | set o key v _ ih => exact .bind (Notification.upholds_set hcall o key v) fun x _ ↦ ih x
  | setPath path root v _ ih =>
    exact .bind (Notification.upholds_setPath hcall path root v) fun x _ ↦ ih x
  | watch expr root hreaction _ _ ih =>
    exact .bind (Notification.upholds_watch expr root hreaction) fun x hx ↦ ih x hx
  | probe hreaction _ _ ih =>
    exact .bind (Notification.upholds_subscriber _ fun _ ↦ hreaction) fun id hid ↦ ih id hid
  | retain hid _ ih => exact .bind (upholds_onStore (.retain hid)) fun _ _ ↦ ih
  | release id _ ih => exact .bind (upholds_onStore (.release id)) fun _ _ ↦ ih
  | track hid _ ih => exact .bind (upholds_onStore (.track hid)) fun _ _ ↦ ih
  | untrack _ ih => exact .bind (upholds_onStore .untrack) fun _ _ ↦ ih
  | notify hids _ ih => exact .bind (Notification.upholds_notify hcall hids) fun x _ ↦ ih x
  | edit he _ ih => exact .bind (upholds_edit (hkeeps _ he)) fun _ _ ↦ ih
  | listen n event hhandler _ _ ih =>
    exact .bind (Dispatch.upholds_listen n event hhandler) fun _ _ ↦ ih
  | unlisten root _ ih =>
    exact .bind (upholds_editScene (fun _ ↦ rfl) (fun _ ↦ rfl) fun _ ↦ rfl) fun _ _ ↦ ih
  | dispatch n event v _ ih => exact .bind (Dispatch.upholds_fire hcall n event v) fun x _ ↦ ih x
  | compile job hall hmethods _ _ ih =>
    exact .bind (Compilation.upholds_compile hkeeps hall hcall limit job hmethods) fun x _ ↦ ih x
  | openViewModel options hall hmethods _ _ ih =>
    exact .bind (Lifetime.upholds_openViewModel hcall hkeeps hall limit options hmethods)
      fun x _ ↦ ih x
  | retainViewModel vm _ ih => exact .bind (Lifetime.upholds_edit vm _) fun _ _ ↦ ih
  | releaseViewModel vm _ ih => exact .bind (Lifetime.upholds_release vm) fun _ _ ↦ ih
  | invoke vm method event _ ih =>
    exact .bind (Lifetime.upholds_invoke hcall vm method event) fun x _ ↦ ih x

/-- **Whatever obedient code is run, it ends alike in worlds that are alike.** -/
theorem run_upholds (hkeeps : r.Keeps P) (depth : Nat) {a : Action σ} (ha : a.Obeys r) :
    Upholds r P (fun _ ↦ True) (run depth a) := by
  induction depth generalizing a with
  | zero => exact .tooDeep
  | succ depth ih => exact follow_upholds hkeeps (fun b hb ↦ ih hb) depth ha

end Follow

end DataBinding

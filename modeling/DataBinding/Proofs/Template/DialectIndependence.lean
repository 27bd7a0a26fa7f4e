import DataBinding.Proofs.Template.MarkerSpelling
import DataBinding.Proofs.Template.LeftoverMarkers

/-!
# Compiling in another dialect

A template can be compiled as it is written, or its markers can be respelled and the result compiled
in the dialect of their new prefixes.  `Translates` relates the steps of the two compilations: the
second one does to the respelled world what the first one does to the world, up to the same error.
It holds of the bindings and of the taking away of markers, so **it holds of a whole visit**
(`translates_visit`).

Hence **spelling does not matter** (`spelling_does_not_matter`): what the two compilations leave
differs in the spelling of the markers that are still there, which are those that a compilation that
fails has not come to (`bogus_keeps_its_prefix`).
-/

set_option autoImplicit false

namespace DataBinding

open Document

variable {σ : Type}

/-- The error with the name of an attribute spelled in the other dialect. -/
def BindError.respell (b c : Dialect) : BindError → BindError
  | .unknownDirective name => .unknownDirective (b.respell c name)
  | e => e

/-- A binding that neither sets a marker nor complains about one. -/
def Binding.Plain (b c : Dialect) : Binding → Prop
  | .fixed slot _ => slot.Plain b c
  | .live slot _ => slot.Plain b c
  | .refuse e => e.respell b c = e
  | _ => True

/-- **The standard directives set no marker but the detail of `attr`.** -/
theorem DirectiveTable.standard_plain {b c : Dialect} {kind : String} {handler : DirectiveHandler}
    (h : standard.lookup kind = some handler) {directive : Directive}
    (hdetail : kind = "attr" → ∀ name, directive.detail = some name → Dialect.Plain b c name)
    {binding : Binding} (hbinding : binding ∈ handler directive) : binding.Plain b c := by
  rcases standard_cases h with ⟨-, rfl⟩ | ⟨-, rfl⟩ | ⟨-, rfl⟩ | ⟨hkind, rfl⟩ | ⟨-, rfl⟩
  · rw [DirectiveHandler.text] at hbinding
    split at hbinding <;> rw [List.mem_singleton.1 hbinding] <;> trivial
  · rw [List.mem_singleton.1 hbinding]
    trivial
  · rcases List.mem_cons.1 hbinding with rfl | hbinding
    · trivial
    · rw [List.mem_singleton.1 hbinding]
      trivial
  · rw [DirectiveHandler.attr] at hbinding
    split at hbinding
    · rename_i name hname
      rw [List.mem_singleton.1 hbinding]
      exact hdetail hkind name hname
    · rw [List.mem_singleton.1 hbinding]
      rfl
  · rw [DirectiveHandler.on] at hbinding
    split at hbinding <;> rw [List.mem_singleton.1 hbinding]
    · trivial
    · rfl

/-- The world with the markers of a template spelled in the other dialect. -/
def World.respell (b c : Dialect) (T : NodeId → Bool) (w : World σ) : World σ :=
  w.withDocument (w.scene.document.respell b c T)

/-- The job in another dialect. -/
def CompileJob.speaking (job : CompileJob σ) (c : Dialect) : CompileJob σ :=
  { job with dialect := c }

/-! ## Steps that do not look at the document -/

namespace Run

variable {α β : Type}

/-- A computation that neither looks at the document nor changes it. -/
def Blind (r : Run σ α) : Prop :=
  ∀ w d, r (w.withDocument d) = (r w).map fun x ↦ (x.1, x.2.withDocument d)

theorem Blind.document_eq {r : Run σ α} (h : Blind r) {w w' : World σ} {a : α}
    (hrun : r w = some (a, w')) : w'.scene.document = w.scene.document := by
  have hsame := h w w.scene.document
  rw [show w.withDocument w.scene.document = w from rfl, hrun] at hsame
  exact congrArg (fun x ↦ x.2.scene.document) (Option.some.inj hsame)

theorem Blind.bind {r : Run σ α} {f : α → Run σ β} (h : Blind r) (hf : ∀ a, Blind (f a)) :
    Blind (r >>= f) := by
  intro w d
  show (r (w.withDocument d)).bind _ = ((r w).bind _).map _
  rw [h w d]
  cases r w with
  | none => rfl
  | some x => exact hf x.1 x.2 d

theorem blind_pure (a : α) : Blind (pure a : Run σ α) := fun _ _ ↦ rfl

theorem blind_onStore (f : Store → α × Store) : Blind (Run.onStore f : Run σ α) := fun _ _ ↦ rfl

/-- Making a watcher is a matter of the store. -/
theorem blind_watch (expr : String) (root : Value) (reaction : Value → Action σ) :
    Blind (Notification.watch expr root reaction) := by
  have hsubscriber : ∀ s, Blind (Notification.subscriber s reaction) := fun _ _ _ ↦ rfl
  have hobserved : ∀ id v, Blind (Notification.observed id v : Run σ Unit) := fun _ _ _ _ ↦ rfl
  refine (hsubscriber _).bind fun id ↦ (blind_onStore _).bind fun x ↦ ?_
  cases x with
  | error e => exact (blind_onStore _).bind fun _ ↦ blind_pure _
  | ok v => exact (hobserved id v).bind fun _ ↦ blind_pure _

end Run

namespace Compilation

variable {α β : Type} {b c : Dialect} {T : NodeId → Bool}

/-! ## Two steps -/

/-- A step does to a world with a template what the other one does to the world with the template
respelled, and leaves it translatable. -/
structure Translates (b c : Dialect) (T : NodeId → Bool) (m m' : Compilation σ α) : Prop where
  run_eq : ∀ p w, w.scene.document.Translatable b c T →
    m'.run.run p (w.respell b c T) = (m.run.run p w).map fun x ↦
      ((x.1.1.mapError (BindError.respell b c), x.1.2), x.2.respell b c T)
  keeps : ∀ {p q w v x}, w.scene.document.Translatable b c T → m.run.run p w = some ((x, q), v) →
    v.scene.document.Translatable b c T

namespace Translates

theorem pure (a : α) : Translates b c T (σ := σ) (Pure.pure a) (Pure.pure a) where
  run_eq _ _ _ := rfl
  keeps hw h := by
    cases h
    exact hw

theorem refuse (e : BindError) :
    Translates b c T (σ := σ) (α := α) (Compilation.refuse e)
      (Compilation.refuse (e.respell b c)) where
  run_eq _ _ _ := rfl
  keeps hw h := by
    cases h
    exact hw

theorem count (f : CompileStats → CompileStats) :
    Translates b c T (σ := σ) (Compilation.count f) (Compilation.count f) where
  run_eq _ _ _ := rfl
  keeps hw h := by
    cases h
    exact hw

theorem hold (id : SubscriberId) :
    Translates b c T (σ := σ) (Compilation.hold id) (Compilation.hold id) where
  run_eq _ _ _ := rfl
  keeps hw h := by
    cases h
    exact hw

theorem tooDeep : Translates b c T (σ := σ) (α := α) (Compilation.lift Run.tooDeep)
    (Compilation.lift Run.tooDeep) where
  run_eq _ _ _ := rfl
  keeps _ h := nomatch h

/-- **Steps in turn.** -/
theorem bind {m m' : Compilation σ α} {f f' : α → Compilation σ β} (hm : Translates b c T m m')
    (hf : ∀ a, Translates b c T (f a) (f' a)) : Translates b c T (m >>= f) (m' >>= f') where
  run_eq p w hw := by
    rw [run_bind, run_bind]
    show (m'.run.run p (w.respell b c T)).bind _ = ((m.run.run p w).bind _).map _
    rw [hm.run_eq p w hw]
    cases hrun : m.run.run p w with
    | none => rfl
    | some outcome =>
      obtain ⟨⟨x, q⟩, v⟩ := outcome
      cases x with
      | error e => rfl
      | ok a => exact (hf a).run_eq q v (hm.keeps hw hrun)
  keeps hw hrun := by
    rw [run_bind] at hrun
    obtain ⟨⟨x, q⟩, v, hfirst, hrest⟩ := Run.bind_eq_some_iff.1 hrun
    have hv := hm.keeps hw hfirst
    cases x with
    | error e =>
      cases hrest
      exact hv
    | ok a => exact (hf a).keeps hv hrest

theorem forM {xs : List β} {f f' : β → Compilation σ Unit}
    (hf : ∀ x ∈ xs, Translates b c T (f x) (f' x)) : Translates b c T (xs.forM f) (xs.forM f') := by
  induction xs with
  | nil => exact pure ()
  | cons x xs ih =>
    exact bind (hf x List.mem_cons_self) fun _ ↦ ih fun y hy ↦ hf y (List.mem_cons_of_mem x hy)

/-- What follows a look at the scene. -/
theorem scene {f f' : Scene σ → Compilation σ β}
    (hf : ∀ w : World σ, w.scene.document.Translatable b c T →
      Translates b c T (f w.scene) (f' (w.respell b c T).scene)) :
    Translates b c T (Compilation.lift Run.scene >>= f) (Compilation.lift Run.scene >>= f') where
  run_eq p w hw := (hf w hw).run_eq p w hw
  keeps hw hrun := (hf _ hw).keeps hw hrun

theorem lift {r r' : Run σ α}
    (hrun : ∀ w, w.scene.document.Translatable b c T →
      r' (w.respell b c T) = (r w).map fun x ↦ (x.1, x.2.respell b c T))
    (hkeeps : ∀ {w a v}, w.scene.document.Translatable b c T → r w = some (a, v) →
      v.scene.document.Translatable b c T) :
    Translates b c T (Compilation.lift r) (Compilation.lift r') where
  run_eq p w hw := by
    rw [run_lift, run_lift]
    show (r' (w.respell b c T)).bind _ = ((r w).bind _).map _
    rw [hrun w hw]
    cases r w <;> rfl
  keeps hw h := by
    rw [run_lift] at h
    obtain ⟨a, v, hr, hv⟩ := Run.bind_eq_some_iff.1 h
    cases hv
    exact hkeeps hw hr

theorem blind {r : Run σ α} (h : Run.Blind r) :
    Translates b c T (Compilation.lift r) (Compilation.lift r) := by
  refine lift (fun w hw ↦ ?_) fun hw hr ↦ ?_
  · show r (w.withDocument _) = _
    rw [h]
    cases hr : r w with
    | none => rfl
    | some outcome =>
      rw [← h.document_eq hr]
      rfl
  · rwa [h.document_eq hr]

theorem blindState {r : Run σ (Except StateError α)} (h : Run.Blind r) :
    Translates b c T (attemptState r) (attemptState r) where
  run_eq p w _ := by
    rw [attemptState, run_attempt]
    show ((r (w.withDocument _)).bind _).bind _ = (((r w).bind _).bind _).map _
    rw [h]
    cases hr : r w with
    | none => rfl
    | some outcome =>
      obtain ⟨x, v⟩ := outcome
      rw [← h.document_eq hr]
      cases x <;> rfl
  keeps hw hrun := by
    rw [attemptState, run_attempt] at hrun
    obtain ⟨x, v, hr, hv⟩ := Run.bind_eq_some_iff.1 hrun
    obtain ⟨y, u, hu, hx⟩ := Run.bind_eq_some_iff.1 hr
    cases hx
    cases hv
    rwa [h.document_eq hu]

end Translates

/-! ## A visit -/

theorem bind_speaking (call : Call σ) (job : CompileJob σ) (methods : String → Event → Action σ)
    (n : NodeId) (binding : Binding) (c : Dialect) :
    Compilation.bind call (job.speaking c) methods n binding =
      Compilation.bind call job methods n binding := by
  cases binding <;> rfl

section Visit

variable {call : Call σ} {job : CompileJob σ} {methods : String → Event → Action σ} {n : NodeId}

theorem translates_watch (expr : String) (reaction : Value → Action σ) :
    Translates b c T (watch job expr reaction) (watch job expr reaction) :=
  .bind (.blindState (Run.blind_watch expr _ reaction)) .hold

theorem translates_listen (event : String) (handler : Event → Action σ) :
    Translates b c T (listen job n event handler) (listen job n event handler) :=
  .blind fun _ _ ↦ rfl

variable (hc : c.Accepted) (hn : T n)

include hc hn

theorem translates_present {slot : Slot} (hslot : slot.Plain b c) (text : String) :
    Translates b c T (present job n slot text) (present job n slot text) := by
  refine .lift (fun w hw ↦ ?_) fun hw hr ↦ ?_
  · exact congrArg (fun d ↦ some ((), (w.presenting job n slot text).withDocument d))
      (hw.respell_edit hc hn hslot text).symm
  · cases hr
    exact hw.edit hn hslot text

/-- **A marker is taken away.** -/
theorem translates_strip {name : String} (hname : Dialect.Fair b c name) :
    Translates b c T (σ := σ) (lift (Run.editDocument fun d ↦ d.removeAttribute n name))
      (lift (Run.editDocument fun d ↦ d.removeAttribute n (b.respell c name))) := by
  refine .lift (fun w hw ↦ ?_) fun hw hr ↦ ?_
  · exact congrArg (fun d ↦ some ((), w.withDocument d)) (hw.respell_strip hc hn hname).symm
  · cases hr
    exact hw.strip hn name

/-- **A binding is made**, unless it calls something or sets a marker. -/
theorem translates_bind {binding : Binding} (hsilent : binding.isCall = false)
    (hplain : binding.Plain b c) :
    Translates b c T (Compilation.bind call job methods n binding)
      (Compilation.bind call (job.speaking c) methods n binding) := by
  rw [bind_speaking]
  cases binding with
  | fixed slot text => exact translates_present hc hn hplain text
  | live slot expr =>
    exact .bind (.blindState (Run.blind_onStore _)) fun _ ↦ .scene fun _ _ ↦
      .bind (translates_present hc hn hplain _) fun _ ↦ translates_watch ..
  | template text =>
    exact .bind (.blindState (Run.blind_onStore _)) fun _ ↦
      .bind (translates_present hc hn (show Slot.Plain b c .text from trivial) _) fun _ ↦
        .forM fun _ _ ↦ translates_watch ..
  | writeBack expr => exact translates_listen ..
  | listen event method => exact translates_listen ..
  | call method event value => cases hsilent
  | refuse e =>
    have h := Translates.refuse (σ := σ) (α := Unit) (b := b) (c := c) (T := T) e
    rwa [show e.respell b c = e from hplain] at h

variable (htable : job.table = .standard)

include htable

/-- **A directive makes its bindings.**  If there is none of its kind, the name complained about is
the respelled one. -/
theorem translates_direct {unknown unknown' kind : String} {directive : Directive}
    (hunknown : unknown' = b.respell c unknown ∨ kind = "text")
    (hdetail : kind = "attr" → ∀ name, directive.detail = some name → Dialect.Plain b c name) :
    Translates b c T (direct call job methods n unknown kind directive)
      (direct call (job.speaking c) methods n unknown' kind directive) := by
  rw [direct, direct, CompileJob.speaking, htable]
  cases hlookup : DirectiveTable.standard.lookup kind with
  | none =>
    rcases hunknown with rfl | rfl
    · exact .refuse (.unknownDirective unknown)
    · cases hlookup
  | some handler =>
    exact .forM fun binding hbinding ↦ translates_bind hc hn
      (DirectiveTable.standard_orderly.silent hlookup directive binding hbinding)
      (DirectiveTable.standard_plain hlookup hdetail hbinding)

end Visit

section Visit

variable {call : Call σ} {job : CompileJob σ} {methods : String → Event → Action σ} {n : NodeId}
  (hc : c.Accepted) (htable : job.table = .standard)

include hc htable

/-- **An attribute has its turn** under its new name. -/
theorem translates_visitAttribute (hn : T n) {name : String}
    (hname : Dialect.Good job.dialect c name) (value : String) :
    Translates job.dialect c T (visitAttribute call job methods n name value)
      (visitAttribute call (job.speaking c) methods n (job.dialect.respell c name) value) := by
  have hmeans : (job.speaking c).dialect.classify (job.dialect.respell c name) =
      job.dialect.classify name := Dialect.classify_respell hc hname.fair
  rw [visitAttribute, visitAttribute, hmeans]
  cases hmarker : job.dialect.classify name with
  | none => exact .pure _
  | some marker =>
    cases marker with
    | directive kind detail =>
      refine .bind (translates_direct hc hn htable (.inl rfl) ?_) fun _ ↦ .bind (.count _) fun _ ↦
        .bind (translates_strip hc hn hname.fair) fun _ ↦ .pure _
      rintro rfl set rfl
      exact hname.detail set hmarker
    | event event =>
      exact .bind (translates_direct hc hn htable (.inl rfl)
        fun hkind ↦ absurd hkind (by decide)) fun _ ↦ .bind (.count _) fun _ ↦
        .bind (translates_strip hc hn hname.fair) fun _ ↦ .pure _

theorem translates_visitAttributes (hn : T n) {attributes : List (String × String)}
    (hgood : ∀ a ∈ attributes, Dialect.Good job.dialect c a.1) :
    Translates job.dialect c T (visitAttributes call job methods n attributes)
      (visitAttributes call (job.speaking c) methods n
        (attributes.map fun a ↦ (job.dialect.respell c a.1, a.2))) := by
  induction attributes with
  | nil => exact .pure _
  | cons a attributes ih =>
    obtain ⟨ha, hrest⟩ := List.forall_mem_cons.1 hgood
    exact .bind (translates_visitAttribute hc htable hn ha a.2) fun _ ↦ .bind (ih hrest) fun _ ↦
      .pure _

/-- **A node of the template has its turn.** -/
theorem translates_visitNode (hn : T n) : Translates job.dialect c T
    (visitNode call job methods n) (visitNode call (job.speaking c) methods n) := by
  refine .scene fun w hw ↦ ?_
  show Translates job.dialect c T (visitContent call job methods n (w.scene.document.content? n))
    (visitContent call (job.speaking c) methods n
      ((w.scene.document.respell job.dialect c T).content? n))
  rw [respell, content?_recast, if_pos hn]
  cases hcontent : w.scene.document.content? n with
  | none => exact .pure _
  | some content =>
    cases content with
    | document | fragment | raw _ => exact .pure _
    | element x =>
      exact .bind (.count _) fun _ ↦ translates_visitAttributes hc htable hn
        (hw.good n x hn (element?_eq_some_iff.2 hcontent))
    | text t =>
      show Translates job.dialect c T (visitContent call job methods n (some (.text t)))
        (visitContent call (job.speaking c) methods n (some (.text t)))
      rw [visitContent, visitContent]
      split
      · exact .bind (.count _) fun _ ↦ .bind (translates_direct hc hn htable (.inr rfl)
          fun hkind ↦ absurd hkind (by decide)) fun _ ↦ .pure _
      · exact .pure _

/-- **A visit of nodes of the template.** -/
theorem translates_visit {fuel : Nat} {pending : List NodeId} (hpending : ∀ n ∈ pending, T n) :
    Translates job.dialect c T (visit call job methods fuel pending)
      (visit call (job.speaking c) methods fuel pending) := by
  induction fuel generalizing pending with
  | zero =>
    cases pending with
    | nil => exact .pure ()
    | cons n pending => exact .tooDeep
  | succ fuel ih =>
    cases pending with
    | nil => exact .pure ()
    | cons n pending =>
      obtain ⟨hn, hrest⟩ := List.forall_mem_cons.1 hpending
      rw [visit, visit]
      refine .bind (translates_visitNode hc htable hn) fun owned ↦ ?_
      split
      · exact ih hrest
      · refine .scene fun w hw ↦ ?_
        show Translates job.dialect c T
          (visit call job methods fuel (w.scene.document.children n ++ pending))
          (visit call (job.speaking c) methods fuel
            ((w.scene.document.respell job.dialect c T).children n ++ pending))
        rw [respell, children_recast]
        exact ih (List.forall_mem_append.2 ⟨hw.closed n hn, hrest⟩)

end Visit

end Compilation

/-! ## A whole compilation -/

/-- A node is below the root, and not below a text or raw markup, where markup does not show it. -/
def Document.ShownBelow (d : Document) (root n : NodeId) : Prop :=
  d.Above root n ∧
    ∀ m b, d.Above root m → d.Above m n → d.content? m = some b → b.isLeaf = false

namespace Compilation

section Compile

variable {call : Call σ} {limit : Nat} {job : CompileJob σ} {methods : String → Event → Action σ}
  {w w' : World σ} {c : Dialect}

/-- What is done when the visit is over does not depend on the dialect. -/
theorem finish_respell (b c : Dialect) (T : NodeId → Bool) (staged : NodeId)
    (result : Except BindError Unit) (p : Progress) (w : World σ) :
    finish (job.speaking c) staged (result.mapError (BindError.respell b c)) p (w.respell b c T) =
      (finish job staged result p w).map fun x ↦
        (x.1.mapError (BindError.respell b c), x.2.respell b c T) := by
  have hrestore : (w.scene.document.respell b c T).restore staged job.root =
      (w.scene.document.restore staged job.root).respell b c T := (recast_restore ..).symm
  cases result with
  | error e =>
    exact congrArg (fun d ↦ some ((.error (e.respell b c) : Except BindError Compiled),
      (w.withStore (w.scene.store.releaseAll p.scope)).withDocument d)) hrestore
  | ok u =>
    exact congrArg (fun d ↦ some ((.ok ⟨p.scope, p.stats⟩ : Except BindError Compiled),
      w.withDocument d)) hrestore

/-- **Compiling the respelled template is respelling what a compilation leaves.** -/
theorem compile_respell (hc : c.Accepted) (htable : job.table = .standard) {T : NodeId → Bool}
    (htop : T w.scene.document.nodes.size)
    (hw : (w.scene.document.stage job.root).2.Translatable job.dialect c T) :
    compile call limit (job.speaking c) methods (w.respell job.dialect c T) =
      (compile call limit job methods w).map fun x ↦
        (x.1.mapError (BindError.respell job.dialect c), x.2.respell job.dialect c T) := by
  have hsize : (w.respell job.dialect c T).scene.document.nodes.size =
      w.scene.document.nodes.size := size_recast ..
  have hstaged : (w.respell job.dialect c T).withDocument
      ((w.respell job.dialect c T).scene.document.stage (job.speaking c).root).2 =
      (w.withDocument (w.scene.document.stage job.root).2).respell job.dialect c T :=
    congrArg w.withDocument (recast_stage w.scene.document _ job.root).symm
  rw [compile_eq_bind, compile_eq_bind, hsize, hstaged,
    (translates_visit hc htable (by simpa using htop)).run_eq _ _ hw]
  cases (visit call job methods limit [w.scene.document.nodes.size]).run.run .start
      (w.withDocument (w.scene.document.stage job.root).2) with
  | none => rfl
  | some outcome => exact finish_respell ..

/-- Good names set no markers. -/
theorem not_setsMarker {b : Dialect} {x : Element} (h : x.Good b c) : ¬b.SetsMarker x := by
  rintro ⟨pre, a, post, marker, heq, hset, hmarker, -⟩
  rw [((h a (by simp [heq])).detail marker hset).1] at hmarker
  cases hmarker

/-- **A compilation that succeeds leaves no marker** where the names are good, as far as markup
shows it. -/
theorem no_marker_shown (htable : job.table = .standard) (hd : w.scene.document.IsForest)
    (hgood : ∀ n x, w.scene.document.Above job.root n → w.scene.document.element? n = some x →
      x.Good job.dialect c) {compiled : Compiled}
    (hrun : compile call limit job methods w = some (.ok compiled, w')) {n : NodeId}
    (hn : w'.scene.document.ShownBelow job.root n) {y : Element}
    (hy : w'.scene.document.element? n = some y) :
    ∀ a ∈ y.attributes, job.dialect.classify a.1 = none := by
  obtain ⟨way, w₁, hway, hpainting, rfl⟩ := compile_paints htable hd hrun
  rw [element?_eq_some_iff] at hy
  rcases visited_or_leaf_restore hd hway hpainting hn.1 hn.2 with hvisited | ⟨b, hb, hleaf⟩
  · obtain ⟨x, hx, -, hattributes⟩ := exists_element_of_visited hd hvisited
      (fun _ ↦ sort_restore hd hway hpainting hvisited)
      (fun _ ↦ dressed_restore hd hway hpainting hvisited) hy
    intro a ha
    rw [hattributes] at ha
    by_contra hmarker
    exact not_setsMarker (hgood n x (hvisited.above hd) (element?_eq_some_iff.2 hx))
      (Dialect.exists_marker_dressed_iff.1 ⟨a, ha, Option.isSome_iff_ne_none.2 hmarker⟩)
  · cases hy.symm.trans hb
    cases hleaf

end Compile

end Compilation

/-! ## Spelling does not matter -/

/-- A respelled node without markers is the node itself. -/
theorem Document.node?_respell {d : Document} {b c : Dialect} {T : NodeId → Bool} {n : NodeId}
    (h : ∀ x, T n → d.element? n = some x → ∀ a ∈ x.attributes, b.classify a.1 = none) :
    (d.respell b c T).node? n = d.node? n := by
  rw [respell, node?_recast]
  cases hnode : d.node? n with
  | none => rfl
  | some node =>
    obtain ⟨parent, children, content⟩ := node
    refine congrArg (fun content ↦ some (Node.mk parent children content)) ?_
    cases content with
    | element x =>
      refine congrArg Content.element ?_
      split
      · rename_i hn
        refine respell_eq_self (h x hn ?_)
        rw [element?_eq_some_iff, content?, hnode]
        rfl
      · rfl
    | _ => rfl

/-- **Spelling does not matter.**  A dialect is accepted exactly when no name starts with both of
its prefixes.  For a template whose names are good, compiling it with its markers spelled in such a
dialect leaves the world that compiling the template itself leaves, except that the markers not
taken away are spelled in that dialect, and so is the name in the error.  If there is no error,
there is no such marker among what markup shows. -/
theorem spelling_does_not_matter :
    (∀ directive event, (Dialect.ofPrefixes directive event).isOk = true ↔
      ∀ name, ¬(Dialect.startsWith name directive = true ∧ Dialect.startsWith name event = true)) ∧
    ∀ (call : Call σ) (limit : Nat) (job : CompileJob σ) (methods : String → Event → Action σ)
      (w : World σ) (c : Dialect), c.Accepted → job.table = .standard → w.scene.document.IsForest →
      (∀ n x, w.scene.document.Above job.root n → w.scene.document.element? n = some x →
        x.Good job.dialect c) →
      Compilation.compile call limit (job.speaking c) methods
          (w.respell job.dialect c (w.scene.document.isTemplate job.root)) =
        (Compilation.compile call limit job methods w).map (fun x ↦
          (x.1.mapError (BindError.respell job.dialect c),
            x.2.respell job.dialect c (w.scene.document.isTemplate job.root))) ∧
      ∀ compiled w', Compilation.compile call limit job methods w = some (.ok compiled, w') → ∀ n,
        (w.scene.document.isTemplate job.root n →
          w'.scene.document.ShownBelow job.root n) →
        (w'.respell job.dialect c (w.scene.document.isTemplate job.root)).scene.document.node? n =
          w'.scene.document.node? n := by
  refine ⟨Dialect.ofPrefixes_isOk_iff, fun call limit job methods w c hc htable hd hgood ↦ ⟨?_, ?_⟩⟩
  · exact Compilation.compile_respell hc htable (by simp [Document.isTemplate])
      (hd.translatable_stage hgood)
  · exact fun compiled w' hrun n hshown ↦ node?_respell fun x hn hx ↦
      Compilation.no_marker_shown htable hd hgood hrun (hshown hn) hx

/-! ## A link in two dialects -/

/-- Prefixes that are none of the usual ones. -/
def Dialect.foreign : Dialect := ⟨"x-", "on:"⟩

/-- Compiles a whole document that needs no state, in the other dialect. -/
def World.compiledForeign (w : World Unit) : Option (Except BindError Compiled × World Unit) :=
  Compilation.compile (run 1) 4 (statelessJob.speaking .foreign) (fun _ _ ↦ .done (.ok ())) w

/-- The world with all markers of the document in the other dialect. -/
def World.inForeign (w : World Unit) : World Unit :=
  w.respell .standard .foreign (w.scene.document.isTemplate 0)

/-- A link with a marker of each sort and an attribute that is none. -/
def markedLink : World Unit :=
  .ofMarkup "<a id=\"top\" bind-attr:href=\"up\" @click=\"go\"></a>"

theorem markedLink_good {n : NodeId} {x : Element} (hn : markedLink.scene.document.Above 0 n)
    (hx : markedLink.scene.document.element? n = some x) : x.Good .standard .foreign := by
  have hd : markedLink.scene.document.IsForest :=
    parse_isForest (World.parse_ofMarkup (by decide +kernel))
  have hchildren : markedLink.scene.document.children 0 = [1] ∧
      markedLink.scene.document.children 1 = [] := by decide +kernel
  obtain rfl : n = 1 := by
    clear hx
    induction hn with
    | parent hp => exact List.mem_singleton.1 (hchildren.1 ▸ (hd.linked _ _).1 hp)
    | step hp _ ih =>
      subst ih
      exact absurd (hchildren.2 ▸ (hd.linked _ _).1 hp) List.not_mem_nil
  have helement : markedLink.scene.document.element? 1 =
      some ⟨"a", [("id", "top"), ("bind-attr:href", "up"), ("@click", "go")], none⟩ := by
    decide +kernel
  cases helement.symm.trans hx
  have hid : Dialect.Plain .standard .foreign "id" := by constructor <;> decide +kernel
  have hhref : Dialect.Plain .standard .foreign "href" := by constructor <;> decide +kernel
  have hattr : Dialect.standard.classify "bind-attr:href" =
      some (.directive "attr" (some "href")) := by
    decide +kernel
  have hclick : Dialect.standard.classify "@click" = some (.event "click") := by decide +kernel
  intro a ha
  simp only [List.mem_cons, List.not_mem_nil, or_false] at ha
  rcases ha with rfl | rfl | rfl
  · exact hid.good
  · refine ⟨fun hnone ↦ (nomatch hattr.symm.trans hnone), fun set hset ↦ ?_⟩
    cases hattr.symm.trans hset
    exact hhref
  · exact ⟨fun hnone ↦ (nomatch hclick.symm.trans hnone), fun set hset ↦
      (nomatch hclick.symm.trans hset)⟩

theorem spelling_of_markedLink : ∃ compiled w', markedLink.compiled = some (.ok compiled, w') ∧
    markedLink.inForeign.scene.document.attributes 1 =
      [("id", "top"), ("x-attr:href", "up"), ("on:click", "go")] ∧
    markedLink.inForeign.compiledForeign =
      some (.ok compiled, w'.respell .standard .foreign (markedLink.scene.document.isTemplate 0)) ∧
    (w'.respell .standard .foreign
        (markedLink.scene.document.isTemplate 0)).scene.document.node? 1 =
      w'.scene.document.node? 1 := by
  have hrun : markedLink.compiled.any (fun r ↦ r.1.isOk &&
      decide (r.2.scene.document.parent? 1 = some 0 ∧
        r.2.scene.document.parent? 0 = none)) = true := by
    decide +kernel
  obtain ⟨⟨result, w'⟩, hrun, hresult⟩ := (Option.any_eq_true _ _).1 hrun
  rw [Bool.and_eq_true, decide_eq_true_eq] at hresult
  obtain ⟨hok, hparent, htop⟩ := hresult
  cases result with
  | error e => cases hok
  | ok compiled =>
    obtain ⟨hsame, hshown⟩ := spelling_does_not_matter.2 (run 1) 4 statelessJob
      (fun _ _ ↦ .done (.ok ())) markedLink .foreign rfl rfl
      (parse_isForest (World.parse_ofMarkup (by decide +kernel))) fun _ _ ↦ markedLink_good
    refine ⟨compiled, w', hrun, by decide +kernel, hsame.trans (congrArg (Option.map _) hrun),
      hshown compiled w' hrun 1 fun _ ↦ ⟨.parent hparent, fun m b hm hm1 _ ↦ ?_⟩⟩
    -- There is nothing between the root and the link.
    have hroot : ∀ {k}, ¬w'.scene.document.Above k 0 := fun hk ↦ by
      obtain ⟨p, hp, -⟩ := above_iff.1 hk
      cases htop.symm.trans hp
    obtain ⟨p, hp, hmp⟩ := above_iff.1 hm1
    cases hparent.symm.trans hp
    rcases hmp with rfl | habove
    · exact absurd hm hroot
    · exact absurd habove hroot

/-- **A marker that is not come to keeps its spelling**, so two compilations that fail leave
different documents. -/
theorem bogus_keeps_its_prefix :
    Dialect.foreign.Accepted ∧
    (World.ofMarkup "<p bind-bogus=\"v\"></p>").inForeign.scene.document =
      (World.ofMarkup "<p x-bogus=\"v\"></p>").scene.document ∧
    ((World.ofMarkup "<p bind-bogus=\"v\"></p>").compiled.map fun r ↦
        (r.1.isOk, r.2.scene.document.attributes 1)) = some (false, [("bind-bogus", "v")]) ∧
    ((World.ofMarkup "<p x-bogus=\"v\"></p>").compiledForeign.map fun r ↦
        (r.1.isOk, r.2.scene.document.attributes 1)) = some (false, [("x-bogus", "v")]) := by
  refine ⟨rfl, ?_, ?_, ?_⟩ <;> decide +kernel

end DataBinding

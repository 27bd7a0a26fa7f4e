import DataBinding.Proofs.Template.ErrandEdits
import DataBinding.Proofs.Template.TemplateWatchers

/-!
# A compilation does the errands of its route

A visit looks at the document as it is at that moment, while the route and its errands are read off
the document as it was.  The two agree, because errands stay with their nodes and what is still to
be visited lies elsewhere (`agrees_next`).  So **a compilation succeeds exactly when there is a
route and its errands can be done** (`visit_underway`, `exists_visit`), and what it leaves behind is
what they leave behind (`Finished`).
-/

set_option autoImplicit false

namespace DataBinding

variable {σ : Type}

/-- Two documents look the same at the pending nodes and below them. -/
def Document.AgreesUnder (d : Document) (pending : List NodeId) (e : Document) : Prop :=
  ∀ x, d.Under pending x → e.content? x = d.content? x ∧ e.children x = d.children x

/-- **What is done aside of a node does not touch what comes after it.** -/
theorem Document.Aside.agrees_next {d e f : Document} {dialect : Dialect} {n : NodeId}
    {pending : List NodeId} (haside : e.Aside n (dialect.owns (d.content? n)) f) (hd : d.IsForest)
    (hsize : d.nodes.size ≤ e.nodes.size) (hapart : d.Apart (n :: pending))
    (hvalid : ∀ m ∈ n :: pending, m < d.nodes.size)
    (hagrees : d.AgreesUnder (n :: pending) e) :
    d.AgreesUnder (d.next dialect n pending) f ∧
      (dialect.owns (d.content? n) = false → f.children n = d.children n) ∧
      d.nodes.size ≤ f.nodes.size := by
  obtain ⟨-, hchildren⟩ := hagrees n ⟨n, by simp, .inl rfl⟩
  refine ⟨fun x hx ↦ ?_, fun howned ↦ ?_, Nat.le_trans hsize haside.size_le⟩
  · obtain ⟨hunder, -⟩ := hd.under_next hapart hx
    obtain ⟨hxc, hxch⟩ := hagrees x hunder
    have hbefore := hd.before_of_next hapart hx
    have hxlt : x < e.nodes.size := by
      refine Nat.lt_of_lt_of_le ?_ hsize
      obtain ⟨m, hm, hmx⟩ := hunder
      rcases hmx with rfl | habove
      · exact hvalid m hm
      · exact (habove.lt_size hd).2
    rw [haside.content?_eq x hxlt hbefore.ne.symm fun howned ↦ ?_,
      haside.children_eq x fun _ ↦ hbefore.ne.symm]
    · exact ⟨hxc, hxch⟩
    · rw [hchildren]
      exact hbefore.not_child howned
  · rw [haside.children_eq n (by simp [howned]), hchildren]

/-- **The errands of a node do not touch what comes after it.** -/
theorem Errand.agrees_next {d e : Document} {table : DirectiveTable} {n : NodeId}
    {pending : List NodeId} (dialect : Dialect) (ht : table.Orderly) (hd : d.IsForest)
    (he : e.IsForest) (hsize : d.nodes.size ≤ e.nodes.size) (hapart : d.Apart (n :: pending))
    (hvalid : ∀ m ∈ n :: pending, m < d.nodes.size) (hagrees : d.AgreesUnder (n :: pending) e)
    (shown : Bond → String) :
    d.AgreesUnder (d.next dialect n pending)
        (painted shown e (ofNode table dialect n (d.content? n))) ∧
      (dialect.owns (d.content? n) = false →
        (painted shown e (ofNode table dialect n (d.content? n))).children n = d.children n) ∧
      d.nodes.size ≤ (painted shown e (ofNode table dialect n (d.content? n))).nodes.size := by
  have hcontent := (hagrees n ⟨n, by simp, .inl rfl⟩).1
  exact (aside_painted (.refl e n _) he (Nat.lt_of_lt_of_le (hvalid n (by simp)) hsize) dialect
    (by rw [hcontent]) (fun err hmem ↦ by rw [hcontent]; exact fits_of_mem_ofNode ht hmem)
    shown).agrees_next hd hsize hapart hvalid hagrees

theorem Document.IsForest.lt_size_next {d : Document} (hd : d.IsForest) {dialect : Dialect}
    {n : NodeId} {pending : List NodeId} (hvalid : ∀ m ∈ n :: pending, m < d.nodes.size) :
    ∀ m ∈ d.next dialect n pending, m < d.nodes.size := by
  intro m hm
  rw [Document.next] at hm
  split at hm
  · exact hvalid m (by simp [hm])
  · rcases List.mem_append.1 hm with hm | hm
    · exact hd.lt_size_of_mem_children hm
    · exact hvalid m (by simp [hm])

section Visit

variable {job : CompileJob σ} {foreign : Action σ → Prop} {d d₀ : Document} {s : Store}
  {roster : List Post} {done : List Errand} {call : Call σ} {methods : String → Event → Action σ}
  {p p' : Progress} {w w' : World σ} {fuel : Nat} {pending : List NodeId}

open Compilation Errand

/-- A visit of a node and of what comes after it. -/
theorem visit_cons_succeeds {n : NodeId} :
    (visit call job methods (fuel + 1) (n :: pending)).Succeeds p w () p' w' ↔
      ∃ p₁ w₁, (Compilation.performAll call job methods (ofNode job.table job.dialect n
          (w.scene.document.content? n))).Succeeds p w () p₁ w₁ ∧
        (visit call job methods fuel
          (if job.dialect.owns (w.scene.document.content? n) then pending
            else w₁.scene.document.children n ++ pending)).Succeeds p₁ w₁ () p' w' := by
  rw [visit, succeeds_bind]
  simp only [visitNode_succeeds]
  have hscene : ∀ {w₁ : World σ} {p₁ : Progress},
      (lift Run.scene : Compilation σ (Scene σ)).Succeeds p₁ w₁ w₁.scene p₁ w₁ :=
    succeeds_lift.2 ⟨rfl, rfl⟩
  constructor
  · rintro ⟨_, p₁, w₁, ⟨rfl, herrands⟩, hrest⟩
    refine ⟨p₁, w₁, herrands, ?_⟩
    split
    · rename_i howns
      rwa [if_pos howns] at hrest
    · rename_i howns
      rw [if_neg howns] at hrest
      exact (succeeds_bind_of hscene).1 hrest
  · rintro ⟨p₁, w₁, herrands, hrest⟩
    refine ⟨_, p₁, w₁, ⟨rfl, herrands⟩, ?_⟩
    split
    · rename_i howns
      rwa [if_pos howns] at hrest
    · rename_i howns
      rw [if_neg howns] at hrest
      exact (succeeds_bind_of hscene).2 hrest

theorem ofRoute_cons (table : DirectiveTable) (dialect : Dialect) (d : Document) (n : NodeId)
    (way : List NodeId) : ofRoute table dialect d (n :: way) =
      ofNode table dialect n (d.content? n) ++ ofRoute table dialect d way := List.flatMap_cons

/-- **A visit that succeeds follows the route.**  It has done the errands of the route, and so
established whatever the errands of one node establish after those of the nodes before. -/
theorem visit_follows {U : List Errand → Progress → World σ → Prop} (ht : job.table.Orderly)
    (hd : d.IsForest)
    (hU : ∀ n done p w p' w', w.scene.document.content? n = d.content? n →
      w.scene.document.IsForest → U done p w →
      (performAll call job methods (ofNode job.table job.dialect n (d.content? n))).Succeeds
        p w () p' w' → U (done ++ ofNode job.table job.dialect n (d.content? n)) p' w')
    (h : U done p w) (hw : w.scene.document.IsForest)
    (hsize : d.nodes.size ≤ w.scene.document.nodes.size) (hapart : d.Apart pending)
    (hvalid : ∀ m ∈ pending, m < d.nodes.size) (hagrees : d.AgreesUnder pending w.scene.document)
    (hrun : (visit call job methods fuel pending).Succeeds p w () p' w') :
    ∃ way, d.route job.dialect fuel pending = some way ∧
      Painting (ofRoute job.table job.dialect d way) w.scene.document w'.scene.document ∧
      U (done ++ ofRoute job.table job.dialect d way) p' w' := by
  induction fuel generalizing pending done p w with
  | zero =>
    cases pending with
    | nil =>
      obtain ⟨-, rfl, rfl⟩ := succeeds_pure.1 hrun
      exact ⟨[], rfl, .nil _, by simpa [ofRoute] using h⟩
    | cons n pending => exact absurd (succeeds_lift.1 hrun).1 (by simp [Run.tooDeep])
  | succ fuel ih =>
    cases pending with
    | nil =>
      obtain ⟨-, rfl, rfl⟩ := succeeds_pure.1 hrun
      exact ⟨[], rfl, .nil _, by simpa [ofRoute] using h⟩
    | cons n pending =>
      obtain ⟨p₁, w₁, herrands, hrest⟩ := visit_cons_succeeds.1 hrun
      have hcontent := (hagrees n ⟨n, by simp, .inl rfl⟩).1
      rw [hcontent] at herrands hrest
      have hpainting := performAll_paints
        (fun err hmem ↦ (fits_of_mem_ofNode ht hmem).silent) herrands
      have haside := hpainting.aside (.refl _ n _) hw
        (Nat.lt_of_lt_of_le (hvalid n (by simp)) hsize) (by rw [hcontent])
        (fun err hmem ↦ by rw [hcontent]; exact fits_of_mem_ofNode ht hmem)
      obtain ⟨hagrees', hchildren, hsize'⟩ := haside.agrees_next hd hsize hapart hvalid hagrees
      have hnext : (if job.dialect.owns (d.content? n) = true then pending
          else w₁.scene.document.children n ++ pending) = d.next job.dialect n pending := by
        rw [Document.next]
        split
        · rfl
        · rename_i howns
          rw [hchildren (by simpa using howns)]
      rw [hnext] at hrest
      obtain ⟨way, hway, hpainting', h'⟩ := ih (hU n done p w p₁ w₁ hcontent hw h herrands)
        (hpainting.isForest hw) hsize' (hd.apart_next hapart) (hd.lt_size_next hvalid)
        hagrees' hrest
      refine ⟨n :: way, ?_, ?_, ?_⟩
      · rw [Document.route_succ, hway]
        rfl
      · rw [ofRoute_cons]
        exact hpainting.append hpainting'
      · rw [ofRoute_cons, ← List.append_assoc]
        exact h'

/-- **A visit that succeeds follows the route and does its errands**, which leaves the staff of the
template behind. -/
theorem visit_underway (ht : job.table.Orderly) (hd : d.IsForest) (hd₀ : d₀.IsForest)
    (hmethods : ∀ name event, foreign (methods name event))
    (h : Underway job foreign d₀ s roster done p w)
    (hsize : d.nodes.size ≤ w.scene.document.nodes.size) (hapart : d.Apart pending)
    (hvalid : ∀ m ∈ pending, m < d.nodes.size) (hagrees : d.AgreesUnder pending w.scene.document)
    (hrun : (visit call job methods fuel pending).Succeeds p w () p' w') :
    ∃ way more, d.route job.dialect fuel pending = some way ∧
      Underway job foreign d₀ s (roster ++ more) (done ++ ofRoute job.table job.dialect d way)
        p' w' := by
  have hforest : w.scene.document.IsForest := by
    rw [h.document]
    exact painted_isForest hd₀ _ _
  obtain ⟨way, hway, -, more, h'⟩ := visit_follows
    (U := fun done p w ↦ ∃ more, Underway job foreign d₀ s (roster ++ more) done p w) ht hd
    (fun n done p w p' w' _ _ ⟨more, h⟩ herrands ↦ by
      obtain ⟨more', h'⟩ := h.performAll
        (fun err hmem ↦ (fits_of_mem_ofNode ht hmem).silent) hmethods herrands
      exact ⟨more ++ more', by rwa [← List.append_assoc]⟩)
    ⟨[], by rwa [List.append_nil]⟩ hforest hsize hapart hvalid hagrees hrun
  exact ⟨way, more, hway, h'⟩

/-- When the errands of a node have been done, the visit goes on where the route does. -/
theorem Underway.next (ht : job.table.Orderly) (hd : d.IsForest) (hd₀ : d₀.IsForest)
    (hmethods : ∀ name event, foreign (methods name event))
    (h : Underway job foreign d₀ s roster done p w) {n : NodeId}
    (hsize : d.nodes.size ≤ w.scene.document.nodes.size) (hapart : d.Apart (n :: pending))
    (hvalid : ∀ m ∈ n :: pending, m < d.nodes.size)
    (hagrees : d.AgreesUnder (n :: pending) w.scene.document)
    (herrands : (Compilation.performAll call job methods
      (ofNode job.table job.dialect n (d.content? n))).Succeeds p w () p' w') :
    ∃ more, Underway job foreign d₀ s (roster ++ more)
        (done ++ ofNode job.table job.dialect n (d.content? n)) p' w' ∧
      d.nodes.size ≤ w'.scene.document.nodes.size ∧
      d.AgreesUnder (d.next job.dialect n pending) w'.scene.document ∧
      (if job.dialect.owns (d.content? n) = true then pending
        else w'.scene.document.children n ++ pending) = d.next job.dialect n pending := by
  obtain ⟨more, h'⟩ := h.performAll (fun err hmem ↦ (fits_of_mem_ofNode ht hmem).silent) hmethods
    herrands
  have hforest : w.scene.document.IsForest := by
    rw [h.document]
    exact painted_isForest hd₀ _ _
  have hdocument : w'.scene.document = painted (Bond.shown s job.state) w.scene.document
      (ofNode job.table job.dialect n (d.content? n)) := by
    rw [h'.document, painted_append, ← h.document]
  obtain ⟨hagrees', hchildren, hsize'⟩ := agrees_next job.dialect ht hd hforest
    hsize hapart hvalid hagrees (Bond.shown s job.state)
  rw [← hdocument] at hagrees' hchildren hsize'
  refine ⟨more, h', hsize', hagrees', ?_⟩
  rw [Document.next]
  split
  · rfl
  · rename_i howns
    rw [hchildren (by simpa using howns)]

/-- **When there is a route and its bonds have texts, the visit succeeds.** -/
theorem exists_visit (call : Call σ) (ht : job.table.Orderly) (hd : d.IsForest) (hd₀ : d₀.IsForest)
    (hmethods : ∀ name event, foreign (methods name event))
    (h : Underway job foreign d₀ s roster done p w)
    (hsize : d.nodes.size ≤ w.scene.document.nodes.size) (hapart : d.Apart pending)
    (hvalid : ∀ m ∈ pending, m < d.nodes.size) (hagrees : d.AgreesUnder pending w.scene.document)
    {way : List NodeId} (hway : d.route job.dialect fuel pending = some way)
    (haccepted : ∀ e ∈ ofRoute job.table job.dialect d way, e.isRefused = false)
    (htexts : ∀ e ∈ ofRoute job.table job.dialect d way, ∀ b, e.bond? = some b →
      ∃ text, b.text s job.state = .ok text) :
    ∃ p' w', (visit call job methods fuel pending).Succeeds p w () p' w' := by
  induction fuel generalizing pending roster done p w way with
  | zero =>
    cases pending with
    | nil => exact ⟨p, w, succeeds_pure.2 ⟨rfl, rfl, rfl⟩⟩
    | cons n pending => cases hway
  | succ fuel ih =>
    cases pending with
    | nil => exact ⟨p, w, succeeds_pure.2 ⟨rfl, rfl, rfl⟩⟩
    | cons n pending =>
      rw [Document.route_succ, Option.map_eq_some_iff] at hway
      obtain ⟨rest, hrest, rfl⟩ := hway
      rw [ofRoute_cons] at haccepted htexts
      rw [List.forall_mem_append] at haccepted htexts
      have hsilent : ∀ e ∈ ofNode job.table job.dialect n (d.content? n), e.isCall = false :=
        fun err hmem ↦ (fits_of_mem_ofNode ht hmem).silent
      have hcontent := (hagrees n ⟨n, by simp, .inl rfl⟩).1
      obtain ⟨p₁, w₁, herrands⟩ := h.exists_performAll call hsilent haccepted.1 hmethods
        htexts.1
      obtain ⟨more, h₁, hsize', hagrees', hnext⟩ :=
        h.next ht hd hd₀ hmethods hsize hapart hvalid hagrees herrands
      obtain ⟨p', w', hlater⟩ := ih h₁ hsize' (hd.apart_next hapart) (hd.lt_size_next hvalid)
        hagrees' hrest haccepted.2 htexts.2
      refine ⟨p', w', visit_cons_succeeds.2 ⟨p₁, w₁, by rwa [hcontent], ?_⟩⟩
      rwa [hcontent, hnext]

end Visit

/-! ## The whole compilation -/

namespace World

/-- A world in which a template can be compiled: whatever code there is is foreign to it. -/
structure Ready (foreign : Action σ → Prop) (w : World σ) : Prop where
  order : ∃ marks, InOrder [] [] marks w
  aligned : w.code.reactions.size = w.scene.subscribers.size
  reactions : ∀ (id : SubscriberId) reaction, w.code.reactions[id]? = some reaction →
    ∀ v, foreign (reaction v)
  listeners : ∀ l ∈ w.scene.listeners, ∃ handler, w.code.handlers[l.handler]? = some handler ∧
    ∀ e, foreign (handler e)

/-- The world with another document. -/
def withDocument (w : World σ) (d : Document) : World σ :=
  { w with scene := { w.scene with document := d } }

/-- The document does not matter. -/
theorem Ready.withDocument {foreign : Action σ → Prop} {w : World σ} (h : w.Ready foreign)
    (d : Document) : (w.withDocument d).Ready foreign where
  order := by
    obtain ⟨marks, horder⟩ := h.order
    exact ⟨marks, horder.of_store_eq rfl rfl⟩
  aligned := h.aligned
  reactions := h.reactions
  listeners := h.listeners

/-- A compilation begins with nobody at work. -/
theorem Ready.underway {job : CompileJob σ} {foreign : Action σ → Prop} {w : World σ}
    (h : w.Ready foreign) (hroot : job.state.Within w.scene.store.objects.size) :
    Underway job foreign w.scene.document w.scene.store [] [] .start w where
  manned :=
    { order := h.order
      aligned := h.aligned
      staffed := ⟨by simp, by simp, fun id reaction _ hr ↦ h.reactions id reaction hr⟩
      current := by simp }
  wired :=
    { valid := fun l hl ↦ by
        obtain ⟨handler, hh, -⟩ := h.listeners l hl
        exact (Array.getElem?_eq_some_iff.1 hh).1
      returned := by simp
      others := fun l hl handler hh ↦ by
        obtain ⟨handler', hh', hforeign⟩ := h.listeners l hl
        cases hh'.symm.trans hh
        exact .inl hforeign }
  rooted := hroot
  scope := rfl
  duties := rfl
  contents := rfl
  document := rfl
  texts := by simp
  accepted := by simp

end World

/-- The errands of a template, given the way through it. -/
def CompileJob.errands (job : CompileJob σ) (d : Document) (way : List NodeId) : List Errand :=
  Errand.ofRoute job.table job.dialect (d.stage job.root).2 way

/-- What a compilation leaves behind that has begun with a document and a store. -/
structure Finished (job : CompileJob σ) (foreign : Action σ → Prop) (limit : Nat) (d : Document)
    (s : Store) (way : List NodeId) (roster : List Post) (w : World σ) : Prop where
  route : (d.stage job.root).2.route job.dialect limit [d.nodes.size] = some way
  manned : Manned job foreign roster w
  wired : Wired job foreign ((job.errands d way).filterMap Errand.back?) w
  duties : roster.map (fun q ↦ (q.bond, q.expr)) = (job.errands d way).flatMap Errand.duties
  contents : w.scene.store.contents = s.contents
  document : w.scene.document =
    (Errand.painted (Bond.shown s job.state) (d.stage job.root).2 (job.errands d way)).restore
      d.nodes.size job.root
  texts : ∀ e ∈ job.errands d way, ∀ b, e.bond? = some b → ∃ text, b.text s job.state = .ok text
  accepted : ∀ e ∈ job.errands d way, e.isRefused = false

section Compile

variable {job : CompileJob σ} {foreign : Action σ → Prop} {call : Call σ}
  {methods : String → Event → Action σ} {w w' : World σ} {limit : Nat}

open Compilation

/-- What a compilation does when its visit is over. -/
def Compilation.finish (job : CompileJob σ) (staged : NodeId) (result : Except BindError Unit)
    (p : Progress) : Run σ (Except BindError Compiled) := do
  Run.editDocument fun d ↦ d.restore staged job.root
  match result with
  | .ok () => return .ok ⟨p.scope, p.stats⟩
  | .error e =>
    Run.editStore fun s ↦ s.releaseAll p.scope
    return .error e

theorem compile_eq_bind (w : World σ) :
    compile call limit job methods w =
      ((visit call job methods limit [w.scene.document.nodes.size]).run.run .start
        (w.withDocument (w.scene.document.stage job.root).2)).bind fun x ↦
          finish job w.scene.document.nodes.size x.1.1 x.1.2 x.2 := rfl

/-- A compilation that succeeds is a visit of what it has staged. -/
theorem compile_eq_some {compiled : Compiled} :
    compile call limit job methods w = some (.ok compiled, w') ↔
      ∃ p w₁, (visit call job methods limit [w.scene.document.nodes.size]).Succeeds .start
          (w.withDocument (w.scene.document.stage job.root).2) () p w₁ ∧
        w' = w₁.withDocument (w₁.scene.document.restore w.scene.document.nodes.size job.root) ∧
        compiled = ⟨p.scope, p.stats⟩ := by
  rw [compile_eq_bind, Option.bind_eq_some_iff]
  constructor
  · rintro ⟨⟨⟨result, p⟩, w₁⟩, hvisit, h⟩
    cases result with
    | error e => cases h
    | ok u =>
      cases h
      exact ⟨p, w₁, hvisit, rfl, rfl⟩
  · rintro ⟨p, w₁, hvisit, rfl, rfl⟩
    exact ⟨((.ok (), p), w₁), hvisit, rfl⟩

/-- **A compilation that succeeds has done the errands of its template**, with some texts, and has
established whatever the errands of one node establish after those of the nodes before. -/
theorem compile_follows {U : List Errand → Progress → World σ → Prop} (ht : job.table.Orderly)
    (hd : w.scene.document.IsForest)
    (hU : ∀ n done p w₁ p' w₂,
      w₁.scene.document.content? n = (w.scene.document.stage job.root).2.content? n →
      w₁.scene.document.IsForest → U done p w₁ →
      (performAll call job methods (Errand.ofNode job.table job.dialect n
        ((w.scene.document.stage job.root).2.content? n))).Succeeds p w₁ () p' w₂ →
      U (done ++ Errand.ofNode job.table job.dialect n
        ((w.scene.document.stage job.root).2.content? n)) p' w₂)
    (h : U [] .start (w.withDocument (w.scene.document.stage job.root).2)) {compiled : Compiled}
    (hrun : compile call limit job methods w = some (.ok compiled, w')) :
    ∃ way p w₁, (w.scene.document.stage job.root).2.route job.dialect limit
        [w.scene.document.nodes.size] = some way ∧
      Errand.Painting (job.errands w.scene.document way) (w.scene.document.stage job.root).2
        w₁.scene.document ∧
      U (job.errands w.scene.document way) p w₁ ∧ compiled = ⟨p.scope, p.stats⟩ ∧
      w' = w₁.withDocument (w₁.scene.document.restore w.scene.document.nodes.size job.root) := by
  obtain ⟨p, w₁, hvisit, hw', hcompiled⟩ := compile_eq_some.1 hrun
  have hsize : w.scene.document.nodes.size < (w.scene.document.stage job.root).2.nodes.size :=
    (hd.staged job.root).fragment_lt_size
  obtain ⟨way, hway, hpainting, h'⟩ := visit_follows ht (hd.stage job.root) hU h
    (hd.stage job.root) (Nat.le_refl _) (by simp [Document.Apart]) (by simpa using hsize)
    (fun x _ ↦ ⟨rfl, rfl⟩) hvisit
  exact ⟨way, p, w₁, hway, hpainting, h', hcompiled, hw'⟩

/-- **A compilation with the standard directives paints the staged document**, and puts it back. -/
theorem compile_paints (htable : job.table = .standard) (hd : w.scene.document.IsForest)
    {compiled : Compiled} (hrun : compile call limit job methods w = some (.ok compiled, w')) :
    ∃ (way : List NodeId) (w₁ : World σ),
      (w.scene.document.stage job.root).2.route job.dialect limit
        [w.scene.document.nodes.size] = some way ∧
      Errand.Painting
        (Errand.ofRoute .standard job.dialect (w.scene.document.stage job.root).2 way)
        (w.scene.document.stage job.root).2 w₁.scene.document ∧
      w' = w₁.withDocument (w₁.scene.document.restore w.scene.document.nodes.size job.root) := by
  obtain ⟨way, p, w₁, hway, hpainting, -, -, hw'⟩ := compile_follows
    (U := fun _ _ _ ↦ True) (htable ▸ DirectiveTable.standard_orderly) hd
    (fun _ _ _ _ _ _ _ _ _ _ ↦ trivial) trivial hrun
  rw [CompileJob.errands, htable] at hpainting
  exact ⟨way, w₁, hway, hpainting, hw'⟩

variable (ht : job.table.Orderly) (hmethods : ∀ name event, foreign (methods name event))
  (hready : w.Ready foreign) (hroot : job.state.Within w.scene.store.objects.size)
  (hd : w.scene.document.IsForest)

include ht hmethods hready hroot hd

/-- **A compilation that succeeds has done the errands of its template.** -/
theorem compile_finished {compiled : Compiled}
    (hrun : compile call limit job methods w = some (.ok compiled, w')) :
    ∃ way roster, Finished job foreign limit w.scene.document w.scene.store way roster w' ∧
      compiled.scope = roster.map Post.id := by
  obtain ⟨p, w₁, hvisit, rfl, rfl⟩ := compile_eq_some.1 hrun
  have hsize : w.scene.document.nodes.size < (w.scene.document.stage job.root).2.nodes.size :=
    (hd.staged job.root).fragment_lt_size
  obtain ⟨way, roster, hway, h⟩ :=
    visit_underway ht (hd.stage job.root) (hd.stage job.root) hmethods
    ((hready.withDocument _).underway hroot) (Nat.le_refl _) (by simp [Document.Apart])
    (by simpa using hsize) (fun x _ ↦ ⟨rfl, rfl⟩) hvisit
  refine ⟨way, roster, ⟨hway, h.manned.of_store_eq rfl rfl rfl, ?_, h.duties,
    h.contents, ?_, h.texts, h.accepted⟩, h.scope⟩
  · exact ⟨h.wired.valid, h.wired.returned, h.wired.others⟩
  · exact congrArg (Document.restore · _ _) h.document

/-- **When there is a way and every bond has a text, the compilation succeeds.** -/
theorem exists_compile {way : List NodeId}
    (hway : (w.scene.document.stage job.root).2.route job.dialect limit
      [w.scene.document.nodes.size] = some way)
    (haccepted : ∀ e ∈ job.errands w.scene.document way, e.isRefused = false)
    (htexts : ∀ e ∈ job.errands w.scene.document way, ∀ b, e.bond? = some b →
      ∃ text, b.text w.scene.store job.state = .ok text) :
    ∃ compiled w', compile call limit job methods w = some (.ok compiled, w') := by
  have hsize : w.scene.document.nodes.size < (w.scene.document.stage job.root).2.nodes.size :=
    (hd.staged job.root).fragment_lt_size
  obtain ⟨p, w₁, hvisit⟩ := exists_visit call ht (hd.stage job.root) (hd.stage job.root)
    hmethods ((hready.withDocument _).underway hroot) (Nat.le_refl _) (by simp [Document.Apart])
    (by simpa using hsize) (fun x _ ↦ ⟨rfl, rfl⟩) hway haccepted htexts
  exact ⟨_, _, compile_eq_some.2 ⟨p, w₁, hvisit, rfl, rfl⟩⟩

end Compile

end DataBinding

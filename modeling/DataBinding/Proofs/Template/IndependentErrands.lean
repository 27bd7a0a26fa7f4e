import DataBinding.Proofs.Template.RouteErrands

/-!
# Errands do not get in each other's way

`Laid` says of the errands of a template what the route gives away: each fits its node, and no node
of an errand is a child of a node whose content is owned.  That is enough for errands to be done in
any order and again and again.  `Tended` is what stays true of the document when they are: the nodes
of errands have contents of the sort they had, and an owned node has no other children than those it
had or new ones.

So **what an errand does to its node is not touched by errands of other nodes** (`Tended.aside`).
-/

set_option autoImplicit false

namespace DataBinding

open Document Errand

/-- The nodes of errands lie well to each other. -/
structure Laid (dialect : Dialect) (d : Document) (es : List Errand) : Prop where
  forest : d.IsForest
  fits : ∀ e ∈ es, ∀ n, e.node? = some n → n < d.nodes.size ∧ Fits dialect n (d.content? n) e
  apart : ∀ e ∈ es, ∀ e' ∈ es, ∀ n n', e.node? = some n → e'.node? = some n' →
    dialect.owns (d.content? n) = true → n' ∉ d.children n

/-- A document in which errands of a laid template have been done, some of them perhaps often. -/
structure Tended (dialect : Dialect) (d : Document) (es : List Errand) (e : Document) : Prop where
  size_le : d.nodes.size ≤ e.nodes.size
  forest : e.IsForest
  sort : ∀ err ∈ es, ∀ n, err.node? = some n → ∀ c, d.content? n = some c →
    ∃ c', e.content? n = some c' ∧ c.sameSort c' = true
  children : ∀ err ∈ es, ∀ n, err.node? = some n → dialect.owns (d.content? n) = true →
    ∀ x ∈ e.children n, x ∈ d.children n ∨ d.nodes.size ≤ x

/-- A document that was changed, but not at the given nodes. -/
structure Document.ChangedElsewhere (d : Document) (nodes : NodeId → Prop) (e : Document) :
    Prop where
  size_le : d.nodes.size ≤ e.nodes.size
  forest : d.IsForest → e.IsForest
  content?_eq : ∀ n, nodes n → e.content? n = d.content? n
  children_eq : ∀ n, nodes n → e.children n = d.children n

/-! ## Templates are laid -/

theorem node?_of_mem_ofNode {table : DirectiveTable} (ht : table.Orderly) {dialect : Dialect}
    {m n : NodeId} {c : Option Content} {err : Errand} (h : err ∈ ofNode table dialect m c)
    (hn : err.node? = some n) : n = m := by
  rcases (fits_of_mem_ofNode ht h).node with hnode | hnode
  · rw [hnode] at hn
    cases hn
  · rw [hnode] at hn
    exact (Option.some.inj hn).symm

/-- An errand of a route that works on a node is one of the errands of that node. -/
theorem mem_ofNode_of_mem_ofRoute {table : DirectiveTable} (ht : table.Orderly) {dialect : Dialect}
    {d : Document} {way : List NodeId} {err : Errand} (h : err ∈ ofRoute table dialect d way)
    {n : NodeId} (hn : err.node? = some n) :
    n ∈ way ∧ err ∈ ofNode table dialect n (d.content? n) := by
  obtain ⟨m, hm, herr⟩ := List.mem_flatMap.1 h
  cases node?_of_mem_ofNode ht herr hn
  exact ⟨hm, herr⟩

/-- **The errands of a route are laid.** -/
theorem laid_ofRoute {d : Document} (hd : d.IsForest) {table : DirectiveTable} (ht : table.Orderly)
    {dialect : Dialect} {fuel : Nat} {pending way : List NodeId} (hapart : d.Apart pending)
    (hvalid : ∀ m ∈ pending, m < d.nodes.size) (hway : d.route dialect fuel pending = some way) :
    Laid dialect d (ofRoute table dialect d way) := by
  have hmem : ∀ {e : Errand} {n : NodeId}, e ∈ ofRoute table dialect d way → e.node? = some n →
      n ∈ way ∧ Fits dialect n (d.content? n) e := by
    intro e n he hn
    obtain ⟨hm, he⟩ := mem_ofNode_of_mem_ofRoute ht he hn
    exact ⟨hm, fits_of_mem_ofNode ht he⟩
  exact ⟨hd, fun e he n hn ↦ ⟨hd.lt_size_of_mem_route hapart hvalid hway (hmem he hn).1,
    (hmem he hn).2⟩, fun e he e' he' n n' hn hn' howns ↦
      hd.not_child_of_route hapart hway (hmem he hn).1 (hmem he' hn').1 howns⟩

/-- **The errands of a staged template are laid.** -/
theorem laid_of_staged {d : Document} (hd : d.IsForest) {table : DirectiveTable}
    (ht : table.Orderly) {dialect : Dialect} {root : NodeId} {fuel : Nat} {way : List NodeId}
    (hway : (d.stage root).2.route dialect fuel [d.nodes.size] = some way) :
    Laid dialect (d.stage root).2 (ofRoute table dialect (d.stage root).2 way) := by
  refine laid_ofRoute (hd.stage root) ht (by simp [Apart]) (fun m hm ↦ ?_) hway
  rw [List.mem_singleton.1 hm]
  exact (hd.staged root).fragment_lt_size

/-! ## Tended documents -/

namespace Tended

variable {dialect : Dialect} {d e e' : Document} {es : List Errand} {err err' : Errand}
  {n n' : NodeId}

/-- A template in which nothing has been done. -/
theorem refl (h : Laid dialect d es) : Tended dialect d es d :=
  ⟨Nat.le_refl _, h.forest, fun _ _ _ _ c hc ↦ ⟨c, hc, c.sameSort_refl⟩,
    fun _ _ _ _ _ _ hx ↦ .inl hx⟩

/-- The node of an errand is there. -/
theorem lt_size (h : Tended dialect d es e) (hl : Laid dialect d es) (herr : err ∈ es)
    (hn : err.node? = some n) : n < e.nodes.size :=
  Nat.lt_of_lt_of_le (hl.fits err herr n hn).1 h.size_le

/-- The node of an errand is no child of a node whose content is owned. -/
theorem not_child (h : Tended dialect d es e) (hl : Laid dialect d es) (herr : err ∈ es)
    (herr' : err' ∈ es) (hn : err.node? = some n) (hn' : err'.node? = some n')
    (howns : dialect.owns (d.content? n) = true) : n' ∉ e.children n := by
  intro hmem
  rcases h.children err herr n hn howns n' hmem with hold | hnew
  · exact hl.apart err herr err' herr' n n' hn hn' howns hold
  · exact Nat.not_le_of_lt (hl.fits err' herr' n' hn').1 hnew

/-- Elements stay elements. -/
theorem exists_element (h : Tended dialect d es e) (herr : err ∈ es) (hn : err.node? = some n)
    {x : Element} (hx : d.content? n = some (.element x)) :
    ∃ y, e.content? n = some (.element y) := by
  obtain ⟨c, hc, hsort⟩ := h.sort err herr n hn _ hx
  cases c <;> first | exact ⟨_, hc⟩ | cases hsort

/-- Texts stay texts. -/
theorem exists_text (h : Tended dialect d es e) (herr : err ∈ es) (hn : err.node? = some n)
    {t : String} (ht : d.content? n = some (.text t)) : ∃ t', e.content? n = some (.text t') := by
  obtain ⟨c, hc, hsort⟩ := h.sort err herr n hn _ ht
  cases c <;> first | exact ⟨_, hc⟩ | cases hsort

/-- **An errand stays with its node**, however often errands have been done. -/
theorem aside (h : Tended dialect d es e) (hl : Laid dialect d es) (herr : err ∈ es)
    (hn : err.node? = some n) (shown : Bond → String) :
    e.Aside n (dialect.owns (d.content? n)) (err.apply shown e) := by
  have hfits := (hl.fits err herr n hn).2
  refine aside_apply (.refl e n _) h.forest (h.lt_size hl herr hn) (.inr hn) (fun hcontent ↦ ?_)
    shown
  rcases hfits.content hcontent with ⟨howns, x, hx⟩ | ⟨t, ht, heq⟩
  · exact .inl ⟨howns, h.exists_element herr hn hx⟩
  · obtain ⟨t', ht'⟩ := h.exists_text herr hn ht
    exact .inr ⟨t', ht', t, heq⟩

/-- **Doing an errand, once more or for the first time, keeps a document tended.** -/
theorem apply (h : Tended dialect d es e) (hl : Laid dialect d es) (herr : err ∈ es)
    (shown : Bond → String) : Tended dialect d es (err.apply shown e) := by
  cases hn : err.node? with
  | none =>
    cases err with
    | count f => exact h
    | _ => cases hn
  | some n =>
    have haside := h.aside hl herr hn shown
    refine ⟨Nat.le_trans h.size_le haside.size_le, apply_isForest h.forest shown err,
      fun err' herr' n' hn' c hc ↦ ?_, fun err' herr' n' hn' howns x hx ↦ ?_⟩
    · obtain ⟨c', hc', hsort⟩ := h.sort err' herr' n' hn' c hc
      by_cases heq : n' = n
      · subst heq
        obtain ⟨c'', hc'', hsort'⟩ := haside.sort c' hc'
        exact ⟨c'', hc'', Content.sameSort_trans hsort hsort'⟩
      · rw [haside.content?_eq n' (h.lt_size hl herr' hn') heq
          (h.not_child hl herr herr' hn hn')]
        exact ⟨c', hc', hsort⟩
    · by_cases heq : n' = n
      · subst heq
        rcases haside.own_children x hx with hx | hx
        · exact h.children err' herr' n' hn' howns x hx
        · exact .inr (Nat.le_trans h.size_le hx)
      · rw [haside.children_eq n' fun _ ↦ heq] at hx
        exact h.children err' herr' n' hn' howns x hx

theorem painted (h : Tended dialect d es e) (hl : Laid dialect d es) {es' : List Errand}
    (hsub : ∀ err ∈ es', err ∈ es) (shown : Bond → String) :
    Tended dialect d es (painted shown e es') := by
  induction es' generalizing e with
  | nil => exact h
  | cons err es' ih =>
    exact ih (h.apply hl (hsub err (by simp)) shown) fun err' hmem ↦ hsub err' (by simp [hmem])

/-- **A document stays tended when the children of a node without errands are moved to another one
without errands.** -/
theorem restore (h : Tended dialect d es e) {staged root : NodeId}
    (hfree : ∀ err ∈ es, ∀ n, err.node? = some n → n ≠ staged ∧ n ≠ root) :
    Tended dialect d es (e.restore staged root) where
  size_le := by
    rw [Document.restore, size_appendAll]
    exact h.size_le
  forest := h.forest.appendAll root _
  sort err herr n hn c hc := by
    rw [Document.restore, content?_appendAll]
    exact h.sort err herr n hn c hc
  children err herr n hn howns x hx := by
    obtain ⟨hstaged, hroot⟩ := hfree err herr n hn
    rw [h.forest.children_restore hstaged hroot] at hx
    exact h.children err herr n hn howns x hx

/-- **A document stays tended when it is changed elsewhere.** -/
theorem elsewhere (h : Tended dialect d es e) {nodes : NodeId → Prop}
    (hnodes : ∀ err ∈ es, ∀ n, err.node? = some n → nodes n) {e' : Document}
    (he : e.ChangedElsewhere nodes e') : Tended dialect d es e' where
  size_le := Nat.le_trans h.size_le he.size_le
  forest := he.forest h.forest
  sort err herr n hn c hc := by
    rw [he.content?_eq n (hnodes err herr n hn)]
    exact h.sort err herr n hn c hc
  children err herr n hn howns x hx := by
    rw [he.children_eq n (hnodes err herr n hn)] at hx
    exact h.children err herr n hn howns x hx

/-- An errand of a text node is the one for its template. -/
theorem bond?_of_text (hl : Laid dialect d es) {t : String} (ht : d.content? n = some (.text t))
    (herr : err ∈ es) : err.node? = some n ↔ err.bond? = some (.template n t) := by
  constructor
  · intro hn
    have hfits := (hl.fits err herr n hn).2
    rw [ht] at hfits
    rw [hfits.text hn]
    rfl
  · exact node?_of_bond

/-- **The text of a text node changes with its template only**, and then it is the text that is
shown for it. -/
theorem content?_apply (h : Tended dialect d es e) (hl : Laid dialect d es) {t : String}
    (ht : d.content? n = some (.text t)) (htemplate : .bind n (.template t) ∈ es) (herr : err ∈ es)
    (shown : Bond → String) :
    (err.apply shown e).content? n =
      if err.bond? = some (.template n t) then some (.text (shown (.template n t)))
      else e.content? n := by
  split
  · rename_i hb
    obtain ⟨t', ht'⟩ := h.exists_text htemplate rfl ht
    rw [apply_of_bond hb]
    show (e.setText n _).content? n = _
    rw [setText, ht']
    simp only
    rw [content?_setContent, if_pos rfl, ht']
    rfl
  · rename_i hb
    rw [← bond?_of_text hl ht herr] at hb
    cases hm : err.node? with
    | none =>
      cases err with
      | count f => rfl
      | _ => cases hm
    | some m =>
      rw [hm] at hb
      exact (h.aside hl herr hm shown).content?_eq n (h.lt_size hl htemplate rfl)
        (fun heq ↦ hb (by rw [heq])) (h.not_child hl herr htemplate hm rfl)

/-- **A painted text node shows its template**, whether it was painted before or is still to be
painted. -/
theorem content?_painted (h : Tended dialect d es e) (hl : Laid dialect d es) {t : String}
    (ht : d.content? n = some (.text t)) (htemplate : .bind n (.template t) ∈ es)
    (shown : Bond → String) {es' : List Errand} (hsub : ∀ err ∈ es', err ∈ es)
    (hdone : .bind n (.template t) ∈ es' ∨ e.content? n = some (.text (shown (.template n t)))) :
    (Errand.painted shown e es').content? n = some (.text (shown (.template n t))) := by
  induction es' generalizing e with
  | nil => exact hdone.resolve_left List.not_mem_nil
  | cons err es' ih =>
    have herr := hsub err (by simp)
    have hfirst := h.content?_apply hl ht htemplate herr shown
    refine ih (h.apply hl herr shown) (fun err' hmem ↦ hsub err' (by simp [hmem])) ?_
    by_cases hb : err.bond? = some (.template n t)
    · rw [if_pos hb] at hfirst
      exact .inr hfirst
    · rw [if_neg hb] at hfirst
      rw [hfirst]
      refine hdone.imp_left fun hmem ↦ (List.mem_cons.1 hmem).resolve_left ?_
      rintro rfl
      exact hb rfl

/-- The text of a text node when a bond is shown again. -/
theorem content?_shown (h : Tended dialect d es e) (hl : Laid dialect d es) {t : String}
    (ht : d.content? n = some (.text t)) (htemplate : .bind n (.template t) ∈ es) (herr : err ∈ es)
    {b : Bond} (hb : err.bond? = some b) (text : String) :
    (e.apply (b.edit text)).content? n =
      if b = .template n t then some (.text text) else e.content? n := by
  have happly := h.content?_apply hl ht htemplate herr fun _ ↦ text
  rw [apply_of_bond hb, hb] at happly
  rw [happly]
  exact if_congr Option.some_inj rfl rfl

end Tended

/-! ## After a compilation -/

section Finished

variable {σ : Type} {job : CompileJob σ} {foreign : Action σ → Prop} {limit : Nat} {d : Document}
  {s : Store} {way : List NodeId} {roster : List Post} {w : World σ}

theorem Finished.laid (h : Finished job foreign limit d s way roster w) (hd : d.IsForest)
    (ht : job.table.Orderly) : Laid job.dialect (d.stage job.root).2 (job.errands d way) :=
  laid_of_staged hd ht h.route

/-- The nodes of errands are below the root. -/
theorem Finished.above (h : Finished job foreign limit d s way roster w) (hd : d.IsForest)
    (ht : job.table.Orderly) {err : Errand} (herr : err ∈ job.errands d way) {n : NodeId}
    (hn : err.node? = some n) : d.Above job.root n := by
  obtain ⟨hmem, herr⟩ := mem_ofNode_of_mem_ofRoute ht herr hn
  have hstaged := hd.staged job.root
  obtain ⟨m, hm, hunder⟩ := (hd.stage job.root).under_of_mem_route (by simp [Apart]) h.route hmem
  rw [List.mem_singleton.1 hm] at hunder
  rcases hunder with heq | habove
  · rw [← heq, hstaged.fragment] at herr
    cases herr
  · exact hstaged.above_of_above hd habove

/-- No errand works on the root or on the fragment. -/
theorem Finished.free (h : Finished job foreign limit d s way roster w) (hd : d.IsForest)
    (ht : job.table.Orderly) {err : Errand} (herr : err ∈ job.errands d way) {n : NodeId}
    (hn : err.node? = some n) : n ≠ d.nodes.size ∧ n ≠ job.root := by
  have habove := h.above hd ht herr hn
  refine ⟨Nat.ne_of_lt (habove.lt_size hd).2, ?_⟩
  rintro rfl
  exact hd.acyclic _ habove

/-- What a compilation leaves behind is tended. -/
theorem Finished.tended (h : Finished job foreign limit d s way roster w) (hd : d.IsForest)
    (ht : job.table.Orderly) :
    Tended job.dialect (d.stage job.root).2 (job.errands d way) w.scene.document := by
  have hl := h.laid hd ht
  rw [h.document]
  exact ((Tended.refl hl).painted hl (fun _ hmem ↦ hmem) _).restore
    fun err herr n hn ↦ h.free hd ht herr hn

/-- Every post has an errand. -/
theorem Finished.exists_errand (h : Finished job foreign limit d s way roster w) {q : Post}
    (hq : q ∈ roster) :
    ∃ err ∈ job.errands d way, err.bond? = some q.bond ∧ q.expr ∈ q.bond.exprs := by
  have hmem : (q.bond, q.expr) ∈ roster.map fun q ↦ (q.bond, q.expr) :=
    List.mem_map_of_mem (f := fun q : Post ↦ (q.bond, q.expr)) hq
  rw [h.duties] at hmem
  obtain ⟨err, herr, hduty⟩ := List.mem_flatMap.1 hmem
  exact ⟨err, herr, mem_duties.1 hduty⟩

/-- Every expression of a bond has a post. -/
theorem Finished.exists_post (h : Finished job foreign limit d s way roster w) {err : Errand}
    (herr : err ∈ job.errands d way) {b : Bond} (hb : err.bond? = some b) {expr : String}
    (hexpr : expr ∈ b.exprs) : ∃ q ∈ roster, q.bond = b ∧ q.expr = expr := by
  have hmem : (b, expr) ∈ (job.errands d way).flatMap Errand.duties :=
    List.mem_flatMap.2 ⟨err, herr, mem_duties.2 ⟨hb, hexpr⟩⟩
  rw [← h.duties] at hmem
  obtain ⟨q, hq, heq⟩ := List.mem_map.1 hmem
  cases heq
  exact ⟨q, hq, rfl, rfl⟩

end Finished

end DataBinding

import DataBinding.Proofs.Template.StepsByRecursion

/-!
# An element while its directives are dealt with

Directives edit the element they stand on, and the attributes that are gone over are those it had at
the start.  `Drafted` says how far that has come: without the markers that are left, the element is
the one of the draft, and below it there is what the draft has below.  **Every marker takes the
element and the draft one step further** (`Imitates.visitAttribute`), and in the end no marker is
left.
-/

set_option autoImplicit false

namespace DataBinding

open Compilation Document

/-! ## Attributes -/

namespace Element

variable {name value : String}

theorem mem_putAttribute {as : List (String × String)} {a : String × String}
    (h : a ∈ putAttribute name value as) : a.1 = name ∨ a ∈ as := by
  induction as with
  | nil =>
    obtain rfl := List.mem_singleton.1 h
    exact .inl rfl
  | cons b as ih =>
    obtain ⟨k, v⟩ := b
    rw [putAttribute] at h
    split at h
    · rename_i hk
      rcases List.mem_cons.1 h with rfl | h
      · exact .inl (beq_iff_eq.1 hk)
      · exact .inr (List.mem_cons_of_mem _ h)
    · rcases List.mem_cons.1 h with rfl | h
      · exact .inr List.mem_cons_self
      · exact (ih h).imp_right (List.mem_cons_of_mem _)

/-- Attributes that are kept for their names are kept when one of them is set. -/
theorem filter_putAttribute {p : String → Bool} (h : p name = true) (as : List (String × String)) :
    (putAttribute name value as).filter (fun a ↦ p a.1) =
      putAttribute name value (as.filter fun a ↦ p a.1) := by
  induction as with
  | nil => simp [putAttribute, h]
  | cons b as ih =>
    obtain ⟨k, v⟩ := b
    rw [putAttribute]
    by_cases hk : k = name
    · rw [if_pos (beq_iff_eq.2 hk)]
      simp [hk, h, putAttribute]
    · rw [if_neg (by simpa using hk)]
      by_cases hp : p k = true <;> simp [hp, hk, ih, putAttribute]

end Element

namespace Dialect

variable {dialect : Dialect} {name : String}

theorem plain_setAttribute (h : dialect.classify name = none) (value : String) (e : Element) :
    dialect.plain (e.setAttribute name value) = (dialect.plain e).setAttribute name value := by
  have hname : (dialect.classify name).isNone = true := by rw [h, Option.isNone_none]
  have hfilter : (Element.putAttribute name value e.attributes).filter
      (fun a ↦ (dialect.classify a.1).isNone) =
        Element.putAttribute name value (e.attributes.filter fun a ↦
            (dialect.classify a.1).isNone) :=
    Element.filter_putAttribute (p := fun k ↦ (dialect.classify k).isNone) hname e.attributes
  rw [plain, plain, Element.setAttribute, Element.setAttribute, hfilter]

theorem plain_removeAttribute (h : (dialect.classify name).isSome = true) (e : Element) :
    dialect.plain (e.removeAttribute name) = dialect.plain e := by
  have hfilter : (e.attributes.filter fun a ↦ a.1 != name).filter
      (fun a ↦ (dialect.classify a.1).isNone) =
        e.attributes.filter fun a ↦ (dialect.classify a.1).isNone := by
    rw [List.filter_filter]
    refine List.filter_congr fun a _ ↦ ?_
    by_cases ha : a.1 = name
    · cases hc : dialect.classify name with
      | none => rw [hc] at h; cases h
      | some _ => simp [ha, hc]
    · simp [ha]
  exact congrArg (fun as ↦ { e with attributes := as }) hfilter

end Dialect

/-! ## What is below a node -/

namespace Document

variable {d : Document} {n : NodeId} {ts : List (Tree Content)}

/-- What is below a node does not depend on its content. -/
theorem drawsAll_children_setContent (hd : d.IsForest) (h : d.DrawsAll (d.children n) ts)
    (c : Content) : (d.setContent n c).DrawsAll ((d.setContent n c).children n) ts := by
  rw [children_setContent]
  refine DrawsAllBy.congr (P := fun m ↦ d.Above n m) (fun m hm k hk ↦ ?_) (fun m c' hm hc' ↦ ?_)
    (fun m hm ↦ .parent ((hd.linked n m).2 hm)) h
  · exact hm.trans (.parent ((hd.linked m k).2 hk))
  · have hne : m ≠ n := by
      rintro rfl
      exact hd.acyclic m hm
    exact ⟨by rwa [content?_setContent, if_neg hne], children_setContent ..⟩

/-- **A content that is shown in one node.** -/
theorem drawsAll_children_replaceContent (hd : d.IsForest) (hn : n < d.nodes.size)
    (h : d.DrawsAll (d.children n) ts) (c : Content) :
    (d.replaceContent n c).DrawsAll ((d.replaceContent n c).children n) (Tree.lone c ts) := by
  have hr := replaceContent_replaced hn c
  have hne : d.spot n c ≠ n := by
    intro heq
    rcases hr.spot_old with hold | hnew
    · exact hd.acyclic n
        (.parent ((hd.linked n n).2 (by rw [hold, heq]; exact List.mem_singleton_self n)))
    · exact absurd hn (by rw [← heq, hnew]; exact Nat.lt_irrefl _)
  have hchildren := hr.children_of_ne _ hne
  -- it is enough to say what stays below the place of the content
  have hspot : ∀ us, (d.replaceContent n c).DrawsAll (d.children (d.spot n c)) us →
      (d.replaceContent n c).DrawsAll ((d.replaceContent n c).children n) [.node c us] := by
    intro us hus
    exact ⟨d.spot n c, [], hr.children_self, ⟨hr.content?_spot, hchildren ▸ hus⟩, rfl⟩
  have hnew : d.spot n c = d.nodes.size →
      (d.replaceContent n c).DrawsAll ((d.replaceContent n c).children n) [.node c []] := by
    intro hsize
    refine hspot [] ?_
    rw [hsize, children, node?_eq_none d (Nat.le_refl _)]
    rfl
  match ts with
  | [] => exact hnew (by rw [spot, show d.children n = [] from h])
  | .node _ _ :: _ :: _ =>
    obtain ⟨i, _, hi, -, j, rest, rfl, -⟩ := h
    exact hnew (by rw [spot, hi])
  | [.node c' us] =>
    obtain ⟨i, _, hi, ⟨hc', hus⟩, rfl⟩ := h
    rw [Tree.lone]
    have heq : d.spot n c = if c'.sameSort c then i else d.nodes.size := by
      rw [spot, hi]
      simp only [hc', Option.any_some]
    split
    · rename_i hsort
      rw [if_pos hsort] at heq
      refine hspot us (heq ▸ ?_)
      have hni : d.Above n i :=
        .parent ((hd.linked n i).2 (by rw [hi]; exact List.mem_singleton_self i))
      refine DrawsAllBy.congr (P := fun m ↦ d.Above i m) (fun m hm k hk ↦ ?_)
        (fun m c'' hm hc'' ↦ ⟨?_, ?_⟩) (fun m hm ↦ .parent ((hd.linked i m).2 hm)) hus
      · exact hm.trans (.parent ((hd.linked m k).2 hk))
      · rwa [hr.content?_of_ne m (hm.lt_size hd).2]
        rw [heq]
        rintro rfl
        exact hd.acyclic m hm
      · refine hr.children_of_ne m ?_
        rintro rfl
        exact hd.acyclic m (hni.trans hm)
    · rename_i hsort
      exact hnew (by rw [heq, if_neg hsort])

end Document

/-! ## Drafts -/

/-- The directives of an element have been dealt with but for the markers among the attributes that
are left.  The document was `d` before the first of them. -/
structure Drafted (dialect : Dialect) (d : Document) (n : NodeId) (owned : Bool)
    (left : List (String × String)) (x : Draft) (e : Document) : Prop where
  aside : d.Aside n owned e
  forest : e.IsForest
  element : ∃ y, e.content? n = some (.element y) ∧ dialect.plain y = x.element ∧
    ∀ a ∈ y.attributes, (dialect.classify a.1).isSome → a.1 ∈ left.map Prod.fst
  content : e.DrawsAll (e.children n) x.content

namespace Drafted

variable {dialect : Dialect} {d e : Document} {n : NodeId} {owned : Bool}
  {left : List (String × String)} {x : Draft}

theorem lt_size (h : Drafted dialect d n owned left x e) : n < e.nodes.size := by
  obtain ⟨y, hy, -⟩ := h.element
  exact lt_size_of_content? hy

/-- An element is changed, and the draft with it. -/
theorem modifyElement (h : Drafted dialect d n owned left x e) {f g : Element → Element}
    {left' : List (String × String)} (hplain : ∀ y, dialect.plain (f y) = g (dialect.plain y))
    (hmarkers : ∀ y, (∀ a ∈ y.attributes, (dialect.classify a.1).isSome → a.1 ∈ left.map Prod.fst) →
      ∀ a ∈ (f y).attributes, (dialect.classify a.1).isSome → a.1 ∈ left'.map Prod.fst) :
    Drafted dialect d n owned left' { x with element := g x.element } (e.modifyElement n f) := by
  obtain ⟨y, hy, hx, hleft⟩ := h.element
  have heq : e.modifyElement n f = e.setContent n (.element (f y)) := by
    rw [modifyElement_eq, element?, hy]
  refine ⟨h.aside.modifyElement f, ?_, ⟨f y, ?_, by rw [hplain, hx], hmarkers y hleft⟩, ?_⟩
  · rw [heq]
    exact h.forest.setContent _ _
  · rw [heq, content?_setContent, if_pos rfl, hy]
    rfl
  · rw [heq]
    exact drawsAll_children_setContent h.forest h.content _

/-- A content is shown that belongs to a directive. -/
theorem replaceContent (h : Drafted dialect d n true left x e) (hd : d.IsForest)
    (hn : n < d.nodes.size) (c : Content) :
    Drafted dialect d n true left { x with content := Tree.lone c x.content }
      (e.replaceContent n c) := by
  obtain ⟨y, hy, hx⟩ := h.element
  have hr := replaceContent_replaced h.lt_size c
  have hne : n ≠ e.spot n c := by
    intro heq
    rcases hr.spot_old with hold | hnew
    · refine h.forest.acyclic n (.parent ((h.forest.linked n n).2 ?_))
      rw [hold, ← heq]
      exact List.mem_singleton_self n
    · exact absurd h.lt_size (by rw [heq, hnew]; exact Nat.lt_irrefl _)
  exact ⟨h.aside.replaceContent hd hn c, h.forest.replaceContent n c,
    ⟨y, by rwa [hr.content?_of_ne n h.lt_size hne], hx⟩,
    drawsAll_children_replaceContent h.forest h.lt_size h.content c⟩

theorem setControl (h : Drafted dialect d n owned left x e) (text : String) :
    Drafted dialect d n owned left { x with element := { x.element with control := some text } }
      (e.setControl n text) :=
  h.modifyElement (g := fun y ↦ { y with control := some text }) (fun _ ↦ rfl) fun _ hy ↦ hy

theorem setAttribute (h : Drafted dialect d n owned left x e) {name : String}
    (hname : dialect.classify name = none) (value : String) :
    Drafted dialect d n owned left { x with element := x.element.setAttribute name value }
      (e.setAttribute n name value) := by
  refine h.modifyElement (g := fun y ↦ y.setAttribute name value)
    (Dialect.plain_setAttribute hname value) fun y hy a ha hmarker ↦ ?_
  rcases Element.mem_putAttribute ha with heq | ha
  · rw [heq, hname] at hmarker
    cases hmarker
  · exact hy a ha hmarker

/-- A marker is taken away. -/
theorem removeAttribute {a : String × String} (h : Drafted dialect d n owned (a :: left) x e)
    (ha : (dialect.classify a.1).isSome = true) :
    Drafted dialect d n owned left x (e.removeAttribute n a.1) := by
  refine h.modifyElement (g := id) (Dialect.plain_removeAttribute ha) fun y hy b hb hmarker ↦ ?_
  obtain ⟨hb, hne⟩ := List.mem_filter.1 hb
  rcases List.mem_cons.1 (hy b hb hmarker) with heq | hmem
  · exact absurd heq (by simpa using hne)
  · exact hmem

/-- An attribute that is no marker is left alone. -/
theorem skip {a : String × String} (h : Drafted dialect d n owned (a :: left) x e)
    (ha : dialect.classify a.1 = none) : Drafted dialect d n owned left x e := by
  obtain ⟨y, hy, hx, hleft⟩ := h.element
  refine ⟨h.aside, h.forest, ⟨y, hy, hx, fun b hb hmarker ↦ ?_⟩, h.content⟩
  rcases List.mem_cons.1 (hleft b hb hmarker) with heq | hmem
  · rw [heq, ha] at hmarker
    cases hmarker
  · exact hmem

theorem start (hd : d.IsForest) {y : Element} (hy : d.content? n = some (.element y))
    {ts : List (Tree Content)} (hts : d.DrawsAll (d.children n) ts) (dialect : Dialect)
    (owned : Bool) :
    Drafted dialect d n owned y.attributes ⟨dialect.plain y, ts⟩ d :=
  ⟨.refl d n owned, hd, ⟨y, hy, rfl, fun _ ha _ ↦ List.mem_map_of_mem ha⟩, hts⟩

/-- When nothing is left the element is that of the draft. -/
theorem content?_eq (h : Drafted dialect d n owned [] x e) :
    e.content? n = some (.element x.element) := by
  obtain ⟨y, hy, hx, hleft⟩ := h.element
  have hnone : dialect.plain y = y := by
    have hfilter : (y.attributes.filter fun a ↦ (dialect.classify a.1).isNone) = y.attributes := by
      refine List.filter_eq_self.2 fun a ha ↦ ?_
      cases hc : dialect.classify a.1 with
      | none => rfl
      | some m => exact absurd (hleft a ha (by rw [hc]; rfl)) (by simp)
    exact congrArg (fun as ↦ { y with attributes := as }) hfilter
  rw [hy, ← hx, hnone]

end Drafted

/-! ## The standard directives -/

theorem DirectiveTable.lookup_standard_eq_none {kind : String}
    (h : kind ∉ ["text", "markup", "value", "attr", "on"]) :
    DirectiveTable.standard.lookup kind = none := by
  simp only [List.mem_cons, List.not_mem_nil, or_false, not_or, ← beq_eq_false_iff_ne] at h
  obtain ⟨h₁, h₂, h₃, h₄, h₅⟩ := h
  simp only [DirectiveTable.standard, List.lookup_cons, List.lookup_nil, h₁, h₂, h₃, h₄, h₅]

namespace Imitates

variable {σ : Type} {job : CompileJob σ} {methods : String → Event → Action σ} {w₀ : World σ}
  {d e : Document} {n : NodeId} {owned : Bool} {left : List (String × String)} {x : Draft}

section Directive

variable (call : Call σ) (hd : d.IsForest) (hn : n < d.nodes.size)
  (h : Drafted job.dialect d n owned left x e)

include hd hn h

/-- A bond that shows a content. -/
theorem showContent (howned : owned = true) {binding : Binding} {b : Bond}
    (hb : binding.bond? n = some b) {c : String → Content}
    (hc : ∀ y, e.content? n = some (.element y) → ∀ text,
      e.apply (b.edit text) = e.replaceContent n (c text)) :
    Imitates job methods w₀ e ([binding].forM (Compilation.bind call job methods n))
      (do
        let text ← Recursive.bond w₀.scene.store job.state b
        return { x with content := Tree.lone (c text) x.content })
      fun _ x' e' ↦ Drafted job.dialect d n owned left x' e' := by
  subst howned
  refine (bond call hb).bind fun _ text e' he' ↦ .pure ?_
  obtain ⟨y, hy, -⟩ := h.element
  rw [he', hc y hy]
  exact h.replaceContent hd hn _

/-- **A standard directive takes the draft one step further.** -/
theorem direct (htable : job.table = .standard) (unknown kind : String) (directive : Directive)
    (howned : ownsContent kind = true → owned = true)
    (hdetail : kind = "attr" → ∀ name, directive.detail = some name →
      job.dialect.classify name = none) :
    Imitates job methods w₀ e (Compilation.direct call job methods n unknown kind directive)
      (Recursive.ofDirective w₀.scene.store job.state n unknown kind directive x)
      fun _ x' e' ↦ Drafted job.dialect d n owned left x' e' := by
  have hsetText : ∀ y, e.content? n = some (.element y) → ∀ text,
      e.setText n text = e.replaceContent n (.text text) := fun y hy text ↦ by
    rw [setText, hy]
  have hsetMarkup : ∀ y, e.content? n = some (.element y) → ∀ text,
      e.setMarkup n text = e.replaceContent n (.raw text) := fun y hy text ↦ by
    rw [setMarkup, hy]
  rw [Compilation.direct, htable]
  by_cases hkind : kind ∈ ["text", "markup", "value", "attr", "on"]
  · simp only [List.mem_cons, List.not_mem_nil, or_false] at hkind
    rcases hkind with rfl | rfl | rfl | rfl | rfl
    · -- text
      show Imitates job methods w₀ e ((DirectiveHandler.text directive).forM _) _ _
      rw [DirectiveHandler.text, Recursive.ofDirective]
      split
      · exact showContent call hd hn h (howned rfl) rfl hsetText
      · exact showContent call hd hn h (howned rfl) rfl hsetText
    · -- markup
      exact showContent call hd hn h (howned rfl) rfl hsetMarkup
    · -- value
      have hbond : (Binding.live .control directive.expr).bond? n =
        some (.value n .control directive.expr) := rfl
      refine (bond call hbond).bind fun _ text e' he' ↦ ?_
      subst he'
      refine (listen n inputEvent (.write (Text.trim directive.expr))).bind fun _ _ e' he' ↦ ?_
      subst he'
      exact .pure (h.setControl text)
    · -- attr
      show Imitates job methods w₀ e ((DirectiveHandler.attr directive).forM _) _ _
      rw [DirectiveHandler.attr, Recursive.ofDirective]
      cases hname : directive.detail with
      | none => exact refuse _
      | some name =>
        refine (present n _ directive.expr).bind_left fun _ e' he' ↦ .pure ?_
        rw [he']
        exact h.setAttribute (hdetail rfl name hname) _
    · -- on
      show Imitates job methods w₀ e ((DirectiveHandler.on directive).forM _) _ _
      rw [DirectiveHandler.on, Recursive.ofDirective]
      cases directive.detail with
      | none => exact refuse _
      | some event =>
        refine (listen n event (.method (Text.trim directive.expr))).bind fun _ _ e' he' ↦ .pure ?_
        rwa [he']
  · rw [DirectiveTable.lookup_standard_eq_none hkind, Recursive.ofDirective]
    · exact refuse _
    all_goals
      rintro rfl
      exact hkind (by decide)

end Directive

section Attributes

variable (call : Call σ) (hd : d.IsForest) (hn : n < d.nodes.size) (htable : job.table = .standard)

include hd hn htable

/-- **An attribute takes the draft one step further.** -/
theorem visitAttribute {name value : String}
    (h : Drafted job.dialect d n owned ((name, value) :: left) x e)
    (howned : job.dialect.givesContent name = true → owned = true)
    (hdetail : ∀ detail, job.dialect.classify name = some (.directive "attr" (some detail)) →
      job.dialect.classify detail = none) :
    Imitates job methods w₀ e (Compilation.visitAttribute call job methods n name value)
      (Recursive.ofAttribute w₀.scene.store job.state job.dialect n x (name, value))
      fun b x' e' ↦ b = job.dialect.givesContent name ∧
      Drafted job.dialect d n owned left x' e' := by
  rw [Compilation.visitAttribute, Recursive.ofAttribute, Dialect.givesContent]
  rw [Dialect.givesContent] at howned
  cases hmarker : job.dialect.classify name with
  | none => exact .pure ⟨rfl, h.skip hmarker⟩
  | some marker =>
    rw [hmarker] at howned hdetail
    have hsome : (job.dialect.classify name).isSome = true := by
      rw [hmarker]
      rfl
    cases marker with
    | directive kind detail =>
      refine (direct call hd hn h htable name kind ⟨value, detail⟩ howned ?_).bind
        fun _ x' e' hx ↦ ?_
      · rintro rfl detail' rfl
        exact hdetail detail' rfl
      · refine (count _).bind fun _ _ e'' he'' ↦ ?_
        subst he''
        refine (edit _).bind_left fun _ e'' he'' ↦ .pure ⟨rfl, ?_⟩
        rw [he'']
        exact hx.removeAttribute hsome
    | event event =>
      refine (direct call hd hn h htable name "on" ⟨value, _⟩ (fun howns ↦ absurd howns (by decide))
        (fun hkind ↦ absurd hkind (by decide))).bind fun _ x' e' hx ↦ ?_
      refine (count _).bind fun _ _ e'' he'' ↦ ?_
      subst he''
      refine (edit _).bind_left fun _ e'' he'' ↦ .pure ⟨rfl, ?_⟩
      rw [he'']
      exact hx.removeAttribute hsome

/-- **The attributes of an element finish the draft.** -/
theorem visitAttributes (h : Drafted job.dialect d n owned left x e)
    (howned : (left.any fun a ↦ job.dialect.givesContent a.1) = true → owned = true)
    (hdetail : ∀ a ∈ left, ∀ detail,
      job.dialect.classify a.1 = some (.directive "attr" (some detail)) →
        job.dialect.classify detail = none) :
    Imitates job methods w₀ e (Compilation.visitAttributes call job methods n left)
      (left.foldlM (Recursive.ofAttribute w₀.scene.store job.state job.dialect n) x)
      fun b x' e' ↦ b = (left.any fun a ↦ job.dialect.givesContent a.1) ∧
        Drafted job.dialect d n owned [] x' e' := by
  induction left generalizing x e with
  | nil => exact .pure ⟨rfl, h⟩
  | cons a left ih =>
    obtain ⟨name, value⟩ := a
    rw [List.any_cons] at howned
    rw [Compilation.visitAttributes, List.foldlM_cons, List.any_cons]
    refine (visitAttribute call hd hn htable h (fun howns ↦ howned (by rw [howns]; rfl))
      (hdetail _ List.mem_cons_self)).bind fun b x' e' hx ↦ ?_
    obtain ⟨rfl, hx⟩ := hx
    have hrest := ih hx (fun howns ↦ howned (by rw [howns, Bool.or_true]))
      fun a ha ↦ hdetail a (List.mem_cons_of_mem _ ha)
    rw [← bind_pure (left.foldlM _ x')]
    refine hrest.bind fun b x'' e'' hx'' ↦ .pure ?_
    obtain ⟨rfl, hx''⟩ := hx''
    exact ⟨rfl, hx''⟩

end Attributes

end Imitates

end DataBinding

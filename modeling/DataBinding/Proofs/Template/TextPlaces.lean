import DataBinding.Proofs.Markup.Outline
import DataBinding.Proofs.Markup.Spelling
import DataBinding.Proofs.Template.FilledTemplates

/-!
# A compiled document shows texts in its places for texts

A document that has been compiled without raw markup is its template filled in with texts
(`Texted`).  Bindings change it in two ways, and it stays what it is: a text is shown at a place for
texts (`Texted.setText`), and a control is set (`Texted.setControl`).

**Two fillings of one template have the same outline** (`Texted.outline_eq`), and reading the markup
of either again finds it (`Texted.exists_parse`).
-/

set_option autoImplicit false

namespace DataBinding

open Document

namespace Document

/-- There is no raw markup. -/
def Unraw (d : Document) : Prop := ∀ n markup, d.content? n ≠ some (.raw markup)

namespace Unraw

variable {d : Document} {n : NodeId}

theorem of_content? (h : d.Unraw) {e : Document}
    (hcontent : ∀ i, e.content? i = d.content? i ∨ ∀ markup, e.content? i ≠ some (.raw markup)) :
    e.Unraw := by
  intro i markup
  rcases hcontent i with heq | hne
  · rw [heq]
    exact h i markup
  · exact hne markup

theorem setContent (h : d.Unraw) {c : Content} (hc : ∀ markup, c ≠ .raw markup) :
    (d.setContent n c).Unraw := by
  refine h.of_content? fun i ↦ ?_
  rw [content?_setContent]
  split
  · right
    cases d.content? i with
    | none => simp
    | some _ => simpa using hc
  · exact .inl rfl

theorem replaceContent (h : d.Unraw) (hn : n < d.nodes.size) {c : Content}
    (hc : ∀ markup, c ≠ .raw markup) : (d.replaceContent n c).Unraw := by
  refine h.of_content? fun i ↦ ?_
  rw [content?_replaceContent hn]
  split
  · right
    simpa using hc
  · exact .inl rfl

theorem modifyElement (h : d.Unraw) (f : Element → Element) : (d.modifyElement n f).Unraw := by
  rw [modifyElement_eq]
  split
  · exact h.setContent (by simp)
  · exact h

theorem setText (h : d.Unraw) (text : String) : (d.setText n text).Unraw := by
  rw [Document.setText]
  split
  · exact h.setContent (by simp)
  · rename_i hc
    exact h.replaceContent (lt_size_of_content? hc) (by simp)
  · rename_i hc
    exact h.replaceContent (lt_size_of_content? hc) (by simp)
  · rename_i hc
    exact h.replaceContent (lt_size_of_content? hc) (by simp)
  · exact h

/-- Nothing that has been parsed is raw markup. -/
theorem of_parse {markup : String} (h : parse markup = .ok d) : d.Unraw := by
  intro n raw hraw
  rcases parse_rooted h n (lt_size_of_content? hraw) with rfl | habove
  · obtain ⟨ts, -, -, hroot, -⟩ := exists_items h
    cases hraw.symm.trans hroot
  · cases parse_plainAt h habove with
    | element he _ _ => cases hraw.symm.trans he
    | text ht _ => cases hraw.symm.trans ht

end Unraw

end Document

/-- A template that has been filled in with texts. -/
structure Document.Texted (d : Document) (dialect : Dialect) (root : NodeId) (f : Document) : Prop
    extends d.Filled dialect root f where
  unraw : f.Unraw

/-- A node of a template that may be given a text: a text, or an element that shows one. -/
def Document.TakesText (d : Document) (dialect : Dialect) (root n : NodeId) : Prop :=
  d.Visited dialect root n ∧
    ((∃ t, d.content? n = some (.text t)) ∨ dialect.owns (d.content? n) = true)

theorem Content.eq_text_of_sameSort {t : String} {c : Content}
    (h : (Content.text t).sameSort c = true) : ∃ t', c = .text t' := by
  cases c <;> first | exact ⟨_, rfl⟩ | cases h

namespace Document.Filled

variable {d f : Document} {dialect : Dialect} {root n m : NodeId} {text : String}

theorem parent?_of_visited (h : d.Filled dialect root f) (hn : d.Visited dialect root n) :
    ∃ p, f.parent? n = some p ∧
      (p = root ∨ d.Visited dialect root p ∧ dialect.owns (d.content? p) = false) := by
  cases hn with
  | child hmem => exact ⟨root, (h.forest.linked _ _).2 (by rwa [h.top]), .inl rfl⟩
  | @inside p _ hp howns hmem =>
    exact ⟨p, (h.forest.linked _ _).2 (by rwa [h.free p hp howns]), .inr ⟨hp, howns⟩⟩

theorem ne_root_of_visited (hd : d.IsForest) (hn : d.Visited dialect root n) : n ≠ root := by
  rintro rfl
  exact hd.acyclic n (hn.above hd)

/-- What is shown in an owned content is not a node of the template. -/
theorem ne_spot (h : d.Filled dialect root f) (hd : d.IsForest) (hn : d.Visited dialect root n)
    (howns : dialect.owns (d.content? n) = true) (hm : d.Visited dialect root m) (c : Content) :
    m ≠ f.spot n c := by
  obtain ⟨p, hp, hparent⟩ := h.parent?_of_visited hm
  rintro rfl
  rcases f.spot_cases n c with hnew | ⟨hch, -⟩
  · exact Nat.ne_of_lt (lt_size_of_parent? hp) hnew
  · have hpn := (h.forest.linked n (f.spot n c)).2 (by rw [hch]; exact List.mem_singleton_self _)
    cases hp.symm.trans hpn
    rcases hparent with rfl | ⟨-, hfree⟩
    · exact ne_root_of_visited hd hn rfl
    · rw [howns] at hfree
      cases hfree

/-- A text of the template is changed. -/
theorem setContent_text (h : d.Filled dialect root f) {t : String}
    (ht : f.content? n = some (.text t)) :
    d.Filled dialect root (f.setContent n (.text text)) where
  forest := h.forest.setContent ..
  leafy := h.leafy.setContent fun b hb ↦ by
    cases ht.symm.trans hb
    rfl
  top := by rw [children_setContent, h.top]
  sort i c hi hc := by
    obtain ⟨c', hc', hsort⟩ := h.sort i c hi hc
    rw [content?_setContent, hc']
    split
    · rename_i heq
      cases ht.symm.trans (heq ▸ hc')
      exact ⟨_, rfl, c.sameSort_trans hsort rfl⟩
    · exact ⟨c', rfl, hsort⟩
  dressed i x hi hx := by
    obtain ⟨y, hy, hdressed⟩ := h.dressed i x hi hx
    refine ⟨y, ?_, hdressed⟩
    rw [content?_setContent, if_neg, hy]
    rintro rfl
    cases ht.symm.trans hy
  free i hi howns := by rw [children_setContent, h.free i hi howns]
  owned i hi howns := by
    obtain ⟨k, c, hch, hc, hleaf⟩ := h.owned i hi howns
    have hk := content?_setContent f n (.text text) k
    rw [hc] at hk
    split at hk
    · exact ⟨k, _, by rw [children_setContent, hch], hk, rfl⟩
    · exact ⟨k, c, by rw [children_setContent, hch], hk, hleaf⟩

/-- An owned content is changed. -/
theorem replaceContent_text (h : d.Filled dialect root f) (hd : d.IsForest)
    (hn : d.Visited dialect root n) (howns : dialect.owns (d.content? n) = true) :
    d.Filled dialect root (f.replaceContent n (.text text)) := by
  obtain ⟨x, hx⟩ := Dialect.exists_element_of_owns howns
  obtain ⟨y, hy, -⟩ := h.dressed n x hn hx
  have hlt := lt_size_of_content? hy
  have hcontent : ∀ {i}, d.Visited dialect root i →
      (f.replaceContent n (.text text)).content? i = f.content? i := fun hi ↦ by
    rw [content?_replaceContent hlt, if_neg (h.ne_spot hd hn howns hi _)]
  have hchildren := children_replaceContent hlt (.text text)
  exact {
    forest := h.forest.replaceContent ..
    leafy := h.leafy.replaceContent h.forest hy rfl _
    top := by rw [hchildren, if_neg (ne_root_of_visited hd hn).symm, h.top]
    sort := fun i c hi hc ↦ by rw [hcontent hi]; exact h.sort i c hi hc
    dressed := fun i x hi hx ↦ by rw [hcontent hi]; exact h.dressed i x hi hx
    free := fun i hi hfree ↦ by
      rw [hchildren, if_neg, h.free i hi hfree]
      rintro rfl
      rw [howns] at hfree
      cases hfree
    owned := fun i hi hown ↦ by
      by_cases hin : i = n
      · exact ⟨f.spot n (.text text), .text text, by rw [hchildren, if_pos hin],
          by rw [content?_replaceContent hlt, if_pos rfl], rfl⟩
      · obtain ⟨k, c, hch, hc, hleaf⟩ := h.owned i hi hown
        have hk := content?_replaceContent hlt (.text text) k
        rw [hc] at hk
        split at hk
        · exact ⟨k, _, by rw [hchildren, if_neg hin, hch], hk, rfl⟩
        · exact ⟨k, c, by rw [hchildren, if_neg hin, hch], hk, hleaf⟩ }

/-- A control is set, of whatever node. -/
theorem setControl (h : d.Filled dialect root f) : d.Filled dialect root (f.setControl n text) := by
  have hcontent : ∀ {i c}, f.content? i = some c → (f.setControl n text).content? i =
      some (if n = i then c.onElement fun e ↦ { e with control := some text } else c) :=
    fun hc ↦ content?_modifyElement hc _
  exact {
    forest := h.forest.apply (.setControl n text)
    leafy := h.leafy.modifyElement _
    top := by rw [Document.setControl, children_modifyElement, h.top]
    sort := fun i c hi hc ↦ by
      obtain ⟨c', hc', hsort⟩ := h.sort i c hi hc
      refine ⟨_, hcontent hc', c.sameSort_trans hsort ?_⟩
      split
      · cases c' <;> rfl
      · exact c'.sameSort_refl
    dressed := fun i x hi hx ↦ by
      obtain ⟨y, hy, htag, hdressed⟩ := h.dressed i x hi hx
      refine ⟨if n = i then { y with control := some text } else y, ?_, ?_, ?_⟩
      · rw [hcontent hy]
        split <;> rfl
      · split <;> exact htag
      · split <;> exact hdressed
    free := fun i hi hfree ↦ by rw [Document.setControl, children_modifyElement, h.free i hi hfree]
    owned := fun i hi hown ↦ by
      obtain ⟨k, c, hch, hc, hleaf⟩ := h.owned i hi hown
      refine ⟨k, _, by rw [Document.setControl, children_modifyElement, hch], hcontent hc, ?_⟩
      split
      · rw [Content.isLeaf_onElement, hleaf]
      · exact hleaf }

end Document.Filled

namespace Document.Texted

variable {d f : Document} {dialect : Dialect} {root n : NodeId}

/-- **A text is shown at a place for texts.** -/
theorem setText (h : d.Texted dialect root f) (hd : d.IsForest) (hn : d.TakesText dialect root n)
    (text : String) : d.Texted dialect root (f.setText n text) := by
  refine ⟨?_, h.unraw.setText text⟩
  obtain ⟨hvisited, ⟨t, ht⟩ | howns⟩ := hn
  · obtain ⟨c, hc, hsort⟩ := h.sort n _ hvisited ht
    obtain ⟨t', rfl⟩ := Content.eq_text_of_sameSort hsort
    rw [Document.setText, hc]
    exact h.setContent_text hc
  · obtain ⟨x, hx⟩ := Dialect.exists_element_of_owns howns
    obtain ⟨y, hy, -⟩ := h.dressed n x hvisited hx
    rw [Document.setText, hy]
    exact h.replaceContent_text hd hvisited howns

/-- **A control is set.** -/
theorem setControl (h : d.Texted dialect root f) (n : NodeId) (text : String) :
    d.Texted dialect root (f.setControl n text) :=
  ⟨h.toFilled.setControl, h.unraw.modifyElement _⟩

end Document.Texted

/-! ## Markup can say it -/

namespace Dialect

variable {dialect : Dialect} {as : List (String × String)}

theorem nodup_putAttribute (h : (as.map Prod.fst).Nodup) (name value : String) :
    ((Element.putAttribute name value as).map Prod.fst).Nodup := by
  induction as with
  | nil => simp [Element.putAttribute]
  | cons a as ih =>
    obtain ⟨k, v⟩ := a
    obtain ⟨hnot, hrest⟩ := List.nodup_cons.1 h
    rw [Element.putAttribute]
    split
    · exact h
    · rename_i hne
      refine List.nodup_cons.2 ⟨fun hmem ↦ ?_, ih hrest⟩
      rcases (mem_names_putAttribute value).1 hmem with heq | hmem
      · exact hne (beq_iff_eq.2 heq)
      · exact hnot hmem

/-- The names of attributes can be written, and are different. -/
def GoodNames (as : List (String × String)) : Prop :=
  (∀ name ∈ as.map Prod.fst, Markup.AttributeName name.toList) ∧ (as.map Prod.fst).Nodup

theorem GoodNames.filter (h : GoodNames as) (p : String × String → Bool) :
    GoodNames (as.filter p) :=
  have hsub := (List.filter_sublist (p := p) (l := as)).map Prod.fst
  ⟨fun name hname ↦ h.1 name (hsub.subset hname), h.2.sublist hsub⟩

/-- An attribute has its turn: the name that it sets is a part of its own. -/
theorem GoodNames.dress (h : GoodNames as) {a : String × String}
    (ha : Markup.AttributeName a.1.toList) : GoodNames (dialect.dress as a) := by
  rw [Dialect.dress]
  split
  · exact h
  · rename_i name hclassify
    refine GoodNames.filter ⟨fun m hm ↦ ?_, nodup_putAttribute h.2 name a.2⟩ _
    rcases (mem_names_putAttribute a.2).1 hm with rfl | hm
    · obtain ⟨before, -, hne, heq⟩ := exists_detail hclassify
      exact ⟨hne, fun c hc ↦ ha.2 c (by rw [heq]; exact List.mem_append_right _ hc)⟩
    · exact h.1 m hm
  · exact h.filter _

theorem GoodNames.dressed (h : GoodNames as) : GoodNames (dialect.dressed as) := by
  have hturns : ∀ turns bs : List (String × String), GoodNames bs →
      (∀ a ∈ turns, Markup.AttributeName a.1.toList) →
          GoodNames (turns.foldl dialect.dress bs) := by
    intro turns
    induction turns with
    | nil => exact fun bs hbs _ ↦ hbs
    | cons a turns ih =>
      exact fun bs hbs hnames ↦ ih _ (hbs.dress (hnames a List.mem_cons_self)) fun b hb ↦
        hnames b (List.mem_cons_of_mem _ hb)
  exact hturns as as h fun a ha ↦ h.1 a.1 (List.mem_map_of_mem ha)

/-- **An element that markup can say can still be said when its markers are gone.** -/
theorem isPlain_dressed {x y : Element} (hx : x.IsPlain) (htag : y.tag = x.tag)
    (hdressed : y.attributes = dialect.dressed x.attributes) : y.IsPlain := by
  have hgood : GoodNames x.attributes := ⟨fun name hname ↦ by
    obtain ⟨a, ha, rfl⟩ := List.mem_map.1 hname
    exact hx.names a ha, hx.distinct⟩
  obtain ⟨hnames, hdistinct⟩ : GoodNames (dialect.dressed x.attributes) := hgood.dressed
  rw [← hdressed] at hnames hdistinct
  exact ⟨htag ▸ hx.tag, htag ▸ hx.lower, fun a ha ↦ hnames a.1 (List.mem_map_of_mem ha), hdistinct⟩

end Dialect

namespace Document.Texted

variable {d f f₁ f₂ : Document} {dialect : Dialect} {root n : NodeId} {markup : String}

theorem sayable (h : d.Texted dialect root f) (hparse : parse markup = .ok d)
    (hn : f.Above root n) : f.Sayable n := by
  rcases h.visited_or_leaf hn with hvisited | ⟨c, hc, hleaf⟩
  · cases parse_plainAt hparse (hvisited.above (parse_isForest hparse)) with
    | element hx hplain _ =>
      obtain ⟨y, hy, htag, hdressed⟩ := h.dressed n _ hvisited hx
      exact .inl ⟨y, hy, Dialect.isPlain_dressed hplain htag hdressed⟩
    | text ht _ =>
      obtain ⟨c, hc, hsort⟩ := h.sort n _ hvisited ht
      obtain ⟨t, rfl⟩ := Content.eq_text_of_sameSort hsort
      exact .inr ⟨t, hc⟩
  · cases c with
    | text t => exact .inr ⟨t, hc⟩
    | raw m => exact absurd hc (h.unraw n m)
    | _ => cases hleaf

end Document.Texted

/-! ## One outline -/

/-- A leaf has no outline. -/
theorem Document.ShowsLeaf.outlineAll_eq {f : Document} {n : NodeId} (h : f.ShowsLeaf n)
    {ts : List (Tree Content)} (hts : f.DrawsAll (f.children n) ts) :
    Tree.outlineAll (Tree.lopAll ts) = [] := by
  obtain ⟨i, c, hch, hc, hleaf⟩ := h
  rw [hch] at hts
  match ts with
  | [] => rfl
  | .node b us :: rest =>
    obtain ⟨k, _, heq, ⟨hb, -⟩, hrest⟩ := hts
    cases heq
    cases hc.symm.trans hb
    match rest with
    | [] => cases c <;> first | rfl | cases hleaf
    | _ :: _ =>
      obtain ⟨_, _, heq, -⟩ := hrest
      cases heq

mutual

/-- **Two fillings of a template have the same outline**, from any node of the template on. -/
theorem Document.Texted.outline_eq {d f₁ f₂ : Document} {dialect : Dialect} {root n : NodeId}
    {markup : String} (h₁ : d.Texted dialect root f₁) (h₂ : d.Texted dialect root f₂)
    (hparse : parse markup = .ok d) (hn : d.Visited dialect root n) {t u : Tree Content}
    (ht : f₁.Draws n t) (hu : f₂.Draws n u) : t.lop.outline = u.lop.outline := by
  match t, u with
  | .node c ts, .node b us =>
    obtain ⟨hc, hts⟩ := ht
    obtain ⟨hb, hus⟩ := hu
    rw [Tree.lop, Tree.lop]
    cases parse_plainAt hparse (hn.above (parse_isForest hparse)) with
    | @element x hx _ _ =>
      obtain ⟨y, hy, htag, hdressed⟩ := h₁.dressed n x hn hx
      obtain ⟨z, hz, htag', hdressed'⟩ := h₂.dressed n x hn hx
      cases hc.symm.trans hy
      cases hb.symm.trans hz
      simp only [Tree.outline, Content.isShut, htag, htag', hdressed, hdressed']
      cases Markup.isVoid x.tag with
      | true => rfl
      | false =>
        simp only [Bool.false_eq_true, if_false]
        cases howns : dialect.owns (d.content? n) with
        | true =>
          rw [(h₁.owned n hn howns).outlineAll_eq hts, (h₂.owned n hn howns).outlineAll_eq hus]
        | false =>
          rw [h₁.free n hn howns] at hts
          rw [h₂.free n hn howns] at hus
          rw [Texted.outlineAll_eq h₁ h₂ hparse (fun k hk ↦ .inside hn howns hk) hts hus]
    | text hx _ =>
      obtain ⟨_, hy, hsort⟩ := h₁.sort n _ hn hx
      obtain ⟨_, hz, hsort'⟩ := h₂.sort n _ hn hx
      obtain ⟨_, rfl⟩ := Content.eq_text_of_sameSort hsort
      obtain ⟨_, rfl⟩ := Content.eq_text_of_sameSort hsort'
      cases hc.symm.trans hy
      cases hb.symm.trans hz
      rfl

theorem Document.Texted.outlineAll_eq {d f₁ f₂ : Document} {dialect : Dialect} {root : NodeId}
    {markup : String} (h₁ : d.Texted dialect root f₁) (h₂ : d.Texted dialect root f₂)
    (hparse : parse markup = .ok d) {ns : List NodeId} (hns : ∀ n ∈ ns, d.Visited dialect root n)
    {ts us : List (Tree Content)} (hts : f₁.DrawsAll ns ts) (hus : f₂.DrawsAll ns us) :
    Tree.outlineAll (Tree.lopAll ts) = Tree.outlineAll (Tree.lopAll us) := by
  match ts, us with
  | [], [] => rfl
  | t :: ts, u :: us =>
    obtain ⟨n, rest, rfl, ht, hts⟩ := hts
    obtain ⟨n', rest', heq, hu, hus⟩ := hus
    cases heq
    rw [Tree.lopAll, Tree.lopAll, Tree.outlineAll, Tree.outlineAll,
      Texted.outline_eq h₁ h₂ hparse (hns n List.mem_cons_self) ht hu,
      Texted.outlineAll_eq h₁ h₂ hparse (fun k hk ↦ hns k (List.mem_cons_of_mem _ hk)) hts hus]
  | [], u :: us =>
    obtain ⟨n, rest, rfl, -⟩ := hus
    cases hts
  | t :: ts, [] =>
    obtain ⟨n, rest, rfl, -⟩ := hts
    cases hus

end

/-- **Reading the markup of two fillings of a template again finds one outline.** -/
theorem Document.Texted.exists_parse {d f₁ f₂ : Document} {dialect : Dialect} {root : NodeId}
    {markup : String} (h₁ : d.Texted dialect root f₁) (h₂ : d.Texted dialect root f₂)
    (hparse : parse markup = .ok d) :
    ∃ e₁ e₂ s, parse (f₁.innerMarkup root) = .ok e₁ ∧ parse (f₂.innerMarkup root) = .ok e₂ ∧
      e₁.HasOutline s ∧ e₂.HasOutline s := by
  have hdraws : ∀ {f : Document}, d.Texted dialect root f →
      ∃ ts, f.DrawsAll (f.children root) ts := fun h ↦
    exists_drawsAllBy fun k hk ↦ h.forest.exists_drawsBy (fun m hm ↦ exists_content? hm)
      (h.forest.lt_size_of_mem_children hk)
  obtain ⟨ts, hts⟩ := hdraws h₁
  obtain ⟨us, hus⟩ := hdraws h₂
  obtain ⟨e₁, he₁, houtline₁⟩ := exists_parse_outline h₁.forest hts fun m ↦ h₁.sayable hparse
  obtain ⟨e₂, he₂, houtline₂⟩ := exists_parse_outline h₂.forest hus fun m ↦ h₂.sayable hparse
  rw [h₁.top] at hts
  rw [h₂.top] at hus
  rw [h₁.outlineAll_eq h₂ hparse (fun n hn ↦ .child hn) hts hus] at houtline₁
  exact ⟨e₁, e₂, _, he₁, he₂, houtline₁, houtline₂⟩

end DataBinding

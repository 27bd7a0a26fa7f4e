import DataBinding.Proofs.Template.CompiledAttributes
import DataBinding.Proofs.Template.ShownAgain

/-!
# A compiled document is its template filled in

`Worked` is what stays true of a document while errands are done along a way, whatever texts they
show.  When all the errands of a route have been done and the nodes are back below their root, the
document is `Filled`: below the root there are the nodes of the template that a compilation visits,
elements with the attributes that their own attributes ask for, and **each owned content is a single
leaf** (`filled_of_painting`).
-/

set_option autoImplicit false

namespace DataBinding

open Document Errand

/-! ## Along a way -/

/-- Nodes that errands may work on one after the other. -/
structure Document.IsWay (d : Document) (dialect : Dialect) (way : List NodeId) : Prop where
  forest : d.IsForest
  nodup : way.Nodup
  valid : ∀ n ∈ way, n < d.nodes.size
  apart : ∀ n ∈ way, ∀ m ∈ way, dialect.owns (d.content? n) = true → m ∉ d.children n

/-- **A route is a way.** -/
theorem Document.IsForest.isWay_of_route {d : Document} (hd : d.IsForest) {dialect : Dialect}
    {fuel : Nat} {pending way : List NodeId} (hapart : d.Apart pending)
    (hvalid : ∀ m ∈ pending, m < d.nodes.size) (h : d.route dialect fuel pending = some way) :
    d.IsWay dialect way where
  forest := hd
  nodup := (hd.route_pairwise hapart h).imp Before.ne
  valid _ hn := hd.lt_size_of_mem_route hapart hvalid h hn
  apart _ hn _ hm howns := hd.not_child_of_route hapart h hn hm howns

/-- A document in which errands have been done along a way. -/
structure Worked (dialect : Dialect) (d : Document) (way : List NodeId) (e : Document) : Prop where
  size_le : d.nodes.size ≤ e.nodes.size
  forest : e.IsForest
  sort : ∀ n ∈ way, ∀ c, d.content? n = some c → ∃ c', e.content? n = some c' ∧ c.sameSort c' = true
  children_eq : ∀ x, (x ∈ way → dialect.owns (d.content? x) = false) → e.children x = d.children x
  own_children : ∀ n ∈ way, dialect.owns (d.content? n) = true →
    ∀ x ∈ e.children n, x ∈ d.children n ∨ d.nodes.size ≤ x

/-- A node has a single leaf below it. -/
def Document.ShowsLeaf (d : Document) (n : NodeId) : Prop :=
  ∃ i c, d.children n = [i] ∧ d.content? i = some c ∧ c.isLeaf = true

namespace Worked

variable {dialect : Dialect} {d e f : Document} {way : List NodeId} {n m : NodeId} {err : Errand}

theorem refl (h : d.IsWay dialect way) : Worked dialect d way d :=
  ⟨Nat.le_refl _, h.forest, fun _ _ c hc ↦ ⟨c, hc, c.sameSort_refl⟩, fun _ _ ↦ rfl,
    fun _ _ _ _ hx ↦ .inl hx⟩

/-- A node of the way is no child of one whose content is owned. -/
theorem not_child (h : Worked dialect d way e) (hway : d.IsWay dialect way) (hn : n ∈ way)
    (hm : m ∈ way) (howns : dialect.owns (d.content? n) = true) : m ∉ e.children n := fun hmem ↦
  (h.own_children n hn howns m hmem).elim (hway.apart n hn m hm howns)
    (Nat.not_le_of_lt (hway.valid m hm))

/-- **A document stays worked** when one node of the way is worked on. -/
theorem of_aside (h : Worked dialect d way e) (hway : d.IsWay dialect way) (hn : n ∈ way)
    (haside : e.Aside n (dialect.owns (d.content? n)) f) (hf : f.IsForest) :
    Worked dialect d way f where
  size_le := Nat.le_trans h.size_le haside.size_le
  forest := hf
  sort m hm c hc := by
    obtain ⟨c', hc', hsort⟩ := h.sort m hm c hc
    by_cases heq : m = n
    · subst heq
      obtain ⟨c'', hc'', hsort'⟩ := haside.sort c' hc'
      exact ⟨c'', hc'', Content.sameSort_trans hsort hsort'⟩
    · have hlt := Nat.lt_of_lt_of_le (hway.valid m hm) h.size_le
      rw [haside.content?_eq m hlt heq (h.not_child hway hn hm)]
      exact ⟨c', hc', hsort⟩
  children_eq x hx := by
    rw [haside.children_eq x fun howns heq ↦ ?_]
    · exact h.children_eq x hx
    · subst heq
      rw [hx hn] at howns
      cases howns
  own_children m hm howns x hx := by
    by_cases heq : m = n
    · subst heq
      rcases haside.own_children x hx with hx | hx
      · exact h.own_children m hm howns x hx
      · exact .inr (Nat.le_trans h.size_le hx)
    · rw [haside.children_eq m fun _ ↦ heq] at hx
      exact h.own_children m hm howns x hx

/-- An errand stays with its node. -/
theorem aside (h : Worked dialect d way e) (hway : d.IsWay dialect way) (hn : n ∈ way)
    (hfits : Fits dialect n (d.content? n) err) (shown : Bond → String) :
    e.Aside n (dialect.owns (d.content? n)) (err.apply shown e) := by
  refine aside_apply (.refl e n _) h.forest (Nat.lt_of_lt_of_le (hway.valid n hn) h.size_le)
    hfits.node (fun hcontent ↦ ?_) shown
  rcases hfits.content hcontent with ⟨howns, x, hx⟩ | ⟨t, ht, heq⟩
  · obtain ⟨c, hc, hsort⟩ := h.sort n hn _ hx
    cases c <;> first | exact .inl ⟨howns, _, hc⟩ | cases hsort
  · obtain ⟨c, hc, hsort⟩ := h.sort n hn _ ht
    cases c <;> first | exact .inr ⟨_, hc, t, heq⟩ | cases hsort

theorem apply (h : Worked dialect d way e) (hway : d.IsWay dialect way) (hn : n ∈ way)
    (hfits : Fits dialect n (d.content? n) err) (shown : Bond → String) :
    Worked dialect d way (err.apply shown e) :=
  h.of_aside hway hn (h.aside hway hn hfits shown) (apply_isForest h.forest shown err)

/-! ## Owned contents -/

/-- A content that is shown by an errand of its element is a single leaf. -/
theorem showsLeaf_of_onContent (h : Worked dialect d way e) (hway : d.IsWay dialect way)
    (hn : n ∈ way) {x : Element} (hx : d.content? n = some (.element x))
    (hnode : err.node? = some n) (hcontent : err.onContent = true) (shown : Bond → String) :
    (err.apply shown e).ShowsLeaf n := by
  obtain ⟨y, hy⟩ : ∃ y, e.content? n = some (.element y) := by
    obtain ⟨c, hc, hsort⟩ := h.sort n hn _ hx
    cases c <;> first | exact ⟨_, hc⟩ | cases hsort
  have hlt := Nat.lt_of_lt_of_le (hway.valid n hn) h.size_le
  have hshow : ∀ (slot : Slot) (text : String), slot.isContent = true →
      (e.apply (slot.edit n text)).ShowsLeaf n := by
    intro slot text hslot
    have hreplaced := replaceContent_replaced hlt (slot.content text)
    rw [apply_edit_of_element hy hslot]
    refine ⟨_, _, hreplaced.children_self, hreplaced.content?_spot, ?_⟩
    cases slot <;> rfl
  cases err with
  | bind m binding =>
    cases hnode
    cases binding with
    | fixed slot text => exact hshow slot text hcontent
    | live slot expr => exact hshow slot _ hcontent
    | template text => exact hshow .text (shown (.template n text)) rfl
    | _ => cases hcontent
  | _ => cases hcontent

/-- **A single leaf stays a single leaf** while errands are done. -/
theorem showsLeaf_apply (h : Worked dialect d way e) (hway : d.IsWay dialect way) (hn : n ∈ way)
    (howns : dialect.owns (d.content? n) = true) (hleaf : e.ShowsLeaf n) (hm : m ∈ way)
    (hfits : Fits dialect m (d.content? m) err) (shown : Bond → String) :
    (err.apply shown e).ShowsLeaf n := by
  obtain ⟨i, c, hch, hc, hcleaf⟩ := hleaf
  have hi : i ∈ e.children n := by
    rw [hch]
    exact List.mem_singleton_self i
  -- an errand that shows no content of the node leaves its child alone
  have hkept : ∀ owned : Bool, e.Aside m owned (err.apply shown e) →
      (owned = true → n ≠ m) → i ≠ m → (err.apply shown e).ShowsLeaf n := by
    intro owned haside hne him
    refine ⟨i, c, by rw [haside.children_eq n hne, hch], ?_, hcleaf⟩
    rw [haside.content?_eq i (lt_size_of_content? hc) him fun howned hmem ↦ hne howned ?_, hc]
    have hparent := (h.forest.linked m i).2 hmem
    rw [(h.forest.linked n i).2 hi] at hparent
    exact Option.some.inj hparent
  by_cases heq : m = n
  · subst heq
    obtain ⟨x, hx⟩ := Dialect.exists_element_of_owns howns
    cases hcontent : err.onContent with
    | true =>
      have hnode : err.node? = some m := by
        rcases hfits.node with hnone | hsome
        · cases err <;> first | cases hcontent | cases hnone
        · exact hsome
      exact h.showsLeaf_of_onContent hway hm hx hnode hcontent shown
    | false =>
      refine hkept false (aside_apply (.refl e m _) h.forest
        (Nat.lt_of_lt_of_le (hway.valid m hm) h.size_le) hfits.node (fun hc ↦ ?_) shown)
        (fun hfalse ↦ nomatch hfalse) ?_
      · rw [hcontent] at hc
        cases hc
      · rintro rfl
        exact h.forest.acyclic i (.parent ((h.forest.linked i i).2 hi))
  · refine hkept _ (h.aside hway hm hfits shown) (fun _ ↦ Ne.symm heq) ?_
    rintro rfl
    exact h.not_child hway hn hm howns hi

end Worked

/-! ## All errands of a way -/

namespace Errand

variable {dialect : Dialect} {d e : Document} {way : List NodeId} {n : NodeId} {x : Element}

/-- The errands of an element whose content is owned show a content. -/
theorem exists_onContent (hx : dialect.owns (some (.element x)) = true) :
    ∃ err ∈ ofNode .standard dialect n (some (.element x)), err.node? = some n ∧
      err.onContent = true := by
  obtain ⟨a, ha, hgives⟩ := List.any_eq_true.1 hx
  suffices herr : ∃ err ∈ ofAttribute .standard dialect n a, err.node? = some n ∧
      err.onContent = true by
    obtain ⟨err, herr, h⟩ := herr
    exact ⟨err, List.mem_cons_of_mem _ (List.mem_flatMap.2 ⟨a, ha, herr⟩), h⟩
  rw [Dialect.givesContent] at hgives
  rw [ofAttribute]
  cases hclassify : dialect.classify a.1 with
  | none =>
    rw [hclassify] at hgives
    cases hgives
  | some marker =>
    rw [hclassify] at hgives
    cases marker with
    | event event => cases hgives
    | directive kind detail =>
      have hkind : kind = "text" ∨ kind = "markup" := by
        simpa [Compilation.ownsContent] using hgives
      rcases hkind with rfl | rfl
      · refine ⟨.bind n (if Template.hasExpression a.2 then .template a.2 else .live .text a.2), ?_,
          rfl, ?_⟩
        · simp only [ofDirective, DirectiveTable.standard_orderly.text, DirectiveHandler.text]
          split <;> simp
        · split <;> rfl
      · exact ⟨.bind n (.live .markup a.2), List.mem_append_left _ List.mem_cons_self, rfl, rfl⟩

/-- What errands in turn lead to is what the rest of them lead to from where the first ones have. -/
theorem Painting.exists_split {es es' : List Errand} (h : Painting (es ++ es') d e) :
    ∃ f, Painting es d f ∧ Painting es' f e := by
  induction es generalizing d with
  | nil => exact ⟨d, .nil d, h⟩
  | cons err es ih =>
    cases h with
    | cons shown h =>
      obtain ⟨f, hfirst, hrest⟩ := ih h
      exact ⟨f, .cons shown hfirst, hrest⟩

variable (hway : d.IsWay dialect way)

include hway

/-- Errands along a way. -/
theorem Painting.worked {es : List Errand}
    (hes : ∀ err ∈ es, err ∈ ofRoute .standard dialect d way) {f : Document}
    (h : Painting es f e) (hf : Worked dialect d way f) : Worked dialect d way e := by
  refine h.keeps (fun err herr shown e he ↦ ?_) hf
  obtain ⟨n, hn, hmem⟩ := List.mem_flatMap.1 (hes err herr)
  exact he.apply hway hn (fits_of_mem_ofNode DirectiveTable.standard_orderly hmem) shown

/-- **Every owned content on the way is a single leaf** in the end. -/
theorem Painting.showsLeaf (h : Painting (ofRoute .standard dialect d way) d e) (hn : n ∈ way)
    (howns : dialect.owns (d.content? n) = true) : e.ShowsLeaf n := by
  obtain ⟨x, hx⟩ := Dialect.exists_element_of_owns howns
  obtain ⟨err, herr, hnode, hcontent⟩ := exists_onContent (n := n) (hx ▸ howns)
  have hmem : err ∈ ofRoute .standard dialect d way :=
    List.mem_flatMap.2 ⟨n, hn, by rwa [hx]⟩
  obtain ⟨before, after, heq⟩ := List.append_of_mem hmem
  rw [heq] at h
  obtain ⟨f, hbefore, hafter⟩ := h.exists_split
  have hf := hbefore.worked hway (fun err' hmem' ↦ by rw [heq]; simp [hmem']) (.refl hway)
  cases hafter with
  | cons shown hafter =>
    -- from the errand that shows the content on, the node shows a leaf
    refine (hafter.keeps (P := fun e ↦ Worked dialect d way e ∧ e.ShowsLeaf n)
      (fun err' hmem' shown e he ↦ ?_) ⟨?_, ?_⟩).2
    · obtain ⟨m, hm, hmem'⟩ := List.mem_flatMap.1 (show err' ∈ ofRoute .standard dialect d way by
        rw [heq]
        simp [hmem'])
      have hfits := fits_of_mem_ofNode DirectiveTable.standard_orderly hmem'
      exact ⟨he.1.apply hway hm hfits shown, he.1.showsLeaf_apply hway hn howns he.2 hm hfits shown⟩
    · refine hf.apply hway hn (fits_of_mem_ofNode DirectiveTable.standard_orderly ?_) shown
      rwa [hx]
    · exact hf.showsLeaf_of_onContent hway hn hx hnode hcontent shown

/-- **Every element on the way is dressed** in the end. -/
theorem Painting.exists_dressed (h : Painting (ofRoute .standard dialect d way) d e) (hn : n ∈ way)
    (hx : d.content? n = some (.element x)) :
    ∃ y, e.content? n = some (.element y) ∧ y.tag = x.tag ∧
      y.attributes = dialect.dressed x.attributes := by
  have hsteady : ∀ err ∈ ofRoute .standard dialect d way, err.isSteady = true := by
    intro err herr
    obtain ⟨m, -, hmem⟩ := List.mem_flatMap.1 herr
    exact isSteady_of_mem_ofNode hmem
  obtain ⟨y, hy, htag, hattributes⟩ := h.dressed hx hsteady
  refine ⟨y, hy, htag, ?_⟩
  obtain ⟨before, after, rfl⟩ := List.append_of_mem hn
  obtain ⟨hbefore, hafter⟩ : n ∉ before ∧ n ∉ after := by
    obtain ⟨-, hrest, hdisjoint⟩ := List.nodup_append.1 hway.nodup
    exact ⟨fun hmem ↦ hdisjoint n hmem n List.mem_cons_self rfl, (List.nodup_cons.1 hrest).1⟩
  have hothers : ∀ ms : List NodeId, n ∉ ms →
      (ofRoute .standard dialect d ms).filter (·.node? = some n) = [] := by
    intro ms hms
    rw [List.filter_eq_nil_iff]
    intro err herr hnode
    obtain ⟨hmem, -⟩ := mem_ofNode_of_mem_ofRoute DirectiveTable.standard_orderly herr
      (of_decide_eq_true hnode)
    exact hms hmem
  rw [hattributes, ofRoute, List.flatMap_append, List.flatMap_cons, List.filter_append,
    List.filter_append]
  show (List.filter _ (ofRoute .standard dialect d before) ++ (_ ++
    List.filter _ (ofRoute .standard dialect d after))).foldl dress x.attributes = _
  rw [hothers before hbefore, hothers after hafter, List.nil_append, List.append_nil, hx]
  exact foldl_dress_filter_ofNode

end Errand

/-! ## The template filled in -/

theorem Content.isLeaf_onElement (f : Element → Element) (c : Content) :
    (c.onElement f).isLeaf = c.isLeaf := by
  cases c <;> rfl

namespace Errand

variable {d : Document} {n : NodeId} {c : Content}

/-- There is nothing below leaves after an errand. -/
theorem leafy_apply (h : d.Leafy) (hd : d.IsForest) (shown : Bond → String) (err : Errand) :
    (err.apply shown d).Leafy := by
  cases err.works shown with
  | idle happly => rwa [happly]
  | element _ happly =>
    rw [happly]
    exact h.modifyElement _
  | @content n slot text _ happly _ hslot =>
    rw [happly]
    cases slot with
    | text => exact h.setText hd text
    | markup => exact h.setMarkup hd text
    | _ => cases hslot

/-- What is no leaf does not become one by an errand. -/
theorem exists_inner_apply (hc : d.content? n = some c) (hinner : c.isLeaf = false)
    (shown : Bond → String) (err : Errand) :
    ∃ c', (err.apply shown d).content? n = some c' ∧ c'.isLeaf = false := by
  have honElement : ∀ (p : Prop) [Decidable p] (f : Element → Element),
      (if p then c.onElement f else c).isLeaf = false := by
    intro p _ f
    split
    · rw [Content.isLeaf_onElement, hinner]
    · exact hinner
  cases err.works shown with
  | idle happly => exact ⟨c, by rw [happly, hc], hinner⟩
  | element _ happly =>
    rw [happly]
    exact ⟨_, content?_modifyElement hc _, honElement _ _⟩
  | content _ happly =>
    rw [happly]
    exact ⟨_, content?_edit_of_inner hc hinner _ _ _, honElement _ _⟩

end Errand

/-- A document in which the template below the root has been filled in. -/
structure Document.Filled (d : Document) (dialect : Dialect) (root : NodeId) (f : Document) :
    Prop where
  forest : f.IsForest
  leafy : f.Leafy
  top : f.children root = d.children root
  sort : ∀ n c, d.Visited dialect root n → d.content? n = some c →
    ∃ c', f.content? n = some c' ∧ c.sameSort c' = true
  dressed : ∀ n x, d.Visited dialect root n → d.content? n = some (.element x) →
    ∃ y, f.content? n = some (.element y) ∧ y.tag = x.tag ∧
      y.attributes = dialect.dressed x.attributes
  free : ∀ n, d.Visited dialect root n → dialect.owns (d.content? n) = false →
    f.children n = d.children n
  owned : ∀ n, d.Visited dialect root n → dialect.owns (d.content? n) = true → f.ShowsLeaf n

namespace Document

variable {d e : Document} {dialect : Dialect} {root n : NodeId} {way : List NodeId} {fuel : Nat}

theorem Staged.leafy (h : d.Staged root e) (hleafy : d.Leafy) : e.Leafy := by
  intro n c hc hleaf
  rw [h.children_eq]
  split
  · rename_i hn
    rw [hn, h.fragment] at hc
    cases hc
    cases hleaf
  · rename_i hn
    split
    · rfl
    · have hlt : n < d.nodes.size := by
        have hlt := lt_size_of_content? hc
        rw [h.size_eq] at hlt
        exact Nat.lt_of_le_of_ne (Nat.le_of_lt_succ hlt) hn
      rw [h.content?_eq n hlt] at hc
      exact hleafy n c hc hleaf

/-- **What is below the root was visited or is a leaf**, as far as there is no leaf above it. -/
theorem visited_or_leaf_of_above {f : Document} (hf : f.IsForest)
    (htop : f.children root = d.children root)
    (hfree : ∀ n, d.Visited dialect root n → dialect.owns (d.content? n) = false →
      f.children n = d.children n)
    (howned : ∀ n, d.Visited dialect root n → dialect.owns (d.content? n) = true → f.ShowsLeaf n)
    (hn : f.Above root n)
    (hinner : ∀ m c, f.Above root m → f.Above m n → f.content? m = some c → c.isLeaf = false) :
    d.Visited dialect root n ∨ ∃ c, f.content? n = some c ∧ c.isLeaf = true := by
  induction hn with
  | parent hp =>
    have hmem := (hf.linked _ _).1 hp
    rw [htop] at hmem
    exact .inl (.child hmem)
  | @step n p hp habove ih =>
    have hmem := (hf.linked _ _).1 hp
    rcases ih fun m c hm hmp ↦ hinner m c hm (.step hp hmp) with hvisited | ⟨c, hc, hleaf⟩
    · cases howns : dialect.owns (d.content? p) with
      | false =>
        rw [hfree p hvisited howns] at hmem
        exact .inl (.inside hvisited howns hmem)
      | true =>
        obtain ⟨i, c, hch, hc, hleaf⟩ := howned p hvisited howns
        rw [hch, List.mem_singleton] at hmem
        exact .inr ⟨c, hmem ▸ hc, hleaf⟩
    · cases (hinner p c habove (.parent hp) hc).symm.trans hleaf

/-- An element that was visited was an element of the template, and is dressed. -/
theorem exists_element_of_visited {f : Document} (hd : d.IsForest) (hn : d.Visited dialect root n)
    (hsort : ∀ c, d.content? n = some c → ∃ c', f.content? n = some c' ∧ c.sameSort c' = true)
    (hdressed : ∀ x, d.content? n = some (.element x) → ∃ y, f.content? n = some (.element y) ∧
      y.tag = x.tag ∧ y.attributes = dialect.dressed x.attributes)
    {y : Element} (hy : f.content? n = some (.element y)) :
    ∃ x, d.content? n = some (.element x) ∧ y.tag = x.tag ∧
      y.attributes = dialect.dressed x.attributes := by
  obtain ⟨c, hc⟩ := exists_content? ((hn.above hd).lt_size hd).2
  obtain ⟨c', hc', hsame⟩ := hsort c hc
  cases hy.symm.trans hc'
  cases c with
  | element x =>
    obtain ⟨y', hy', htag, hattributes⟩ := hdressed x hc
    cases hy.symm.trans hy'
    exact ⟨x, hc, htag, hattributes⟩
  | _ => cases hsame

section Painting

variable (hd : d.IsForest) (hway : (d.stage root).2.route dialect fuel [d.nodes.size] = some way)

include hd hway

/-- The way through a staged template. -/
theorem isWay_of_staged : (d.stage root).2.IsWay dialect way := by
  refine (hd.stage root).isWay_of_route (by simp [Apart]) (fun m hm ↦ ?_) hway
  rw [List.mem_singleton.1 hm]
  exact (hd.staged root).fragment_lt_size

/-- It does not lead through the root. -/
theorem root_not_mem (hroot : root ≠ d.nodes.size) : root ∉ way := by
  intro hmem
  obtain ⟨m, hm, hunder⟩ := (hd.stage root).under_of_mem_route (by simp [Apart]) hway hmem
  rw [List.mem_singleton.1 hm] at hunder
  exact hunder.elim (fun heq ↦ hroot heq.symm) ((hd.staged root).not_above hd)

variable (h : Painting (ofRoute .standard dialect (d.stage root).2 way) (d.stage root).2 e)

include h

theorem worked_of_painting : Worked dialect (d.stage root).2 way e :=
  h.worked (isWay_of_staged hd hway) (fun _ hmem ↦ hmem) (.refl (isWay_of_staged hd hway))

/-- The fragment keeps its children. -/
theorem children_fragment : e.children d.nodes.size = d.children root := by
  have hstaged := hd.staged root
  rw [(worked_of_painting hd hway h).children_eq _ fun _ ↦ by rw [hstaged.fragment]; rfl,
    hstaged.children_eq, if_pos rfl]

/-- What is below the fragment was there from the start, or it is new. -/
theorem above_fragment {x : NodeId} (hx : e.Above d.nodes.size x) :
    (d.stage root).2.Above d.nodes.size x ∨ (d.stage root).2.nodes.size ≤ x := by
  have hworked := worked_of_painting hd hway h
  have hforest := hd.stage root
  have hchild : ∀ {p x : NodeId}, e.parent? x = some p → x ∈ e.children p :=
    fun hp ↦ (hworked.forest.linked _ _).1 hp
  induction hx with
  | parent hp =>
    have hx := hchild hp
    rw [children_fragment hd hway h] at hx
    refine .inl (.parent ((hforest.linked _ _).2 ?_))
    rwa [(hd.staged root).children_eq, if_pos rfl]
  | @step x p hp _ ih =>
    have hx : x ∈ (d.stage root).2.children p ∨ (d.stage root).2.nodes.size ≤ x := by
      by_cases hfree : p ∈ way → dialect.owns ((d.stage root).2.content? p) = false
      · rw [← hworked.children_eq p hfree]
        exact .inl (hchild hp)
      · simp only [Classical.not_imp, Bool.not_eq_false] at hfree
        exact hworked.own_children p hfree.1 hfree.2 x (hchild hp)
    refine hx.imp_left fun hx ↦ ?_
    rcases ih with hp | hp
    · exact .step ((hforest.linked _ _).2 hx) hp
    · exact absurd (lt_size_of_mem_children hx) (Nat.not_lt_of_le hp)

/-- What is seen when the nodes are back at their place. -/
theorem moved_restore (hroot : root < d.nodes.size) :
    e.Moved root (d.children root) (e.restore d.nodes.size root) := by
  have hworked := worked_of_painting hd hway h
  have hstaged := hd.staged root
  have hlt : ∀ {i}, i < d.nodes.size → i < e.nodes.size := fun hi ↦
    Nat.lt_of_lt_of_le (hstaged.lt_size hi) hworked.size_le
  have hfragment := children_fragment hd hway h
  rw [restore, hfragment]
  refine hworked.forest.appendAll_moved (hlt hroot)
    (fun c hc ↦ hlt (hd.lt_size_of_mem_children hc)) (hd.nodup root) fun c hc hat ↦ ?_
  rcases hat with rfl | habove
  · exact hd.acyclic c (.parent ((hd.linked c c).2 hc))
  · -- the root would be below the fragment
    have hbelow : e.Above d.nodes.size root :=
      .trans (.parent ((hworked.forest.linked _ _).2 (hfragment ▸ hc))) habove
    rcases above_fragment hd hway h hbelow with hbelow | hnew
    · exact hstaged.not_above hd hbelow
    · rw [hstaged.size_eq] at hnew
      exact absurd hroot (Nat.not_lt_of_le (Nat.le_of_succ_le hnew))

/-- The root has the children it had. -/
theorem top_restore : (e.restore d.nodes.size root).children root = d.children root := by
  have hworked := worked_of_painting hd hway h
  have hstaged := hd.staged root
  rcases Nat.lt_or_ge root d.nodes.size with hroot | hroot
  · have hmem := root_not_mem hd hway (Nat.ne_of_lt hroot)
    rw [(moved_restore hd hway h hroot).children_eq, if_pos rfl,
      hworked.children_eq root fun hmem' ↦ absurd hmem' hmem, hstaged.children_eq,
      if_neg (Nat.ne_of_lt hroot), if_pos rfl]
    rfl
  · have hnone : d.children root = [] := children_of_size_le d hroot
    rw [restore, children_fragment hd hway h, hnone]
    show e.children root = []
    rw [hworked.children_eq root fun hmem ↦ ?_, hstaged.children_eq, hnone, ite_self, ite_self]
    -- of the nodes of the way only the fragment is new
    have hlt := (isWay_of_staged hd hway).valid root hmem
    rw [hstaged.size_eq] at hlt
    have hfragment := hstaged.fragment
    rw [← Nat.le_antisymm (Nat.le_of_lt_succ hlt) hroot] at hfragment
    rw [hfragment]
    rfl

/-- A node that is visited is on the way, and staging and moving back are no concern of it. -/
theorem visited_restore (hn : d.Visited dialect root n) : n ∈ way ∧
    (d.stage root).2.content? n = d.content? n ∧ (d.stage root).2.children n = d.children n ∧
      (e.restore d.nodes.size root).children n = e.children n := by
  have hstaged := hd.staged root
  have habove := hn.above hd
  have hne : n ≠ root := by
    rintro rfl
    exact hd.acyclic n habove
  have hlt := (habove.lt_size hd).2
  refine ⟨hn.mem_route hd hstaged hway, hstaged.content?_eq n hlt, ?_,
    (worked_of_painting hd hway h).forest.children_restore (Nat.ne_of_lt hlt) hne⟩
  rw [hstaged.children_eq, if_neg (Nat.ne_of_lt hlt), if_neg hne]

theorem sort_restore (hn : d.Visited dialect root n) {c : Content} (hc : d.content? n = some c) :
    ∃ c', (e.restore d.nodes.size root).content? n = some c' ∧ c.sameSort c' = true := by
  obtain ⟨hmem, hc', -⟩ := visited_restore hd hway h hn
  rw [restore, content?_appendAll]
  exact (worked_of_painting hd hway h).sort n hmem c (hc'.trans hc)

/-- **The elements are dressed.** -/
theorem dressed_restore (hn : d.Visited dialect root n) {x : Element}
    (hx : d.content? n = some (.element x)) :
    ∃ y, (e.restore d.nodes.size root).content? n = some (.element y) ∧ y.tag = x.tag ∧
      y.attributes = dialect.dressed x.attributes := by
  obtain ⟨hmem, hx', -⟩ := visited_restore hd hway h hn
  rw [restore, content?_appendAll]
  exact h.exists_dressed (isWay_of_staged hd hway) hmem (hx'.trans hx)

theorem free_restore (hn : d.Visited dialect root n) (howns : dialect.owns (d.content? n) = false) :
    (e.restore d.nodes.size root).children n = d.children n := by
  obtain ⟨-, hc', hchildren, hrestored⟩ := visited_restore hd hway h hn
  rw [hrestored, (worked_of_painting hd hway h).children_eq n fun _ ↦ by rw [hc', howns], hchildren]

/-- **Each owned content is a single leaf.** -/
theorem owned_restore (hn : d.Visited dialect root n) (howns : dialect.owns (d.content? n) = true) :
    (e.restore d.nodes.size root).ShowsLeaf n := by
  obtain ⟨hmem, hc', -, hrestored⟩ := visited_restore hd hway h hn
  obtain ⟨i, c, hch, hc, hleaf⟩ := h.showsLeaf (isWay_of_staged hd hway) hmem (hc' ▸ howns)
  exact ⟨i, c, hrestored.trans hch, (content?_appendAll ..).trans hc, hleaf⟩

/-- What is below the root was visited or is a leaf, as far as there is no leaf above it. -/
theorem visited_or_leaf_restore (hn : (e.restore d.nodes.size root).Above root n)
    (hinner : ∀ m c, (e.restore d.nodes.size root).Above root m →
      (e.restore d.nodes.size root).Above m n →
      (e.restore d.nodes.size root).content? m = some c → c.isLeaf = false) :
    d.Visited dialect root n ∨
      ∃ c, (e.restore d.nodes.size root).content? n = some c ∧ c.isLeaf = true :=
  visited_or_leaf_of_above ((worked_of_painting hd hway h).forest.appendAll root _)
    (top_restore hd hway h) (fun _ ↦ free_restore hd hway h) (fun _ ↦ owned_restore hd hway h) hn
    hinner

/-- Leaves stay leaves. -/
theorem leafy_restore (hleafy : d.Leafy) : (e.restore d.nodes.size root).Leafy := by
  have hstaged := hd.staged root
  have hworked := worked_of_painting hd hway h
  have heleafy : e.Leafy := (h.keeps (P := fun e ↦ e.IsForest ∧ e.Leafy)
    (fun err _ shown e he ↦ ⟨apply_isForest he.1 shown err, leafy_apply he.2 he.1 shown err⟩)
    ⟨hd.stage root, hstaged.leafy hleafy⟩).2
  by_cases hchildless : d.children root = []
  · rw [restore, children_fragment hd hway h, hchildless]
    exact heleafy
  · -- the root has children, so it is no leaf
    have hroot : root < d.nodes.size := by
      obtain ⟨c, hc⟩ := List.exists_mem_of_ne_nil _ hchildless
      exact Document.lt_size_of_mem_children hc
    obtain ⟨b, hb⟩ := exists_content? hroot
    have hinner : b.isLeaf = false := by
      rw [← Bool.not_eq_true]
      exact fun hleaf ↦ hchildless (hleafy root b hb hleaf)
    obtain ⟨b', hb', hinner'⟩ := h.keeps
      (P := fun e ↦ ∃ c, e.content? root = some c ∧ c.isLeaf = false)
      (fun err _ shown e he ↦ by
        obtain ⟨c, hc, hinner⟩ := he
        exact exists_inner_apply hc hinner shown err)
      ⟨b, by rw [hstaged.content?_eq root hroot, hb], hinner⟩
    intro i c hc hleaf
    rw [restore, content?_appendAll] at hc
    rw [hworked.forest.children_restore]
    · exact heleafy i c hc hleaf
    · rintro rfl
      obtain ⟨c', hc', hsort⟩ := hworked.sort _ (mem_route_of_pending hway (by simp)) _
        hstaged.fragment
      cases hc.symm.trans hc'
      rw [← Content.isLeaf_of_sameSort hsort] at hleaf
      cases hleaf
    · rintro rfl
      cases hc.symm.trans hb'
      rw [hinner'] at hleaf
      cases hleaf

/-- **When the errands of a template have been done and its nodes are back at their place, the
template is filled in.** -/
theorem filled_of_painting (hleafy : d.Leafy) :
    d.Filled dialect root (e.restore d.nodes.size root) where
  forest := (worked_of_painting hd hway h).forest.appendAll root _
  leafy := leafy_restore hd hway h hleafy
  top := top_restore hd hway h
  sort _ _ hn hc := sort_restore hd hway h hn hc
  dressed _ _ hn hx := dressed_restore hd hway h hn hx
  free _ := free_restore hd hway h
  owned _ := owned_restore hd hway h

end Painting

end Document

/-! ## Compiled documents -/

section Compile

variable {σ : Type} {call : Call σ} {limit : Nat} {job : CompileJob σ}
  {methods : String → Event → Action σ} {w w' : World σ} {compiled : Compiled}

/-- **A document that has been compiled is its template filled in.** -/
theorem compile_filled (htable : job.table = .standard) (hd : w.scene.document.IsForest)
    (hleafy : w.scene.document.Leafy)
    (hrun : Compilation.compile call limit job methods w = some (.ok compiled, w')) :
    w.scene.document.Filled job.dialect job.root w'.scene.document := by
  obtain ⟨way, w₁, hway, hpainting, rfl⟩ := compile_paints htable hd hrun
  exact filled_of_painting hd hway hpainting hleafy

namespace Document.Filled

variable {d f : Document} {dialect : Dialect} {root n : NodeId}

/-- **Below the root there are the nodes of the template and leaves.** -/
theorem visited_or_leaf (h : d.Filled dialect root f) (hn : f.Above root n) :
    d.Visited dialect root n ∨ ∃ c, f.content? n = some c ∧ c.isLeaf = true := by
  refine visited_or_leaf_of_above h.forest h.top h.free h.owned hn fun m c _ hmn hc ↦ ?_
  rw [← Bool.not_eq_true]
  intro hleaf
  obtain ⟨k, hk, -⟩ := hmn.exists_child
  rw [h.forest.linked, h.leafy m c hc hleaf] at hk
  cases hk

/-- The nodes of the template are below the root. -/
theorem above_of_visited (h : d.Filled dialect root f) (hn : d.Visited dialect root n) :
    f.Above root n := by
  induction hn with
  | child hmem => exact .parent ((h.forest.linked _ _).2 (by rwa [h.top]))
  | inside hvisited howns hmem ih =>
    exact .step ((h.forest.linked _ _).2 (by rwa [h.free _ hvisited howns])) ih

/-- An element below the root was an element of the template, and is dressed. -/
theorem exists_element (h : d.Filled dialect root f) (hd : d.IsForest) (hn : f.Above root n)
    {y : Element} (hy : f.content? n = some (.element y)) :
    ∃ x, d.Visited dialect root n ∧ d.content? n = some (.element x) ∧ y.tag = x.tag ∧
      y.attributes = dialect.dressed x.attributes := by
  rcases h.visited_or_leaf hn with hvisited | ⟨c, hc, hleaf⟩
  · obtain ⟨x, hx⟩ := exists_element_of_visited hd hvisited (h.sort n · hvisited)
      (h.dressed n · hvisited) hy
    exact ⟨x, hvisited, hx⟩
  · cases hy.symm.trans hc
    cases hleaf

end Document.Filled

end Compile

end DataBinding

import DataBinding.Proofs.Document.Leaves
import DataBinding.Proofs.Template.IndependentErrands

/-!
# The attributes of a compiled element

Which attributes an element has after a compilation is a matter of its own attributes alone
(`Dialect.dressed`): every marker is taken away in its turn, and an `attr` directive sets an
attribute just before.  Neither the state nor other elements have a say in it, and what else is done
to the element leaves its attributes alone (`Errand.Painting.dressed`).

So **the only markers that a compiled element can have are those that a directive has set** after
their own turn (`Dialect.mem_names_dressed`).
-/

set_option autoImplicit false

namespace DataBinding

open Document

/-! ## Attributes in turn -/

namespace Dialect

variable {dialect : Dialect}

/-- Attributes of an element when it is the turn of one of those it had at the start. -/
def dress (dialect : Dialect) (as : List (String × String)) (a : String × String) :
    List (String × String) :=
  match dialect.classify a.1 with
  | none => as
  | some (.directive "attr" (some name)) =>
    (Element.putAttribute name a.2 as).filter fun (k, _) ↦ k != a.1
  | some _ => as.filter fun (k, _) ↦ k != a.1

/-- The attributes of an element whose turns are all over. -/
def dressed (dialect : Dialect) (as : List (String × String)) : List (String × String) :=
  as.foldl dialect.dress as

/-- A detail is the end of the name it stands in, after something. -/
theorem exists_detail {name kind detail : String}
    (h : dialect.classify name = some (.directive kind (some detail))) :
    ∃ before, before ≠ [] ∧ detail.toList ≠ [] ∧ name.toList = before ++ detail.toList := by
  rw [classify] at h
  cases hrest : Text.dropStart? dialect.directive.toList name.toList with
  | none =>
    rw [hrest] at h
    obtain ⟨rest, -, hevent⟩ := Option.map_eq_some_iff.1 h
    cases hevent
  | some rest =>
    rw [hrest] at h
    have hname := Text.dropStart?_eq_some_iff.1 hrest
    have hcut := List.takeWhile_append_dropWhile (p := (· != ':')) (l := rest)
    have hdirective := Option.some.inj h
    rw [directiveOf] at hdirective
    split at hdirective
    · cases hdirective
    · cases hdirective
    · rename_i colon chars hne hdrop
      cases hdirective
      rw [hdrop] at hcut
      refine ⟨dialect.directive.toList ++ rest.takeWhile (· != ':') ++ [colon], by simp, ?_, ?_⟩
      · rw [String.toList_ofList]
        rintro rfl
        exact hne rfl
      · rw [String.toList_ofList, hname, List.append_assoc, List.append_assoc,
          List.singleton_append, hcut]

/-- A detail is not the name it stands in. -/
theorem detail_ne {name kind detail : String}
    (h : dialect.classify name = some (.directive kind (some detail))) : name ≠ detail := by
  rintro rfl
  obtain ⟨before, hbefore, -, heq⟩ := exists_detail h
  exact hbefore (List.self_eq_append_left.1 heq)

/-! ## The markers that are left -/

section Names

variable {as : List (String × String)} {name marker : String}

theorem mem_names_putAttribute (value : String) :
    marker ∈ (Element.putAttribute name value as).map Prod.fst ↔
      marker = name ∨ marker ∈ as.map Prod.fst := by
  induction as with
  | nil => simp [Element.putAttribute]
  | cons b as ih =>
    obtain ⟨k, v⟩ := b
    rw [Element.putAttribute]
    split
    · rename_i hk
      rw [beq_iff_eq] at hk
      simp [hk]
    · rw [List.map_cons, List.mem_cons, ih, List.map_cons, List.mem_cons]
      tauto

theorem mem_names_filter :
    marker ∈ (as.filter fun (k, _) ↦ k != name).map Prod.fst ↔
      marker ∈ as.map Prod.fst ∧ marker ≠ name := by
  simp only [List.mem_map, List.mem_filter, bne_iff_ne]
  constructor
  · rintro ⟨a, ⟨ha, hne⟩, rfl⟩
    exact ⟨⟨a, ha, rfl⟩, hne⟩
  · rintro ⟨⟨a, ha, rfl⟩, hne⟩
    exact ⟨a, ⟨ha, hne⟩, rfl⟩

/-- A marker is there after a turn if it was not its own, and it was there or has been set. -/
theorem mem_names_dress (hmarker : (dialect.classify marker).isSome) (a : String × String) :
    marker ∈ (dialect.dress as a).map Prod.fst ↔
      marker ≠ a.1 ∧ (marker ∈ as.map Prod.fst ∨
        dialect.classify a.1 = some (.directive "attr" (some marker))) := by
  rw [dress]
  split
  · rename_i hclassify
    have hne : marker ≠ a.1 := by
      rintro rfl
      rw [hclassify] at hmarker
      cases hmarker
    simp [hclassify, hne]
  · rename_i name hclassify
    rw [mem_names_filter, mem_names_putAttribute, hclassify]
    simp only [Option.some.injEq, Marker.directive.injEq, true_and]
    tauto
  · rename_i other hother hclassify
    rw [mem_names_filter, hclassify]
    have hnone : other ≠ .directive "attr" (some marker) := fun heq ↦ hother marker heq
    simp [hnone, and_comm]

/-- **The markers that are left** when turns are over were there before and had no turn, or were set
by a directive and had no turn afterwards. -/
theorem mem_names_foldl_dress (hmarker : (dialect.classify marker).isSome)
    (turns : List (String × String)) :
    marker ∈ (turns.foldl dialect.dress as).map Prod.fst ↔
      (marker ∈ as.map Prod.fst ∧ marker ∉ turns.map Prod.fst) ∨
        ∃ pre a post, turns = pre ++ a :: post ∧
          dialect.classify a.1 = some (.directive "attr" (some marker)) ∧
          marker ∉ post.map Prod.fst := by
  induction turns generalizing as with
  | nil => simp
  | cons b turns ih =>
    rw [List.foldl_cons, ih, mem_names_dress hmarker, List.map_cons, List.mem_cons]
    constructor
    · rintro (⟨⟨hne, hmem | hset⟩, hlater⟩ | ⟨pre, a, post, rfl, hset, hpost⟩)
      · exact .inl ⟨hmem, not_or.2 ⟨hne, hlater⟩⟩
      · exact .inr ⟨[], b, turns, rfl, hset, hlater⟩
      · exact .inr ⟨b :: pre, a, post, rfl, hset, hpost⟩
    · rintro (⟨hmem, hnot⟩ | ⟨pre, a, post, heq, hset, hpost⟩)
      · obtain ⟨hne, hlater⟩ := not_or.1 hnot
        exact .inl ⟨⟨hne, .inl hmem⟩, hlater⟩
      · cases pre with
        | nil =>
          cases heq
          exact .inl ⟨⟨(detail_ne hset).symm, .inr hset⟩, hpost⟩
        | cons first pre =>
          cases heq
          exact .inr ⟨pre, a, post, rfl, hset, hpost⟩

/-- **A marker is left on an element exactly when a directive sets it after its last turn.** -/
theorem mem_names_dressed (hmarker : (dialect.classify marker).isSome) :
    marker ∈ (dialect.dressed as).map Prod.fst ↔
      ∃ pre a post, as = pre ++ a :: post ∧
        dialect.classify a.1 = some (.directive "attr" (some marker)) ∧
        marker ∉ post.map Prod.fst := by
  rw [dressed, mem_names_foldl_dress hmarker]
  exact or_iff_right fun ⟨hmem, hnot⟩ ↦ hnot hmem

end Names

end Dialect

namespace Errand

/-- What an errand does to the attributes of its element. -/
def dress : List (String × String) → Errand → List (String × String)
  | as, .bind _ (.fixed (.attribute name) text) => Element.putAttribute name text as
  | as, .strip _ name => as.filter fun (k, _) ↦ k != name
  | as, _ => as

/-- Whether no attribute follows the state because of an errand. -/
def isSteady : Errand → Bool
  | .bind _ (.live (.attribute _) _) => false
  | _ => true

section Standard

variable {dialect : Dialect} {n : NodeId}

/-- Of the standard directives only `attr` sets an attribute, and it does so once. -/
theorem foldl_dress_ofDirective (as : List (String × String)) (unknown kind : String)
    (directive : Directive) :
    (ofDirective .standard n unknown kind directive).foldl dress as =
        (match kind, directive.detail with
          | "attr", some name => Element.putAttribute name directive.expr as
          | _, _ => as) ∧
      ∀ err ∈ ofDirective .standard n unknown kind directive, err.isSteady = true := by
  rw [ofDirective]
  cases hl : DirectiveTable.standard.lookup kind with
  | none =>
    refine ⟨?_, fun err herr ↦ by rw [List.mem_singleton.1 herr]; rfl⟩
    have hattr : kind ≠ "attr" := by
      rintro rfl
      cases hl
    simp [dress, hattr]
  | some handler =>
    rcases DirectiveTable.standard_cases hl with
      ⟨rfl, rfl⟩ | ⟨rfl, rfl⟩ | ⟨rfl, rfl⟩ | ⟨rfl, rfl⟩ | ⟨rfl, rfl⟩
    · simp only [DirectiveHandler.text]
      split <;> exact ⟨rfl, by simp [isSteady]⟩
    · exact ⟨rfl, by simp [DirectiveHandler.markup, isSteady]⟩
    · exact ⟨rfl, by simp [DirectiveHandler.value, isSteady]⟩
    · simp only [DirectiveHandler.attr]
      cases directive.detail <;> exact ⟨rfl, by simp [isSteady]⟩
    · simp only [DirectiveHandler.on]
      cases directive.detail <;> exact ⟨rfl, by simp [isSteady]⟩

/-- **The errands of an attribute take its turn.** -/
theorem foldl_dress_ofAttribute (as : List (String × String)) (a : String × String) :
    (ofAttribute .standard dialect n a).foldl dress as = dialect.dress as a ∧
      ∀ err ∈ ofAttribute .standard dialect n a, err.isSteady = true := by
  rw [ofAttribute, Dialect.dress]
  cases dialect.classify a.1 with
  | none => exact ⟨rfl, by simp⟩
  | some marker =>
    cases marker with
    | directive kind detail =>
      obtain ⟨hdress, hsteady⟩ := foldl_dress_ofDirective (n := n) as a.1 kind ⟨a.2, detail⟩
      refine ⟨?_, List.forall_mem_append.2 ⟨hsteady, by simp [isSteady]⟩⟩
      rw [List.foldl_append, hdress]
      split <;> simp_all [dress]
    | event event =>
      obtain ⟨hdress, hsteady⟩ := foldl_dress_ofDirective (n := n) as a.1 "on"
        ⟨a.2, if event.isEmpty then none else some event⟩
      refine ⟨?_, List.forall_mem_append.2 ⟨hsteady, by simp [isSteady]⟩⟩
      rw [List.foldl_append, hdress]
      rfl

/-- No errand of a standard directive keeps an attribute up to date. -/
theorem isSteady_of_mem_ofNode {c : Option Content} {err : Errand}
    (h : err ∈ ofNode .standard dialect n c) : err.isSteady = true := by
  cases c with
  | none => cases h
  | some c =>
    cases c with
    | element x =>
      rcases List.mem_cons.1 h with rfl | h
      · rfl
      · obtain ⟨a, -, herr⟩ := List.mem_flatMap.1 h
        exact (foldl_dress_ofAttribute [] a).2 err herr
    | text t =>
      rw [ofNode] at h
      split at h
      · rcases List.mem_cons.1 h with rfl | h
        · rfl
        · exact (foldl_dress_ofDirective [] _ _ _).2 err h
      · cases h
    | _ => cases h

/-- **The errands of an element that work on it dress it.** -/
theorem foldl_dress_filter_ofNode {x : Element} :
    ((ofNode .standard dialect n (some (.element x))).filter (·.node? = some n)).foldl dress
      x.attributes = dialect.dressed x.attributes := by
  have hskip : ∀ (es : List Errand) (as : List (String × String)),
      (∀ err ∈ es, err.node? = none ∨ err.node? = some n) →
        (es.filter (·.node? = some n)).foldl dress as = es.foldl dress as := by
    intro es as hes
    induction es generalizing as with
    | nil => rfl
    | cons err es ih =>
      have hrest := fun as ↦ ih as fun err' hmem ↦ hes err' (List.mem_cons_of_mem _ hmem)
      rw [List.filter_cons]
      rcases hes err List.mem_cons_self with hnone | hsome
      · rw [if_neg (by simp [hnone]), hrest, List.foldl_cons]
        cases err <;> first | rfl | cases hnone
      · rw [if_pos (by simp [hsome]), List.foldl_cons, List.foldl_cons, hrest]
  rw [hskip _ _ fun err herr ↦ (fits_of_mem_ofNode DirectiveTable.standard_orderly herr).node,
    ofNode, List.foldl_cons, List.foldl_flatMap]
  exact congrArg (List.foldl · _ _) (funext₂ fun as a ↦ (foldl_dress_ofAttribute as a).1)

end Standard

end Errand

/-! ## Elements under work -/

/-- What showing a text in a slot does to the element of the slot. -/
def Slot.onElement (slot : Slot) (text : String) (x : Element) : Element :=
  match slot with
  | .control => { x with control := some text }
  | .attribute name => x.setAttribute name text
  | .text | .markup => x

namespace Document

variable {d : Document} {n m : NodeId} {c : Content}

theorem content?_modifyElement (hc : d.content? n = some c) (f : Element → Element) :
    (d.modifyElement m f).content? n = some (if m = n then c.onElement f else c) := by
  rw [modifyElement_eq_mapContent, content?_mapContent, hc]
  by_cases h : n = m
  · rw [if_pos h, if_pos h.symm]
    rfl
  · rw [if_neg h, if_neg (Ne.symm h)]

/-- Only leaves show a content. -/
theorem content?_replaceContent_of_inner (hc : d.content? n = some c) (hinner : c.isLeaf = false)
    (hm : m < d.nodes.size) {b : Content} (hb : b.isLeaf = true) :
    (d.replaceContent m b).content? n = some c := by
  rw [content?_replaceContent hm, if_neg ?_, hc]
  rintro rfl
  rcases d.spot_cases m b with hnew | ⟨-, old, hold, hsort⟩
  · exact Nat.ne_of_lt (lt_size_of_content? hc) hnew
  · cases hc.symm.trans hold
    rw [← Content.isLeaf_of_sameSort hsort, hinner] at hb
    cases hb

/-- **What is no leaf is changed by its own slots only**, and only if it is an element. -/
theorem content?_edit_of_inner (hc : d.content? n = some c) (hinner : c.isLeaf = false)
    (slot : Slot) (m : NodeId) (text : String) :
    (d.apply (slot.edit m text)).content? n =
      some (if m = n then c.onElement (slot.onElement text) else c) := by
  have hsetContent : ∀ {b b' : Content}, d.content? m = some b → b.isLeaf = true →
      (d.setContent m b').content? n = some c := by
    intro b b' hb hleaf
    rw [content?_setContent, if_neg ?_, hc]
    rintro rfl
    cases hc.symm.trans hb
    rw [hinner] at hleaf
    cases hleaf
  have hsame : c.onElement id = c := by cases c <;> rfl
  cases slot with
  | control => exact content?_modifyElement hc _
  | «attribute» name => exact content?_modifyElement hc _
  | text =>
    show (d.setText m text).content? n = some (if m = n then c.onElement id else c)
    rw [hsame, ite_self, setText]
    split
    · rename_i hm
      exact hsetContent hm rfl
    all_goals
      first
      | exact hc
      | exact content?_replaceContent_of_inner hc hinner (lt_size_of_content? ‹_›) rfl
  | markup =>
    show (d.setMarkup m text).content? n = some (if m = n then c.onElement id else c)
    rw [hsame, ite_self, setMarkup]
    split
    · rename_i hm
      exact hsetContent hm rfl
    · rename_i hm
      exact hsetContent hm rfl
    all_goals
      first
      | exact hc
      | exact content?_replaceContent_of_inner hc hinner (lt_size_of_content? ‹_›) rfl

end Document

namespace Errand

variable {d e : Document} {n : NodeId} {x : Element} {err : Errand} {es : List Errand}

/-- **An errand dresses the element on which it works**, and no other. -/
theorem content?_apply_of_element (hx : d.content? n = some (.element x))
    (hsteady : err.isSteady = true) (shown : Bond → String) :
    ∃ y, (err.apply shown d).content? n = some (.element y) ∧ y.tag = x.tag ∧
      y.attributes = if err.node? = some n then dress x.attributes err else x.attributes := by
  have hshow : ∀ (slot : Slot) (m : NodeId) (text : String),
      ∃ y, (d.apply (slot.edit m text)).content? n = some (.element y) ∧ y.tag = x.tag ∧
        y.attributes =
          if some m = some n then (slot.onElement text x).attributes else x.attributes := by
    intro slot m text
    refine ⟨if m = n then slot.onElement text x else x, ?_, ?_⟩
    · rw [content?_edit_of_inner hx rfl]
      split <;> rfl
    · by_cases hm : m = n <;> cases slot <;> simp [hm, Slot.onElement, Element.setAttribute]
  have hleave : ∀ {p : Prop} [Decidable p], ∃ y, d.content? n = some (.element y) ∧
      y.tag = x.tag ∧ y.attributes = if p then x.attributes else x.attributes :=
    ⟨x, hx, rfl, (ite_self _).symm⟩
  cases err with
  | count f => exact ⟨x, hx, rfl, rfl⟩
  | strip m name =>
    refine ⟨if m = n then x.removeAttribute name else x, ?_, ?_⟩
    · refine (content?_modifyElement hx _).trans ?_
      split <;> rfl
    · simp only [node?, Option.some.injEq]
      split <;> exact ⟨rfl, rfl⟩
  | bind m binding =>
    cases binding with
    | fixed slot text => cases slot <;> exact hshow _ m text
    | live slot expr =>
      cases slot with
      | «attribute» name => cases hsteady
      | _ => exact hshow _ m (shown (.value m _ expr))
    | template text => exact hshow .text m (shown (.template m text))
    | _ => exact hleave

/-- **Errands in turn dress an element as those of them do that work on it.** -/
theorem Painting.dressed (h : Painting es d e) (hx : d.content? n = some (.element x))
    (hsteady : ∀ err ∈ es, err.isSteady = true) :
    ∃ y, e.content? n = some (.element y) ∧ y.tag = x.tag ∧
      y.attributes = (es.filter (·.node? = some n)).foldl dress x.attributes := by
  induction h generalizing x with
  | nil => exact ⟨x, hx, rfl, rfl⟩
  | @cons err es d e shown _ ih =>
    obtain ⟨y, hy, htag, hattributes⟩ :=
      content?_apply_of_element hx (hsteady err List.mem_cons_self) shown
    obtain ⟨z, hz, htag', hattributes'⟩ := ih hy fun err' hmem ↦ hsteady err' (by simp [hmem])
    refine ⟨z, hz, htag'.trans htag, hattributes'.trans ?_⟩
    rw [List.filter_cons, hattributes]
    split <;> simp_all

end Errand

end DataBinding

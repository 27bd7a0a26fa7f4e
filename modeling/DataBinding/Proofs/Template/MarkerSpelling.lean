import DataBinding.Proofs.Document.ContentMaps
import DataBinding.Proofs.Template.CompiledAttributes
import DataBinding.Proofs.Template.DocumentOrderWork

/-!
# Spelling markers in another dialect

A dialect whose prefixes are accepted can tell directives from events: no name starts with both
prefixes (`Dialect.ofPrefixes_isOk_iff`).  So markers can be carried over from one dialect to
another by their prefixes (`Dialect.respell`), **and they say the same in the new dialect as in the
old one** (`Dialect.classify_respell`).  Names that are no markers in either dialect stay as they
are, and no two names are taken for each other (`Dialect.respell_inj`).

`Document.respell` does this to all nodes of a template.  **What a compilation does to such a node
does the same thing to the respelled document** (`respell_edit`, `respell_strip`).
-/

set_option autoImplicit false

namespace DataBinding

/-! ## Prefixes that are accepted -/

namespace Dialect

/-- The prefixes of the dialect are accepted. -/
def Accepted (d : Dialect) : Prop := ofPrefixes d.directive d.event = .ok d

theorem startsWith_iff {text start : String} :
    startsWith text start = true ↔ ∃ rest, text.toList = start.toList ++ rest := by
  simp only [startsWith, Option.isSome_iff_exists, Text.dropStart?_eq_some_iff]

theorem startsWith_self (text : String) : startsWith text text = true :=
  startsWith_iff.2 ⟨[], by simp⟩

theorem startsWith_of_isEmpty {text start : String} (h : start.isEmpty = true) :
    startsWith text start = true := by
  rw [String.isEmpty_iff] at h
  exact startsWith_iff.2 ⟨text.toList, by simp [h]⟩

/-- Of two starts of a text, one starts with the other. -/
theorem startsWith_or {text start start' : String} (h : startsWith text start = true)
    (h' : startsWith text start' = true) :
    startsWith start start' = true ∨ startsWith start' start = true := by
  obtain ⟨rest, hrest⟩ := startsWith_iff.1 h
  obtain ⟨rest', hrest'⟩ := startsWith_iff.1 h'
  rcases List.append_eq_append_iff.1 (hrest.symm.trans hrest') with
    ⟨more, hmore, -⟩ | ⟨more, hmore, -⟩
  · exact .inr (startsWith_iff.2 ⟨more, hmore⟩)
  · exact .inl (startsWith_iff.2 ⟨more, hmore⟩)

/-- **Two prefixes are accepted exactly when no name starts with both.** -/
theorem ofPrefixes_isOk_iff (directive event : String) :
    (ofPrefixes directive event).isOk = true ↔
      ∀ name, ¬(startsWith name directive = true ∧ startsWith name event = true) := by
  rw [ofPrefixes]
  split
  · rename_i hrefused
    refine iff_of_false (fun h ↦ nomatch h) fun hnone ↦ ?_
    simp only [Bool.or_eq_true] at hrefused
    rcases hrefused with ((hempty | hempty) | hstart) | hstart
    · exact hnone event ⟨startsWith_of_isEmpty hempty, startsWith_self event⟩
    · exact hnone directive ⟨startsWith_self directive, startsWith_of_isEmpty hempty⟩
    · exact hnone directive ⟨startsWith_self directive, hstart⟩
    · exact hnone event ⟨hstart, startsWith_self event⟩
  · rename_i haccepted
    refine iff_of_true rfl fun name ⟨hdirective, hevent⟩ ↦ haccepted ?_
    simp only [Bool.or_eq_true]
    exact (startsWith_or hdirective hevent).elim (fun h ↦ .inl (.inr h)) .inr

theorem Accepted.disjoint {d : Dialect} (h : d.Accepted) {rest rest' : List Char} :
    d.directive.toList ++ rest ≠ d.event.toList ++ rest' := by
  intro heq
  refine (ofPrefixes_isOk_iff d.directive d.event).1 ?_ (String.ofList (d.directive.toList ++ rest))
    ⟨startsWith_iff.2 ⟨rest, String.toList_ofList⟩, startsWith_iff.2 ⟨rest', ?_⟩⟩
  · rw [h]
    rfl
  · rw [String.toList_ofList, heq]

/-! ## Respelling names -/

/-- The name with the prefix of the one dialect replaced by that of the other, if it has one. -/
def respell (b c : Dialect) (name : String) : String :=
  match Text.dropStart? b.directive.toList name.toList with
  | some rest => String.ofList (c.directive.toList ++ rest)
  | none =>
    match Text.dropStart? b.event.toList name.toList with
    | some rest => String.ofList (c.event.toList ++ rest)
    | none => name

variable {b c : Dialect} {name other : String}

/-- A name is a directive, an event or no marker, and is respelled accordingly. -/
inductive Spelled (b c : Dialect) (name : String) : Prop
  | directive (rest : List Char) (hname : name.toList = b.directive.toList ++ rest)
      (hmeans : b.classify name = some (directiveOf rest))
      (hrespell : b.respell c name = String.ofList (c.directive.toList ++ rest))
  | event (rest : List Char) (hname : name.toList = b.event.toList ++ rest)
      (hmeans : b.classify name = some (.event (String.ofList rest)))
      (hrespell : b.respell c name = String.ofList (c.event.toList ++ rest))
  | plain (hmeans : b.classify name = none) (hrespell : b.respell c name = name)

theorem spelled (b c : Dialect) (name : String) : Spelled b c name := by
  cases hdirective : Text.dropStart? b.directive.toList name.toList with
  | some rest =>
    refine .directive rest (Text.dropStart?_eq_some_iff.1 hdirective) ?_ ?_
    · rw [classify, hdirective]
    · rw [respell, hdirective]
  | none =>
    cases hevent : Text.dropStart? b.event.toList name.toList with
    | some rest =>
      refine .event rest (Text.dropStart?_eq_some_iff.1 hevent) ?_ ?_
      · rw [classify, hdirective, hevent]
        rfl
      · rw [respell, hdirective]
        simp only [hevent]
    | none =>
      refine .plain ?_ ?_
      · rw [classify, hdirective, hevent]
        rfl
      · rw [respell, hdirective]
        simp only [hevent]

theorem classify_directive (c : Dialect) (rest : List Char) :
    c.classify (String.ofList (c.directive.toList ++ rest)) = some (directiveOf rest) := by
  rw [classify, String.toList_ofList, Text.dropStart?_eq_some_iff.2 rfl]

theorem Accepted.classify_event (hc : c.Accepted) (rest : List Char) :
    c.classify (String.ofList (c.event.toList ++ rest)) = some (.event (String.ofList rest)) := by
  have hnone : Text.dropStart? c.directive.toList (c.event.toList ++ rest) = none := by
    by_contra hsome
    obtain ⟨rest', hrest'⟩ := Option.ne_none_iff_exists'.1 hsome
    exact hc.disjoint (Text.dropStart?_eq_some_iff.1 hrest').symm
  rw [classify, String.toList_ofList, hnone, Text.dropStart?_eq_some_iff.2 rfl]
  rfl

/-- A name that is no marker does not become one. -/
def Fair (b c : Dialect) (name : String) : Prop := b.classify name = none → c.classify name = none

/-- A name that is a marker in neither dialect. -/
def Plain (b c : Dialect) (name : String) : Prop := b.classify name = none ∧ c.classify name = none

theorem Plain.fair (h : Plain b c name) : Fair b c name := fun _ ↦ h.2

theorem Plain.respell_eq (h : Plain b c name) : b.respell c name = name := by
  cases spelled b c name with
  | directive rest hname hmeans => cases hmeans.symm.trans h.1
  | event rest hname hmeans => cases hmeans.symm.trans h.1
  | plain hmeans hrespell => exact hrespell

/-- **A respelled name says what it said before.** -/
theorem classify_respell (hc : c.Accepted) (h : Fair b c name) :
    c.classify (b.respell c name) = b.classify name := by
  cases spelled b c name with
  | directive rest hname hmeans hrespell => rw [hmeans, hrespell, classify_directive]
  | event rest hname hmeans hrespell => rw [hmeans, hrespell, hc.classify_event]
  | plain hmeans hrespell => rw [hrespell, hmeans, h hmeans]

/-- **Names are not taken for each other.** -/
theorem respell_inj (hc : c.Accepted) (h : Fair b c name) (h' : Fair b c other) :
    b.respell c name = b.respell c other ↔ name = other := by
  refine ⟨fun heq ↦ ?_, congrArg _⟩
  have hsame : b.classify name = b.classify other := by
    rw [← classify_respell hc h, heq, classify_respell hc h']
  -- Names with the same prefix go on in the same way.
  have hrest : ∀ {start start' rest rest' : List Char}, name.toList = start ++ rest →
      other.toList = start ++ rest' →
      String.ofList (start' ++ rest) = String.ofList (start' ++ rest') → name = other := by
    intro start start' rest rest' hname hother heq
    rw [String.ofList_inj, List.append_cancel_left_eq] at heq
    rw [← String.toList_inj, hname, hother, heq]
  cases spelled b c name with
  | directive rest hname hmeans hrespell =>
    cases spelled b c other with
    | directive rest' hother _ hrespell' => exact hrest hname hother (hrespell ▸ hrespell' ▸ heq)
    | event rest' _ _ hrespell' =>
      rw [hrespell, hrespell', String.ofList_inj] at heq
      exact absurd heq hc.disjoint
    | plain hmeans' => cases (hmeans ▸ hmeans' ▸ hsame : some _ = none)
  | event rest hname hmeans hrespell =>
    cases spelled b c other with
    | directive rest' _ _ hrespell' =>
      rw [hrespell, hrespell', String.ofList_inj] at heq
      exact absurd heq.symm hc.disjoint
    | event rest' hother _ hrespell' => exact hrest hname hother (hrespell ▸ hrespell' ▸ heq)
    | plain hmeans' => cases (hmeans ▸ hmeans' ▸ hsame : some _ = none)
  | plain hmeans hrespell =>
    cases spelled b c other with
    | directive rest' _ hmeans' => cases (hmeans ▸ hmeans' ▸ hsame : none = some _)
    | event rest' _ hmeans' => cases (hmeans ▸ hmeans' ▸ hsame : none = some _)
    | plain _ hrespell' => rwa [hrespell, hrespell'] at heq

theorem respell_beq (hc : c.Accepted) (h : Fair b c name) (h' : Fair b c other) :
    (b.respell c name == b.respell c other) = (name == other) := by
  rw [Bool.eq_iff_iff, beq_iff_eq, beq_iff_eq, respell_inj hc h h']

/-- A name that a template may have in both dialects: it does not become a marker, and the attribute
that it sets, if it sets one, is a marker in neither. -/
structure Good (b c : Dialect) (name : String) : Prop where
  fair : Fair b c name
  detail : ∀ set, b.classify name = some (.directive "attr" (some set)) → Plain b c set

theorem Plain.good (h : Plain b c name) : Good b c name :=
  ⟨h.fair, fun _ hmeans ↦ nomatch h.1.symm.trans hmeans⟩

end Dialect

/-! ## Respelling elements -/

section Elements

variable {b c : Dialect}

open Dialect

/-- The element with its markers spelled in the other dialect. -/
def Element.respell (b c : Dialect) (e : Element) : Element :=
  { e with attributes := e.attributes.map fun a ↦ (b.respell c a.1, a.2) }

/-- An element whose names a template may have in both dialects. -/
def Element.Good (b c : Dialect) (e : Element) : Prop := ∀ a ∈ e.attributes, Dialect.Good b c a.1

variable {e : Element} {name : String} (value : String) (hc : c.Accepted)

include hc

/-- A plain attribute is set before as after. -/
theorem respell_setAttribute (he : e.Good b c) (hname : Plain b c name) :
    (e.setAttribute name value).respell b c = (e.respell b c).setAttribute name value := by
  obtain ⟨tag, attributes, control⟩ := e
  refine congrArg (Element.mk tag · control) ?_
  show (Element.putAttribute name value attributes).map _ =
    Element.putAttribute name value (attributes.map _)
  induction attributes with
  | nil => simp [Element.putAttribute, hname.respell_eq]
  | cons a attributes ih =>
    obtain ⟨hgood, hrest⟩ := List.forall_mem_cons.1 he
    have hsame : (b.respell c a.1 == name) = (a.1 == name) := by
      rw [← respell_beq hc hgood.fair hname.fair, hname.respell_eq]
    rw [Element.putAttribute, List.map_cons, Element.putAttribute, hsame]
    split
    · rfl
    · rw [List.map_cons, ih hrest]

/-- A marker is taken away in its new spelling. -/
theorem respell_removeAttribute (he : e.Good b c) (hname : Fair b c name) :
    (e.removeAttribute name).respell b c = (e.respell b c).removeAttribute (b.respell c name) := by
  obtain ⟨tag, attributes, control⟩ := e
  refine congrArg (Element.mk tag · control) ?_
  show (attributes.filter _).map _ = (attributes.map _).filter _
  rw [List.filter_map]
  refine congrArg _ (List.filter_congr fun a ha ↦ ?_)
  show (a.1 != name) = (b.respell c a.1 != b.respell c name)
  rw [bne, bne, respell_beq hc (he a ha).fair hname]

omit hc

theorem Element.Good.setAttribute (he : e.Good b c) (hname : Plain b c name) :
    (e.setAttribute name value).Good b c := by
  intro a ha
  rcases (mem_names_putAttribute value).1 (List.mem_map_of_mem (f := Prod.fst) ha) with heq | hmem
  · exact heq ▸ hname.good
  · obtain ⟨a', ha', heq⟩ := List.mem_map.1 hmem
    exact heq ▸ he a' ha'

theorem Element.Good.removeAttribute (he : e.Good b c) (name : String) :
    (e.removeAttribute name).Good b c := fun a ha ↦ he a (List.mem_of_mem_filter ha)

/-- An element without markers is respelled as it is. -/
theorem respell_eq_self (h : ∀ a ∈ e.attributes, b.classify a.1 = none) : e.respell b c = e := by
  obtain ⟨tag, attributes, control⟩ := e
  refine congrArg (Element.mk tag · control) ?_
  rw [List.map_congr_left fun a ha ↦ ?_, List.map_id]
  cases spelled b c a.1 with
  | directive rest hname hmeans => cases hmeans.symm.trans (h a ha)
  | event rest hname hmeans => cases hmeans.symm.trans (h a ha)
  | plain hmeans hrespell => rw [hrespell, id]

end Elements

/-- A slot that is no marker. -/
def Slot.Plain (b c : Dialect) : Slot → Prop
  | .attribute name => Dialect.Plain b c name
  | _ => True

/-! ## Respelling a template -/

namespace Document

/-- The document with the markers of a template spelled in the other dialect. -/
def respell (b c : Dialect) (T : NodeId → Bool) (d : Document) : Document :=
  d.recast fun i ↦ Content.onElement (if T i then Element.respell b c else id)

/-- A document with a template in it whose names are told apart in both dialects.  What is below a
node of the template belongs to it, and so does every node that is made. -/
structure Translatable (b c : Dialect) (T : NodeId → Bool) (d : Document) : Prop where
  forest : d.IsForest
  fresh : ∀ n, d.nodes.size ≤ n → T n
  closed : ∀ n, T n → ∀ m ∈ d.children n, T m
  good : ∀ n x, T n → d.element? n = some x → x.Good b c

variable {b c : Dialect} {T : NodeId → Bool} {d e : Document} {n i : NodeId} {x y : Element}

/-! ### Elements after an edit -/

theorem element?_setContent_leaf {content : Content} (hleaf : content.isLeaf = true)
    (h : (d.setContent i content).element? n = some y) : d.element? n = some y := by
  rw [element?_eq_some_iff, content?_setContent] at h
  split at h
  · obtain ⟨-, -, rfl⟩ := Option.map_eq_some_iff.1 h
    cases hleaf
  · exact element?_eq_some_iff.2 h

theorem element?_replaceContent_leaf {content : Content} (hi : i < d.nodes.size)
    (hleaf : content.isLeaf = true) (h : (d.replaceContent i content).element? n = some y) :
    d.element? n = some y := by
  rw [element?_eq_some_iff, content?_replaceContent hi] at h
  split at h
  · cases h
    cases hleaf
  · exact element?_eq_some_iff.2 h

theorem element?_modifyElement {f : Element → Element}
    (h : (d.modifyElement i f).element? n = some y) :
    ∃ x, d.element? n = some x ∧ y = if n = i then f x else x := by
  rw [modifyElement_eq_mapContent, element?_eq_some_iff, content?_mapContent] at h
  split at h
  · rename_i hn
    obtain ⟨content, hcontent, hy⟩ := Option.map_eq_some_iff.1 h
    cases content with
    | element x =>
      cases hy
      exact ⟨x, element?_eq_some_iff.2 hcontent, (if_pos hn).symm⟩
    | _ => cases hy
  · rename_i hn
    exact ⟨y, element?_eq_some_iff.2 h, (if_neg hn).symm⟩

/-- **A slot makes no elements**, and changes only the one of the slot. -/
theorem element?_edit (slot : Slot) {text : String}
    (h : (d.apply (slot.edit i text)).element? n = some y) :
    ∃ x, d.element? n = some x ∧ y = if n = i then slot.onElement text x else x := by
  have hsame : d.element? n = some y → ∃ x, d.element? n = some x ∧ y = if n = i then x else x :=
    fun hy ↦ ⟨y, hy, (ite_self y).symm⟩
  cases slot with
  | control => exact element?_modifyElement h
  | «attribute» name => exact element?_modifyElement h
  | text =>
    refine hsame ?_
    rw [Slot.edit, apply, setText] at h
    split at h
    · exact element?_setContent_leaf rfl h
    all_goals
      first
      | exact h
      | exact element?_replaceContent_leaf (lt_size_of_content? ‹_›) rfl h
  | markup =>
    refine hsame ?_
    rw [Slot.edit, apply, setMarkup] at h
    split at h
    · exact element?_setContent_leaf rfl h
    · exact element?_setContent_leaf rfl h
    all_goals
      first
      | exact h
      | exact element?_replaceContent_leaf (lt_size_of_content? ‹_›) rfl h

/-! ### Edits of a template -/

namespace Translatable

/-- Work on a node of the template. -/
theorem around (h : d.Translatable b c T) (hn : T n) (he : d.Around n e)
    (hgood : ∀ m x, T m → e.element? m = some x → x.Good b c) : e.Translatable b c T where
  forest := he.forest
  fresh m hm := h.fresh m (Nat.le_trans he.size_le hm)
  closed m hm k hk := by
    by_cases hmn : m = n
    · subst hmn
      exact (he.own_children k hk).elim (h.closed m hm k) (h.fresh k)
    · exact h.closed m hm k (he.children_of_ne m hmn ▸ hk)
  good := hgood

theorem edit (h : d.Translatable b c T) (hn : T n) {slot : Slot} (hslot : slot.Plain b c)
    (text : String) : (d.apply (slot.edit n text)).Translatable b c T := by
  refine h.around hn (.apply_edit h.forest slot n text) fun m y hm hy ↦ ?_
  obtain ⟨x, hx, rfl⟩ := element?_edit slot hy
  have hgood := h.good m x hm hx
  split
  · cases slot with
    | «attribute» name => exact hgood.setAttribute text hslot
    | _ => exact hgood
  · exact hgood

theorem strip (h : d.Translatable b c T) (hn : T n) (name : String) :
    (d.removeAttribute n name).Translatable b c T := by
  refine h.around hn (.modifyElement h.forest n _) fun m y hm hy ↦ ?_
  obtain ⟨x, hx, rfl⟩ := element?_modifyElement hy
  have hgood := h.good m x hm hx
  split
  · exact hgood.removeAttribute name
  · exact hgood

variable (hc : c.Accepted)

include hc

/-- **A text is shown in a slot before as after.** -/
theorem respell_edit (h : d.Translatable b c T) (hn : T n) {slot : Slot} (hslot : slot.Plain b c)
    (text : String) : (d.apply (slot.edit n text)).respell b c T =
      (d.respell b c T).apply (slot.edit n text) := by
  cases slot with
  | text => exact recast_setText d _ n text
  | markup => exact recast_setMarkup d _ n text
  | control => exact recast_modifyElement d _ fun x _ ↦ by split <;> rfl
  | «attribute» name =>
    refine recast_modifyElement d _ fun x hx ↦ ?_
    rw [if_pos hn]
    exact respell_setAttribute text hc (h.good n x hn hx) hslot

/-- **A marker is taken away before as after.** -/
theorem respell_strip (h : d.Translatable b c T) (hn : T n) {name : String}
    (hname : Dialect.Fair b c name) : (d.removeAttribute n name).respell b c T =
      (d.respell b c T).removeAttribute n (b.respell c name) := by
  refine recast_modifyElement d _ fun x hx ↦ ?_
  rw [if_pos hn]
  exact respell_removeAttribute hc (h.good n x hn hx) hname

end Translatable

/-! ### The template below a root -/

/-- Whether a node belongs to the template below a root: it is below the root, or not there yet. -/
def isTemplate (d : Document) (root n : NodeId) : Bool :=
  decide (d.nodes.size ≤ n) || (n != root && d.isInclusiveAncestor root n)

variable {root : NodeId}

theorem IsForest.isTemplate_iff (hd : d.IsForest) :
    d.isTemplate root n = true ↔ d.nodes.size ≤ n ∨ d.Above root n := by
  rw [isTemplate, Bool.or_eq_true, Bool.and_eq_true, decide_eq_true_eq, bne_iff_ne,
    hd.isInclusiveAncestor_iff]
  refine or_congr_right ⟨fun ⟨hne, hat⟩ ↦ hat.resolve_left (Ne.symm hne), fun habove ↦ ?_⟩
  refine ⟨?_, .inr habove⟩
  rintro rfl
  exact hd.acyclic n habove

/-- **A compilation begins with its template.** -/
theorem IsForest.translatable_stage (hd : d.IsForest)
    (hgood : ∀ n x, d.Above root n → d.element? n = some x → x.Good b c) :
    (d.stage root).2.Translatable b c (d.isTemplate root) := by
  have hstaged := hd.staged root
  refine ⟨hd.stage root, fun n hn ↦ hd.isTemplate_iff.2 (.inl ?_), fun n hn m hm ↦ ?_,
    fun n x hn hx ↦ ?_⟩
  · rw [hstaged.size_eq] at hn
    exact Nat.le_of_succ_le hn
  · refine hd.isTemplate_iff.2 (.inr ?_)
    rw [hstaged.children_eq] at hm
    split at hm
    · exact .parent ((hd.linked root m).2 hm)
    · split at hm
      · cases hm
      · have hparent := (hd.linked n m).2 hm
        exact .step hparent ((hd.isTemplate_iff.1 hn).resolve_left
          (Nat.not_le_of_lt (Document.lt_size_of_mem_children hm)))
  · rw [element?_eq_some_iff] at hx
    rcases Nat.lt_trichotomy n d.nodes.size with hlt | heq | hgt
    · rw [hstaged.content?_eq n hlt] at hx
      exact hgood n x ((hd.isTemplate_iff.1 hn).resolve_left (Nat.not_le_of_lt hlt))
        (element?_eq_some_iff.2 hx)
    · rw [heq, hstaged.fragment] at hx
      cases hx
    · have hout := lt_size_of_content? hx
      rw [hstaged.size_eq] at hout
      exact absurd hgt (Nat.not_lt_of_le (Nat.le_of_lt_succ hout))

end Document

end DataBinding

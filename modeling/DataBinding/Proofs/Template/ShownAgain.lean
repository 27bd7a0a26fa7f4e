import DataBinding.Proofs.Document.ContentIndependence
import DataBinding.Proofs.Template.IndependentErrands
import Mathlib.Data.List.Nodup
import Mathlib.Logic.Function.Basic

/-!
# Showing a bond again

When a template is compiled, every bond is shown once; later some of them are shown again with other
texts.  Provided that no two errands work on the same part of a node, **showing a bond again gives
the document that would be there had the new text been shown in the first place** (`painted_apply`):
no node is made, none is moved, and what later errands have done to the same node stays.

The reason is that a bond that has been shown has a place, the node whose content shows it
(`Bond.ShownAt`).  Showing it again changes this content only, and that commutes with every errand
of another part.
-/

set_option autoImplicit false

namespace DataBinding

open Document Errand

/-! ## Parts of nodes -/

/-- What there is on a node that a binding may keep to itself. -/
inductive Part where
  | content
  | control
  deriving DecidableEq

/-- The part that a slot belongs to.  Attributes are for everybody. -/
def Slot.part? : Slot → Option Part
  | .text | .markup => some .content
  | .control => some .control
  | .attribute _ => none

/-- The slot that a binding fills. -/
def Binding.slot? : Binding → Option Slot
  | .fixed slot _ | .live slot _ => some slot
  | .template _ => some .text
  | _ => none

/-- The part of a node that an errand has to itself. -/
def Errand.part? : Errand → Option (NodeId × Part)
  | .bind n b => (b.slot?.bind Slot.part?).map (n, ·)
  | _ => none

theorem Errand.part?_of_bond {err : Errand} {b : Bond} (h : err.bond? = some b) :
    err.part? = b.slot.part?.map (b.node, ·) := by
  cases err with
  | bind n binding => cases binding <;> first | (cases h; rfl) | cases h
  | _ => cases h

theorem Slot.part?_eq_content {slot : Slot} :
    slot.part? = some .content ↔ slot.isContent = true := by
  cases slot <;> simp [part?, isContent]

/-- What shows a text in a slot. -/
def Slot.content (slot : Slot) (text : String) : Content :=
  match slot with
  | .markup => .raw text
  | _ => .text text

/-- An element whose control holds a text. -/
def Element.withControl (x : Element) (text : String) : Element := { x with control := some text }

/-- What showing a text in a slot does to the content that shows it. -/
def Slot.paint (slot : Slot) (text : String) : Content → Content :=
  match slot with
  | .control => .onElement (·.withControl text)
  | slot => fun _ ↦ slot.content text

theorem Slot.sameSort_content (slot : Slot) (text text' : String) :
    (slot.content text).sameSort (slot.content text') = true := by
  cases slot <;> rfl

theorem Slot.paint_paint (slot : Slot) (text text' : String) (c : Content) :
    slot.paint text' (slot.paint text c) = slot.paint text' c := by
  cases slot <;> first | rfl | (cases c <;> rfl)

/-- The content of an element is given to it as its only child. -/
theorem Document.apply_edit_of_element {d : Document} {n : NodeId} {x : Element}
    (hx : d.content? n = some (.element x)) {slot : Slot} (hslot : slot.isContent = true)
    (text : String) : d.apply (slot.edit n text) = d.replaceContent n (slot.content text) := by
  cases slot with
  | text => rw [Slot.edit, Document.apply, setText, hx]; rfl
  | markup => rw [Slot.edit, Document.apply, setMarkup, hx]; rfl
  | _ => cases hslot

/-- What a text node shows is changed in place. -/
theorem Document.apply_edit_of_text {d : Document} {n : NodeId} {t : String}
    (ht : d.content? n = some (.text t)) (text : String) :
    d.apply (Slot.text.edit n text) = d.setContent n (.text text) := by
  rw [Slot.edit, Document.apply, setText, ht]

/-- What the control of a node shows is a field of the element. -/
theorem Document.apply_edit_of_control (d : Document) (n : NodeId) (text : String) :
    d.apply (Slot.control.edit n text) = d.mapContent n (Slot.control.paint text) := by
  rw [Slot.edit, Document.apply, setControl, modifyElement_eq_mapContent]
  rfl

/-! ## Where a bond is shown -/

/-- The bond has been shown, and `i` is the node whose content shows it. -/
inductive Bond.ShownAt (b : Bond) (i : NodeId) (e : Document) : Prop
  /-- The node itself, for its control. -/
  | control (hslot : b.slot = .control) (hi : i = b.node) {x : Element}
      (hx : e.content? i = some (.element x))
  /-- The node itself, if it is a text. -/
  | text (hslot : b.slot = .text) (hi : i = b.node) {t : String}
      (ht : e.content? i = some (.text t))
  /-- The only child of an element. -/
  | inside (hslot : b.slot.isContent = true) {x : Element}
      (hx : e.content? b.node = some (.element x)) (hch : e.children b.node = [i]) {t : String}
      (ht : e.content? i = some (b.slot.content t))

namespace Bond.ShownAt

variable {b : Bond} {i : NodeId} {e : Document}

theorem lt_size (h : b.ShownAt i e) : i < e.nodes.size := by
  cases h with
  | control _ _ hx => exact lt_size_of_content? hx
  | text _ _ ht => exact lt_size_of_content? ht
  | inside _ _ _ ht => exact lt_size_of_content? ht

/-- What is shown in a control is shown on the node itself. -/
theorem eq_node (h : b.ShownAt i e) (hslot : b.slot = .control) : i = b.node := by
  cases h with
  | control _ hi _ => exact hi
  | text hslot' _ _ => cases hslot.symm.trans hslot'
  | inside hslot' _ _ _ =>
    rw [hslot] at hslot'
    cases hslot'

/-- Elements are elements still when the place of a bond is painted. -/
theorem exists_element (h : b.ShownAt i e) (text : String) {n : NodeId} {x : Element}
    (hx : e.content? n = some (.element x)) :
    ∃ y, (e.mapContent i (b.slot.paint text)).content? n = some (.element y) := by
  rw [content?_mapContent]
  split
  · rename_i hin
    subst hin
    cases h with
    | control hslot _ _ => exact ⟨_, by rw [hx, hslot]; rfl⟩
    | text _ _ ht => cases hx.symm.trans ht
    | inside _ _ _ ht =>
      have hcontent := Option.some.inj (hx.symm.trans ht)
      cases hs : b.slot <;> rw [hs] at hcontent <;> cases hcontent
  · exact ⟨x, hx⟩

/-- **Showing a bond again changes the content of its place**, and nothing else. -/
theorem apply_edit (h : b.ShownAt i e) (text : String) :
    e.apply (b.edit text) = e.mapContent i (b.slot.paint text) := by
  rw [Bond.edit]
  cases h with
  | control hslot hi _ =>
    rw [hslot, hi]
    exact apply_edit_of_control e b.node text
  | text hslot hi ht =>
    rw [hslot, ← hi, apply_edit_of_text ht, setContent_eq]
    rfl
  | inside hslot hx hch ht =>
    rw [apply_edit_of_element hx hslot,
      replaceContent_again hch ht (b.slot.sameSort_content _ text), setContent_eq]
    cases hs : b.slot with
    | control => rw [hs] at hslot; cases hslot
    | _ => rfl

end Bond.ShownAt

/-! ## Errands of other parts -/

namespace Errand

/-- What an errand does to documents: nothing, a change of an element that keeps to its part, or a
new content for its node. -/
inductive Works (shown : Bond → String) (err : Errand) : Prop
  | idle (happly : ∀ e, err.apply shown e = e)
  | element {n : NodeId} {f : Element → Element} (hn : err.node? = some n)
      (happly : ∀ e, err.apply shown e = e.modifyElement n f) (hcontent : err.onContent = false)
      (hcontrol : err.part? = some (n, .control) ∨
        ∀ x text, f (x.withControl text) = (f x).withControl text)
  | content {n : NodeId} {slot : Slot} {text : String} (hn : err.node? = some n)
      (happly : ∀ e, err.apply shown e = e.apply (slot.edit n text))
      (hcontent : err.onContent = true) (hslot : slot.isContent = true)
      (hpart : err.part? = some (n, .content))

theorem works_of_slot {shown : Bond → String} (n : NodeId) (slot : Slot) (text : String)
    {binding : Binding} (hb : binding.slot? = some slot)
    (hcontent : binding.onContent = slot.isContent)
    (happly : ∀ e, (Errand.bind n binding).apply shown e = e.apply (slot.edit n text)) :
    (Errand.bind n binding).Works shown := by
  have hpart : (Errand.bind n binding).part? = slot.part?.map (n, ·) := by
    rw [part?, hb]
    rfl
  cases slot with
  | text => exact .content rfl happly hcontent rfl hpart
  | markup => exact .content rfl happly hcontent rfl hpart
  | control => exact .element rfl happly hcontent (.inl hpart)
  | «attribute» name => exact .element rfl happly hcontent (.inr fun _ _ ↦ rfl)

/-- Every errand works in one of these ways. -/
theorem works (shown : Bond → String) (err : Errand) : err.Works shown := by
  cases err with
  | count f => exact .idle fun _ ↦ rfl
  | strip n name => exact .element rfl (fun _ ↦ rfl) rfl (.inr fun _ _ ↦ rfl)
  | bind n binding =>
    cases binding with
    | fixed slot text => exact works_of_slot n slot text rfl rfl fun _ ↦ rfl
    | live slot expr => exact works_of_slot n slot _ rfl rfl fun _ ↦ rfl
    | template text => exact works_of_slot n .text _ rfl rfl fun _ ↦ rfl
    | _ => exact .idle fun _ ↦ rfl

theorem part?_of_onContent {err : Errand} {n : NodeId} (hn : err.node? = some n)
    (h : err.onContent = true) : err.part? = some (n, .content) := by
  have hslot : ∀ slot : Slot, slot.isContent = true →
      slot.part?.map (n, ·) = some (n, Part.content) := by
    intro slot hslot
    rw [Slot.part?_eq_content.2 hslot]
    rfl
  cases err with
  | bind m binding =>
    cases hn
    cases binding with
    | fixed slot text => exact hslot slot h
    | live slot expr => exact hslot slot h
    | template text => rfl
    | _ => cases h
  | _ => cases h

theorem onContent_of_bond {err : Errand} {b : Bond} (hb : err.bond? = some b)
    (h : b.slot.isContent = true) : err.onContent = true := by
  cases err with
  | bind n binding => cases binding <;> first | (cases hb; first | exact h | rfl) | cases hb
  | _ => cases hb

end Errand

namespace Tended

variable {dialect : Dialect} {d e e' : Document} {es : List Errand} {err err' : Errand} {n : NodeId}

/-- What is an element in one tended document is an element in all of them. -/
theorem element_of_element (h : Tended dialect d es e) (h' : Tended dialect d es e')
    (hl : Laid dialect d es) (herr : err ∈ es) (hn : err.node? = some n) {x : Element}
    (hx : e.content? n = some (.element x)) : ∃ y, e'.content? n = some (.element y) := by
  rcases (hl.fits err herr n hn).2.element_or_text hn with ⟨y, hy⟩ | ⟨t, ht, -⟩
  · exact h'.exists_element herr hn hy
  · obtain ⟨t', ht'⟩ := h.exists_text herr hn ht
    cases hx.symm.trans ht'

/-- What is a text in one tended document is a text in all of them. -/
theorem text_of_text (h : Tended dialect d es e) (h' : Tended dialect d es e')
    (hl : Laid dialect d es) (herr : err ∈ es) (hn : err.node? = some n) {t : String}
    (ht : e.content? n = some (.text t)) : ∃ t', e'.content? n = some (.text t') := by
  rcases (hl.fits err herr n hn).2.element_or_text hn with ⟨y, hy⟩ | ⟨t, ht', -⟩
  · obtain ⟨x, hx⟩ := h.exists_element herr hn hy
    cases hx.symm.trans ht
  · exact h'.exists_text herr hn ht'

/-- An errand that does not concern the content of its node leaves all children where they are. -/
theorem aside_onContent (h : Tended dialect d es e) (hl : Laid dialect d es) (herr : err ∈ es)
    (hn : err.node? = some n) (shown : Bond → String) :
    e.Aside n err.onContent (err.apply shown e) := by
  have hfits := (hl.fits err herr n hn).2
  refine aside_apply (.refl e n _) h.forest (h.lt_size hl herr hn) (.inr hn) (fun hcontent ↦ ?_)
    shown
  rcases hfits.content hcontent with ⟨-, x, hx⟩ | ⟨t, ht, heq⟩
  · exact .inl ⟨hcontent, h.exists_element herr hn hx⟩
  · obtain ⟨t', ht'⟩ := h.exists_text herr hn ht
    exact .inr ⟨t', ht', t, heq⟩

end Tended

/-! ## Errands and places -/

section Places

variable {dialect : Dialect} {d e : Document} {es : List Errand} {err err' : Errand} {b : Bond}
  {i n : NodeId}

/-- The only child of an element is a place of its own, on which no errand works. -/
theorem Tended.place_ne (he : Tended dialect d es e) (hl : Laid dialect d es) (herr : err ∈ es)
    (hb : err.bond? = some b) (hslot : b.slot.isContent = true) {x : Element}
    (hx : e.content? b.node = some (.element x)) (hch : e.children b.node = [i]) (herr' : err' ∈ es)
    (hn : err'.node? = some n) : i ≠ n := by
  have hnode := node?_of_bond hb
  rcases (hl.fits err herr _ hnode).2.content (onContent_of_bond hb hslot) with
    ⟨howns, -⟩ | ⟨t, ht, -⟩
  · rintro rfl
    exact he.not_child hl herr herr' hnode hn howns (by simp [hch])
  · obtain ⟨t', ht'⟩ := he.exists_text herr hnode ht
    cases hx.symm.trans ht'

variable (hl : Laid dialect d es) (herr : err ∈ es) (hb : err.bond? = some b) (herr' : err' ∈ es)
  (hpart : err'.part? ≠ err.part?)

include hl herr hb herr' hpart

/-- The place of a bond is no child of a node that gets a content from an errand of another part. -/
theorem Bond.ShownAt.not_child (h : b.ShownAt i e) (he : Tended dialect d es e)
    (hn : err'.node? = some n) (hcontent : err'.onContent = true)
    (howns : dialect.owns (d.content? n) = true) : i ∉ e.children n := by
  have hnode := node?_of_bond hb
  cases h with
  | control hslot hi hx =>
    rw [hi]
    exact he.not_child hl herr' herr hn hnode howns
  | text hslot hi ht =>
    rw [hi]
    exact he.not_child hl herr' herr hn hnode howns
  | inside hslot hx hch ht =>
    intro hmem
    have hparent := (he.forest.linked n i).2 hmem
    rw [(he.forest.linked b.node i).2 (by simp [hch])] at hparent
    refine hpart ?_
    rw [part?_of_onContent hn hcontent, part?_of_bond hb, Slot.part?_eq_content.2 hslot,
      ← Option.some.inj hparent]
    rfl

/-- **A place is where it was after an errand of another part.** -/
theorem Bond.ShownAt.apply (h : b.ShownAt i e) (he : Tended dialect d es e)
    (shown : Bond → String) : b.ShownAt i (err'.apply shown e) := by
  have hnode := node?_of_bond hb
  have he' := he.apply hl herr' shown
  cases h with
  | control hslot hi hx =>
    rw [hi] at hx ⊢
    obtain ⟨y, hy⟩ := he.element_of_element he' hl herr hnode hx
    exact .control hslot rfl hy
  | text hslot hi ht =>
    rw [hi] at ht ⊢
    obtain ⟨t', ht'⟩ := he.text_of_text he' hl herr hnode ht
    exact .text hslot rfl ht'
  | @inside hslot x hx hch t ht =>
    cases hn : err'.node? with
    | none =>
      cases err' with
      | count f => exact .inside hslot hx hch ht
      | _ => cases hn
    | some n =>
      have haside := he.aside_onContent hl herr' hn shown
      have hne : err'.onContent = true → b.node ≠ n := by
        rintro hcontent rfl
        refine hpart ?_
        rw [part?_of_onContent hn hcontent, part?_of_bond hb, Slot.part?_eq_content.2 hslot]
        rfl
      obtain ⟨y, hy⟩ := he.element_of_element he' hl herr hnode hx
      refine .inside hslot hy ((haside.children_eq _ hne).trans hch) (t := t) ?_
      rw [haside.content?_eq i (lt_size_of_content? ht)
        (he.place_ne hl herr hb hslot hx hch herr' hn) fun hcontent hmem ↦ ?_, ht]
      have hparent := (he.forest.linked n i).2 hmem
      rw [(he.forest.linked b.node i).2 (by simp [hch])] at hparent
      exact hne hcontent (Option.some.inj hparent)

/-- **Repainting a place commutes with errands of other parts.** -/
theorem Bond.ShownAt.apply_mapContent (h : b.ShownAt i e) (he : Tended dialect d es e)
    (shown : Bond → String) (text : String) :
    err'.apply shown (e.mapContent i (b.slot.paint text)) =
      (err'.apply shown e).mapContent i (b.slot.paint text) := by
  have hnode := node?_of_bond hb
  cases err'.works shown with
  | idle happly => rw [happly, happly]
  | @element n f hn happly hcontent hcontrol =>
    rw [happly, happly, modifyElement_eq_mapContent, modifyElement_eq_mapContent]
    refine mapContent_comm e ?_
    cases hslot : b.slot with
    | control =>
      by_cases hin : i = n
      · refine .inr fun c ↦ ?_
        have hf := hcontrol.resolve_left fun hp ↦ hpart (by
          rw [hp, part?_of_bond hb, hslot, ← h.eq_node hslot, hin]
          rfl)
        cases c with
        | element x => exact congrArg Content.element (hf x text)
        | _ => rfl
      · exact .inl hin
    | _ => exact .inr fun c ↦ rfl
  | @content n slot text' hn happly hcontent hslot' hpart' =>
    rcases (hl.fits err' herr' n hn).2.content hcontent with ⟨howns, x, hx⟩ | ⟨t', ht', htemplate⟩
    · obtain ⟨y, hy⟩ := he.exists_element herr' hn hx
      obtain ⟨y', hy'⟩ := h.exists_element text hy
      rw [happly, happly, apply_edit_of_element hy hslot', apply_edit_of_element hy' hslot']
      exact mapContent_replaceContent h.lt_size
        (h.not_child hl herr hb herr' hpart he hn hcontent howns) _
    · obtain ⟨t, ht⟩ := he.exists_text herr' hn ht'
      have hne : i ≠ n := by
        rintro rfl
        cases h with
        | control hslot hi hx => cases hx.symm.trans ht
        | text hslot hi _ =>
          refine hpart ?_
          rw [hpart', part?_of_bond hb, hslot, hi]
          rfl
        | inside hslot hx hch _ => exact he.place_ne hl herr hb hslot hx hch herr' hn rfl
      subst htemplate
      show (e.mapContent i (b.slot.paint text)).apply (Slot.text.edit n _)
        = (e.apply (Slot.text.edit n _)).mapContent i (b.slot.paint text)
      rw [apply_edit_of_text ht, apply_edit_of_text (t := t)
        (by rw [content?_mapContent, if_neg (Ne.symm hne), ht]), setContent_eq, setContent_eq]
      exact mapContent_comm e (.inl hne)

end Places

/-! ## Showing again -/

section Again

variable {dialect : Dialect} {d e : Document} {es : List Errand} {err : Errand} {b : Bond}
  {i : NodeId}

/-- **A place is where it was after errands of other parts, and repainting it commutes with
them.** -/
theorem Bond.ShownAt.painted (hl : Laid dialect d es) (herr : err ∈ es) (hb : err.bond? = some b)
    (h : b.ShownAt i e) (he : Tended dialect d es e) (shown : Bond → String) (text : String)
    {es' : List Errand} (hsub : ∀ err' ∈ es', err' ∈ es ∧ err'.part? ≠ err.part?) :
    b.ShownAt i (painted shown e es') ∧
      painted shown (e.mapContent i (b.slot.paint text)) es' =
        (painted shown e es').mapContent i (b.slot.paint text) := by
  induction es' generalizing e with
  | nil => exact ⟨h, rfl⟩
  | cons err' es' ih =>
    obtain ⟨herr', hpart⟩ := hsub err' (by simp)
    obtain ⟨hplace, hcomm⟩ := ih (h.apply hl herr hb herr' hpart he shown) (he.apply hl herr' shown)
      fun err'' hmem ↦ hsub err'' (by simp [hmem])
    refine ⟨hplace, ?_⟩
    rw [Errand.painted, List.foldl_cons, h.apply_mapContent hl herr hb herr' hpart he]
    exact hcomm

/-- **A bond that is shown gets a place.** -/
theorem Tended.exists_shownAt (he : Tended dialect d es e) (hl : Laid dialect d es)
    (herr : err ∈ es) (hb : err.bond? = some b) (hpart : err.part?.isSome) (text : String) :
    ∃ i, b.ShownAt i (e.apply (b.edit text)) := by
  have hnode := node?_of_bond hb
  have hfits := (hl.fits err herr _ hnode).2
  have happly := he.apply hl herr fun _ ↦ text
  rw [apply_of_bond hb] at happly
  by_cases hslot : b.slot.isContent = true
  · rcases hfits.content (onContent_of_bond hb hslot) with ⟨-, x, hx⟩ | ⟨t, ht, htemplate⟩
    · obtain ⟨y, hy⟩ := happly.exists_element herr hnode hx
      obtain ⟨z, hz⟩ := he.exists_element herr hnode hx
      rw [Bond.edit, apply_edit_of_element hz hslot] at hy ⊢
      have hr := replaceContent_replaced (he.lt_size hl herr hnode) (b.slot.content text)
      exact ⟨_, .inside hslot hy hr.children_self hr.content?_spot⟩
    · obtain ⟨t', ht'⟩ := happly.exists_text herr hnode ht
      have hbond : b = .template b.node t :=
        Option.some.inj (hb.symm.trans (by rw [htemplate]; rfl))
      exact ⟨_, .text (by rw [hbond]; rfl) rfl ht'⟩
  · have hcontrol : b.slot = .control := by
      rw [part?_of_bond hb, Option.isSome_map] at hpart
      cases hs : b.slot with
      | control => rfl
      | «attribute» name => rw [hs] at hpart; cases hpart
      | _ => rw [hs] at hslot; exact absurd rfl hslot
    rcases hfits.element_or_text hnode with ⟨x, hx⟩ | ⟨t, -, htemplate⟩
    · obtain ⟨y, hy⟩ := happly.exists_element herr hnode hx
      exact ⟨_, .control hcontrol rfl hy⟩
    · have hbond : b = .template b.node t :=
        Option.some.inj (hb.symm.trans (by rw [htemplate]; rfl))
      rw [hbond] at hcontrol
      cases hcontrol

/-- Of a text that is shown over another one nothing is seen but the new one. -/
theorem Tended.apply_apply (he : Tended dialect d es e) (hl : Laid dialect d es) (herr : err ∈ es)
    (hb : err.bond? = some b) (hpart : err.part?.isSome) (text text' : String) :
    (e.apply (b.edit text)).apply (b.edit text') = e.apply (b.edit text') := by
  have hnode := node?_of_bond hb
  have happly := he.apply hl herr fun _ ↦ text
  rw [apply_of_bond hb] at happly
  obtain ⟨i, hplace⟩ := he.exists_shownAt hl herr hb hpart text
  cases hplace with
  | control hslot _ _ =>
    rw [Bond.edit, Bond.edit, hslot, apply_edit_of_control, apply_edit_of_control,
      apply_edit_of_control, mapContent_mapContent]
    simp only [Slot.paint_paint]
  | text hslot hi ht =>
    rw [hi] at ht
    obtain ⟨t, ht'⟩ := happly.text_of_text he hl herr hnode ht
    rw [Bond.edit, hslot] at ht
    rw [Bond.edit, Bond.edit, hslot, apply_edit_of_text ht, apply_edit_of_text ht',
      apply_edit_of_text ht', setContent_setContent]
  | inside hslot hx _ _ =>
    obtain ⟨y, hy⟩ := happly.element_of_element he hl herr hnode hx
    rw [Bond.edit] at hx
    rw [Bond.edit, Bond.edit, apply_edit_of_element hx hslot, apply_edit_of_element hy hslot,
      apply_edit_of_element hy hslot,
      replaceContent_replaceContent (he.lt_size hl herr hnode) (b.slot.sameSort_content _ _)]

/-- What is painted depends on the texts of the bonds that are painted. -/
theorem Errand.painted_congr {shown shown' : Bond → String}
    (h : ∀ err ∈ es, ∀ b, err.bond? = some b → shown b = shown' b) (e : Document) :
    painted shown e es = painted shown' e es := by
  induction es generalizing e with
  | nil => rfl
  | cons err es ih =>
    have hfirst : err.apply shown e = err.apply shown' e := by
      cases hb : err.bond? with
      | some b => rw [apply_of_bond hb, apply_of_bond hb, h err (by simp) b hb]
      | none =>
        cases err with
        | bind n binding => cases binding <;> first | rfl | cases hb
        | _ => rfl
    rw [painted, painted, List.foldl_cons, List.foldl_cons, hfirst]
    exact ih (fun err' hmem ↦ h err' (by simp [hmem])) _

/-- The errands that come before and after one whose part is its own have other parts. -/
theorem Errand.part?_ne_of_count {es₁ es₂ : List Errand} {part : NodeId × Part}
    (hcount : ((es₁ ++ err :: es₂).filterMap Errand.part?).count part ≤ 1)
    (hpart : err.part? = some part) : ∀ err' ∈ es₁ ++ es₂, err'.part? ≠ err.part? := by
  rw [List.filterMap_append, List.filterMap_cons_some hpart, List.perm_middle.count_eq,
    ← List.filterMap_append, List.count_cons_self] at hcount
  intro err' hmem heq
  have hnone : part ∉ (es₁ ++ es₂).filterMap Errand.part? :=
    List.count_eq_zero.1 (Nat.le_zero.1 (Nat.le_of_succ_le_succ hcount))
  exact hnone (List.mem_filterMap.2 ⟨err', hmem, heq.trans hpart⟩)

/-- **Showing a bond again** gives the document that would be there had the new text been shown in
the first place, and the bond has a place. -/
theorem painted_apply (hl : Laid dialect d es) (hnodup : (es.filterMap Errand.part?).Nodup)
    (herr : err ∈ es) (hb : err.bond? = some b) (hpart : err.part?.isSome) (shown : Bond → String)
    (text : String) :
    (∃ i, b.ShownAt i (painted shown d es)) ∧
      (painted shown d es).apply (b.edit text) = painted (Function.update shown b text) d es := by
  obtain ⟨es₁, es₂, rfl⟩ := List.append_of_mem herr
  obtain ⟨part, hpart'⟩ := Option.isSome_iff_exists.1 hpart
  have hothers := part?_ne_of_count (List.nodup_iff_count_le_one.1 hnodup part) hpart'
  have hrest : ∀ err' ∈ es₁ ++ es₂, ∀ b', err'.bond? = some b' →
      shown b' = Function.update shown b text b' := by
    rintro err' hmem b' hb'
    rw [Function.update_of_ne]
    rintro rfl
    exact hothers err' hmem (by rw [part?_of_bond hb', part?_of_bond hb])
  have hfirst : ∀ err' ∈ es₁, err' ∈ es₁ ++ err :: es₂ := fun err' hmem ↦ by simp [hmem]
  have hlater : ∀ err' ∈ es₂, err' ∈ es₁ ++ err :: es₂ ∧ err'.part? ≠ err.part? := fun err' hmem ↦
    ⟨by simp [hmem], hothers err' (by simp [hmem])⟩
  have hbefore := (Tended.refl hl).painted hl hfirst shown
  obtain ⟨i, hplace⟩ := hbefore.exists_shownAt hl herr hb hpart (shown b)
  have hthen := hbefore.apply hl herr shown
  rw [← apply_of_bond hb] at hplace
  obtain ⟨hplace', hcomm⟩ := hplace.painted hl herr hb hthen shown text hlater
  have hsplit : ∀ shown' : Bond → String, painted shown' d (es₁ ++ err :: es₂) =
      painted shown' (err.apply shown' (painted shown' d es₁)) es₂ := fun shown' ↦
    painted_append shown' d es₁ (err :: es₂)
  rw [hsplit, hsplit]
  refine ⟨⟨i, hplace'⟩, ?_⟩
  calc (painted shown (err.apply shown (painted shown d es₁)) es₂).apply (b.edit text)
      = (painted shown (err.apply shown (painted shown d es₁)) es₂).mapContent i
          (b.slot.paint text) := hplace'.apply_edit text
    _ = painted shown ((err.apply shown (painted shown d es₁)).apply (b.edit text)) es₂ := by
        rw [← hcomm, hplace.apply_edit]
    _ = painted shown ((painted shown d es₁).apply (b.edit text)) es₂ := by
        rw [apply_of_bond hb, hbefore.apply_apply hl herr hb hpart]
    _ = painted (Function.update shown b text) (err.apply (Function.update shown b text)
          (painted (Function.update shown b text) d es₁)) es₂ := by
        rw [apply_of_bond hb, Function.update_self,
          painted_congr (fun err' hmem ↦ hrest err' (by simp [hmem])) d,
          painted_congr (fun err' hmem ↦ hrest err' (by simp [hmem]))]

end Again

end DataBinding

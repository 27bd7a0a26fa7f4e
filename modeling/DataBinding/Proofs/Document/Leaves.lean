import DataBinding.Proofs.Document.ContentIndependence

/-!
# Leaves

Texts and raw markup are shown as they are, and have nothing below them in a parsed document.
**What bindings do to a document keeps it so** (`Leafy.setText`, `Leafy.setMarkup`,
`Leafy.modifyElement`): a node that is given a content to show is not a leaf itself, and the node
that shows the content is.
-/

set_option autoImplicit false

namespace DataBinding

/-- Whether a content is shown as it is. -/
def Content.isLeaf : Content → Bool
  | .text _ | .raw _ => true
  | .document | .fragment | .element _ => false

theorem Content.isLeaf_of_sameSort {c c' : Content} (h : c.sameSort c' = true) :
    c.isLeaf = c'.isLeaf := by
  cases c <;> cases c' <;> first | rfl | cases h

namespace Document

variable {d : Document} {n : NodeId} {c : Content}

/-- There is nothing below texts and raw markup. -/
def Leafy (d : Document) : Prop :=
  ∀ n c, d.content? n = some c → c.isLeaf = true → d.children n = []

/-! ## A single child -/

theorem content?_replaceContent (hn : n < d.nodes.size) (c : Content) (i : NodeId) :
    (d.replaceContent n c).content? i = if i = d.spot n c then some c else d.content? i := by
  rw [replaceContent_eq]
  rcases d.spot_cases n c with hnew | ⟨-, old, hold, -⟩
  · rw [if_pos hnew, content?_freshened hn, hnew]
  · rw [if_neg (Nat.ne_of_lt (lt_size_of_content? hold)), content?_setContent]
    split
    · rename_i hi
      rw [hi, hold]
      rfl
    · rfl

theorem children_replaceContent (hn : n < d.nodes.size) (c : Content) (i : NodeId) :
    (d.replaceContent n c).children i = if i = n then [d.spot n c] else d.children i := by
  have hreplaced := replaceContent_replaced hn c
  split
  · rename_i hi
    rw [hi, hreplaced.children_self]
  · rename_i hi
    exact hreplaced.children_of_ne i hi

/-- A node is not the place of its own content. -/
theorem IsForest.spot_ne (hd : d.IsForest) (hn : n < d.nodes.size) (c : Content) :
    d.spot n c ≠ n := by
  intro heq
  rcases d.spot_cases n c with hnew | ⟨hch, -⟩
  · exact Nat.ne_of_lt hn (heq.symm.trans hnew)
  · exact hd.acyclic n
      (.parent ((hd.linked n n).2 (by rw [hch, heq]; exact List.mem_singleton_self n)))

/-! ## Leaves stay leaves -/

theorem Leafy.replaceContent (h : d.Leafy) (hd : d.IsForest) {b : Content}
    (hb : d.content? n = some b) (hleaf : b.isLeaf = false) (c : Content) :
    (d.replaceContent n c).Leafy := by
  have hn := lt_size_of_content? hb
  intro i k hk hkleaf
  rw [content?_replaceContent hn] at hk
  rw [children_replaceContent hn]
  split at hk
  · rename_i hi
    cases hk
    rw [hi, if_neg (hd.spot_ne hn c)]
    rcases d.spot_cases n c with hnew | ⟨-, old, hold, hsort⟩
    · rw [hnew, children_of_size_le d (Nat.le_refl _)]
    · exact h _ old hold (by rw [Content.isLeaf_of_sameSort hsort, hkleaf])
  · rw [if_neg ?_]
    · exact h i k hk hkleaf
    · rintro rfl
      cases hb.symm.trans hk
      rw [hleaf] at hkleaf
      cases hkleaf

theorem Leafy.setContent (h : d.Leafy) (hc : ∀ b, d.content? n = some b → c.isLeaf = b.isLeaf) :
    (d.setContent n c).Leafy := by
  intro i k hk hkleaf
  rw [children_setContent]
  rw [content?_setContent] at hk
  split at hk
  · rename_i hi
    obtain ⟨b, hb, hck⟩ := Option.map_eq_some_iff.1 hk
    rw [hi] at hb ⊢
    exact h n b hb (by rw [← hc b hb, hck, hkleaf])
  · exact h i k hk hkleaf

theorem Leafy.modifyElement (h : d.Leafy) (f : Element → Element) :
    (d.modifyElement n f).Leafy := by
  rw [modifyElement_eq]
  split
  · rename_i e he
    refine h.setContent fun b hb ↦ ?_
    rw [element?, hb] at he
    cases b <;> first | rfl | cases he
  · exact h

theorem Leafy.setText (h : d.Leafy) (hd : d.IsForest) (text : String) :
    (d.setText n text).Leafy := by
  rw [Document.setText]
  split
  · rename_i t ht
    refine h.setContent fun b hb ↦ ?_
    cases ht.symm.trans hb
    rfl
  · rename_i hb
    exact h.replaceContent hd hb rfl _
  · rename_i hb
    exact h.replaceContent hd hb rfl _
  · rename_i hb
    exact h.replaceContent hd hb rfl _
  · exact h

theorem Leafy.setMarkup (h : d.Leafy) (hd : d.IsForest) (markup : String) :
    (d.setMarkup n markup).Leafy := by
  rw [Document.setMarkup]
  split
  · rename_i hb
    refine h.setContent fun b' hb' ↦ ?_
    cases hb.symm.trans hb'
    rfl
  · rename_i hb
    refine h.setContent fun b' hb' ↦ ?_
    cases hb.symm.trans hb'
    rfl
  · rename_i b htext hraw hb
    refine h.replaceContent hd hb ?_ _
    cases b with
    | text t => exact (htext t rfl).elim
    | raw m => exact (hraw m rfl).elim
    | _ => rfl
  · exact h

end Document

end DataBinding

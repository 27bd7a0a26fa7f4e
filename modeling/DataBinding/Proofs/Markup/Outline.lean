import DataBinding.Proofs.Document.WalkTermination
import DataBinding.Proofs.Markup.RoundTrip

/-!
# The outline of a document

The outline of a tree is what remains of it without texts: the tag and the attributes of every
element, and how the elements are nested.  Reading the markup of a tree again finds the same
outline, whatever the texts are (`exists_parse_outline`): a text is written so that it is read as
text, and neither joining neighbouring texts nor leaving out what is below void elements touches an
element that is written.
-/

set_option autoImplicit false

namespace DataBinding

open Markup

mutual

/-- The outline of a tree: nothing for a text, one tree for an element. -/
def Tree.outline : Tree Content → List (Tree (String × List (String × String)))
  | .node (.element e) ts => [.node (e.tag, e.attributes) (Tree.outlineAll ts)]
  | .node .document ts | .node .fragment ts => Tree.outlineAll ts
  | .node (.text _) _ | .node (.raw _) _ => []

/-- The outline of trees that stand side by side. -/
def Tree.outlineAll : List (Tree Content) → List (Tree (String × List (String × String)))
  | [] => []
  | t :: ts => t.outline ++ Tree.outlineAll ts

end

theorem Tree.outlineAll_append (ts us : List (Tree Content)) :
    Tree.outlineAll (ts ++ us) = Tree.outlineAll ts ++ Tree.outlineAll us := by
  induction ts with
  | nil => rfl
  | cons t ts ih => rw [List.cons_append, Tree.outlineAll, Tree.outlineAll, ih, List.append_assoc]

@[simp] theorem Tree.outlineAll_ofText (text : String) :
    Tree.outlineAll (Tree.ofText text) = [] := by
  rw [Tree.ofText]
  split <;> rfl

theorem Tree.outline_of_text? {t : Tree Content} {text : String} (h : t.text? = some text) :
    t.outline = [] := by
  match t with
  | .node (.text _) _ => rfl
  | .node (.element _) _ | .node .document _ | .node .fragment _ | .node (.raw _) _ => cases h

mutual

/-- **Reading markup again keeps the outline.** -/
theorem Tree.outline_tidy (t : Tree Content) : t.tidy.outline = t.outline := by
  match t with
  | .node (.element e) ts => rw [Tree.tidy, Tree.outline, Tree.outline, Tree.outlineAll_tidyAll]
  | .node .document ts => exact Tree.outlineAll_tidyAll "" ts
  | .node .fragment ts => exact Tree.outlineAll_tidyAll "" ts
  | .node (.text _) _ => rfl
  | .node (.raw _) _ => rfl

theorem Tree.outlineAll_tidyAll (text : String) (ts : List (Tree Content)) :
    Tree.outlineAll (Tree.tidyAll text ts) = Tree.outlineAll ts := by
  match ts with
  | [] => rw [Tree.tidyAll, Tree.outlineAll_ofText, Tree.outlineAll]
  | t :: ts =>
    rw [Tree.tidyAll, Tree.outlineAll]
    cases htext : t.text? with
    | some more => rw [Tree.outlineAll_tidyAll, Tree.outline_of_text? htext, List.nil_append]
    | none =>
      rw [Tree.outlineAll_append, Tree.outlineAll_ofText, List.nil_append, Tree.outlineAll,
        Tree.outline_tidy, Tree.outlineAll_tidyAll]

end

/-! ## What is not written -/

mutual

/-- A tree without what the writer does not look into. -/
def Tree.lop : Tree Content → Tree Content
  | .node c ts => .node c (if c.isShut then [] else Tree.lopAll ts)

/-- Trees without what the writer does not look into. -/
def Tree.lopAll : List (Tree Content) → List (Tree Content)
  | [] => []
  | t :: ts => t.lop :: Tree.lopAll ts

end

mutual

theorem Tree.write_lop (t : Tree Content) : t.lop.write = t.write := by
  match t with
  | .node (.element e) ts =>
    rw [Tree.lop, Content.isShut, Tree.write, Tree.write]
    cases isVoid e.tag with
    | true => rfl
    | false => simp only [Bool.false_eq_true, if_false, Tree.writeAll_lopAll]
  | .node .document ts => exact Tree.writeAll_lopAll ts
  | .node .fragment ts => exact Tree.writeAll_lopAll ts
  | .node (.text _) _ => rfl
  | .node (.raw _) _ => rfl

theorem Tree.writeAll_lopAll (ts : List (Tree Content)) :
    Tree.writeAll (Tree.lopAll ts) = Tree.writeAll ts := by
  match ts with
  | [] => rfl
  | t :: ts => rw [Tree.lopAll, Tree.writeAll, Tree.writeAll, Tree.write_lop, Tree.writeAll_lopAll]

end

namespace Document

variable {d : Document} {n : NodeId}

/-- Markup can say what a node is, whatever is below it. -/
def Sayable (d : Document) (n : NodeId) : Prop :=
  (∃ e, d.content? n = some (.element e) ∧ e.IsPlain) ∨ ∃ t, d.content? n = some (.text t)

mutual

/-- Markup can say a tree of such nodes, but for what is not written. -/
theorem Draws.isPlain_lop {d : Document} (hd : d.IsForest) {n : NodeId} {t : Tree Content}
    (h : d.Draws n t) (hsay : ∀ m, d.AtOrAbove n m → d.Sayable m) : t.lop.IsPlain := by
  match t with
  | .node c ts =>
    obtain ⟨hc, hts⟩ := h
    have hbelow := DrawsAll.arePlain_lop hd hts fun k hk m hkm ↦
      hsay m (.inr (hkm.above_of_child ((hd.linked n k).2 hk)))
    rw [Tree.lop]
    rcases hsay n (.inl rfl) with ⟨e, he, hplain⟩ | ⟨x, hx⟩
    · cases hc.symm.trans he
      refine ⟨hplain, fun hvoid ↦ if_pos hvoid, ?_⟩
      split
      · trivial
      · exact hbelow
    · cases hc.symm.trans hx
      rfl

theorem DrawsAll.arePlain_lop {d : Document} (hd : d.IsForest) {ns : List NodeId}
    {ts : List (Tree Content)} (h : d.DrawsAll ns ts)
    (hsay : ∀ n ∈ ns, ∀ m, d.AtOrAbove n m → d.Sayable m) : Tree.ArePlain (Tree.lopAll ts) := by
  match ts with
  | [] => trivial
  | t :: ts =>
    obtain ⟨n, rest, rfl, ht, hts⟩ := h
    exact ⟨Draws.isPlain_lop hd ht (hsay n List.mem_cons_self),
      DrawsAll.arePlain_lop hd hts fun k hk ↦ hsay k (List.mem_cons_of_mem _ hk)⟩

end

/-- The document has an outline. -/
def HasOutline (d : Document) (s : List (Tree (String × List (String × String)))) : Prop :=
  ∃ ts, d.Draws root (.node .document ts) ∧ Tree.outlineAll ts = s

/-- A document has one outline at most. -/
theorem HasOutline.unique {s s' : List (Tree (String × List (String × String)))}
    (h : d.HasOutline s) (h' : d.HasOutline s') : s = s' := by
  obtain ⟨ts, hts, rfl⟩ := h
  obtain ⟨ts', hts', rfl⟩ := h'
  cases hts.unique hts'
  rfl

/-- **Reading the inner markup of a node again finds the outline of what is written.** -/
theorem exists_parse_outline (hd : d.IsForest) {ts : List (Tree Content)}
    (h : d.DrawsAll (d.children n) ts) (hsay : ∀ m, d.Above n m → d.Sayable m) :
    ∃ e, parse (d.innerMarkup n) = .ok e ∧ e.HasOutline (Tree.outlineAll (Tree.lopAll ts)) := by
  have hplain := DrawsAll.arePlain_lop hd h fun k hk m hkm ↦
    hsay m (hkm.above_of_child ((hd.linked n k).2 hk))
  have hitems := Tree.items_writeAll "" _ hplain
  rw [(escapeText_eq_nil_iff "").2 rfl, List.nil_append, Tree.writeAll_lopAll] at hitems
  have hinner : d.innerMarkup n = String.ofList (Tree.writeAll ts) := by
    rw [innerMarkup, DrawsAll.flatMap_writePending h hd]
  rw [← String.toList_ofList (l := Tree.writeAll ts), ← hinner] at hitems
  obtain ⟨e, he, -, hdraws⟩ := exists_parse hitems
  exact ⟨e, he, _, hdraws, Tree.outlineAll_tidyAll "" _⟩

end Document

end DataBinding

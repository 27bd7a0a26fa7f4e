import DataBinding.Proofs.Document.Tree

/-!
# The markup of a tree

The writer of documents keeps a list of what is still to be written, and so much fuel as there are
steps.  Here markup is written by recursion on the tree instead (`Tree.write`).  **In a forest the
two agree** (`innerMarkup_eq`): a tree has no more nodes than the document, and each of them takes
two steps at most.
-/

set_option autoImplicit false

namespace DataBinding

mutual

/-- The markup of a tree. -/
def Tree.write : Tree Content → List Char
  | .node (.element e) ts =>
    Markup.openTag e ++ if Markup.isVoid e.tag then [] else Tree.writeAll ts ++
      Markup.closeTag e.tag
  | .node (.text t) _ => Markup.escapeText t
  | .node (.raw markup) _ => markup.toList
  | .node .document ts => Tree.writeAll ts
  | .node .fragment ts => Tree.writeAll ts

/-- The markup of trees that stand side by side. -/
def Tree.writeAll : List (Tree Content) → List Char
  | [] => []
  | t :: ts => t.write ++ Tree.writeAll ts

end

namespace Document

theorem writePending_nil (d : Document) (fuel : Nat) : d.writePending fuel [] = [] := by
  cases fuel <;> rfl

mutual

/-- A tree is written, and there is fuel left. -/
theorem Draws.writePending {d : Document} {n : NodeId} {t : Tree Content} (h : d.Draws n t)
    {fuel : Nat} (hfuel : 2 * t.size ≤ fuel) :
    ∃ left, fuel ≤ left + 2 * t.size ∧ ∀ pending,
      d.writePending fuel (.enter n :: pending) = t.write ++ d.writePending left pending := by
  match t with
  | .node c ts =>
    obtain ⟨hc, hts⟩ := h
    obtain ⟨node, hnode, rfl⟩ := Option.map_eq_some_iff.1 hc
    have hchildren : d.children n = node.children := by
      rw [children, hnode]
    rw [hchildren] at hts
    rw [Tree.size] at hfuel
    obtain ⟨fuel, rfl⟩ : ∃ k, fuel = k + 1 := ⟨fuel - 1, by omega⟩
    obtain ⟨left, hleft, hwrite⟩ :=
      DrawsAll.writePending hts (show 2 * Tree.sizeAll ts ≤ fuel by omega)
    have hsize : ∀ {k}, fuel ≤ k + 2 * Tree.sizeAll ts + 1 → fuel + 1 ≤ k + 2 * Tree.size (.node
        node.content ts) := fun hk ↦ by
      rw [Tree.size]
      omega
    cases hcontent : node.content with
    | document | fragment =>
      rw [hcontent] at hsize
      refine ⟨left, hsize (by omega), fun pending ↦ ?_⟩
      simp only [Document.writePending, hnode, hcontent, Tree.write]
      exact hwrite pending
    | text t =>
      rw [hcontent] at hsize
      refine ⟨fuel, hsize (by omega), fun pending ↦ ?_⟩
      simp only [Document.writePending, hnode, hcontent, Tree.write]
    | raw markup =>
      rw [hcontent] at hsize
      refine ⟨fuel, hsize (by omega), fun pending ↦ ?_⟩
      simp only [Document.writePending, hnode, hcontent, Tree.write]
    | element e =>
      rw [hcontent] at hsize
      cases hvoid : Markup.isVoid e.tag with
      | true =>
        refine ⟨fuel, hsize (by omega), fun pending ↦ ?_⟩
        simp only [Document.writePending, hnode, hcontent, Tree.write, hvoid, if_pos,
          List.append_nil]
      | false =>
        -- the closing tag takes one more step
        obtain ⟨left, rfl⟩ : ∃ k, left = k + 1 := ⟨left - 1, by omega⟩
        refine ⟨left, hsize (by omega), fun pending ↦ ?_⟩
        simp only [Document.writePending, hnode, hcontent, Tree.write, hvoid, Bool.false_eq_true,
          if_false, hwrite, List.append_assoc]

theorem DrawsAll.writePending {d : Document} {ns : List NodeId} {ts : List (Tree Content)}
    (h : d.DrawsAll ns ts) {fuel : Nat} (hfuel : 2 * Tree.sizeAll ts ≤ fuel) :
    ∃ left, fuel ≤ left + 2 * Tree.sizeAll ts ∧ ∀ pending,
      d.writePending fuel (ns.map .enter ++ pending) =
        Tree.writeAll ts ++ d.writePending left pending := by
  match ts with
  | [] =>
    cases h
    exact ⟨fuel, by omega, fun pending ↦ rfl⟩
  | t :: ts =>
    obtain ⟨n, rest, rfl, ht, hts⟩ := h
    rw [Tree.sizeAll] at hfuel
    obtain ⟨left, hleft, hwrite⟩ := Draws.writePending ht (show 2 * t.size ≤ fuel by omega)
    obtain ⟨left', hleft', hwrite'⟩ :=
      DrawsAll.writePending hts (show 2 * Tree.sizeAll ts ≤ left by omega)
    refine ⟨left', by rw [Tree.sizeAll]; omega, fun pending ↦ ?_⟩
    rw [List.map_cons, List.cons_append, hwrite, hwrite', Tree.writeAll, List.append_assoc]

end

/-- **A tree is written by recursion.** -/
theorem Draws.outerMarkup_eq {d : Document} {n : NodeId} {t : Tree Content} (h : d.Draws n t)
    (hd : d.IsForest) : d.outerMarkup n = String.ofList t.write := by
  have hsize := h.size_le hd
  obtain ⟨left, -, hwrite⟩ := h.writePending (show 2 * t.size ≤ d.writeFuel by
    rw [writeFuel]
    omega)
  rw [outerMarkup, hwrite, writePending_nil, List.append_nil]

theorem DrawsAll.flatMap_writePending {d : Document} {ns : List NodeId} {ts : List (Tree Content)}
    (h : d.DrawsAll ns ts) (hd : d.IsForest) :
    ns.flatMap (fun n ↦ d.writePending d.writeFuel [.enter n]) = Tree.writeAll ts := by
  induction ts generalizing ns with
  | nil =>
    cases h
    rfl
  | cons t ts ih =>
    obtain ⟨n, rest, rfl, ht, hts⟩ := h
    have houter := congrArg String.toList (Draws.outerMarkup_eq ht hd)
    rw [outerMarkup, String.toList_ofList, String.toList_ofList] at houter
    rw [List.flatMap_cons, houter, ih hts, Tree.writeAll]

/-- **So is what is inside of a node.** -/
theorem Draws.innerMarkup_eq {d : Document} {n : NodeId} {c : Content} {ts : List (Tree Content)}
    (h : d.Draws n (.node c ts)) (hd : d.IsForest) :
    d.innerMarkup n = String.ofList (Tree.writeAll ts) := by
  rw [innerMarkup, DrawsAll.flatMap_writePending h.2 hd]

end Document

end DataBinding

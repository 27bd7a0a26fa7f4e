import DataBinding.Proofs.Document.Forest

/-!
# Moving the children of a node

A template is compiled aside: the children of its root are moved into a fragment and, in the end,
back again.  In a forest nothing gets in the way of either move, and `Moved` says what is seen
afterwards.

`staged` puts it together: the fragment has the children that the root had, the root has none, and
**no node below the fragment is the root** (`Staged.not_above`), so whatever is done to the
children of nodes below the fragment does not meet the moving back.
-/

set_option autoImplicit false

namespace DataBinding.Document

variable {d e : Document} {a b x : NodeId}

/-- What is seen after nodes have become the last children of another one, in order. -/
structure Moved (d : Document) (parent : NodeId) (cs : List NodeId) (e : Document) : Prop where
  parent?_eq : ∀ i, e.parent? i = if i ∈ cs then some parent else d.parent? i
  children_eq : ∀ i, e.children i =
    (d.children i).filter (· ∉ cs) ++ if i = parent then cs else []
  content?_eq : ∀ i, e.content? i = d.content? i
  size_eq : e.nodes.size = d.nodes.size

/-- Nodes that are there, and that the new parent is not below, are moved. -/
theorem IsForest.appendAll_moved (hd : d.IsForest) {parent : NodeId} {cs : List NodeId}
    (hparent : parent < d.nodes.size) (hcs : ∀ c ∈ cs, c < d.nodes.size) (hnodup : cs.Nodup)
    (hcycle : ∀ c ∈ cs, ¬d.AtOrAbove c parent) : d.Moved parent cs (d.appendAll parent cs) := by
  induction cs generalizing d with
  | nil =>
    refine ⟨by simp [Document.appendAll], fun i ↦ ?_, fun _ ↦ rfl, rfl⟩
    rw [Document.appendAll, List.foldl_nil]
    simp
  | cons c cs ih =>
    rw [List.nodup_cons] at hnodup
    have hfirst := hd.append_appended hparent (hcs c (by simp)) (hcycle c (by simp))
    have hrest := ih (hd.append parent c) (by rwa [hfirst.size_eq])
      (fun c' hc' ↦ by rw [hfirst.size_eq]; exact hcs c' (by simp [hc'])) hnodup.2
      fun c' hc' hat ↦ ?_
    · refine ⟨fun i ↦ ?_, fun i ↦ ?_, fun i ↦ ?_, ?_⟩
      · rw [Document.appendAll, List.foldl_cons]
        refine (hrest.parent?_eq i).trans ?_
        rw [hfirst.parent?_eq]
        by_cases hi : i = c <;> by_cases hi' : i ∈ cs <;> simp [hi, hi']
      · rw [Document.appendAll, List.foldl_cons]
        refine (hrest.children_eq i).trans ?_
        rw [hfirst.children_eq, List.filter_append, List.filter_filter, List.append_assoc]
        have hfilter : (d.children i).filter (fun a ↦ decide (a ∉ cs) && a != c)
            = (d.children i).filter (· ∉ c :: cs) := by
          refine List.filter_congr fun a _ ↦ ?_
          by_cases hac : a = c <;> simp [hac]
        rw [hfilter]
        congr 1
        split
        · simp [hnodup.1]
        · rfl
      · exact (hrest.content?_eq i).trans (hfirst.content?_eq i)
      · exact hrest.size_eq.trans hfirst.size_eq
    · -- Moving the first node puts nothing above the new parent.
      rcases hat with heq | habove
      · exact hcycle c' (by simp [hc']) (.inl heq)
      · exact hcycle c' (by simp [hc'])
          (.inr (hfirst.above_of_above (hfirst.not_atOrAbove (hcycle c (by simp))) habove))

/-! ## Aside -/

section Staged

variable (d) (root : NodeId)

/-- What is seen of a document when the children of a node are staged.  The fragment is new. -/
structure Staged (e : Document) : Prop where
  parent?_eq : ∀ i, e.parent? i = if i ∈ d.children root then some d.nodes.size else d.parent? i
  children_eq : ∀ i, e.children i =
    if i = d.nodes.size then d.children root else if i = root then [] else d.children i
  content?_eq : ∀ i, i < d.nodes.size → e.content? i = d.content? i
  fragment : e.content? d.nodes.size = some .fragment
  size_eq : e.nodes.size = d.nodes.size + 1

variable {d root}

theorem IsForest.lt_size_of_mem_children (hd : d.IsForest) {p c : NodeId}
    (h : c ∈ d.children p) : c < d.nodes.size :=
  lt_size_of_parent? ((hd.linked p c).2 h)

theorem Above.lt_size (hd : d.IsForest) (h : d.Above a x) :
    a < d.nodes.size ∧ x < d.nodes.size := by
  refine ⟨?_, ?_⟩
  · obtain ⟨c, hc, -⟩ := h.exists_child
    exact Document.lt_size_of_mem_children ((hd.linked a c).1 hc)
  · obtain ⟨p, hp, -⟩ := above_iff.1 h
    exact lt_size_of_parent? hp

theorem IsForest.staged (hd : d.IsForest) (root : NodeId) : d.Staged root (d.stage root).2 := by
  have hpush := hd.push .fragment
  have hmoved : (d.push .fragment).2.Moved d.nodes.size (d.children root) (d.stage root).2 := by
    rw [stage]
    show (d.push .fragment).2.Moved d.nodes.size (d.children root)
      ((d.push .fragment).2.appendAll d.nodes.size ((d.push .fragment).2.children root))
    rw [children_push]
    refine hpush.appendAll_moved (by simp) (fun c hc ↦ ?_) (hd.nodup root) fun c hc hat ↦ ?_
    · rw [size_push]
      exact Nat.lt_succ_of_lt (hd.lt_size_of_mem_children hc)
    · rcases hat with rfl | habove
      · exact Nat.lt_irrefl _ (hd.lt_size_of_mem_children hc)
      · obtain ⟨p, hp, -⟩ := above_iff.1 habove
        rw [parent?_push] at hp
        exact Nat.lt_irrefl _ (lt_size_of_parent? hp)
  refine ⟨fun i ↦ ?_, fun i ↦ ?_, fun i hi ↦ ?_, ?_, ?_⟩
  · rw [hmoved.parent?_eq, parent?_push]
  · rw [hmoved.children_eq, children_push]
    by_cases hi : i = d.nodes.size
    · have hnone : d.children i = [] := children_of_size_le d (Nat.le_of_eq hi.symm)
      simp [hi, hi ▸ hnone]
    · rw [if_neg hi, if_neg hi, List.append_nil]
      by_cases hr : i = root
      · subst hr
        rw [if_pos rfl, List.filter_eq_nil_iff]
        simp
      · rw [if_neg hr, List.filter_eq_self]
        intro c hc
        have hne : c ∉ d.children root := by
          intro hmem
          have h := (hd.linked i c).2 hc
          rw [(hd.linked root c).2 hmem] at h
          exact hr (Option.some.inj h).symm
        simpa using hne
  · rw [hmoved.content?_eq, content?_push_of_lt d _ hi]
  · rw [hmoved.content?_eq, content?_push_size]
  · rw [hmoved.size_eq, size_push]

theorem IsForest.stage (hd : d.IsForest) (root : NodeId) : (d.stage root).2.IsForest :=
  hd.apply (.stage root)

theorem Staged.lt_size (h : d.Staged root e) {x : NodeId} (hx : x < d.nodes.size) :
    x < e.nodes.size :=
  Nat.lt_of_lt_of_eq (Nat.lt_succ_of_lt hx) h.size_eq.symm

theorem Staged.fragment_lt_size (h : d.Staged root e) : d.nodes.size < e.nodes.size :=
  Nat.lt_of_lt_of_eq (Nat.lt_succ_self _) h.size_eq.symm

/-- What is below the fragment was below the root. -/
theorem Staged.above_of_above (h : d.Staged root e) (hd : d.IsForest)
    (hx : e.Above d.nodes.size x) : d.Above root x := by
  induction hx with
  | @parent x hp =>
    rw [h.parent?_eq] at hp
    split at hp
    · rename_i hmem
      exact .parent ((hd.linked root x).2 hmem)
    · have hp' := (hd.linked _ x).1 hp
      exact absurd (Document.lt_size_of_mem_children hp') (Nat.lt_irrefl _)
  | @step x p hp hfrag ih =>
    rw [h.parent?_eq] at hp
    split at hp
    · rename_i hmem
      exact .parent ((hd.linked root x).2 hmem)
    · exact .step hp ih

/-- **The root is not below the fragment.** -/
theorem Staged.not_above (h : d.Staged root e) (hd : d.IsForest) :
    ¬e.Above d.nodes.size root :=
  fun habove ↦ hd.acyclic root (h.above_of_above hd habove)

end Staged

/-! ## Nodes that are not concerned -/

section Append

variable (d) (parent child : NodeId) (cs : List NodeId)

@[simp] theorem content?_append (i : NodeId) :
    (d.append parent child).content? i = d.content? i := by
  rw [append]
  split
  · rfl
  · rw [content?_modify (by simp), content?_modify (by simp), content?_detach]

@[simp] theorem size_append : (d.append parent child).nodes.size = d.nodes.size := by
  rw [append]
  split <;> simp

@[simp] theorem content?_appendAll (i : NodeId) :
    (d.appendAll parent cs).content? i = d.content? i :=
  foldl_kept (·.content? i) (fun _ _ ↦ content?_append _ _ _ i) ..

@[simp] theorem size_appendAll : (d.appendAll parent cs).nodes.size = d.nodes.size :=
  foldl_kept (·.nodes.size) (fun _ _ ↦ size_append ..) ..

variable {d parent child cs}

/-- A node keeps its children when others are moved to another node. -/
theorem children_append_of_ne {m : NodeId} (hm : m ≠ parent) (hc : child ∉ d.children m) :
    (d.append parent child).children m = d.children m := by
  rw [append]
  split
  · rfl
  · rw [children_eq, node?_modify, if_neg hm, ← children_eq, children_modify (by simp),
      children_detach]
    split
    · rw [List.filter_eq_self]
      intro x hx
      simpa using fun heq : x = child ↦ hc (heq ▸ hx)
    · rfl

theorem children_appendAll_of_ne {m : NodeId} (hm : m ≠ parent)
    (hcs : ∀ c ∈ cs, c ∉ d.children m) :
    (d.appendAll parent cs).children m = d.children m := by
  rw [appendAll]
  induction cs generalizing d with
  | nil => rfl
  | cons c cs ih =>
    have hfirst := children_append_of_ne hm (hcs c (by simp))
    rw [List.foldl_cons, ih fun c' hc' ↦ by rw [hfirst]; exact hcs c' (by simp [hc']), hfirst]

/-- Restoring changes the children of no other node. -/
theorem IsForest.children_restore (hd : d.IsForest) {staged root m : NodeId} (hstaged : m ≠ staged)
    (hroot : m ≠ root) : (d.restore staged root).children m = d.children m := by
  refine children_appendAll_of_ne hroot fun c hc hmem ↦ hstaged ?_
  have hparent := (hd.linked m c).2 hmem
  rw [(hd.linked staged c).2 hc] at hparent
  exact (Option.some.inj hparent).symm

end Append

end DataBinding.Document

import DataBinding.Proofs.Document.MovedChildren

/-!
# The tree below a node

A document is an array of nodes with links; a `Tree` is what one sees of it from a node downwards,
with neither numbers nor links.  `d.Draws n t` says that `t` is the tree at `n`.

`Grown d n ts e` says that `e` is `d` with new nodes that draw the trees `ts`, as the last children
of `n`, and otherwise as it was.  Growing twice is growing once (`Grown.trans`), and growing below a
new node is growing (`Grown.inside`); the parser does nothing else.
-/

set_option autoImplicit false

namespace DataBinding

/-- A node with trees below it. -/
inductive Tree (α : Type) where
  | node (label : α) (children : List (Tree α))

/-- The trees below the first node of a tree. -/
def Tree.branches {α : Type} : Tree α → List (Tree α)
  | .node _ ts => ts

mutual

/-- How many nodes there are in a tree. -/
def Tree.size {α : Type} : Tree α → Nat
  | .node _ ts => Tree.sizeAll ts + 1

/-- How many nodes there are in some trees. -/
def Tree.sizeAll {α : Type} : List (Tree α) → Nat
  | [] => 0
  | t :: ts => t.size + Tree.sizeAll ts

end

mutual

/-- A tree with other labels. -/
def Tree.map {α β : Type} (f : α → β) : Tree α → Tree β
  | .node a ts => .node (f a) (Tree.mapAll f ts)

/-- Trees with other labels. -/
def Tree.mapAll {α β : Type} (f : α → β) : List (Tree α) → List (Tree β)
  | [] => []
  | t :: ts => t.map f :: Tree.mapAll f ts

end

mutual

@[simp] theorem Tree.size_map {α β : Type} (f : α → β) (t : Tree α) : (t.map f).size = t.size := by
  match t with
  | .node a ts => rw [Tree.map, Tree.size, Tree.size, Tree.sizeAll_mapAll]

@[simp] theorem Tree.sizeAll_mapAll {α β : Type} (f : α → β) (ts : List (Tree α)) :
    Tree.sizeAll (Tree.mapAll f ts) = Tree.sizeAll ts := by
  match ts with
  | [] => rfl
  | t :: ts => rw [Tree.mapAll, Tree.sizeAll, Tree.sizeAll, Tree.size_map, Tree.sizeAll_mapAll]

end

namespace Document

section Labels

variable {α : Type}

mutual

/-- The tree at a node, given what is to be seen of each node. -/
def DrawsBy (d : Document) (label : NodeId → Option α) (n : NodeId) : Tree α → Prop
  | .node a ts => label n = some a ∧ d.DrawsAllBy label (d.children n) ts

/-- The trees at some nodes, one at each. -/
def DrawsAllBy (d : Document) (label : NodeId → Option α) : List NodeId → List (Tree α) → Prop
  | ns, [] => ns = []
  | ns, t :: ts => ∃ n rest, ns = n :: rest ∧ d.DrawsBy label n t ∧ d.DrawsAllBy label rest ts

end

mutual

/-- **There is one tree at a node.** -/
theorem DrawsBy.unique {d : Document} {label : NodeId → Option α} {n : NodeId} {t u : Tree α}
    (h : d.DrawsBy label n t) (h' : d.DrawsBy label n u) : t = u := by
  match t, u with
  | .node a ts, .node b us =>
    obtain ⟨ha, hts⟩ := h
    obtain ⟨hb, hus⟩ := h'
    cases ha.symm.trans hb
    rw [DrawsAllBy.unique hts hus]

theorem DrawsAllBy.unique {d : Document} {label : NodeId → Option α} {ns : List NodeId}
    {ts us : List (Tree α)} (h : d.DrawsAllBy label ns ts) (h' : d.DrawsAllBy label ns us) :
    ts = us := by
  match ts, us with
  | [], [] => rfl
  | t :: ts, u :: us =>
    obtain ⟨n, rest, rfl, ht, hts⟩ := h
    obtain ⟨n', rest', heq, hu, hus⟩ := h'
    cases heq
    rw [DrawsBy.unique ht hu, DrawsAllBy.unique hts hus]
  | [], u :: us =>
    obtain ⟨n, rest, rfl, -⟩ := h'
    cases h
  | t :: ts, [] =>
    obtain ⟨n, rest, rfl, -⟩ := h
    cases h'

end

mutual

/-- A tree stays if nothing that is drawn in it changes.  What is drawn is told by a property of
nodes that children inherit. -/
theorem DrawsBy.congr {d e : Document} {label label' : NodeId → Option α} {P : NodeId → Prop}
    (hP : ∀ m, P m → ∀ k ∈ d.children m, P k)
    (hsame : ∀ m a, P m → label m = some a → label' m = some a ∧ e.children m = d.children m)
    {n : NodeId} {t : Tree α} (hn : P n) (h : d.DrawsBy label n t) : e.DrawsBy label' n t := by
  match t with
  | .node a ts =>
    obtain ⟨ha, hts⟩ := h
    obtain ⟨ha', hchildren⟩ := hsame n a hn ha
    exact ⟨ha', hchildren ▸ DrawsAllBy.congr hP hsame (hP n hn) hts⟩

theorem DrawsAllBy.congr {d e : Document} {label label' : NodeId → Option α} {P : NodeId → Prop}
    (hP : ∀ m, P m → ∀ k ∈ d.children m, P k)
    (hsame : ∀ m a, P m → label m = some a → label' m = some a ∧ e.children m = d.children m)
    {ns : List NodeId} {ts : List (Tree α)} (hns : ∀ n ∈ ns, P n) (h : d.DrawsAllBy label ns ts) :
    e.DrawsAllBy label' ns ts := by
  match ts with
  | [] => exact h
  | t :: ts =>
    obtain ⟨n, rest, rfl, ht, hts⟩ := h
    exact ⟨n, rest, rfl, DrawsBy.congr hP hsame (hns n (by simp)) ht,
      DrawsAllBy.congr hP hsame (fun m hm ↦ hns m (by simp [hm])) hts⟩

end

mutual

theorem DrawsBy.map {β : Type} {d : Document} {label : NodeId → Option α} {n : NodeId} {t : Tree α}
    (h : d.DrawsBy label n t) (f : α → β) : d.DrawsBy (fun m ↦ (label m).map f) n (t.map f) := by
  match t with
  | .node a ts =>
    obtain ⟨ha, hts⟩ := h
    exact ⟨congrArg (Option.map f) ha, DrawsAllBy.map hts f⟩

theorem DrawsAllBy.map {β : Type} {d : Document} {label : NodeId → Option α} {ns : List NodeId}
    {ts : List (Tree α)} (h : d.DrawsAllBy label ns ts) (f : α → β) :
    d.DrawsAllBy (fun m ↦ (label m).map f) ns (Tree.mapAll f ts) := by
  match ts with
  | [] => exact h
  | t :: ts =>
    obtain ⟨n, rest, rfl, ht, hts⟩ := h
    exact ⟨n, rest, rfl, DrawsBy.map ht f, DrawsAllBy.map hts f⟩

end

/-- Nodes at which there are trees have labels. -/
theorem DrawsAllBy.exists_label {d : Document} {label : NodeId → Option α} {ns : List NodeId}
    {ts : List (Tree α)} (h : d.DrawsAllBy label ns ts) {m : NodeId} (hm : m ∈ ns) :
    ∃ a, label m = some a := by
  induction ts generalizing ns with
  | nil =>
    cases h
    cases hm
  | cons t ts ih =>
    obtain ⟨n, rest, rfl, ht, hts⟩ := h
    rcases List.mem_cons.1 hm with rfl | hm
    · match t with
      | .node a us => exact ⟨a, ht.1⟩
    · exact ih hts hm

/-- Nodes at each of which there is a tree. -/
theorem exists_drawsAllBy {d : Document} {label : NodeId → Option α} {ns : List NodeId}
    (h : ∀ n ∈ ns, ∃ t, d.DrawsBy label n t) : ∃ ts, d.DrawsAllBy label ns ts := by
  induction ns with
  | nil => exact ⟨[], rfl⟩
  | cons n ns ih =>
    obtain ⟨t, ht⟩ := h n (by simp)
    obtain ⟨ts, hts⟩ := ih fun m hm ↦ h m (by simp [hm])
    exact ⟨t :: ts, n, ns, rfl, ht, hts⟩

/-- **In a forest there is a tree at every node**: the paths down from it are of bounded length. -/
theorem IsForest.exists_drawsBy {d : Document} (hd : d.IsForest) {label : NodeId → Option α}
    (hlabel : ∀ m < d.nodes.size, ∃ a, label m = some a) {n : NodeId} (hn : n < d.nodes.size) :
    ∃ t, d.DrawsBy label n t := by
  have hbounded : ∀ bound m, m < d.nodes.size →
      (∀ x way, d.Path m x way → way.length ≤ bound) → ∃ t, d.DrawsBy label m t := by
    intro bound
    induction bound with
    | zero => exact fun m _ hpaths ↦ absurd (hpaths m [m] .here) (by simp)
    | succ bound ih =>
      intro m hm hpaths
      obtain ⟨a, ha⟩ := hlabel m hm
      obtain ⟨ts, hts⟩ : ∃ ts, d.DrawsAllBy label (d.children m) ts := by
        refine exists_drawsAllBy fun c hc ↦ ih c (hd.lt_size_of_mem_children hc) fun x way hway ↦ ?_
        have hlonger := hpaths x _ (hway.concat ((hd.linked m c).2 hc))
        rw [List.length_append, List.length_singleton] at hlonger
        exact Nat.le_of_succ_le_succ hlonger
      exact ⟨.node a ts, ha, hts⟩
  exact hbounded (d.nodes.size + 1) n hn fun x way hway ↦ hway.length_le hd

end Labels

/-- The tree at a node. -/
abbrev Draws (d : Document) (n : NodeId) (t : Tree Content) : Prop := d.DrawsBy d.content? n t

/-- The trees at some nodes, one at each. -/
abbrev DrawsAll (d : Document) (ns : List NodeId) (ts : List (Tree Content)) : Prop :=
  d.DrawsAllBy d.content? ns ts

/-- The tree at a node, with the numbers of the nodes. -/
abbrev Shows (d : Document) (n : NodeId) (t : Tree (NodeId × Content)) : Prop :=
  d.DrawsBy (fun m ↦ (d.content? m).map (m, ·)) n t

/-- The trees at some nodes, one at each, with the numbers of the nodes. -/
abbrev ShowsAll (d : Document) (ns : List NodeId) (ts : List (Tree (NodeId × Content))) : Prop :=
  d.DrawsAllBy (fun m ↦ (d.content? m).map (m, ·)) ns ts

variable {d e f : Document} {n : NodeId} {ns : List NodeId} {t : Tree Content}
  {ts us : List (Tree Content)} {c : Content}

/-- What a tree with numbers says of the node at its root. -/
theorem shows_node {m : NodeId} {us : List (Tree (NodeId × Content))}
    (h : d.Shows n (.node (m, c) us)) :
    n = m ∧ d.content? n = some c ∧ d.ShowsAll (d.children n) us := by
  obtain ⟨hlabel, hus⟩ := h
  obtain ⟨b, hb, heq⟩ := Option.map_eq_some_iff.1 hlabel
  cases heq
  exact ⟨rfl, hb, hus⟩

theorem drawsAll_append {ms : List NodeId} (h : d.DrawsAll ns ts) (h' : d.DrawsAll ms us) :
    d.DrawsAll (ns ++ ms) (ts ++ us) := by
  induction ts generalizing ns with
  | nil =>
    cases h
    exact h'
  | cons t ts ih =>
    obtain ⟨n, rest, rfl, ht, hrest⟩ := h
    exact ⟨n, rest ++ ms, rfl, ht, ih hrest⟩

mutual

/-- **A tree has no more nodes than there are**: they are all different. -/
theorem Draws.exists_nodes {d : Document} (hd : d.IsForest) {n : NodeId} {t : Tree Content}
    (h : d.Draws n t) :
    ∃ l : List NodeId, l.Nodup ∧ l.length = t.size ∧
      ∀ m ∈ l, m < d.nodes.size ∧ d.AtOrAbove n m := by
  match t with
  | .node c ts =>
    obtain ⟨hc, hts⟩ := h
    obtain ⟨l, hnodup, hlength, hl⟩ := DrawsAll.exists_nodes hd (hd.children_apart n) hts
    have habove : ∀ m ∈ l, d.Above n m := by
      intro m hm
      obtain ⟨-, k, hk, hkm⟩ := hl m hm
      exact hkm.above_of_child ((hd.linked n k).2 hk)
    refine ⟨n :: l, List.nodup_cons.2 ⟨fun hn ↦ hd.acyclic n (habove n hn), hnodup⟩, ?_, ?_⟩
    · rw [List.length_cons, hlength, Tree.size]
    · intro m hm
      rcases List.mem_cons.1 hm with rfl | hm
      · exact ⟨lt_size_of_content? hc, .inl rfl⟩
      · exact ⟨(hl m hm).1, .inr (habove m hm)⟩

theorem DrawsAll.exists_nodes {d : Document} (hd : d.IsForest) {ns : List NodeId}
    {ts : List (Tree Content)} (hapart : d.Apart ns) (h : d.DrawsAll ns ts) :
    ∃ l : List NodeId, l.Nodup ∧ l.length = Tree.sizeAll ts ∧
      ∀ m ∈ l, m < d.nodes.size ∧ ∃ n ∈ ns, d.AtOrAbove n m := by
  match ts with
  | [] => exact ⟨[], List.nodup_nil, rfl, by simp⟩
  | t :: ts =>
    obtain ⟨n, rest, rfl, ht, hts⟩ := h
    obtain ⟨hfirst, hrest⟩ := List.pairwise_cons.1 hapart
    obtain ⟨l, hnodup, hlength, hl⟩ := Draws.exists_nodes hd ht
    obtain ⟨l', hnodup', hlength', hl'⟩ := DrawsAll.exists_nodes hd hrest hts
    refine ⟨l ++ l', List.nodup_append.2 ⟨hnodup, hnodup', ?_⟩, ?_, ?_⟩
    · rintro m hm _ hm' rfl
      obtain ⟨-, k, hk, hkm⟩ := hl' m hm'
      exact hfirst k hk m (hl m hm).2 hkm
    · rw [List.length_append, hlength, hlength', Tree.sizeAll]
    · intro m hm
      rcases List.mem_append.1 hm with hm | hm
      · exact ⟨(hl m hm).1, n, by simp, (hl m hm).2⟩
      · obtain ⟨hlt, k, hk, hkm⟩ := hl' m hm
        exact ⟨hlt, k, by simp [hk], hkm⟩

end

theorem Draws.size_le (h : d.Draws n t) (hd : d.IsForest) : t.size ≤ d.nodes.size := by
  obtain ⟨l, hnodup, hlength, hl⟩ := h.exists_nodes hd
  rw [← hlength, ← List.length_range (n := d.nodes.size)]
  exact (hnodup.subperm fun m hm ↦ List.mem_range.2 (hl m hm).1).length_le

/-! ## Growing -/

/-- New nodes that draw some trees, as the last children of a node. -/
structure Grown (d : Document) (n : NodeId) (ts : List (Tree Content)) (e : Document) : Prop where
  exists_children : ∃ ns, e.children n = d.children n ++ ns ∧ (∀ m ∈ ns, d.nodes.size ≤ m) ∧
    e.DrawsAll ns ts
  children_eq : ∀ m < d.nodes.size, m ≠ n → e.children m = d.children m
  content?_eq : ∀ m < d.nodes.size, e.content? m = d.content? m
  size_le : d.nodes.size ≤ e.nodes.size
  /-- Below a new node there are only new nodes. -/
  fresh : ∀ m, d.nodes.size ≤ m → ∀ k ∈ e.children m, d.nodes.size ≤ k

namespace Grown

theorem refl (d : Document) (n : NodeId) : d.Grown n [] d where
  exists_children := ⟨[], by simp, by simp, rfl⟩
  children_eq _ _ _ := rfl
  content?_eq _ _ := rfl
  size_le := Nat.le_refl _
  fresh m hm k hk := absurd (lt_size_of_mem_children hk) (Nat.not_lt_of_le hm)

/-- **Growing twice.** -/
theorem trans (h : d.Grown n ts e) (h' : e.Grown n us f) (hn : n < d.nodes.size) :
    d.Grown n (ts ++ us) f where
  exists_children := by
    obtain ⟨ns, hns, hnew, hts⟩ := h.exists_children
    obtain ⟨ms, hms, hnew', hus⟩ := h'.exists_children
    refine ⟨ns ++ ms, by rw [hms, hns, List.append_assoc], fun m hm ↦ ?_, drawsAll_append ?_ hus⟩
    · rcases List.mem_append.1 hm with hm | hm
      · exact hnew m hm
      · exact Nat.le_trans h.size_le (hnew' m hm)
    · -- the first trees consist of nodes that are new and not the one that grows
      refine DrawsAllBy.congr (P := fun m ↦ d.nodes.size ≤ m) (fun m hm ↦ h.fresh m hm)
        (fun m c hm hc ↦ ?_) hnew hts
      have hlt : m < e.nodes.size := lt_size_of_content? hc
      exact ⟨(h'.content?_eq m hlt).trans hc,
        h'.children_eq m hlt (Nat.ne_of_gt (Nat.lt_of_lt_of_le hn hm))⟩
  children_eq m hm hne := by
    rw [h'.children_eq m (Nat.lt_of_lt_of_le hm h.size_le) hne, h.children_eq m hm hne]
  content?_eq m hm := by
    rw [h'.content?_eq m (Nat.lt_of_lt_of_le hm h.size_le), h.content?_eq m hm]
  size_le := Nat.le_trans h.size_le h'.size_le
  fresh m hm k hk := by
    by_cases hlt : m < e.nodes.size
    · rw [h'.children_eq m hlt (Nat.ne_of_gt (Nat.lt_of_lt_of_le hn hm))] at hk
      exact h.fresh m hm k hk
    · exact Nat.le_trans h.size_le (h'.fresh m (Nat.le_of_not_lt hlt) k hk)

/-- A new node is above nothing. -/
theorem not_atOrAbove_size (hd : d.IsForest) (hn : n < d.nodes.size) (c : Content) :
    ¬(d.push c).2.AtOrAbove d.nodes.size n := by
  rintro (rfl | habove)
  · exact absurd hn (Nat.lt_irrefl _)
  · obtain ⟨k, hk, -⟩ := habove.exists_child
    rw [parent?_push, hd.linked] at hk
    exact absurd (lt_size_of_mem_children hk) (Nat.lt_irrefl _)

/-- What is seen after a new node has become the last child of another one. -/
theorem appended (hd : d.IsForest) (hn : n < d.nodes.size) (c : Content) :
    (d.push c).2.Appended n d.nodes.size ((d.push c).2.append n d.nodes.size) :=
  (hd.push c).append_appended (by simpa using Nat.lt_succ_of_lt hn) (by simp)
    (not_atOrAbove_size hd hn c)

/-- A new node is nobody's child yet. -/
theorem children_appended (hd : d.IsForest) (hn : n < d.nodes.size) (c : Content) (m : NodeId) :
    ((d.push c).2.append n d.nodes.size).children m =
      d.children m ++ if m = n then [d.nodes.size] else [] := by
  rw [(appended hd hn c).children_eq, children_push, List.filter_eq_self.2]
  intro k hk
  rw [bne_iff_ne]
  exact Nat.ne_of_lt (hd.lt_size_of_mem_children hk)

/-- **A new node without children.** -/
theorem leaf (hd : d.IsForest) (hn : n < d.nodes.size) (c : Content) :
    d.Grown n [.node c []] ((d.push c).2.append n d.nodes.size) := by
  have happended := appended hd hn c
  have hchildren := children_appended hd hn c
  have hnew : d.children d.nodes.size = [] := by
    rw [children, node?_eq_none d (Nat.le_refl _)]
  have hsize : ((d.push c).2.append n d.nodes.size).nodes.size = d.nodes.size + 1 := by
    rw [happended.size_eq, size_push]
  refine ⟨⟨[d.nodes.size], by rw [hchildren, if_pos rfl], by simp,
    ⟨d.nodes.size, [], rfl, ⟨?_, ?_⟩, rfl⟩⟩, fun m _ hne ↦ ?_, fun m hm ↦ ?_, by omega,
    fun m hm k hk ↦ ?_⟩
  · rw [happended.content?_eq, content?_push_size]
  · rw [hchildren, hnew, if_neg (Nat.ne_of_gt hn)]
    rfl
  · rw [hchildren, if_neg hne, List.append_nil]
  · rw [happended.content?_eq, content?_push_of_lt d c hm]
  · rw [hchildren, if_neg (Nat.ne_of_gt (Nat.lt_of_lt_of_le hn hm)), List.append_nil] at hk
    exact absurd (lt_size_of_mem_children hk) (Nat.not_lt_of_le hm)

/-- **A new node that grows.** -/
theorem inside (hd : d.IsForest) (hn : n < d.nodes.size) {c : Content}
    (h : ((d.push c).2.append n d.nodes.size).Grown d.nodes.size ts e) :
    d.Grown n [.node c ts] e := by
  have hleaf := leaf hd hn c
  have hsize : ((d.push c).2.append n d.nodes.size).nodes.size = d.nodes.size + 1 := by
    rw [(appended hd hn c).size_eq, size_push]
  have hchildren := children_appended hd hn c
  have hnew : d.children d.nodes.size = [] := by
    rw [children, node?_eq_none d (Nat.le_refl _)]
  obtain ⟨ns, hns, hfresh, hts⟩ := h.exists_children
  rw [hchildren, hnew, if_neg (Nat.ne_of_gt hn), List.nil_append, List.nil_append] at hns
  have hlt : ∀ {m}, m ≤ d.nodes.size → m < ((d.push c).2.append n d.nodes.size).nodes.size :=
    fun hm ↦ hsize ▸ Nat.lt_succ_of_le hm
  refine ⟨⟨[d.nodes.size], ?_, by simp, ⟨d.nodes.size, [], rfl, ⟨?_, hns ▸ hts⟩, rfl⟩⟩,
    fun m hm hne ↦ ?_, fun m hm ↦ ?_, Nat.le_trans hleaf.size_le h.size_le, fun m hm k hk ↦ ?_⟩
  · rw [h.children_eq n (hlt (Nat.le_of_lt hn)) (Nat.ne_of_lt hn), hchildren, if_pos rfl]
  · rw [h.content?_eq _ (hlt (Nat.le_refl _)), (appended hd hn c).content?_eq, content?_push_size]
  · rw [h.children_eq m (hlt (Nat.le_of_lt hm)) (Nat.ne_of_lt hm), hleaf.children_eq m hm hne]
  · rw [h.content?_eq m (hlt (Nat.le_of_lt hm)), hleaf.content?_eq m hm]
  · rcases Nat.eq_or_lt_of_le hm with rfl | hm
    · rw [hns] at hk
      exact Nat.le_trans hleaf.size_le (hfresh k hk)
    · exact Nat.le_trans hleaf.size_le (h.fresh m (by rw [hsize]; exact hm) k hk)

end Grown

end Document

end DataBinding

import DataBinding.Proofs.Document.Operations
import Mathlib.Data.List.Pairwise
import Mathlib.Data.List.Perm.Subperm

/-!
# Documents are forests

`IsForest` says that the two kinds of links agree, that no node is a child twice, and that **no node
is above itself**.  It holds of the empty document, and every step of an operation keeps it: most of
them only take links away, and `append`, the one that adds a link, refuses to close a circle.

That refusal is the heart of it.  `append` climbs from the new parent towards the root with a
bounded number of steps, and the bound is enough: in a forest a path upwards meets no node twice, so
it is no longer than there are nodes (`isInclusiveAncestor_iff`).
-/

set_option autoImplicit false

namespace DataBinding.Document

/-- The first node is above the second one. -/
inductive Above (d : Document) (a : NodeId) : NodeId → Prop
  | parent {x : NodeId} (h : d.parent? x = some a) : Above d a x
  | step {x p : NodeId} (h : d.parent? x = some p) (hp : Above d a p) : Above d a x

/-- The first node is the second one or above it. -/
def AtOrAbove (d : Document) (a x : NodeId) : Prop := a = x ∨ d.Above a x

/-- The links of a document make its nodes a forest. -/
structure IsForest (d : Document) : Prop where
  /-- A node knows its children and its children know it. -/
  linked : ∀ p c, d.parent? c = some p ↔ c ∈ d.children p
  nodup : ∀ p, (d.children p).Nodup
  acyclic : ∀ n, ¬d.Above n n

variable {d e : Document} {a b x : NodeId}

/-! ## Above -/

theorem Above.trans (hab : d.Above a b) (hbx : d.Above b x) : d.Above a x := by
  induction hbx with
  | parent h => exact .step h hab
  | step h _ ih => exact .step h ih

theorem AtOrAbove.above_of_parent {p : NodeId} (hab : d.AtOrAbove a p)
    (h : d.parent? x = some p) : d.Above a x := by
  rcases hab with rfl | hab
  · exact .parent h
  · exact .step h hab

theorem above_iff : d.Above a x ↔ ∃ p, d.parent? x = some p ∧ d.AtOrAbove a p := by
  constructor
  · rintro (h | ⟨h, hp⟩)
    · exact ⟨a, h, .inl rfl⟩
    · exact ⟨_, h, .inr hp⟩
  · rintro ⟨p, h, hp⟩
    exact hp.above_of_parent h

theorem AtOrAbove.trans (hab : d.AtOrAbove a b) (hbx : d.AtOrAbove b x) : d.AtOrAbove a x := by
  rcases hab with rfl | hab
  · exact hbx
  · rcases hbx with rfl | hbx
    · exact .inr hab
    · exact .inr (hab.trans hbx)

theorem AtOrAbove.above_of_child {c : NodeId} (hcx : d.AtOrAbove c x) (h : d.parent? c = some a) :
    d.Above a x := by
  rcases hcx with rfl | hcx
  · exact .parent h
  · exact (Above.parent h).trans hcx

/-- Of two nodes above a third one, one is above the other. -/
theorem AtOrAbove.total (ha : d.AtOrAbove a x) (hb : d.AtOrAbove b x) :
    d.AtOrAbove a b ∨ d.AtOrAbove b a := by
  rcases ha with rfl | ha
  · exact .inr hb
  · induction ha with
    | parent h =>
      rcases hb with rfl | hb
      · exact .inl (.inr (.parent h))
      · obtain ⟨p, hp, hbp⟩ := above_iff.1 hb
        rw [h] at hp
        cases hp
        exact .inr hbp
    | step h hp ih =>
      rcases hb with rfl | hb
      · exact .inl (.inr (.step h hp))
      · obtain ⟨q, hq, hbq⟩ := above_iff.1 hb
        rw [h] at hq
        cases hq
        exact ih hbq

/-- A node above another one has a child that is at or above that one. -/
theorem Above.exists_child (h : d.Above a x) : ∃ c, d.parent? c = some a ∧ d.AtOrAbove c x := by
  induction h with
  | parent h => exact ⟨_, h, .inl rfl⟩
  | step h _ ih =>
    obtain ⟨c, hc, hcx⟩ := ih
    exact ⟨c, hc, .inr (hcx.above_of_parent h)⟩

/-- Links that stay the same above a node keep what is above it. -/
theorem Above.of_parents (h : d.Above a x)
    (hsame : ∀ y, d.AtOrAbove y x → e.parent? y = d.parent? y) : e.Above a x := by
  induction h with
  | parent h => exact .parent ((hsame _ (.inl rfl)).trans h)
  | step h _ ih =>
    refine .step ((hsame _ (.inl rfl)).trans h) (ih fun y hy ↦ hsame y ?_)
    exact .inr (hy.above_of_parent h)

namespace IsForest

theorem empty : Document.empty.IsForest := by
  have hparent : ∀ i, Document.empty.parent? i = none := by
    intro i
    cases i <;> rfl
  have hchildren : ∀ i, Document.empty.children i = [] := by
    intro i
    cases i <;> rfl
  refine ⟨fun p c ↦ by simp [hparent, hchildren], fun p ↦ by simp [hchildren], fun n hn ↦ ?_⟩
  obtain ⟨p, hp, -⟩ := above_iff.1 hn
  rw [hparent] at hp
  cases hp

/-- Only the links matter. -/
theorem of_links (h : d.IsForest) (hparent : ∀ i, e.parent? i = d.parent? i)
    (hchildren : ∀ i, e.children i = d.children i) : e.IsForest where
  linked p c := by rw [hparent, hchildren, h.linked]
  nodup p := by rw [hchildren]; exact h.nodup p
  acyclic n hn := h.acyclic n (hn.of_parents fun y _ ↦ (hparent y).symm)

/-- Taking some nodes away from their parents leaves a forest. -/
theorem of_unlinked (h : d.IsForest) (gone : NodeId → Prop) [DecidablePred gone]
    (hparent : ∀ i, e.parent? i = if gone i then none else d.parent? i)
    (hchildren : ∀ p, (e.children p).Sublist (d.children p))
    (hleft : ∀ p c, c ∈ d.children p → (c ∈ e.children p ↔ ¬gone c)) : e.IsForest where
  linked p c := by
    rw [hparent]
    by_cases hc : c ∈ d.children p
    · rw [hleft p c hc, (h.linked p c).2 hc]
      by_cases hg : gone c <;> simp [hg]
    · have hc' : c ∉ e.children p := fun hmem ↦ hc ((hchildren p).subset hmem)
      have hp : d.parent? c ≠ some p := fun hp ↦ hc ((h.linked p c).1 hp)
      by_cases hg : gone c <;> simp [hg, hc', hp]
  nodup p := (h.nodup p).sublist (hchildren p)
  acyclic n hn := by
    have hold : ∀ a x, e.Above a x → d.Above a x := by
      intro a x hax
      induction hax with
      | parent hp =>
        rw [hparent] at hp
        split at hp
        · cases hp
        · exact .parent hp
      | step hp _ ih =>
        rw [hparent] at hp
        split at hp
        · cases hp
        · exact .step hp ih
    exact h.acyclic n (hold n n hn)

theorem setContent (h : d.IsForest) (id : NodeId) (c : Content) : (d.setContent id c).IsForest :=
  h.of_links (by simp) (by simp)

theorem push (h : d.IsForest) (c : Content) : (d.push c).2.IsForest :=
  h.of_links (by simp) (by simp)

theorem detach (h : d.IsForest) (id : NodeId) : (d.detach id).IsForest := by
  refine h.of_unlinked (· = id) (fun i ↦ parent?_detach d id i) (fun p ↦ ?_) fun p c hc ↦ ?_
  · rw [children_detach]
    split
    · exact List.filter_sublist
    · exact List.Sublist.refl _
  · rw [children_detach]
    split
    · simp [List.mem_filter, hc]
    · rename_i hp
      have hne : c ≠ id := by
        rintro rfl
        exact hp ((h.linked p c).2 hc)
      simp [hc, hne]

theorem clearChildren (h : d.IsForest) (id : NodeId) : (d.clearChildren id).IsForest := by
  refine h.of_unlinked (· ∈ d.children id) (fun i ↦ parent?_clearChildren d id i) (fun p ↦ ?_)
    fun p c hc ↦ ?_
  · rw [children_clearChildren]
    split
    · exact List.nil_sublist _
    · exact List.Sublist.refl _
  · rw [children_clearChildren]
    by_cases hp : p = id
    · subst hp
      simp [hc]
    · have hc' : c ∉ d.children id := by
        intro hmem
        have := (h.linked p c).2 hc
        rw [(h.linked id c).2 hmem] at this
        exact hp (Option.some.inj this).symm
      simp [hp, hc, hc']

end IsForest

/-- Nothing is below two of the nodes. -/
def Apart (d : Document) (ns : List NodeId) : Prop :=
  ns.Pairwise fun n m ↦ ∀ x, d.AtOrAbove n x → ¬d.AtOrAbove m x

/-- Siblings are apart. -/
theorem IsForest.children_apart (hd : d.IsForest) (n : NodeId) : d.Apart (d.children n) := by
  refine (hd.nodup n).imp_of_mem fun {a b} ha hb hne x hax hbx ↦ ?_
  have hpa := (hd.linked n a).2 ha
  have hpb := (hd.linked n b).2 hb
  -- One of them is above the other, so their parent is above itself.
  have hcircle : ∀ {y z : NodeId}, d.parent? y = some n → d.parent? z = some n → y ≠ z →
      d.AtOrAbove y z → False := by
    intro y z hy hz hyz hat
    rcases hat with rfl | habove
    · exact hyz rfl
    · obtain ⟨p, hp, hyp⟩ := above_iff.1 habove
      rw [hz] at hp
      cases hp
      rcases hyp with rfl | h
      · exact hd.acyclic _ (.parent hy)
      · exact hd.acyclic n ((Above.parent hy).trans h)
  rcases hax.total hbx with h | h
  · exact hcircle hpa hpb hne h
  · exact hcircle hpb hpa (Ne.symm hne) h

/-- A node has one child at most that is at or above a given node. -/
theorem IsForest.child_unique (hd : d.IsForest) {n k m : NodeId} (hk : k ∈ d.children n)
    (hm : m ∈ d.children n) (hkx : d.AtOrAbove k x) (hmx : d.AtOrAbove m x) : k = m := by
  have : Std.Symm fun n m ↦ ∀ x, d.AtOrAbove n x → ¬d.AtOrAbove m x :=
    ⟨fun _ _ h y hy hy' ↦ h y hy' hy⟩
  by_contra hne
  exact (hd.children_apart n).forall hk hm hne x hkx hmx

/-! ## Climbing -/

/-- Climbing meets only what is above. -/
theorem atOrAbove_of_climbsTo {fuel : Nat} (h : d.climbsTo a fuel x = true) :
    d.AtOrAbove a x := by
  induction fuel generalizing x with
  | zero => cases h
  | succ fuel ih =>
    rw [climbsTo] at h
    split at h
    · rename_i hx
      exact .inl hx.symm
    · cases hp : d.parent? x with
      | none => simp [hp] at h
      | some p =>
        rw [hp] at h
        exact .inr ((ih h).above_of_parent hp)

/-- A path upwards from `x` to `a`, with the nodes on the way. -/
inductive Path (d : Document) (a : NodeId) : NodeId → List NodeId → Prop
  | here : Path d a a [a]
  | up {x p : NodeId} {way : List NodeId} (h : d.parent? x = some p) (hp : Path d a p way) :
      Path d a x (x :: way)

theorem AtOrAbove.exists_path (h : d.AtOrAbove a x) : ∃ way, d.Path a x way := by
  rcases h with rfl | h
  · exact ⟨_, .here⟩
  · induction h with
    | parent h => exact ⟨_, .up h .here⟩
    | step h _ ih =>
      obtain ⟨way, hway⟩ := ih
      exact ⟨_, .up h hway⟩

/-- A path may start one node higher. -/
theorem Path.concat {b : NodeId} {way : List NodeId} (h : d.Path a x way)
    (hb : d.parent? a = some b) :
    d.Path b x (way ++ [b]) := by
  induction h with
  | here => exact .up hb .here
  | up h _ ih => exact .up h ih

theorem Path.climbsTo {way : List NodeId} (h : d.Path a x way) {fuel : Nat}
    (hfuel : way.length ≤ fuel) : d.climbsTo a fuel x = true := by
  induction h generalizing fuel with
  | here =>
    cases fuel with
    | zero => simp at hfuel
    | succ fuel => simp [Document.climbsTo]
  | up h _ ih =>
    cases fuel with
    | zero => simp at hfuel
    | succ fuel =>
      rw [Document.climbsTo]
      split
      · rfl
      · rw [h]
        exact ih (by simpa using hfuel)

theorem Path.atOrAbove {way : List NodeId} (h : d.Path a x way) {y : NodeId} (hy : y ∈ way) :
    d.AtOrAbove y x := by
  induction h with
  | here => exact .inl (by simpa using hy)
  | up h _ ih =>
    rcases List.mem_cons.1 hy with rfl | hy
    · exact .inl rfl
    · exact .inr ((ih hy).above_of_parent h)

/-- A path upwards meets no node twice, so it is no longer than there are nodes. -/
theorem Path.length_le {way : List NodeId} (h : d.Path a x way) (hd : d.IsForest) :
    way.length ≤ d.nodes.size + 1 := by
  have hnodup : way.Nodup := by
    induction h with
    | here => simp
    | up h hp ih =>
      refine List.nodup_cons.2 ⟨fun hmem ↦ ?_, ih⟩
      exact hd.acyclic _ ((hp.atOrAbove hmem).above_of_parent h)
  have hlt : ∀ y ∈ way, y = a ∨ y < d.nodes.size := by
    clear hnodup
    induction h with
    | here => simp
    | up h _ ih =>
      intro y hy
      rcases List.mem_cons.1 hy with rfl | hy
      · exact .inr (lt_size_of_parent? h)
      · exact ih y hy
  have hsubset : way ⊆ a :: List.range d.nodes.size := by
    intro y hy
    simpa using hlt y hy
  simpa using (hnodup.subperm hsubset).length_le

/-- **Climbing finds whatever is above.** -/
theorem IsForest.isInclusiveAncestor_iff (hd : d.IsForest) :
    d.isInclusiveAncestor a x = true ↔ d.AtOrAbove a x := by
  refine ⟨atOrAbove_of_climbsTo, fun h ↦ ?_⟩
  obtain ⟨way, hway⟩ := h.exists_path
  exact hway.climbsTo (hway.length_le hd)

theorem IsForest.makesCycle_iff (hd : d.IsForest) :
    d.makesCycle a b = true ↔ d.AtOrAbove b a := by
  rw [makesCycle]
  split
  · rename_i hleaf
    rw [beq_iff_eq]
    refine ⟨.inl, ?_⟩
    rintro (h | h)
    · exact h
    · obtain ⟨c, hc, -⟩ := h.exists_child
      rw [hd.linked, List.isEmpty_iff.1 hleaf] at hc
      cases hc
  · exact hd.isInclusiveAncestor_iff

/-! ## Appending -/

/-- What is seen after a node has become the last child of another one. -/
structure Appended (d : Document) (parent child : NodeId) (e : Document) : Prop where
  parent?_eq : ∀ i, e.parent? i = if i = child then some parent else d.parent? i
  children_eq : ∀ i, e.children i =
    (d.children i).filter (· != child) ++ if i = parent then [child] else []
  content?_eq : ∀ i, e.content? i = d.content? i
  size_eq : e.nodes.size = d.nodes.size

theorem IsForest.filter_children (hd : d.IsForest) {p c : NodeId} (h : d.parent? c ≠ some p) :
    (d.children p).filter (· != c) = d.children p := by
  rw [List.filter_eq_self]
  intro x hx
  have hne : x ≠ c := by
    rintro rfl
    exact h ((hd.linked p x).2 hx)
  simpa using hne

/-- Two nodes that are there, the first one not below the second one, are linked. -/
theorem IsForest.append_appended (hd : d.IsForest) {parent child : NodeId}
    (hparent : parent < d.nodes.size) (hchild : child < d.nodes.size)
    (h : ¬d.AtOrAbove child parent) : d.Appended parent child (d.append parent child) := by
  have hcycle : d.makesCycle parent child = false := by
    rw [← Bool.not_eq_true, hd.makesCycle_iff]
    exact h
  have hchild' : (d.node? child).isNone = false := by
    simpa [Option.isNone_iff_eq_none, ← Option.not_isSome_iff_eq_none, node?_isSome_iff] using
      hchild
  have hparent' : (d.node? parent).isNone = false := by
    simpa [Option.isNone_iff_eq_none, ← Option.not_isSome_iff_eq_none, node?_isSome_iff] using
      hparent
  rw [append, hchild', hparent', hcycle]
  simp only [Bool.or_self, Bool.false_eq_true, if_false]
  refine ⟨fun i ↦ ?_, fun i ↦ ?_, fun i ↦ ?_, by simp⟩
  · rw [parent?_modify (by simp)]
    by_cases hi : i < d.nodes.size
    · rw [parent?_modify_set _ child (some parent) i (by simpa using hi), parent?_detach]
      split <;> rfl
    · have hne : i ≠ child := by
        rintro rfl
        exact hi hchild
      have hi' : d.nodes.size ≤ i := Nat.le_of_not_lt hi
      rw [if_neg hne, Document.parent?, Document.parent?, node?_eq_none d hi',
        node?_eq_none _ (by simpa using hi')]
  · have hkeep : (d.detach child).children i = (d.children i).filter (· != child) := by
      rw [children_detach]
      split
      · rfl
      · rename_i hp
        exact (hd.filter_children hp).symm
    rw [children_modify_map _ parent (· ++ [child]) (.inr (by simpa using hparent)),
      children_modify (by simp), hkeep]
    split <;> simp
  · rw [content?_modify (by simp), content?_modify (by simp), content?_detach]

namespace Appended

variable {parent child : NodeId}

/-- What is above the parent is what was above it. -/
theorem atOrAbove_of_above (h : d.Appended parent child e) (hx : e.Above child x) :
    d.AtOrAbove child x := by
  induction hx with
  | @parent x hp =>
    by_cases hc : x = child
    · exact .inl hc.symm
    · rw [h.parent?_eq, if_neg hc] at hp
      exact .inr (.parent hp)
  | @step x p hp _ ih =>
    by_cases hc : x = child
    · exact .inl hc.symm
    · rw [h.parent?_eq, if_neg hc] at hp
      exact .inr (ih.above_of_parent hp)

theorem not_atOrAbove (h : d.Appended parent child e) (hcycle : ¬d.AtOrAbove child parent) :
    ¬e.AtOrAbove child parent := by
  rintro (heq | habove)
  · exact hcycle (.inl heq)
  · exact hcycle (h.atOrAbove_of_above habove)

theorem above_of_above (h : d.Appended parent child e) (hx : ¬e.AtOrAbove child x)
    (ha : e.Above a x) : d.Above a x := by
  refine ha.of_parents fun y hy ↦ ?_
  rw [h.parent?_eq, if_neg]
  rintro rfl
  exact hx hy

end Appended

/-- Whatever is above a node that is above itself is so, too. -/
theorem Above.self_of_self (h : d.Above x x) (ha : d.AtOrAbove a x) : d.Above a a := by
  have hup : ∀ {y p : NodeId}, d.parent? y = some p → d.Above y y → d.Above p p := by
    intro y p hp hy
    obtain ⟨q, hq, hyq⟩ := above_iff.1 hy
    rw [hp] at hq
    cases hq
    rcases hyq with rfl | hyq
    · exact hy
    · exact (Above.parent hp).trans hyq
  rcases ha with rfl | ha
  · exact h
  · induction ha with
    | parent hp => exact hup hp h
    | step hp _ ih => exact ih (hup hp h)

/-- **Making a node a child keeps a forest a forest.** -/
theorem IsForest.of_appended (hd : d.IsForest) {parent child : NodeId}
    (h : d.Appended parent child e) (hcycle : ¬d.AtOrAbove child parent) : e.IsForest where
  linked p c := by
    rw [h.parent?_eq, h.children_eq]
    by_cases hc : c = child
    · subst hc
      by_cases hp : p = parent
      · simp [hp]
      · simp [hp, Ne.symm hp]
    · by_cases hp : p = parent <;> simp [hp, hc, hd.linked]
  nodup p := by
    rw [h.children_eq]
    refine List.nodup_append.2 ⟨(hd.nodup p).sublist List.filter_sublist, by split <;> simp, ?_⟩
    intro x hx y hy
    split at hy
    · rw [List.mem_singleton] at hy
      subst hy
      simpa using (List.mem_filter.1 hx).2
    · cases hy
  acyclic n hn := by
    -- A circle would go through the new link, and so through what is above the parent.
    by_cases hc : e.AtOrAbove child n
    · obtain ⟨p, hp, hchild⟩ := above_iff.1 (hn.self_of_self hc)
      rw [h.parent?_eq, if_pos rfl] at hp
      cases hp
      exact h.not_atOrAbove hcycle hchild
    · exact hd.acyclic n (h.above_of_above hc hn)

theorem IsForest.append (hd : d.IsForest) (parent child : NodeId) :
    (d.append parent child).IsForest := by
  by_cases hrefused : ((d.node? child).isNone || (d.node? parent).isNone ||
      d.makesCycle parent child) = true
  · rw [Document.append, if_pos hrefused]
    exact hd
  · simp only [Bool.or_eq_true, not_or, Option.isNone_iff_eq_none,
      ← Option.not_isSome_iff_eq_none, not_not, node?_isSome_iff, hd.makesCycle_iff] at hrefused
    obtain ⟨⟨hchild, hparent⟩, hcycle⟩ := hrefused
    exact hd.of_appended (hd.append_appended hparent hchild hcycle) hcycle

/-- **Every step keeps a forest a forest**, and so does whatever consists of steps. -/
theorem Becomes.isForest (h : d.Becomes e) (hd : d.IsForest) : e.IsForest := by
  induction h with
  | refl => exact hd
  | push _ c ih => exact ih.push c
  | setContent _ id c ih => exact ih.setContent id c
  | detach _ id ih => exact ih.detach id
  | append _ parent child ih => exact ih.append parent child
  | clearChildren _ id ih => exact ih.clearChildren id

theorem IsForest.appendAll (hd : d.IsForest) (parent : NodeId) (cs : List NodeId) :
    (d.appendAll parent cs).IsForest :=
  (Becomes.refl.appendAll parent cs).isForest hd

theorem IsForest.replaceContent (hd : d.IsForest) (id : NodeId) (c : Content) :
    (d.replaceContent id c).IsForest :=
  (Becomes.refl.replaceContent id c).isForest hd

/-- **Every edit keeps a forest a forest.** -/
theorem IsForest.apply (hd : d.IsForest) (edit : Edit) : (d.apply edit).IsForest :=
  (Becomes.refl.apply edit).isForest hd

/-- **The document that markup writes is a forest.** -/
theorem parse_isForest {markup : String} (h : parse markup = .ok d) : d.IsForest :=
  (Becomes.parse h).isForest .empty

/-- So is what one takes for the document when the markup may be none. -/
theorem isForest_parsed (markup : String) : ((parse markup).toOption.getD .empty).IsForest := by
  cases h : parse markup with
  | error e => exact .empty
  | ok d => exact parse_isForest h

end DataBinding.Document

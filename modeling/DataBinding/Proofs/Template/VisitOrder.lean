import DataBinding.Proofs.Document.MovedChildren
import DataBinding.Engine.Compilation

/-!
# The route of a compilation

Which nodes a compilation visits, and in which order, can be read off the document as it was before:
bindings change contents and put nodes below elements whose content they own, and neither is visited
afterwards.  `Document.route` is that order.

What makes the parts of a template independent is how the nodes of a route lie to each other.  Of
two nodes, the later one is another node, is not a child of the earlier one if that one's content is
owned, and is not its parent (`Document.Before`).  **In a forest this holds of any two nodes of a
route** (`IsForest.route_pairwise`).

`Visited` says the same as the route without saying in which order: from the root, down through
elements whose content nobody owns.
-/

set_option autoImplicit false

namespace DataBinding

/-- Whether an attribute gives the content of its element away. -/
def Dialect.givesContent (dialect : Dialect) (name : String) : Bool :=
  match dialect.classify name with
  | some (.directive kind _) => Compilation.ownsContent kind
  | _ => false

/-- Whether the content of a node belongs to a directive on it. -/
def Dialect.owns (dialect : Dialect) : Option Content → Bool
  | some (.element e) => e.attributes.any fun a ↦ dialect.givesContent a.1
  | _ => false

/-- Only elements have directives. -/
theorem Dialect.exists_element_of_owns {dialect : Dialect} {c : Option Content}
    (h : dialect.owns c = true) : ∃ x, c = some (.element x) := by
  cases c with
  | none => cases h
  | some c => cases c <;> first | exact ⟨_, rfl⟩ | cases h

namespace Document

variable {d : Document} {dialect : Dialect}

/-- The nodes that a compilation visits, in order, given those that are pending.  There is no route
when `fuel` nodes are not enough. -/
def route (d : Document) (dialect : Dialect) : Nat → List NodeId → Option (List NodeId)
  | _, [] => some []
  | 0, _ :: _ => none
  | fuel + 1, n :: pending =>
    (d.route dialect fuel
      (if dialect.owns (d.content? n) then pending else d.children n ++ pending)).map (n :: ·)

/-- How an earlier node of a route lies to a later one. -/
structure Before (d : Document) (dialect : Dialect) (n m : NodeId) : Prop where
  ne : n ≠ m
  not_child : dialect.owns (d.content? n) = true → m ∉ d.children n
  not_parent : d.parent? n ≠ some m

/-- What is pending after a node has been dealt with. -/
def next (d : Document) (dialect : Dialect) (n : NodeId) (pending : List NodeId) : List NodeId :=
  if dialect.owns (d.content? n) then pending else d.children n ++ pending

/-- The node is one of the given ones or below one of them. -/
def Under (d : Document) (ns : List NodeId) (x : NodeId) : Prop := ∃ n ∈ ns, d.AtOrAbove n x

theorem route_succ (d : Document) (dialect : Dialect) (fuel : Nat) (n : NodeId)
    (pending : List NodeId) :
    d.route dialect (fuel + 1) (n :: pending) =
      (d.route dialect fuel (d.next dialect n pending)).map (n :: ·) := rfl

/-- What comes after a node is strictly below it, and then its content is free, or elsewhere. -/
theorem IsForest.under_next (hd : d.IsForest) {n x : NodeId} {pending : List NodeId}
    (hapart : d.Apart (n :: pending)) (hx : d.Under (d.next dialect n pending) x) :
    d.Under (n :: pending) x ∧
      ((dialect.owns (d.content? n) = false ∧ d.Above n x) ∨ ¬d.AtOrAbove n x) := by
  rw [Apart, List.pairwise_cons] at hapart
  obtain ⟨m, hm, hmx⟩ := hx
  have helsewhere : m ∈ pending →
      d.Under (n :: pending) x ∧ ((dialect.owns (d.content? n) = false ∧ d.Above n x) ∨
        ¬d.AtOrAbove n x) := fun hm ↦
    ⟨⟨m, List.mem_cons_of_mem _ hm, hmx⟩, .inr fun hnx ↦ hapart.1 m hm x hnx hmx⟩
  rw [next] at hm
  split at hm
  · exact helsewhere hm
  · rename_i howns
    rcases List.mem_append.1 hm with hm | hm
    · have hnm : d.Above n m := .parent ((hd.linked n m).2 hm)
      have hnx : d.Above n x := hmx.elim (fun h ↦ h ▸ hnm) hnm.trans
      exact ⟨⟨n, by simp, .inr hnx⟩, .inl ⟨by simpa using howns, hnx⟩⟩
    · exact helsewhere hm

/-- **What comes after a node lies well to it.** -/
theorem IsForest.before_of_next (hd : d.IsForest) {n x : NodeId} {pending : List NodeId}
    (hapart : d.Apart (n :: pending)) (hx : d.Under (d.next dialect n pending) x) :
    d.Before dialect n x := by
  have hlater := (hd.under_next hapart hx).2
  refine ⟨?_, fun howns hmem ↦ ?_, fun hp ↦ ?_⟩
  · rintro rfl
    rcases hlater with ⟨-, h⟩ | h
    · exact hd.acyclic n h
    · exact h (.inl rfl)
  · have hnx : d.AtOrAbove n x := .inr (.parent ((hd.linked n x).2 hmem))
    rcases hlater with ⟨hfree, -⟩ | h
    · rw [howns] at hfree
      cases hfree
    · exact h hnx
  · -- The parent of the node is neither below it nor below anything else that is pending.
    have hxn : d.Above x n := .parent hp
    rcases hlater with ⟨-, h⟩ | h
    · exact hd.acyclic n (h.trans hxn)
    · rw [Apart, List.pairwise_cons] at hapart
      obtain ⟨m, hm, hmx⟩ := hx
      have hmn : d.AtOrAbove m n := hmx.trans (.inr hxn)
      rw [next] at hm
      split at hm
      · exact hapart.1 m hm n (.inl rfl) hmn
      · rcases List.mem_append.1 hm with hm | hm
        · exact h (.trans (.inr (.parent ((hd.linked n m).2 hm))) hmx)
        · exact hapart.1 m hm n (.inl rfl) hmn

/-- What is pending after a node stays apart. -/
theorem IsForest.apart_next (hd : d.IsForest) {n : NodeId} {pending : List NodeId}
    (h : d.Apart (n :: pending)) : d.Apart (d.next dialect n pending) := by
  rw [Apart, List.pairwise_cons] at h
  rw [next]
  split
  · exact h.2
  · refine List.pairwise_append.2 ⟨hd.children_apart n, h.2, fun c hc m hm x hcx ↦ ?_⟩
    have hnc : d.AtOrAbove n c := .inr (.parent ((hd.linked n c).2 hc))
    exact h.1 m hm x (hnc.trans hcx)

/-- Everything on a route is at or below something that was pending. -/
theorem IsForest.under_of_mem_route (hd : d.IsForest) {fuel : Nat} {pending way : List NodeId}
    (hapart : d.Apart pending) (h : d.route dialect fuel pending = some way) {x : NodeId}
    (hx : x ∈ way) : d.Under pending x := by
  induction fuel generalizing pending way with
  | zero =>
    cases pending with
    | nil =>
      cases h
      cases hx
    | cons n pending => cases h
  | succ fuel ih =>
    cases pending with
    | nil =>
      cases h
      cases hx
    | cons n pending =>
      rw [route_succ, Option.map_eq_some_iff] at h
      obtain ⟨rest, hrest, rfl⟩ := h
      rcases List.mem_cons.1 hx with rfl | hx
      · exact ⟨x, by simp, .inl rfl⟩
      · exact (hd.under_next hapart (ih (hd.apart_next hapart) hrest hx)).1

/-- **Any two nodes of a route lie well to each other.** -/
theorem IsForest.route_pairwise (hd : d.IsForest) {fuel : Nat} {pending way : List NodeId}
    (hapart : d.Apart pending) (h : d.route dialect fuel pending = some way) :
    way.Pairwise (d.Before dialect) := by
  induction fuel generalizing pending way with
  | zero =>
    cases pending with
    | nil =>
      cases h
      exact .nil
    | cons n pending => cases h
  | succ fuel ih =>
    cases pending with
    | nil =>
      cases h
      exact .nil
    | cons n pending =>
      rw [route_succ, Option.map_eq_some_iff] at h
      obtain ⟨rest, hrest, rfl⟩ := h
      have hnext : d.Apart (d.next dialect n pending) := hd.apart_next hapart
      exact List.pairwise_cons.2
        ⟨fun x hx ↦ hd.before_of_next hapart (hd.under_of_mem_route hnext hrest hx),
          ih hnext hrest⟩

/-- Of two members of a list one comes before the other. -/
theorem pairwise_total {α : Type} {R : α → α → Prop} {l : List α} (h : l.Pairwise R) {a b : α}
    (ha : a ∈ l) (hb : b ∈ l) (hne : a ≠ b) : R a b ∨ R b a := by
  induction h with
  | nil => cases ha
  | cons hhead _ ih =>
    rcases List.mem_cons.1 ha with rfl | ha' <;> rcases List.mem_cons.1 hb with rfl | hb'
    · exact absurd rfl hne
    · exact .inl (hhead b hb')
    · exact .inr (hhead a ha')
    · exact ih ha' hb'

/-- **No node of a route is a child of another one whose content is owned.** -/
theorem IsForest.not_child_of_route (hd : d.IsForest) {fuel : Nat} {pending way : List NodeId}
    (hapart : d.Apart pending) (h : d.route dialect fuel pending = some way) {n m : NodeId}
    (hn : n ∈ way) (hm : m ∈ way) (howns : dialect.owns (d.content? n) = true) :
    m ∉ d.children n := by
  intro hchild
  have hparent := (hd.linked n m).2 hchild
  by_cases heq : n = m
  · subst heq
    exact hd.acyclic n (.parent hparent)
  · rcases pairwise_total (hd.route_pairwise hapart h) hn hm heq with hbefore | hbefore
    · exact hbefore.not_child howns hchild
    · exact hbefore.not_parent hparent

theorem IsForest.lt_size_of_mem_route (hd : d.IsForest) {fuel : Nat} {pending way : List NodeId}
    (hapart : d.Apart pending) (hvalid : ∀ m ∈ pending, m < d.nodes.size)
    (h : d.route dialect fuel pending = some way) {n : NodeId} (hn : n ∈ way) :
    n < d.nodes.size := by
  obtain ⟨m, hm, hmn⟩ := hd.under_of_mem_route hapart h hn
  rcases hmn with rfl | habove
  · exact hvalid m hm
  · exact (habove.lt_size hd).2

/-- A route goes through everything that is pending. -/
theorem mem_route_of_pending {fuel : Nat} {pending way : List NodeId}
    (h : d.route dialect fuel pending = some way) {n : NodeId} (hn : n ∈ pending) : n ∈ way := by
  induction fuel generalizing pending way with
  | zero =>
    cases pending with
    | nil => cases hn
    | cons m pending => cases h
  | succ fuel ih =>
    cases pending with
    | nil => cases hn
    | cons m pending =>
      rw [route, Option.map_eq_some_iff] at h
      obtain ⟨rest, hrest, rfl⟩ := h
      rcases List.mem_cons.1 hn with rfl | hn
      · exact List.mem_cons_self
      · refine List.mem_cons_of_mem _ (ih hrest ?_)
        split
        · exact hn
        · exact List.mem_append_right _ hn

/-- A route goes through the children of every node on it whose content is free. -/
theorem mem_route_of_child {fuel : Nat} {pending way : List NodeId}
    (h : d.route dialect fuel pending = some way) {n c : NodeId} (hn : n ∈ way)
    (howns : dialect.owns (d.content? n) = false) (hc : c ∈ d.children n) : c ∈ way := by
  induction fuel generalizing pending way with
  | zero =>
    cases pending with
    | nil =>
      cases h
      cases hn
    | cons m pending => cases h
  | succ fuel ih =>
    cases pending with
    | nil =>
      cases h
      cases hn
    | cons m pending =>
      rw [route, Option.map_eq_some_iff] at h
      obtain ⟨rest, hrest, rfl⟩ := h
      rcases List.mem_cons.1 hn with rfl | hn
      · rw [if_neg (by simp [howns])] at hrest
        exact List.mem_cons_of_mem _ (mem_route_of_pending hrest (List.mem_append_left _ hc))
      · exact List.mem_cons_of_mem _ (ih hrest hn)

/-! ## From the root down -/

/-- The nodes below a root that a compilation of its content visits. -/
inductive Visited (d : Document) (dialect : Dialect) (root : NodeId) : NodeId → Prop
  | child {c : NodeId} (h : c ∈ d.children root) : Visited d dialect root c
  | inside {n c : NodeId} (hn : Visited d dialect root n)
      (howns : dialect.owns (d.content? n) = false) (h : c ∈ d.children n) :
      Visited d dialect root c

theorem Visited.above {root n : NodeId} (h : d.Visited dialect root n) (hd : d.IsForest) :
    d.Above root n := by
  induction h with
  | child h => exact .parent ((hd.linked _ _).2 h)
  | inside _ _ h ih => exact .step ((hd.linked _ _).2 h) ih

/-- **A node is visited if it is on the route that starts at the staged children.** -/
theorem Visited.mem_route {root n : NodeId} {fuel : Nat} {way : List NodeId} {e : Document}
    (h : d.Visited dialect root n) (hd : d.IsForest) (he : d.Staged root e)
    (hway : e.route dialect fuel [d.nodes.size] = some way) : n ∈ way := by
  induction h with
  | child h =>
    refine mem_route_of_child hway (mem_route_of_pending hway (List.mem_singleton_self _)) ?_ ?_
    · rw [he.fragment]
      rfl
    · rwa [he.children_eq, if_pos rfl]
  | @inside m c hm howns h ih =>
    have hlt : m < d.nodes.size := lt_size_of_mem_children h
    have hne : m ≠ root := by
      rintro rfl
      exact hd.acyclic m (hm.above hd)
    refine mem_route_of_child hway ih ?_ ?_
    · rwa [he.content?_eq m hlt]
    · rwa [he.children_eq, if_neg (Nat.ne_of_lt hlt), if_neg hne]

/-- Apart from the fragment that holds them, the route leads through such nodes only. -/
theorem visited_of_mem_route {root n : NodeId} {fuel : Nat} {pending way : List NodeId}
    {e : Document} (hd : d.IsForest) (he : d.Staged root e)
    (hpending : ∀ m ∈ pending, m = d.nodes.size ∨ d.Visited dialect root m)
    (hway : e.route dialect fuel pending = some way) (hn : n ∈ way) :
    n = d.nodes.size ∨ d.Visited dialect root n := by
  induction fuel generalizing pending way with
  | zero =>
    cases pending with
    | nil =>
      cases hway
      cases hn
    | cons _ _ => cases hway
  | succ fuel ih =>
    cases pending with
    | nil =>
      cases hway
      cases hn
    | cons m pending =>
      rw [route_succ, Option.map_eq_some_iff] at hway
      obtain ⟨rest, hrest, rfl⟩ := hway
      rcases List.mem_cons.1 hn with rfl | hn
      · exact hpending _ List.mem_cons_self
      · refine ih (fun k hk ↦ ?_) hrest hn
        rw [next] at hk
        split at hk
        · exact hpending k (List.mem_cons_of_mem _ hk)
        · rename_i howns
          rcases List.mem_append.1 hk with hk | hk
          · right
            rw [he.children_eq] at hk
            rcases hpending m List.mem_cons_self with rfl | hm
            · rw [if_pos rfl] at hk
              exact .child hk
            · have hlt := ((hm.above hd).lt_size hd).2
              rw [if_neg (Nat.ne_of_lt hlt)] at hk
              split at hk
              · cases hk
              · refine .inside hm ?_ hk
                rwa [← he.content?_eq m hlt, ← Bool.not_eq_true]
          · exact hpending k (List.mem_cons_of_mem _ hk)

end Document

end DataBinding

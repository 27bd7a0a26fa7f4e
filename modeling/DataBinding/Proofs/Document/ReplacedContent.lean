import DataBinding.Proofs.Document.Links

/-!
# Showing a text as the content of a node

`replaceContent` gives a node a single child with a given content.  A lone child of the same sort is
changed in place, and otherwise the children are unlinked and a new node is made; `spot` is the
child that shows the content in either case, and `Replaced` what is seen afterwards.

**Showing something again is a change of one content in place** (`replaceContent_again`), and it is
so from the second time on, whatever was done elsewhere in the meantime.
-/

set_option autoImplicit false

namespace DataBinding

theorem Content.sameSort_refl (c : Content) : c.sameSort c = true := by
  cases c <;> rfl

theorem Content.sameSort_trans {a b c : Content} (hab : a.sameSort b = true)
    (hbc : b.sameSort c = true) : a.sameSort c = true := by
  cases a <;> cases b <;>
    simp only [sameSort, Bool.false_eq_true] at hab <;> cases c <;> simp_all [sameSort]

namespace Document

variable {d e : Document}

/-! ## Documents that look the same -/

/-- Documents that look the same everywhere are the same. -/
theorem ext_of_views (hsize : d.nodes.size = e.nodes.size)
    (hparent : ∀ i, d.parent? i = e.parent? i) (hchildren : ∀ i, d.children i = e.children i)
    (hcontent : ∀ i, d.content? i = e.content? i) : d = e := by
  cases d with
  | mk nodes =>
  cases e with
  | mk nodes' =>
    refine congrArg Document.mk (Array.ext_getElem? fun i ↦ ?_)
    have hp := hparent i
    have hch := hchildren i
    have hc := hcontent i
    simp only [parent?, children_eq, content?, node?] at hp hch hc
    rcases Nat.lt_or_ge i nodes.size with hi | hi
    · have hi' : i < nodes'.size := by
        have : nodes.size = nodes'.size := hsize
        omega
      rw [Array.getElem?_eq_getElem hi, Array.getElem?_eq_getElem hi'] at hp hch hc ⊢
      simp only [Option.bind_some, Option.map_some, Option.getD_some,
        Option.some.injEq] at hp hch hc
      cases hnode : nodes[i]
      cases hnode' : nodes'[i]
      simp_all
    · have hi' : nodes'.size ≤ i := by
        have : nodes.size = nodes'.size := hsize
        omega
      rw [Array.getElem?_eq_none hi, Array.getElem?_eq_none hi']

theorem setContent_setContent (d : Document) (i : NodeId) (c c' : Content) :
    (d.setContent i c).setContent i c' = d.setContent i c' := by
  refine ext_of_views (by simp) (by simp) (by simp) fun j ↦ ?_
  rw [content?_setContent, content?_setContent, content?_setContent]
  split
  · cases d.content? j <;> rfl
  · rfl

/-! ## The place of the content -/

/-- The child that shows a content given to a node: a lone child of the same sort, or a new node. -/
def spot (d : Document) (n : NodeId) (c : Content) : NodeId :=
  match d.children n with
  | [only] => if (d.content? only).any (·.sameSort c) then only else d.nodes.size
  | _ => d.nodes.size

/-- The place of a content is new, or shows something of the same sort. -/
theorem spot_cases (d : Document) (n : NodeId) (c : Content) :
    d.spot n c = d.nodes.size ∨
      d.children n = [d.spot n c] ∧
        ∃ old, d.content? (d.spot n c) = some old ∧ old.sameSort c = true := by
  rw [spot]
  cases d.children n with
  | nil => exact .inl rfl
  | cons only rest =>
    cases rest with
    | cons _ _ => exact .inl rfl
    | nil =>
      simp only
      split
      · rename_i h
        exact .inr ⟨rfl, (Option.any_eq_true _ _).1 h⟩
      · exact .inl rfl

/-- What is seen after a node has been given a single child with a content. -/
structure Replaced (d : Document) (n : NodeId) (c : Content) (e : Document) : Prop where
  children_self : e.children n = [d.spot n c]
  content?_spot : e.content? (d.spot n c) = some c
  /-- The place is the old lone child, or it is new. -/
  spot_old : d.children n = [d.spot n c] ∨ d.spot n c = d.nodes.size
  parent?_of_ne : ∀ i, i < d.nodes.size → i ∉ d.children n → e.parent? i = d.parent? i
  children_of_ne : ∀ i, i ≠ n → e.children i = d.children i
  content?_of_ne : ∀ i, i < d.nodes.size → i ≠ d.spot n c → e.content? i = d.content? i
  size_le : d.nodes.size ≤ e.nodes.size

/-- A new node as the only child. -/
def freshened (d : Document) (n : NodeId) (c : Content) : Document :=
  ((d.clearChildren n).push c).2.append n d.nodes.size

section Fresh

variable {n : NodeId} (hn : n < d.nodes.size) (c : Content)

include hn

theorem freshened_eq : d.freshened n c =
    (((d.clearChildren n).push c).2.modify d.nodes.size fun node ↦
      { node with parent := some n }).modify n fun node ↦
        { node with children := node.children ++ [d.nodes.size] } := by
  have hnone : ∀ i, d.nodes.size ≤ i → ((d.clearChildren n).push c).2.parent? i = none := by
    intro i hi
    rw [parent?_push, parent?, node?_eq_none _ (by simpa using hi)]
    rfl
  have hleaf : ((d.clearChildren n).push c).2.children d.nodes.size = [] := by
    rw [children_push, children_of_size_le _ (by simp)]
  have hsome : ∀ i, i ≤ d.nodes.size →
      (((d.clearChildren n).push c).2.node? i).isNone = false := by
    intro i hi
    rw [← Bool.not_eq_true, Option.isNone_iff_eq_none, ← ne_eq, Option.ne_none_iff_isSome,
      node?_isSome_iff, size_push, size_clearChildren]
    exact Nat.lt_succ_of_le hi
  rw [freshened, append, hsome _ (Nat.le_refl _), hsome _ (Nat.le_of_lt hn), makesCycle, hleaf]
  simp only [List.isEmpty_nil, if_true, Bool.false_or, beq_iff_eq, Nat.ne_of_gt hn, if_false]
  rw [detach, hnone _ (Nat.le_refl _)]

theorem size_freshened : (d.freshened n c).nodes.size = d.nodes.size + 1 := by
  rw [freshened_eq hn]
  simp

theorem children_freshened (i : NodeId) :
    (d.freshened n c).children i = if i = n then [d.nodes.size] else d.children i := by
  rw [freshened_eq hn, children_modify_map _ n (· ++ [d.nodes.size])
    (.inr (by simpa using Nat.lt_succ_of_lt hn)), children_modify (by simp), children_push,
    children_clearChildren]
  split <;> simp

theorem content?_freshened (i : NodeId) :
    (d.freshened n c).content? i = if i = d.nodes.size then some c else d.content? i := by
  rw [freshened_eq hn, content?_modify (by simp), content?_modify (by simp)]
  by_cases hi : i = d.nodes.size
  · have hpush := content?_push_size (d.clearChildren n) c
    rw [size_clearChildren] at hpush
    rw [hi, hpush, if_pos rfl]
  · rw [if_neg hi]
    rcases Nat.lt_or_ge i d.nodes.size with hlt | hge
    · rw [content?_push_of_lt _ _ (by simpa using hlt), content?_clearChildren]
    · have hgt : d.nodes.size + 1 ≤ i := Nat.lt_of_le_of_ne hge (Ne.symm hi)
      rw [content?, content?, node?_eq_none d hge, node?_eq_none _ (by simpa using hgt)]

theorem parent?_freshened (i : NodeId) :
    (d.freshened n c).parent? i =
      if i = d.nodes.size then some n else if i ∈ d.children n then none else d.parent? i := by
  rw [freshened_eq hn, parent?_modify (by simp)]
  rcases Nat.lt_or_ge d.nodes.size i with hlt | hge
  · have hout : ∀ e : Document, e.nodes.size ≤ i → e.parent? i = none := by
      intro e he
      rw [parent?, node?_eq_none e he]
      rfl
    have hsize : (((d.clearChildren n).push c).2.modify d.nodes.size fun node ↦
        { node with parent := some n }).nodes.size ≤ i := by
      rw [size_modify, size_push, size_clearChildren]
      exact hlt
    rw [hout _ hsize, hout d (Nat.le_of_lt hlt), if_neg (Nat.ne_of_gt hlt)]
    split <;> rfl
  · rw [parent?_modify_set _ _ _ i (by simpa using Nat.lt_succ_of_le hge), parent?_push,
      parent?_clearChildren]

end Fresh

/-- `replaceContent` changes the place of the content if it is there, and makes it if not. -/
theorem replaceContent_eq (d : Document) (n : NodeId) (c : Content) :
    d.replaceContent n c =
      if d.spot n c = d.nodes.size then d.freshened n c else d.setContent (d.spot n c) c := by
  have hlone : ∀ {only : NodeId} {old : Content}, d.content? only = some old →
      only ≠ d.nodes.size := by
    rintro only old h rfl
    rw [content?, node?_eq_none d (Nat.le_refl _)] at h
    cases h
  have hfresh : d.freshened n c = ((d.clearChildren n).push c).2.append n
      ((d.clearChildren n).push c).1 := by
    rw [freshened, push_fst, size_clearChildren]
  rw [replaceContent, spot]
  cases hch : d.children n with
  | nil => simp [hfresh]
  | cons only rest =>
    cases rest with
    | cons _ _ => simp [hfresh]
    | nil =>
      cases hc : d.content? only with
      | none => simp [hc, hfresh]
      | some old =>
        by_cases hsort : old.sameSort c = true
        · simp [hc, hsort, hlone hc]
        · simp [hc, hsort, hfresh]

theorem replaceContent_replaced {n : NodeId} (hn : n < d.nodes.size) (c : Content) :
    d.Replaced n c (d.replaceContent n c) := by
  rw [replaceContent_eq]
  by_cases hplace : d.spot n c = d.nodes.size
  · rw [if_pos hplace]
    refine ⟨?_, ?_, .inr hplace, fun i hi hch ↦ ?_, fun i hi ↦ ?_, fun i hi _ ↦ ?_, ?_⟩
    · rw [children_freshened hn, if_pos rfl, hplace]
    · rw [content?_freshened hn, if_pos hplace]
    · rw [parent?_freshened hn, if_neg (Nat.ne_of_lt hi), if_neg hch]
    · rw [children_freshened hn, if_neg hi]
    · rw [content?_freshened hn, if_neg (Nat.ne_of_lt hi)]
    · rw [size_freshened hn]
      omega
  · rw [if_neg hplace]
    have hlone : d.children n = [d.spot n c] ∧ ∃ old, d.content? (d.spot n c) = some old := by
      rw [spot] at hplace ⊢
      cases hch : d.children n with
      | nil => simp [hch] at hplace
      | cons only rest =>
        cases rest with
        | cons _ _ => simp [hch] at hplace
        | nil =>
          simp only [hch] at hplace ⊢
          cases hc : d.content? only with
          | none => simp [hc] at hplace
          | some old =>
            simp only [hc, Option.any_some] at hplace ⊢
            by_cases hsort : old.sameSort c = true
            · rw [if_pos hsort]
              exact ⟨rfl, old, hc⟩
            · simp [hsort] at hplace
    obtain ⟨hch, old, hold⟩ := hlone
    refine ⟨by rw [children_setContent, hch], ?_, .inl hch, fun i _ _ ↦ by simp, fun i _ ↦ by simp,
      fun i _ hi ↦ ?_, by simp⟩
    · rw [content?_setContent, if_pos rfl, hold]
      rfl
    · rw [content?_setContent, if_neg hi]

/-- **Showing again changes a content in place.** -/
theorem replaceContent_again {n i : NodeId} {c c' : Content} (hch : d.children n = [i])
    (hc : d.content? i = some c) (hsort : c.sameSort c' = true) :
    d.replaceContent n c' = d.setContent i c' := by
  rw [replaceContent, hch]
  simp only [hc, hsort, if_true]

end Document

end DataBinding

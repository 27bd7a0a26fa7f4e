import DataBinding.Markup.Parser
import DataBinding.Proofs.Document.Links

/-!
# What operations on documents consist of

`d.Becomes e` says that `e` comes from `d` by single steps: a new node, another content, a link
taken away or made, the children of a node let go.  **Every operation on documents consists of
these** (`Becomes.apply`), and so does the reading of markup (`Becomes.parse`).

What is kept by each of the five steps is therefore kept by all operations, and it holds in the
middle of an operation too, where most nodes are appended.
-/

set_option autoImplicit false

namespace DataBinding.Document

variable {d e f : Document}

/-- The second document comes from the first one by the steps that operations consist of. -/
inductive Becomes (d : Document) : Document → Prop
  | refl : Becomes d d
  | push {e : Document} (h : Becomes d e) (c : Content) : Becomes d (e.push c).2
  | setContent {e : Document} (h : Becomes d e) (id : NodeId) (c : Content) :
      Becomes d (e.setContent id c)
  | detach {e : Document} (h : Becomes d e) (id : NodeId) : Becomes d (e.detach id)
  | append {e : Document} (h : Becomes d e) (parent child : NodeId) :
      Becomes d (e.append parent child)
  | clearChildren {e : Document} (h : Becomes d e) (id : NodeId) : Becomes d (e.clearChildren id)

namespace Becomes

theorem trans (hde : d.Becomes e) (hef : e.Becomes f) : d.Becomes f := by
  induction hef with
  | refl => exact hde
  | push _ c ih => exact ih.push c
  | setContent _ id c ih => exact ih.setContent id c
  | detach _ id ih => exact ih.detach id
  | append _ parent child ih => exact ih.append parent child
  | clearChildren _ id ih => exact ih.clearChildren id

theorem appendAll (h : d.Becomes e) (parent : NodeId) (cs : List NodeId) :
    d.Becomes (e.appendAll parent cs) := by
  rw [Document.appendAll]
  induction cs generalizing e with
  | nil => exact h
  | cons c cs ih => exact ih (h.append parent c)

theorem replaceContent (h : d.Becomes e) (id : NodeId) (c : Content) :
    d.Becomes (e.replaceContent id c) := by
  have hfresh : d.Becomes (((e.clearChildren id).push c).2.append id
      ((e.clearChildren id).push c).1) := ((h.clearChildren id).push c).append id _
  rw [Document.replaceContent]
  split
  · split
    · split
      · exact h.setContent _ c
      · exact hfresh
    · exact hfresh
  · exact hfresh

theorem modifyElement (h : d.Becomes e) (id : NodeId) (g : Element → Element) :
    d.Becomes (e.modifyElement id g) := by
  rw [modifyElement_eq]
  split
  · exact h.setContent id _
  · exact h

/-- **Every edit consists of these steps.** -/
theorem apply (h : d.Becomes e) (edit : Edit) : d.Becomes (e.apply edit) := by
  cases edit with
  | createElement | createText | createFragment => exact h.push _
  | append parent child => exact h.append parent child
  | detach id => exact h.detach id
  | setText id text =>
    rw [Document.apply, setText]
    split
    · exact h.setContent id _
    all_goals first | exact h.replaceContent id _ | exact h
  | setMarkup id markup =>
    rw [Document.apply, setMarkup]
    split
    all_goals first | exact h.setContent id _ | exact h.replaceContent id _ | exact h
  | setControl id | setAttribute id | removeAttribute id => exact h.modifyElement id _
  | stage id => exact (h.push .fragment).appendAll _ _
  | restore staged id => exact h.appendAll id _

theorem place {total : Nat} {s : List Char} {pending pending' : List (NodeId × String)}
    {token : Markup.Token} (h : d.Becomes e)
    (hplace : Document.place total s e pending token = .ok (f, pending')) : d.Becomes f := by
  cases token with
  | skipped =>
    cases hplace
    exact h
  | text t =>
    cases hplace
    exact (h.push _).append _ _
  | opening tag attributes selfClosing =>
    cases hplace
    exact (h.push _).append _ _
  | closing tag =>
    cases pending with
    | nil => cases hplace
    | cons innermost rest =>
      rw [Document.place] at hplace
      split at hplace
      · cases hplace
        exact h
      · cases hplace

end Becomes

/-- **What every token leaves as it is, parsing does.** -/
theorem readAll_keeps {P : Document → List (NodeId × String) → Prop} {total : Nat}
    (hplace : ∀ {d e : Document} {pending pending' : List (NodeId × String)} {s : List Char}
      {token : Markup.Token}, P d pending → place total s d pending token = .ok (e, pending') →
        P e pending')
    {pending : List (NodeId × String)} {s : List Char} (hd : P d pending)
    (h : readAll total d pending s = .ok e) : ∃ pending', P e pending' := by
  induction d, pending, s using readAll.induct total with
  | case1 d pending hpending =>
    rw [readAll_nil, if_pos hpending] at h
    cases h
    exact ⟨pending, hd⟩
  | case2 d pending hpending =>
    rw [readAll_nil, if_neg hpending] at h
    cases h
  | case3 d pending s hs error ht =>
    rw [readAll_of_error hs ht] at h
    cases h
  | case4 d pending s hs token rest ht error hplaced =>
    rw [readAll_of_token hs ht, hplaced] at h
    cases h
  | case5 d pending s hs token rest ht d' pending' hplaced ih =>
    rw [readAll_of_token hs ht, hplaced] at h
    exact ih (hplace hd hplaced) h

/-- **Reading markup consists of these steps as well.** -/
theorem Becomes.parse {markup : String} (h : Document.parse markup = .ok d) :
    Document.empty.Becomes d :=
  (readAll_keeps (P := fun d _ ↦ Document.empty.Becomes d) Becomes.place .refl h).elim fun _ hd ↦ hd

end DataBinding.Document

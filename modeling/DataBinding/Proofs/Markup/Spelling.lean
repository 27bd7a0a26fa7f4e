import DataBinding.Proofs.Document.Leaves
import DataBinding.Proofs.Markup.RoundTrip

/-!
# What markup says, node by node

A tree is plain when each of its nodes is (`PlainAt`): it is a text without children, or an element
that markup can name, without children if it is void.  The parser puts every node at or below the
root (`parse_rooted`), so **every node of a parsed document but the root is plain**
(`parse_plainAt`), wherever one starts to look.
-/

set_option autoImplicit false

namespace DataBinding.Document

open Markup

variable {d e : Document} {a n : NodeId}

/-! ## Everything is below the root -/

/-- Every node is the root or below it. -/
def Rooted (d : Document) : Prop := ∀ n < d.nodes.size, d.AtOrAbove root n

/-- A new node below an old one. -/
theorem Rooted.grown (h : d.Rooted) (hd : d.IsForest) (hn : n < d.nodes.size) (c : Content) :
    ((d.push c).2.append n d.nodes.size).Rooted := by
  have happended := Grown.appended hd hn c
  have hold : ∀ m < d.nodes.size, ((d.push c).2.append n d.nodes.size).AtOrAbove root m := by
    intro m hm
    refine (h m hm).imp_right fun habove ↦ habove.of_parents fun y hy ↦ ?_
    have hlt : y < d.nodes.size := by
      rcases hy with rfl | hy
      · exact hm
      · exact (hy.lt_size hd).1
    rw [happended.parent?_eq, if_neg (Nat.ne_of_lt hlt), parent?_push]
  intro m hm
  rw [happended.size_eq, size_push] at hm
  rcases Nat.lt_succ_iff_lt_or_eq.1 hm with hm | rfl
  · exact hold m hm
  · exact .inr ((hold n hn).above_of_parent (by rw [happended.parent?_eq, if_pos rfl]))

/-- The open elements are nodes of the document, in which everything is below the root. -/
structure Open (d : Document) (pending : List (NodeId × String)) : Prop where
  forest : d.IsForest
  rooted : d.Rooted
  valid : ∀ q ∈ pending, q.1 < d.nodes.size
  nonempty : root < d.nodes.size

namespace Open

variable {pending pending' : List (NodeId × String)}

theorem innermost_lt (h : d.Open pending) : innermost pending < d.nodes.size := by
  cases pending with
  | nil => exact h.nonempty
  | cons q pending => exact h.valid q List.mem_cons_self

theorem grown (h : d.Open pending) (c : Content) :
    ((d.push c).2.append (innermost pending) d.nodes.size).Open pending := by
  have hsize : ((d.push c).2.append (innermost pending) d.nodes.size).nodes.size
      = d.nodes.size + 1 := by rw [size_append, size_push]
  exact ⟨(h.forest.push c).append _ _, h.rooted.grown h.forest h.innermost_lt c,
    fun q hq ↦ hsize ▸ Nat.lt_succ_of_lt (h.valid q hq), hsize ▸ Nat.succ_pos _⟩

theorem place {total : Nat} {s : List Char} {token : Token} (h : d.Open pending)
    (hplace : Document.place total s d pending token = .ok (e, pending')) : e.Open pending' := by
  cases token with
  | skipped =>
    cases hplace
    exact h
  | text t =>
    cases hplace
    exact h.grown _
  | opening tag attributes selfClosing =>
    have hgrown := h.grown (.element ⟨tag, attributes, none⟩)
    cases hplace
    split
    · exact hgrown
    · refine ⟨hgrown.forest, hgrown.rooted, fun q hq ↦ ?_, hgrown.nonempty⟩
      rcases List.mem_cons.1 hq with rfl | hq
      · show d.nodes.size < ((d.push (.element ⟨tag, attributes, none⟩)).2.append
          (innermost pending) d.nodes.size).nodes.size
        rw [size_append, size_push]
        exact Nat.lt_succ_self _
      · exact hgrown.valid q hq
  | closing tag =>
    cases pending with
    | nil => cases hplace
    | cons first rest =>
      rw [Document.place] at hplace
      split at hplace
      · cases hplace
        exact ⟨h.forest, h.rooted, fun q hq ↦ h.valid q (List.mem_cons_of_mem _ hq), h.nonempty⟩
      · cases hplace

end Open

/-- **The parser puts everything below the root.** -/
theorem parse_rooted {markup : String} (h : parse markup = .ok d) : d.Rooted := by
  obtain ⟨_, hopen⟩ := readAll_keeps (P := Open) Open.place
    ⟨.empty, fun n hn ↦ .inl (Nat.lt_one_iff.1 hn).symm, by simp, by decide⟩ h
  exact hopen.rooted

/-! ## Plain nodes -/

/-- Markup can say what is at a node. -/
inductive PlainAt (d : Document) (n : NodeId) : Prop
  | element {e : Element} (h : d.content? n = some (.element e)) (hplain : e.IsPlain)
      (hvoid : isVoid e.tag = true → d.children n = [])
  | text {t : String} (h : d.content? n = some (.text t)) (hleaf : d.children n = [])

/-- The trees at the nodes of a plain list are plain. -/
theorem DrawsAll.exists_plain {ns : List NodeId} {ts : List (Tree Content)} (h : d.DrawsAll ns ts)
    (hts : Tree.ArePlain ts) (hn : n ∈ ns) : ∃ t, d.Draws n t ∧ t.IsPlain := by
  induction ts generalizing ns with
  | nil =>
    cases h
    cases hn
  | cons t ts ih =>
    obtain ⟨m, rest, rfl, ht, hrest⟩ := h
    rcases List.mem_cons.1 hn with rfl | hn
    · exact ⟨t, ht, hts.1⟩
    · exact ih hrest hts.2 hn

/-- What is at and below a plain tree. -/
theorem Draws.plainAt {t : Tree Content} (h : d.Draws n t) (ht : t.IsPlain) :
    d.PlainAt n ∧ ∀ c ∈ d.children n, ∃ u, d.Draws c u ∧ u.IsPlain := by
  match t with
  | .node (.element e) ts =>
    obtain ⟨hc, hts⟩ := h
    obtain ⟨hplain, hvoid, harePlain⟩ := ht
    refine ⟨.element hc hplain fun hv ↦ ?_, fun c hc ↦ DrawsAll.exists_plain hts harePlain hc⟩
    rw [hvoid hv] at hts
    exact hts
  | .node (.text x) ts =>
    obtain ⟨hc, hts⟩ := h
    cases ht
    exact ⟨.text hc hts, fun c hmem ↦ absurd (hts ▸ hmem) (by simp)⟩
  | .node .document _ | .node .fragment _ | .node (.raw _) _ => exact ht.elim

/-- **Every node below plain trees is plain.** -/
theorem Draws.plainAt_of_above {c : Content} {ts : List (Tree Content)} (h : d.Draws a (.node c ts))
    (hts : Tree.ArePlain ts) (hd : d.IsForest) (hn : d.Above a n) : d.PlainAt n := by
  suffices hdraws : ∃ t, d.Draws n t ∧ t.IsPlain from
    hdraws.elim fun t ht ↦ (Draws.plainAt ht.1 ht.2).1
  induction hn with
  | parent hp => exact DrawsAll.exists_plain h.2 hts ((hd.linked _ _).1 hp)
  | step hp _ ih =>
    obtain ⟨t, ht, hplain⟩ := ih
    exact (Draws.plainAt ht hplain).2 _ ((hd.linked _ _).1 hp)

/-- **What has been parsed is plain**, below any node. -/
theorem parse_plainAt {markup : String} (h : parse markup = .ok d) (hn : d.Above a n) :
    d.PlainAt n := by
  obtain ⟨ts, hitems, hd, hdraws⟩ := exists_items h
  have hroot := parse_rooted h a (hn.lt_size hd).1
  exact hdraws.plainAt_of_above hitems.arePlain hd (hroot.elim (fun heq ↦ heq ▸ hn) (·.trans hn))

/-- **Texts have nothing below them in a parsed document.** -/
theorem parse_leafy {markup : String} (h : parse markup = .ok d) : d.Leafy := by
  intro n c hc hleaf
  rcases parse_rooted h n (lt_size_of_content? hc) with rfl | habove
  · obtain ⟨ts, -, -, hroot, -⟩ := exists_items h
    cases hc.symm.trans hroot
    cases hleaf
  · cases parse_plainAt h habove with
    | element he _ _ =>
      cases hc.symm.trans he
      cases hleaf
    | text _ hnone => exact hnone

end DataBinding.Document

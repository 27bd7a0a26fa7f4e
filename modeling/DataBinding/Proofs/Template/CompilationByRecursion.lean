import DataBinding.Proofs.Document.TreeMarkup
import DataBinding.Proofs.Template.ElementDirectives
import DataBinding.Proofs.Template.RouteErrands

/-!
# A compilation goes down the tree

A visit takes nodes from the list of what is pending and looks at each of them as the document is by
then.  What is still to be visited has not been touched, so every node is found as it was in the
beginning, and **visiting a tree is what is said of it by recursion** (`visit_tree`).  It is said of
the visit together with whatever is pending after the tree, and proved by induction on the tree.

What has been staged is one tree, so **a compilation does what is said by recursion**
(`compile_by_recursion`): it ends with the same error, or leaves behind the same trees, watchers,
listeners and numbers.
-/

set_option autoImplicit false

namespace DataBinding

open Compilation Document

/-- No `attr` directive on the element sets an attribute that is a marker. -/
def Dialect.Unforged (dialect : Dialect) (e : Element) : Prop :=
  ∀ a ∈ e.attributes, ∀ name, dialect.classify a.1 = some (.directive "attr" (some name)) →
    dialect.classify name = none

namespace Document

/-! ## Documents on the way -/

/-- A document that has come from another one while a template was compiled. -/
structure Later (d e : Document) : Prop where
  forest : e.IsForest
  size_le : d.nodes.size ≤ e.nodes.size
  children : ∀ x, ∀ k ∈ e.children x, k ∈ d.children x ∨ d.nodes.size ≤ k

/-- The trees at some nodes of `d` have been turned into others, since the document was `e`, and
nothing else has been touched. -/
structure Turned (d : Document) (ns : List NodeId) (us : List (Tree Content)) (e e' : Document) :
    Prop where
  size_le : e.nodes.size ≤ e'.nodes.size
  same : ∀ x < e.nodes.size, ¬d.Under ns x →
    e'.content? x = e.content? x ∧ e'.children x = e.children x
  draws : e'.DrawsAll ns us

/-- A node has got a content, since the document was `e`, and nothing else has been touched. -/
structure Settled (n : NodeId) (c : Content) (e e' : Document) : Prop where
  size_le : e.nodes.size ≤ e'.nodes.size
  content : e'.content? n = some c
  same : ∀ x < e.nodes.size, x ≠ n → e'.content? x = e.content? x
  children : ∀ x, e'.children x = e.children x

variable {d e e₁ e₂ : Document} {n : NodeId} {ns : List NodeId} {u : Tree Content}
  {us : List (Tree Content)} {c : Content} {owned : Bool}

theorem under_singleton {x : NodeId} : d.Under [n] x ↔ d.AtOrAbove n x := by
  simp [Under]

theorem Under.of_children {x : NodeId} (hd : d.IsForest) (h : d.Under (d.children n) x) :
    d.Above n x := by
  obtain ⟨k, hk, hkx⟩ := h
  have hnk : d.Above n k := .parent ((hd.linked n k).2 hk)
  rcases hkx with rfl | hkx
  · exact hnk
  · exact hnk.trans hkx

theorem Under.lt_size {x : NodeId} (hd : d.IsForest) (hns : ∀ n ∈ ns, n < d.nodes.size)
    (h : d.Under ns x) : x < d.nodes.size := by
  obtain ⟨k, hk, hkx⟩ := h
  rcases hkx with rfl | hkx
  · exact hns k hk
  · exact (hkx.lt_size hd).2

theorem Later.refl (hd : d.IsForest) : d.Later d := ⟨hd, Nat.le_refl _, fun _ _ hk ↦ .inl hk⟩

theorem Later.aside (h : d.Later e) (haside : e.Aside n owned e₁) (hforest : e₁.IsForest) :
    d.Later e₁ where
  forest := hforest
  size_le := Nat.le_trans h.size_le haside.size_le
  children x k hk := by
    by_cases hx : x = n
    · subst hx
      rcases haside.own_children k hk with hold | hnew
      · exact h.children x k hold
      · exact .inr (Nat.le_trans h.size_le hnew)
    · rw [haside.children_eq x fun _ ↦ hx] at hk
      exact h.children x k hk

theorem Later.settled (h : d.Later e) (hs : Settled n c e e₁) (hforest : e₁.IsForest) :
    d.Later e₁ where
  forest := hforest
  size_le := Nat.le_trans h.size_le hs.size_le
  children x k hk := by
    rw [hs.children] at hk
    exact h.children x k hk

theorem Settled.refl (h : e.content? n = some c) : Settled n c e e :=
  ⟨Nat.le_refl _, h, fun _ _ _ ↦ rfl, fun _ ↦ rfl⟩

/-- Below a node that has been settled everything is as it was. -/
theorem Settled.agreesUnder (hs : Settled n c e e₁) (hd : d.IsForest) (hlater : d.Later e)
    (h : d.AgreesUnder [n] e) : d.AgreesUnder (d.children n) e₁ := by
  intro x hx
  have hnx := hx.of_children hd
  obtain ⟨hcontent, hchildren⟩ := h x (under_singleton.2 (.inr hnx))
  have hne : x ≠ n := by
    rintro rfl
    exact hd.acyclic x hnx
  have hlt : x < e.nodes.size := Nat.lt_of_lt_of_le (hnx.lt_size hd).2 hlater.size_le
  exact ⟨(hs.same x hlt hne).trans hcontent, (hs.children x).trans hchildren⟩

/-- The trees below a node that has not been touched. -/
theorem AgreesUnder.drawsAll_children (h : d.AgreesUnder [n] e) (hd : d.IsForest)
    {ts : List (Tree (NodeId × Content))} (hts : d.ShowsAll (d.children n) ts) :
    e.DrawsAll (e.children n) (Tree.mapAll Prod.snd ts) := by
  rw [(h n (under_singleton.2 (.inl rfl))).2]
  refine DrawsAllBy.congr (P := fun m ↦ d.Above n m) (fun m hm k hk ↦ ?_) (fun m c hm hc ↦ ?_)
    (fun m hm ↦ .parent ((hd.linked n m).2 hm)) (hts.map Prod.snd)
  · exact hm.trans (.parent ((hd.linked m k).2 hk))
  · obtain ⟨hcontent, hchildren⟩ := h m (under_singleton.2 (.inr hm))
    rw [Option.map_map] at hc
    exact ⟨hcontent.trans (by simpa using hc), hchildren⟩

/-- A node is settled, and then what is below it. -/
theorem Settled.turned (hs : Settled n c e e₁) (hd : d.IsForest) (hn : n < e.nodes.size)
    (hchildren : e.children n = d.children n) (h : d.Turned (d.children n) us e₁ e₂) :
    d.Turned [n] [.node c us] e e₂ where
  size_le := Nat.le_trans hs.size_le h.size_le
  same x hx hnot := by
    rw [under_singleton] at hnot
    have hne : x ≠ n := fun heq ↦ hnot (.inl heq.symm)
    obtain ⟨hcontent, hch⟩ := h.same x (Nat.lt_of_lt_of_le hx hs.size_le)
      fun hunder ↦ hnot (.inr (hunder.of_children hd))
    exact ⟨hcontent.trans (hs.same x hx hne), hch.trans (hs.children x)⟩
  draws := by
    obtain ⟨hcontent, hch⟩ := h.same n (Nat.lt_of_lt_of_le hn hs.size_le)
      fun hunder ↦ hd.acyclic n (hunder.of_children hd)
    refine ⟨n, [], rfl, ⟨hcontent.trans hs.content, ?_⟩, rfl⟩
    rw [hch, hs.children, hchildren]
    exact h.draws

/-- The trees at several nodes are turned one after the other. -/
theorem Turned.cons (h : d.Turned [n] [u] e e₁) (h' : d.Turned ns us e₁ e₂) (hd : d.IsForest)
    (hlater : d.Later e₁) (hns : ∀ m ∈ ns, m < d.nodes.size) (hapart : d.Apart (n :: ns)) :
    d.Turned (n :: ns) (u :: us) e e₂ where
  size_le := Nat.le_trans h.size_le h'.size_le
  same x hx hnot := by
    obtain ⟨hcontent, hch⟩ := h.same x hx fun hunder ↦ hnot ⟨n, by simp, under_singleton.1 hunder⟩
    obtain ⟨hcontent', hch'⟩ := h'.same x (Nat.lt_of_lt_of_le hx h.size_le)
      fun ⟨m, hm, hmx⟩ ↦ hnot ⟨m, List.mem_cons_of_mem _ hm, hmx⟩
    exact ⟨hcontent'.trans hcontent, hch'.trans hch⟩
  draws := by
    obtain ⟨_, _, heq, hu, -⟩ := h.draws
    obtain ⟨rfl, -⟩ := List.cons.inj heq
    refine ⟨n, ns, rfl, ?_, h'.draws⟩
    -- the first tree consists of nodes below the first one and of new nodes
    have hkept : ∀ m, d.AtOrAbove n m ∨ d.nodes.size ≤ m → ¬d.Under ns m := by
      rintro m (hm | hm) hunder
      · obtain ⟨k, hk, hkm⟩ := hunder
        exact (List.pairwise_cons.1 hapart).1 k hk m hm hkm
      · exact absurd (hunder.lt_size hd hns) (Nat.not_lt_of_le hm)
    refine DrawsBy.congr (P := fun m ↦ d.AtOrAbove n m ∨ d.nodes.size ≤ m) (fun m hm k hk ↦ ?_)
      (fun m c hm hc ↦ ?_) (.inl (.inl rfl)) hu
    · rcases hlater.children m k hk with hold | hnew
      · rcases hm with hm | hm
        · exact .inl (hm.trans (.inr (.parent ((hd.linked m k).2 hold))))
        · exact absurd (lt_size_of_mem_children hold) (Nat.not_lt_of_le hm)
      · exact .inr hnew
    · obtain ⟨hcontent, hch⟩ := h'.same m (lt_size_of_content? hc) (hkept m hm)
      exact ⟨hcontent.trans hc, hch⟩

/-- After a tree has been turned, those that lie elsewhere are as they were. -/
theorem Turned.agreesUnder (h : d.Turned [n] [u] e e₁) (hd : d.IsForest) (hlater : d.Later e)
    (hns : ∀ m ∈ ns, m < d.nodes.size) (hapart : d.Apart (n :: ns)) (hagrees : d.AgreesUnder ns e) :
    d.AgreesUnder ns e₁ := by
  intro x hx
  obtain ⟨hcontent, hchildren⟩ := hagrees x hx
  have hnot : ¬d.Under [n] x := by
    obtain ⟨k, hk, hkx⟩ := hx
    rw [under_singleton]
    exact fun hnx ↦ (List.pairwise_cons.1 hapart).1 k hk x hnx hkx
  obtain ⟨hcontent', hchildren'⟩ :=
    h.same x (Nat.lt_of_lt_of_le (hx.lt_size hd hns) hlater.size_le) hnot
  exact ⟨hcontent'.trans hcontent, hchildren'.trans hchildren⟩

end Document

section Element

variable {d e e₁ : Document} {n : NodeId} {dialect : Dialect} {owned : Bool} {x : Draft}

/-- An element whose content is owned has been turned. -/
theorem Drafted.turned (h : Drafted dialect e n owned [] x e₁) (hd : d.IsForest)
    (hchildren : e.children n = d.children n) :
    d.Turned [n] [.node (.element x.element) x.content] e e₁ where
  size_le := h.aside.size_le
  same y hy hnot := by
    rw [under_singleton] at hnot
    have hne : y ≠ n := fun heq ↦ hnot (.inl heq.symm)
    refine ⟨h.aside.content?_eq y hy hne fun _ hmem ↦ ?_, h.aside.children_eq y fun _ ↦ hne⟩
    rw [hchildren] at hmem
    exact hnot (.inr (.parent ((hd.linked n y).2 hmem)))
  draws := ⟨n, [], rfl, ⟨h.content?_eq, h.content⟩, rfl⟩

/-- An element whose content is free has been settled. -/
theorem Drafted.settled (h : Drafted dialect e n false [] x e₁) :
    Settled n (.element x.element) e e₁ where
  size_le := h.aside.size_le
  content := h.content?_eq
  same y hy hne := h.aside.content?_eq y hy hne (by simp)
  children y := h.aside.children_eq y (by simp)

end Element

/-! ## Nodes -/

namespace Imitates

variable {σ : Type} {job : CompileJob σ} {methods : String → Event → Action σ} {w₀ : World σ}
  {e : Document} {n : NodeId} (call : Call σ) (htable : job.table = .standard)

/-- A visit looks at the content that the node has. -/
theorem visitNode {β : Type} {r : Recursive β} {R : Bool → β → Document → Prop}
    (h : Imitates job methods w₀ e (visitContent call job methods n (e.content? n)) r R) :
    Imitates job methods w₀ e (Compilation.visitNode call job methods n) r R := by
  rw [visitNode_eq]
  refine scene.bind_left fun s e' hs ↦ ?_
  obtain ⟨rfl, -, rfl⟩ := hs
  exact h

include htable

/-- **Visiting an element** finishes its draft. -/
theorem visitElement (he : e.IsForest) {y : Element} (hy : e.content? n = some (.element y))
    {ts : List (Tree Content)} (hts : e.DrawsAll (e.children n) ts)
    (hunforged : job.dialect.Unforged y) :
    Imitates job methods w₀ e (Compilation.visitNode call job methods n)
      (Recursive.ofElement w₀.scene.store job.state job.dialect n y ts)
      fun b x e' ↦ b = job.dialect.owns (some (.element y)) ∧
        Drafted job.dialect e n (job.dialect.owns (some (.element y))) [] x e' := by
  refine visitNode call ?_
  rw [hy]
  refine (count _).bind fun _ _ e' he' ↦ ?_
  subst he'
  exact visitAttributes call he (lt_size_of_content? hy) htable
    (Drafted.start he hy hts job.dialect _) id hunforged

/-- **Visiting a text** settles it. -/
theorem visitText {t : String} (ht : e.content? n = some (.text t)) :
    Imitates job methods w₀ e (Compilation.visitNode call job methods n)
      (Recursive.ofText w₀.scene.store job.state n t)
      fun b t' e' ↦ b = false ∧ Settled n (.text t') e e' ∧ (e.IsForest → e'.IsForest) := by
  refine visitNode call ?_
  rw [ht, visitContent, Recursive.ofText]
  split
  · rename_i hexpr
    refine (count _).bind fun _ _ e' he' ↦ ?_
    subst he'
    have hdirect : Compilation.direct call job methods n "text" "text" ⟨t, none⟩ =
        [Binding.template t].forM (Compilation.bind call job methods n) := by
      rw [Compilation.direct, htable]
      show (DirectiveHandler.text ⟨t, none⟩).forM _ = _
      rw [DirectiveHandler.text, if_pos hexpr]
    rw [hdirect]
    show Imitates job methods w₀ e' ((Compilation.bind call job methods n (.template t) >>=
      fun _ ↦ pure ()) >>= fun _ ↦ pure false) _ _
    rw [bind_assoc, ← bind_pure (Recursive.bond w₀.scene.store job.state _)]
    have hbond : (Binding.template t).bond? n = some (.template n t) := rfl
    refine (bond call hbond).bind fun _ t' e'' he'' ↦ ?_
    rw [pure_bind]
    refine .pure ⟨rfl, ?_⟩
    obtain rfl : e'' = e'.setContent n (.text t') := by
      rw [he'']
      show e'.setText n t' = _
      rw [setText, ht]
    refine ⟨⟨?_, ?_, fun x _ hne ↦ ?_, fun x ↦ children_setContent ..⟩, fun he ↦ he.setContent n _⟩
    · exact Nat.le_of_eq (size_setContent ..).symm
    · rw [content?_setContent, if_pos rfl, ht]
      rfl
    · rw [content?_setContent, if_neg hne]
  · exact .pure ⟨rfl, .refl ht, id⟩

end Imitates

/-! ## Trees -/

section Visit

variable {σ : Type} {job : CompileJob σ} {methods : String → Event → Action σ} {w₀ : World σ}

mutual

/-- **A tree is visited by recursion**, whatever is pending after it. -/
theorem visit_tree (call : Call σ) (htable : job.table = .standard) {d : Document} (hd : d.IsForest)
    {n : NodeId} {t : Tree (NodeId × Content)} (ht : d.Shows n t)
    (hunforged : ∀ m, d.AtOrAbove n m → ∀ y, d.content? m = some (.element y) →
        job.dialect.Unforged y)
    {e : Document} (hlater : d.Later e) (hagrees : d.AgreesUnder [n] e) {fuel : Nat}
    (hfuel : t.size ≤ fuel) {pending : List NodeId} {β : Type} {k : Tree Content → Recursive β}
    {R : Unit → β → Document → Prop}
    (hrest : ∀ u e' left, fuel ≤ left + t.size → d.Later e' → d.Turned [n] [u] e e' →
      Imitates job methods w₀ e' (visit call job methods left pending) (k u) R) :
    Imitates job methods w₀ e (visit call job methods fuel (n :: pending))
      (Recursive.ofTree w₀.scene.store job.state job.dialect t >>= k) R := by
  match t with
  | .node (m, c) ts =>
    obtain ⟨rfl, hc, hts⟩ := Document.shows_node ht
    rw [Tree.size] at hfuel hrest
    obtain ⟨fuel, rfl⟩ : ∃ f, fuel = f + 1 := ⟨fuel - 1, by omega⟩
    obtain ⟨hce, hchildren⟩ := hagrees n (under_singleton.2 (.inl rfl))
    have hn : n < e.nodes.size := Nat.lt_of_lt_of_le (lt_size_of_content? hc) hlater.size_le
    rw [hc] at hce
    -- once the node has been settled the trees below it are visited
    have hinside : ∀ c e₁, Settled n c e e₁ → e₁.IsForest →
        Imitates job methods w₀ e₁ (do
            let s ← lift Run.scene
            visit call job methods fuel (s.document.children n ++ pending))
          (Recursive.ofTrees w₀.scene.store job.state job.dialect ts >>= fun kids ↦
            k (.node c kids)) R := by
      intro c e₁ hs hforest
      refine Imitates.scene.bind_left fun s e' hs' ↦ ?_
      obtain ⟨rfl, -, rfl⟩ := hs'
      rw [hs.children, hchildren]
      refine visit_trees call htable hd hts
        (fun m hm y hy ↦ hunforged m (.inr (hm.of_children hd)) y hy) (hd.children_apart n)
        (hlater.settled hs hforest) (hs.agreesUnder hd hlater hagrees)
        (Nat.le_of_succ_le_succ hfuel) fun us e₂ left hleft hlater₂ hturned ↦ ?_
      exact hrest _ e₂ left (by omega) hlater₂ (hs.turned hd hn hchildren hturned)
    rw [Compilation.visit]
    cases c with
    | element y =>
      rw [Recursive.ofTree, bind_assoc]
      refine (Imitates.visitElement call htable hlater.forest hce (hagrees.drawsAll_children hd hts)
        (hunforged n (.inl rfl) y hc)).bind fun b x e₁ hx ↦ ?_
      obtain ⟨rfl, hdraft⟩ := hx
      by_cases howns : job.dialect.owns (some (.element y)) = true
      · rw [if_pos howns, if_pos howns, pure_bind]
        exact hrest _ e₁ fuel (by omega) (hlater.aside hdraft.aside hdraft.forest)
          (hdraft.turned hd hchildren)
      · rw [if_neg howns, if_neg howns, bind_assoc]
        simp only [pure_bind]
        rw [Bool.eq_false_iff.2 howns] at hdraft
        exact hinside _ e₁ hdraft.settled hdraft.forest
    | text t =>
      rw [Recursive.ofTree, bind_assoc]
      refine (Imitates.visitText call htable hce).bind fun b t' e₁ ht' ↦ ?_
      obtain ⟨rfl, hs, hforest⟩ := ht'
      rw [if_neg Bool.false_ne_true, bind_assoc]
      simp only [pure_bind]
      exact hinside _ e₁ hs (hforest hlater.forest)
    | document | fragment | raw _ =>
      rw [Recursive.ofTree, bind_assoc]
      · refine (Imitates.visitNode (R := fun b _ e' ↦ b = false ∧ e' = e) call
          (by rw [hce]; exact .pure ⟨rfl, rfl⟩)).bind_left fun b e₁ hb ↦ ?_
        obtain ⟨rfl, rfl⟩ := hb
        rw [if_neg Bool.false_ne_true]
        simp only [pure_bind]
        exact hinside _ e₁ (.refl hce) hlater.forest
      all_goals exact fun _ h ↦ nomatch h

/-- **Trees are visited by recursion**, one after the other. -/
theorem visit_trees (call : Call σ) (htable : job.table = .standard) {d : Document}
    (hd : d.IsForest) {ns : List NodeId} {ts : List (Tree (NodeId × Content))}
    (hts : d.ShowsAll ns ts)
    (hunforged : ∀ m, d.Under ns m → ∀ y, d.content? m = some (.element y) → job.dialect.Unforged y)
    (hapart : d.Apart ns) {e : Document} (hlater : d.Later e) (hagrees : d.AgreesUnder ns e)
    {fuel : Nat} (hfuel : Tree.sizeAll ts ≤ fuel) {pending : List NodeId} {β : Type}
    {k : List (Tree Content) → Recursive β} {R : Unit → β → Document → Prop}
    (hrest : ∀ us e' left, fuel ≤ left + Tree.sizeAll ts → d.Later e' → d.Turned ns us e e' →
      Imitates job methods w₀ e' (visit call job methods left pending) (k us) R) :
    Imitates job methods w₀ e (visit call job methods fuel (ns ++ pending))
      (Recursive.ofTrees w₀.scene.store job.state job.dialect ts >>= k) R := by
  match ts with
  | [] =>
    cases hts
    rw [Recursive.ofTrees, pure_bind]
    exact hrest [] e fuel (Nat.le_refl _) hlater ⟨Nat.le_refl _, fun _ _ _ ↦ ⟨rfl, rfl⟩, rfl⟩
  | t :: ts =>
    obtain ⟨n, ns, rfl, ht, hts⟩ := hts
    rw [Tree.sizeAll] at hfuel hrest
    have hvalid : ∀ m ∈ ns, m < d.nodes.size := fun m hm ↦ by
      obtain ⟨a, ha⟩ := hts.exists_label hm
      obtain ⟨c, hc, -⟩ := Option.map_eq_some_iff.1 ha
      exact lt_size_of_content? hc
    rw [Recursive.ofTrees, bind_assoc, List.cons_append]
    refine visit_tree call htable hd ht
      (fun m hm y hy ↦ hunforged m ⟨n, by simp, hm⟩ y hy) hlater
      (fun x hx ↦ hagrees x ⟨n, by simp, under_singleton.1 hx⟩) (by omega)
      fun u e₁ left hleft hlater₁ hturned ↦ ?_
    rw [bind_assoc]
    simp only [pure_bind]
    refine visit_trees call htable hd hts (fun m ⟨k, hk, hkm⟩ y hy ↦
        hunforged m ⟨k, List.mem_cons_of_mem _ hk, hkm⟩ y hy) (List.pairwise_cons.1 hapart).2
      hlater₁ (hturned.agreesUnder hd hlater hvalid hapart fun x ⟨k, hk, hkx⟩ ↦
        hagrees x ⟨k, List.mem_cons_of_mem _ hk, hkx⟩) (by omega)
      fun us e₂ left' hleft' hlater₂ hturned' ↦ ?_
    exact hrest (u :: us) e₂ left' (by omega) hlater₂
      (hturned.cons hturned' hd hlater₁ hvalid hapart)

end

end Visit

/-! ## The whole compilation -/

namespace Document

variable {d e : Document} {root : NodeId} {us : List (Tree Content)}

/-- What is above an old node in a later document was above it before. -/
theorem Later.above (h : d.Later e) (hd : d.IsForest) {a x : NodeId} (hx : x < d.nodes.size)
    (ha : e.Above a x) : d.Above a x := by
  have hparent : ∀ y p, y < d.nodes.size → e.parent? y = some p → d.parent? y = some p := by
    intro y p hy hp
    rcases h.children p y ((h.forest.linked p y).1 hp) with hold | hnew
    · exact (hd.linked p y).2 hold
    · exact absurd hy (Nat.not_lt_of_le hnew)
  induction ha with
  | parent hp => exact .parent (hparent _ _ hx hp)
  | step hp _ ih =>
    have hp := hparent _ _ hx hp
    exact .step hp (ih (lt_size_of_mem_children ((hd.linked _ _).1 hp)))

/-- **The trees that the fragment has got are below the root** when they have been moved back. -/
theorem Turned.drawsAll_restore (hd : d.IsForest) (hroot : root < d.nodes.size)
    (hlater : (d.stage root).2.Later e) {t : Content}
    (h : (d.stage root).2.Turned [d.nodes.size] [.node t us] (d.stage root).2 e) :
    (e.restore d.nodes.size root).DrawsAll ((e.restore d.nodes.size root).children root) us := by
  have hstaged := hd.staged root
  have hroot' : root < (d.stage root).2.nodes.size := by
    rw [hstaged.size_eq]
    exact Nat.lt_succ_of_lt hroot
  have hnot : ¬e.Above d.nodes.size root := fun habove ↦
    hstaged.not_above hd (hlater.above (hd.stage root) hroot' habove)
  -- the root has no children while they are in the fragment
  have hempty : e.children root = [] := by
    obtain ⟨-, hchildren⟩ := h.same root hroot' fun hunder ↦ by
      rcases under_singleton.1 hunder with heq | habove
      · exact absurd hroot (heq ▸ Nat.lt_irrefl _)
      · exact hstaged.not_above hd habove
    rw [hchildren, hstaged.children_eq, if_neg (Nat.ne_of_lt hroot), if_pos rfl]
  have hmoved : e.Moved root (e.children d.nodes.size) (e.restore d.nodes.size root) :=
    hlater.forest.appendAll_moved (Nat.lt_of_lt_of_le hroot' hlater.size_le)
      (fun _ hc ↦ hlater.forest.lt_size_of_mem_children hc) (hlater.forest.nodup _)
      fun c hc hcroot ↦ by
        have hparent : e.Above d.nodes.size c := .parent ((hlater.forest.linked _ _).2 hc)
        rcases hcroot with rfl | hcroot
        · exact hnot hparent
        · exact hnot (hparent.trans hcroot)
  obtain ⟨_, _, heq, ⟨-, hus⟩, -⟩ := h.draws
  obtain ⟨rfl, -⟩ := List.cons.inj heq
  rw [hmoved.children_eq, hempty, if_pos rfl]
  refine DrawsAllBy.congr (P := fun m ↦ e.Above d.nodes.size m) (fun m hm k hk ↦ ?_)
    (fun m c hm hc ↦ ⟨(hmoved.content?_eq m).trans hc, ?_⟩)
    (fun m hm ↦ .parent ((hlater.forest.linked _ _).2 hm)) hus
  · exact hm.trans (.parent ((hlater.forest.linked _ _).2 hk))
  · refine hlater.forest.children_restore ?_ ?_
    · rintro rfl
      exact hlater.forest.acyclic _ hm
    · rintro rfl
      exact hnot hm

/-- What is neither the root nor below it is as it was when the trees have been moved back. -/
theorem Turned.restore_elsewhere (hd : d.IsForest) (hlater : (d.stage root).2.Later e)
    {t : Tree Content} (h : (d.stage root).2.Turned [d.nodes.size] [t] (d.stage root).2 e)
    {x : NodeId} (hx : x < d.nodes.size) (hnot : ¬d.Above root x) :
    (e.restore d.nodes.size root).content? x = d.content? x ∧
      (x ≠ root → (e.restore d.nodes.size root).children x = d.children x) := by
  have hstaged := hd.staged root
  have hne : x ≠ d.nodes.size := Nat.ne_of_lt hx
  have hlt : x < (d.stage root).2.nodes.size := by
    rw [hstaged.size_eq]
    exact Nat.lt_succ_of_lt hx
  obtain ⟨hcontent, hchildren⟩ := h.same x hlt fun hunder ↦ by
    rcases under_singleton.1 hunder with heq | habove
    · exact hne heq.symm
    · exact hnot (hstaged.above_of_above hd habove)
  refine ⟨?_, fun hroot ↦ ?_⟩
  · rw [restore, content?_appendAll, hcontent, hstaged.content?_eq x hx]
  · rw [hlater.forest.children_restore hne hroot, hchildren, hstaged.children_eq, if_neg hne,
      if_neg hroot]

/-- Staging does not change the trees below the root. -/
theorem Staged.showsAll (h : d.Staged root e) (hd : d.IsForest)
    {ts : List (Tree (NodeId × Content))} (hts : d.ShowsAll (d.children root) ts) :
    e.Shows d.nodes.size (.node (d.nodes.size, .fragment) ts) := by
  refine ⟨congrArg (Option.map _) h.fragment, ?_⟩
  rw [h.children_eq, if_pos rfl]
  refine DrawsAllBy.congr (P := fun m ↦ d.Above root m) (fun m hm k hk ↦ ?_)
    (fun m c hm hc ↦ ?_) (fun m hm ↦ .parent ((hd.linked root m).2 hm)) hts
  · exact hm.trans (.parent ((hd.linked m k).2 hk))
  · have hlt := (hm.lt_size hd).2
    have hne : m ≠ root := by
      rintro rfl
      exact hd.acyclic m hm
    rw [h.content?_eq m hlt, h.children_eq, if_neg (Nat.ne_of_lt hlt), if_neg hne]
    exact ⟨hc, rfl⟩

end Document

section Compile

variable {σ : Type} {job : CompileJob σ} {methods : String → Event → Action σ} {w : World σ}

/-- A compilation has left behind what is said by recursion: the trees below the root, and what is
in the ledger. -/
structure Realised (job : CompileJob σ) (methods : String → Event → Action σ) (w : World σ)
    (us : List (Tree Content)) (l : Ledger) (compiled : Compiled) (w' : World σ) : Prop where
  draws : w'.scene.document.DrawsAll (w'.scene.document.children job.root) us
  /-- Nothing is touched but what is below the root. -/
  elsewhere : ∀ x < w.scene.document.nodes.size, ¬w.scene.document.Above job.root x →
    w'.scene.document.content? x = w.scene.document.content? x ∧
      (x ≠ job.root → w'.scene.document.children x = w.scene.document.children x)
  booked : Booked job methods w l ⟨compiled.scope, compiled.stats⟩ w'

theorem Booked.start (h : w.Aligned) (d : Document) :
    Booked job methods w .empty .start (w.withDocument d) where
  contents := rfl
  aligned := ⟨h.subscribers, h.reactions⟩
  stats := rfl
  watchers := .nil
  listeners := ⟨[], (List.append_nil _).symm, .nil⟩

/-- The visit of what has been staged imitates the recursion over the trees below the root. -/
theorem imitates_staged (call : Call σ) (methods : String → Event → Action σ)
    (htable : job.table = .standard)
    (hd : w.scene.document.IsForest)
    (hunforged : ∀ n, w.scene.document.Above job.root n → ∀ y,
      w.scene.document.content? n = some (.element y) → job.dialect.Unforged y)
    {ts : List (Tree (NodeId × Content))}
    (hts : w.scene.document.ShowsAll (w.scene.document.children job.root) ts) {limit : Nat}
    (hlimit : Tree.sizeAll ts < limit) :
    Imitates job methods w (w.scene.document.stage job.root).2
      (visit call job methods limit [w.scene.document.nodes.size])
      (Recursive.ofTrees w.scene.store job.state job.dialect ts)
      fun _ us e ↦ (w.scene.document.stage job.root).2.Later e ∧
        ∃ c, (w.scene.document.stage job.root).2.Turned [w.scene.document.nodes.size]
          [.node c us] (w.scene.document.stage job.root).2 e := by
  have hstaged := hd.staged job.root
  have hof : Recursive.ofTrees w.scene.store job.state job.dialect ts =
      Recursive.ofTree w.scene.store job.state job.dialect
        (.node (w.scene.document.nodes.size, .fragment) ts) >>= fun u ↦ pure u.branches := by
    rw [Recursive.ofTree, bind_assoc]
    · simp only [pure_bind, Tree.branches, bind_pure]
    all_goals exact fun _ h ↦ nomatch h
  rw [hof]
  refine visit_tree call htable (hd.stage job.root) (hstaged.showsAll hd hts) ?_
    (.refl (hd.stage job.root)) (fun _ _ ↦ ⟨rfl, rfl⟩) hlimit fun u e left _ hlater hturned ↦ ?_
  · intro m hm y hy
    rcases hm with rfl | hm
    · rw [hstaged.fragment] at hy
      cases hy
    · have habove := hstaged.above_of_above hd hm
      rw [hstaged.content?_eq m (habove.lt_size hd).2] at hy
      exact hunforged m habove y hy
  · rw [Compilation.visit]
    cases u with
    | node c us => exact .pure ⟨hlater, c, hturned⟩

/-- Below a root without children there is nothing to be compiled. -/
theorem compile_of_childless (call : Call σ) (methods : String → Event → Action σ)
    (hd : w.scene.document.IsForest) (h : w.scene.document.children job.root = []) {limit : Nat}
    (hlimit : 0 < limit) : compile call limit job methods w =
      some (.ok ⟨[], .zero⟩, w.withDocument (w.scene.document.stage job.root).2) := by
  obtain ⟨limit, rfl⟩ : ∃ k, limit = k + 1 := ⟨limit - 1, by omega⟩
  have hstaged := hd.staged job.root
  have hchildren :
      (w.scene.document.stage job.root).2.children w.scene.document.nodes.size = [] := by
    rw [hstaged.children_eq, if_pos rfl, h]
  refine compile_eq_some.2 ⟨.start, w.withDocument (w.scene.document.stage job.root).2,
    visit_cons_succeeds.2
      ⟨.start, w.withDocument (w.scene.document.stage job.root).2, ?_, ?_⟩, ?_, rfl⟩
  · show (performAll call job methods (Errand.ofNode job.table job.dialect _
      ((w.scene.document.stage job.root).2.content? w.scene.document.nodes.size))).Succeeds ..
    rw [hstaged.fragment]
    exact performAll_nil.2 ⟨rfl, rfl⟩
  · show (visit call job methods limit (if job.dialect.owns
      ((w.scene.document.stage job.root).2.content? w.scene.document.nodes.size) then [] else
        (w.scene.document.stage job.root).2.children w.scene.document.nodes.size ++ [])).Succeeds ..
    rw [hchildren, hstaged.fragment, if_neg (by simp [Dialect.owns])]
    cases limit <;> exact succeeds_pure.2 ⟨rfl, rfl, rfl⟩
  · show _ = w.withDocument ((w.scene.document.stage job.root).2.restore _ _)
    rw [restore, hchildren]
    rfl

/-- **A compilation does what is said by recursion.**  It ends with the first error if there is one,
and otherwise leaves behind the trees, the watchers, the listeners and the numbers that result. -/
theorem compile_by_recursion (call : Call σ) (methods : String → Event → Action σ) (hw : w.Sound)
    (htable : job.table = .standard)
    (hunforged : ∀ n, w.scene.document.Above job.root n → ∀ y,
      w.scene.document.content? n = some (.element y) → job.dialect.Unforged y) :
    ∃ ts, w.scene.document.ShowsAll (w.scene.document.children job.root) ts ∧
      ∀ limit, Tree.sizeAll ts < limit →
        match job.recursively w.scene.store ts with
        | .error e => ∃ w', compile call limit job methods w = some (.error e, w')
        | .ok (us, l) => ∃ compiled w', compile call limit job methods w = some (.ok compiled, w') ∧
            Realised job methods w us l compiled w' := by
  have hd := hw.forest
  obtain ⟨ts, hts⟩ : ∃ ts, w.scene.document.ShowsAll (w.scene.document.children job.root) ts := by
    refine exists_drawsAllBy fun n hn ↦ hd.exists_drawsBy (fun m hm ↦ ?_)
      (hd.lt_size_of_mem_children hn)
    obtain ⟨node, hnode⟩ := Option.isSome_iff_exists.1 ((node?_isSome_iff _ m).2 hm)
    exact ⟨(m, node.content), by rw [content?, hnode, Option.map_some, Option.map_some]⟩
  refine ⟨ts, hts, fun limit hlimit ↦ ?_⟩
  rw [CompileJob.recursively]
  by_cases hroot : w.scene.document.nodes.size ≤ job.root
  · -- nothing is below a number that no node has
    have hempty : w.scene.document.children job.root = [] := by
      rw [children, node?_eq_none _ hroot]
    obtain rfl : ts = [] := by
      rw [hempty] at hts
      cases ts with
      | nil => rfl
      | cons t ts =>
        obtain ⟨_, _, heq, -⟩ := hts
        cases heq
    have hstaged := hd.staged job.root
    refine ⟨_, _, compile_of_childless call methods hd hempty (Nat.zero_lt_of_lt hlimit), ?_,
      fun x hx _ ↦ ⟨hstaged.content?_eq x hx, fun hne ↦ ?_⟩, .start hw.toAligned _⟩
    · show (w.scene.document.stage job.root).2.children job.root = []
      rw [hstaged.children_eq, hempty, if_pos rfl, ite_self]
    · show (w.scene.document.stage job.root).2.children x = _
      rw [hstaged.children_eq, if_neg (Nat.ne_of_lt hx), if_neg hne]
  rw [Nat.not_le] at hroot
  have hrun := imitates_staged call methods htable hd hunforged hts hlimit .start
    (w.withDocument (w.scene.document.stage job.root).2) .empty rfl (.start hw.toAligned _)
  cases hr : (Recursive.ofTrees w.scene.store job.state job.dialect ts).run .empty with
  | error e =>
    rw [hr] at hrun
    obtain ⟨p, w₁, hfails⟩ := hrun
    rw [compile_eq_bind, hfails]
    exact ⟨_, rfl⟩
  | ok x =>
    obtain ⟨us, l⟩ := x
    rw [hr] at hrun
    obtain ⟨_, p, w₁, hsucceeds, hbooked, hlater, c, hturned⟩ := hrun
    refine ⟨_, _, compile_eq_some.2 ⟨p, w₁, hsucceeds, rfl, rfl⟩, ?_, fun x hx hnot ↦ ?_, ?_⟩
    · exact hturned.drawsAll_restore hd hroot hlater
    · exact hturned.restore_elsewhere hd hlater hx hnot
    · exact hbooked.widen (World.widens_of_eq hbooked.aligned rfl rfl rfl rfl) rfl

end Compile

/-! ## A card -/

/-- A link with three markers, and a paragraph. -/
def card : Document where
  nodes := #[⟨none, [1, 4], .document⟩,
    ⟨some 0, [2], .element ⟨"a", [("href", "/"), ("bind-attr:href", "/n"), ("@click", "go"),
      ("class", "x"), ("bind-text", "n")], none⟩⟩,
    ⟨some 1, [3], .element (.ofTag "b")⟩, ⟨some 2, [], .text "{{m}}"⟩,
    ⟨some 0, [5], .element (.ofTag "p")⟩, ⟨some 4, [], .text "{{n}}!"⟩]

/-- That document, and the number that it shows in an object of its own. -/
def cardWorld : World Nat :=
  (World.start card 0).withStore (Store.observe (.object [("n", .int 7)]) .empty).2

/-- Compiles the whole document against that object. -/
def cardJob : CompileJob Nat := ⟨0, .object 0, .standard, .standard, fun _ n ↦ n + 1⟩

/-- The trees of the card. -/
def cardTrees : List (Tree (NodeId × Content)) :=
  [.node (1, .element ⟨"a", [("href", "/"), ("bind-attr:href", "/n"), ("@click", "go"),
      ("class", "x"), ("bind-text", "n")], none⟩)
    [.node (2, .element (.ofTag "b")) [.node (3, .text "{{m}}") []]],
   .node (4, .element (.ofTag "p")) [.node (5, .text "{{n}}!") []]]

/-- The card in markup. -/
theorem card_isForest : card.IsForest := by
  have hparse :
      (Document.parse ("<a href='/' bind-attr:href='/n' @click='go' class='x' bind-text='n'>" ++
        "<b>{{m}}</b></a><p>{{n}}!</p>")).toOption = some card := by decide +kernel
  cases h : Document.parse _ with
  | error e =>
    rw [h] at hparse
    cases hparse
  | ok d =>
    rw [h] at hparse
    exact Option.some.inj hparse ▸ Document.parse_isForest h

theorem cardWorld_sound : cardWorld.Sound :=
  (World.robust_sound.onStore (.observe _)).kept _ _ _ rfl (World.sound_start card_isForest 0)

theorem card_showsAll : cardWorld.scene.document.ShowsAll
    (cardWorld.scene.document.children cardJob.root) cardTrees := by
  show card.ShowsAll (card.children 0) cardTrees
  simp [cardTrees, card, Document.DrawsAllBy, Document.DrawsBy, Document.children,
    Document.content?, Document.node?]

/-- The one `attr` directive of the card sets `href`, which is no marker. -/
theorem card_unforged {n : Nat} {y : Element} (hy : card.content? n = some (.element y)) :
    cardJob.dialect.Unforged y := by
  have hn : n < 6 := lt_size_of_content? hy
  obtain rfl | rfl | hrest : n = 1 ∨ n = 2 ∨ n = 0 ∨ n = 3 ∨ n = 4 ∨ n = 5 := by omega
  · cases hy
    intro a ha name hname
    have hmarkers : ∀ a ∈ ([("href", "/"), ("bind-attr:href", "/n"), ("@click", "go"),
          ("class", "x"), ("bind-text", "n")] : List (String × String)),
        Dialect.standard.classify a.1 ∈ [none, some (.directive "attr" (some "href")),
          some (.event "click"), some (.directive "text" none)] := by decide +kernel
    have hmarker := hmarkers a ha
    rw [show Dialect.standard.classify a.1 = _ from hname] at hmarker
    simp only [List.mem_cons, Option.some.injEq, Marker.directive.injEq, List.not_mem_nil, or_false,
      reduceCtorEq, false_or, true_and, and_false] at hmarker
    subst hmarker
    show Dialect.standard.classify "href" = none
    decide +kernel
  · cases hy
    exact fun _ ha ↦ nomatch ha
  · rcases hrest with rfl | rfl | rfl | rfl <;> cases hy
    exact fun _ ha ↦ nomatch ha

/-- The first link and the paragraph show the number, and the one listener waits for a click. -/
theorem compile_by_recursion_of_card :
    ∃ us l compiled w', compile (run 20) 20 cardJob (fun _ _ ↦ .done (.ok ())) cardWorld
        = some (.ok compiled, w') ∧
      Realised cardJob (fun _ _ ↦ .done (.ok ())) cardWorld us l compiled w' ∧
      String.ofList (Tree.writeAll us) = "<a href=\"/n\" class=\"x\">7</a><p>7!</p>" ∧
      l.watchers = [(.value 1 .text "n", "n"), (.template 5 "{{n}}!", "n")] ∧
      l.listeners = [(1, "click", .method "go")] ∧ l.stats = ⟨2, 1, 2, 1⟩ := by
  have hunforged : ∀ n, cardWorld.scene.document.Above cardJob.root n → ∀ y,
      cardWorld.scene.document.content? n = some (.element y) → cardJob.dialect.Unforged y :=
    fun _ _ _ hy ↦ card_unforged hy
  obtain ⟨ts, hts, hlimit⟩ :=
    compile_by_recursion (run 20) (fun _ _ ↦ .done (.ok ())) cardWorld_sound rfl hunforged
  obtain rfl : ts = cardTrees := hts.unique card_showsAll
  have hrun := hlimit 20 (by decide +kernel)
  have hmarkup : (cardJob.recursively cardWorld.scene.store cardTrees).toOption.map
      (fun x ↦ (String.ofList (Tree.writeAll x.1), x.2.stats)) =
      some ("<a href=\"/n\" class=\"x\">7</a><p>7!</p>", ⟨2, 1, 2, 1⟩) := by decide +kernel
  have hledger : (cardJob.recursively cardWorld.scene.store cardTrees).toOption.map
      (fun x ↦ (x.2.watchers, x.2.listeners)) =
      some ([(.value 1 .text "n", "n"), (.template 5 "{{n}}!", "n")],
          [(1, "click", .method "go")]) := by
    decide +kernel
  cases h : cardJob.recursively cardWorld.scene.store cardTrees with
  | error e =>
    rw [h] at hmarkup
    cases hmarkup
  | ok x =>
    obtain ⟨us, l⟩ := x
    rw [h] at hrun hmarkup hledger
    obtain ⟨compiled, w', hcompile, hrealised⟩ := hrun
    obtain ⟨hmarkup, hstats⟩ := Prod.ext_iff.1 (Option.some.inj hmarkup)
    obtain ⟨hwatchers, hlisteners⟩ := Prod.ext_iff.1 (Option.some.inj hledger)
    exact ⟨us, l, compiled, w', hcompile, hrealised, hmarkup, hwatchers, hlisteners, hstats⟩

end DataBinding

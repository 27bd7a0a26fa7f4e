import DataBinding.Document.Walk
import DataBinding.Proofs.Document.Leaves
import DataBinding.Proofs.Document.TreeMarkup

/-!
# Walks over a document come to an end

The functions that climb, visit and write are given so much fuel that it lasts in a forest.  Here
the loops are said without fuel, as relations with a record of the nodes that they enter: a
derivation is a loop that has come to an end.

* `Climbs d x way` — from `x` to the root of its tree.
* `Walks d pending way` — the pending nodes and everything below them.
* `Writes d pending entered out` — the writer, which does not look below leaves and void elements.

Every document that can be built is a forest, and in a forest **each loop ends, enters no node
twice, and enters exactly the nodes it is meant to** (`built_forest`).
-/

set_option autoImplicit false

namespace DataBinding

open Markup

/-- Whether the writer does not look below a node. -/
def Content.isShut : Content → Bool
  | .text _ | .raw _ => true
  | .element e => isVoid e.tag
  | .document | .fragment => false

namespace Document

variable {d : Document} {a n x : NodeId}

/-! ## The loops -/

/-- The nodes from a node up to the root of its tree. -/
inductive Climbs (d : Document) : NodeId → List NodeId → Prop
  | top {x : NodeId} (h : d.parent? x = none) : Climbs d x [x]
  | up {x p : NodeId} {way : List NodeId} (h : d.parent? x = some p) (hp : Climbs d p way) :
      Climbs d x (x :: way)

/-- The nodes that are visited when some are pending.  Numbers that no node has are passed over. -/
inductive Walks (d : Document) : List NodeId → List NodeId → Prop
  | done : Walks d [] []
  | unknown {n : NodeId} {pending way : List NodeId} (hn : d.node? n = none)
      (h : Walks d pending way) :
      Walks d (n :: pending) way
  | visit {n : NodeId} {pending way : List NodeId} (hn : n < d.nodes.size)
      (h : Walks d (d.children n ++ pending) way) : Walks d (n :: pending) (n :: way)

/-- The nodes that the writer enters when something is pending, and what it writes. -/
inductive Writes (d : Document) : List Pending → List NodeId → List Char → Prop
  | done : Writes d [] [] []
  | close {tag : String} {pending : List Pending} {entered : List NodeId} {out : List Char}
      (h : Writes d pending entered out) :
      Writes d (.close tag :: pending) entered (closeTag tag ++ out)
  | unknown {n : NodeId} {pending : List Pending} {entered : List NodeId} {out : List Char}
      (hn : d.node? n = none) (h : Writes d pending entered out) :
      Writes d (.enter n :: pending) entered out
  | inside {n : NodeId} {pending : List Pending} {entered : List NodeId} {out : List Char}
      (hn : d.content? n = some .document ∨ d.content? n = some .fragment)
      (h : Writes d ((d.children n).map .enter ++ pending) entered out) :
      Writes d (.enter n :: pending) (n :: entered) out
  | text {n : NodeId} {pending : List Pending} {entered : List NodeId} {out : List Char}
      {t : String} (hn : d.content? n = some (.text t)) (h : Writes d pending entered out) :
      Writes d (.enter n :: pending) (n :: entered) (escapeText t ++ out)
  | raw {n : NodeId} {pending : List Pending} {entered : List NodeId} {out : List Char}
      {markup : String} (hn : d.content? n = some (.raw markup))
      (h : Writes d pending entered out) :
      Writes d (.enter n :: pending) (n :: entered) (markup.toList ++ out)
  | void {n : NodeId} {pending : List Pending} {entered : List NodeId} {out : List Char}
      {e : Element} (hn : d.content? n = some (.element e)) (hvoid : isVoid e.tag = true)
      (h : Writes d pending entered out) :
      Writes d (.enter n :: pending) (n :: entered) (openTag e ++ out)
  | element {n : NodeId} {pending : List Pending} {entered : List NodeId} {out : List Char}
      {e : Element} (hn : d.content? n = some (.element e)) (hvoid : isVoid e.tag = false)
      (h : Writes d ((d.children n).map .enter ++ .close e.tag :: pending) entered out) :
      Writes d (.enter n :: pending) (n :: entered) (openTag e ++ out)

/-! ## Climbing -/

/-- Climbing comes to an end: a path that goes on is longer than the document has nodes. -/
theorem IsForest.exists_climbs (hd : d.IsForest) (x : NodeId) : ∃ way, d.Climbs x way := by
  have hfrom : ∀ k a way, d.Path a x way → d.nodes.size + 2 ≤ way.length + k →
      ∃ rest, d.Climbs a rest := by
    intro k
    induction k with
    | zero =>
      intro a way hpath hlong
      have hshort := hpath.length_le hd
      omega
    | succ k ih =>
      intro a way hpath hlong
      cases hparent : d.parent? a with
      | none => exact ⟨_, .top hparent⟩
      | some b =>
        obtain ⟨rest, hrest⟩ := ih b _ (hpath.concat hparent) (by
          rw [List.length_append, List.length_singleton]
          omega)
        exact ⟨_, .up hparent hrest⟩
  exact hfrom (d.nodes.size + 1) x [x] .here (by rw [List.length_singleton]; omega)

theorem Climbs.mem_iff {way : List NodeId} (h : d.Climbs x way) : a ∈ way ↔ d.AtOrAbove a x := by
  have hup : ∀ y, d.AtOrAbove a y ↔ a = y ∨ ∃ p, d.parent? y = some p ∧ d.AtOrAbove a p :=
    fun y ↦ or_congr_right above_iff
  induction h with
  | @top y hparent =>
    rw [hup y, hparent]
    simp
  | @up y p way hparent _ ih =>
    refine List.mem_cons.trans ((or_congr_right ih).trans ?_)
    rw [hup y, hparent]
    simp

theorem Climbs.nodup {way : List NodeId} (h : d.Climbs x way) (hd : d.IsForest) : way.Nodup := by
  induction h with
  | top _ => simp
  | up hparent hrest ih =>
    refine List.nodup_cons.2 ⟨fun hmem ↦ ?_, ih⟩
    exact hd.acyclic _ ((hrest.mem_iff.1 hmem).above_of_parent hparent)

/-! ## Going down -/

/-- Whether a node is at or below another one, with no node between them that is not looked into. -/
def Reaches (d : Document) (opens : Content → Bool) (n x : NodeId) : Prop :=
  d.AtOrAbove n x ∧
    ∀ y c, d.AtOrAbove n y → d.Above y x → d.content? y = some c → opens c = true

/-- From a node one reaches the node itself, and what is reached from its children if it is looked
into. -/
theorem IsForest.reaches_iff (hd : d.IsForest) {opens : Content → Bool} {c : Content}
    (hc : d.content? n = some c) : d.Reaches opens n x ↔
      x = n ∨ opens c = true ∧ ∃ k ∈ d.children n, d.Reaches opens k x := by
  constructor
  · rintro ⟨rfl | habove, hopens⟩
    · exact .inl rfl
    · obtain ⟨k, hk, hkx⟩ := habove.exists_child
      exact .inr ⟨hopens n c (.inl rfl) habove hc, k, (hd.linked n k).1 hk, hkx,
        fun y b hy ↦ hopens y b (.inr (hy.above_of_child hk))⟩
  · rintro (rfl | ⟨hopen, k, hk, hkx, hopens⟩)
    · refine ⟨.inl rfl, fun y b hxy hyx ↦ absurd ?_ (hd.acyclic x)⟩
      rcases hxy with rfl | hxy
      · exact hyx
      · exact hxy.trans hyx
    · refine ⟨.inr (hkx.above_of_child ((hd.linked n k).2 hk)), fun y b hny hyx hb ↦ ?_⟩
      rcases hny with rfl | hny
      · cases hc.symm.trans hb
        exact hopen
      · -- what lies between the two nodes is below the same child
        obtain ⟨m, hm, hmy⟩ := hny.exists_child
        cases hd.child_unique hk ((hd.linked n m).1 hm) hkx (hmy.trans (.inr hyx))
        exact hopens y b hmy hyx hb

end Document

mutual

/-- The nodes of a tree that are entered if some of them are looked into. -/
def Tree.entered (opens : Content → Bool) : Tree (NodeId × Content) → List NodeId
  | .node (n, c) ts => n :: if opens c then Tree.enteredAll opens ts else []

/-- The nodes of trees that are entered one after the other. -/
def Tree.enteredAll (opens : Content → Bool) : List (Tree (NodeId × Content)) → List NodeId
  | [] => []
  | t :: ts => t.entered opens ++ Tree.enteredAll opens ts

end

namespace Document

mutual

/-- **No node of a tree is entered twice, and what is entered is what is reached.** -/
theorem Shows.entered (opens : Content → Bool) {d : Document} (hd : d.IsForest) {n : NodeId}
    {t : Tree (NodeId × Content)} (h : d.Shows n t) :
    (t.entered opens).Nodup ∧ ∀ x, x ∈ t.entered opens ↔ d.Reaches opens n x := by
  match t with
  | .node (m, c) ts =>
    obtain ⟨rfl, hc, hts⟩ := shows_node h
    obtain ⟨hnodup, hmem⟩ := ShowsAll.entered opens hd (hd.children_apart n) hts
    have hbelow : ∀ x ∈ Tree.enteredAll opens ts, d.Above n x := by
      intro x hx
      obtain ⟨k, hk, hkx⟩ := (hmem x).1 hx
      exact hkx.1.above_of_child ((hd.linked n k).2 hk)
    rw [Tree.entered]
    refine ⟨List.nodup_cons.2 ⟨fun hn ↦ ?_, ?_⟩, fun x ↦ ?_⟩
    · split at hn
      · exact hd.acyclic n (hbelow n hn)
      · cases hn
    · split
      · exact hnodup
      · exact List.nodup_nil
    · rw [List.mem_cons, hd.reaches_iff hc]
      cases opens c with
      | true => simp only [if_true, true_and, hmem]
      | false => simp

theorem ShowsAll.entered (opens : Content → Bool) {d : Document} (hd : d.IsForest)
    {ns : List NodeId} {ts : List (Tree (NodeId × Content))} (hapart : d.Apart ns)
    (h : d.ShowsAll ns ts) :
    (Tree.enteredAll opens ts).Nodup ∧
      ∀ x, x ∈ Tree.enteredAll opens ts ↔ ∃ n ∈ ns, d.Reaches opens n x := by
  match ts with
  | [] =>
    cases h
    simp [Tree.enteredAll]
  | t :: ts =>
    obtain ⟨n, rest, rfl, ht, hts⟩ := h
    obtain ⟨hfirst, hrest⟩ := List.pairwise_cons.1 hapart
    obtain ⟨hnodup, hmem⟩ := Shows.entered opens hd ht
    obtain ⟨hnodup', hmem'⟩ := ShowsAll.entered opens hd hrest hts
    rw [Tree.enteredAll]
    refine ⟨List.nodup_append.2 ⟨hnodup, hnodup', ?_⟩, fun x ↦ ?_⟩
    · rintro x hx _ hx' rfl
      obtain ⟨k, hk, hkx⟩ := (hmem' x).1 hx'
      exact hfirst k hk x ((hmem x).1 hx).1 hkx.1
    · rw [List.mem_append, hmem, hmem']
      simp

end

mutual

theorem Shows.walks {d : Document} {n : NodeId} {t : Tree (NodeId × Content)} (h : d.Shows n t)
    {pending way : List NodeId} (hrest : d.Walks pending way) :
    d.Walks (n :: pending) (t.entered (fun _ ↦ true) ++ way) := by
  match t with
  | .node (m, c) ts =>
    obtain ⟨rfl, hc, hts⟩ := shows_node h
    exact .visit (lt_size_of_content? hc) (ShowsAll.walks hts hrest)

theorem ShowsAll.walks {d : Document} {ns : List NodeId} {ts : List (Tree (NodeId × Content))}
    (h : d.ShowsAll ns ts) {pending way : List NodeId} (hrest : d.Walks pending way) :
    d.Walks (ns ++ pending) (Tree.enteredAll (fun _ ↦ true) ts ++ way) := by
  match ts with
  | [] =>
    cases h
    exact hrest
  | t :: ts =>
    obtain ⟨n, rest, rfl, ht, hts⟩ := h
    rw [Tree.enteredAll, List.append_assoc]
    exact Shows.walks ht (ShowsAll.walks hts hrest)

end

mutual

theorem Shows.writes {d : Document} {n : NodeId} {t : Tree (NodeId × Content)} (h : d.Shows n t)
    {pending : List Pending} {entered : List NodeId} {out : List Char}
    (hrest : d.Writes pending entered out) :
    d.Writes (.enter n :: pending) (t.entered (!·.isShut) ++ entered)
      ((t.map Prod.snd).write ++ out) := by
  match t with
  | .node (m, c) ts =>
    obtain ⟨rfl, hc, hts⟩ := shows_node h
    rw [Tree.entered, Tree.map]
    cases c with
    | document => exact .inside (.inl hc) (ShowsAll.writes hts hrest)
    | fragment => exact .inside (.inr hc) (ShowsAll.writes hts hrest)
    | text t => exact .text hc hrest
    | raw markup => exact .raw hc hrest
    | element e =>
      rw [Tree.write, List.append_assoc]
      cases hvoid : isVoid e.tag with
      | true =>
        simp only [Content.isShut, hvoid, Bool.not_true, Bool.false_eq_true, if_false, if_true]
        exact .void hc hvoid hrest
      | false =>
        simp only [Content.isShut, hvoid, Bool.not_false, Bool.false_eq_true, if_false, if_true,
          List.append_assoc]
        exact .element hc hvoid (ShowsAll.writes hts (.close hrest))

theorem ShowsAll.writes {d : Document} {ns : List NodeId} {ts : List (Tree (NodeId × Content))}
    (h : d.ShowsAll ns ts) {pending : List Pending} {entered : List NodeId} {out : List Char}
    (hrest : d.Writes pending entered out) :
    d.Writes (ns.map .enter ++ pending) (Tree.enteredAll (!·.isShut) ts ++ entered)
      (Tree.writeAll (Tree.mapAll Prod.snd ts) ++ out) := by
  match ts with
  | [] =>
    cases h
    exact hrest
  | t :: ts =>
    obtain ⟨n, rest, rfl, ht, hts⟩ := h
    rw [Tree.enteredAll, Tree.mapAll, Tree.writeAll, List.append_assoc, List.append_assoc]
    exact Shows.writes ht (ShowsAll.writes hts hrest)

end

end Document

/-! ## Documents that can be built -/

namespace Document

/-- What a node adds to the text content of the nodes above it. -/
def shownText (d : Document) (n : NodeId) : String :=
  match d.content? n with
  | some (.text t) => t
  | some (.raw markup) => markup
  | _ => ""

/-- A document that is made from nothing or from markup by any edits. -/
inductive Built : Document → Prop
  | empty : Built Document.empty
  | parse {markup : String} {d : Document} (h : parse markup = .ok d) : Built d
  | edit {d : Document} (h : Built d) (edit : Edit) : Built (d.apply edit)

variable {d : Document} {a n x : NodeId}

theorem Built.isForest (h : d.Built) : d.IsForest := by
  induction h with
  | empty => exact .empty
  | parse h => exact parse_isForest h
  | edit _ edit ih => exact ih.apply edit

/-- Every node shows a tree. -/
theorem IsForest.exists_shows (hd : d.IsForest) (hn : n < d.nodes.size) : ∃ t, d.Shows n t := by
  refine hd.exists_drawsBy (fun m hm ↦ ?_) hn
  obtain ⟨c, hc⟩ := exists_content? hm
  exact ⟨(m, c), by rw [hc]; rfl⟩

theorem ShowsAll.drawsAll {ns : List NodeId} {ts : List (Tree (NodeId × Content))}
    (h : d.ShowsAll ns ts) : d.DrawsAll ns (Tree.mapAll Prod.snd ts) := by
  refine (DrawsAllBy.map h Prod.snd).congr (P := fun _ ↦ True) (fun _ _ _ _ ↦ trivial) ?_
    fun _ _ ↦ trivial
  intro m c _ hm
  cases hc : d.content? m with
  | none => rw [hc] at hm; cases hm
  | some b => rw [hc] at hm; exact ⟨hm, rfl⟩

theorem Shows.draws {t : Tree (NodeId × Content)} (h : d.Shows n t) :
    d.Draws n (t.map Prod.snd) := by
  obtain ⟨k, rest, heq, hdraws, -⟩ :=
    ShowsAll.drawsAll (show d.ShowsAll [n] [t] from ⟨n, [], rfl, h, rfl⟩)
  cases heq
  exact hdraws

/-- The walk visits what the loop visits, if its fuel lasts for as many nodes. -/
theorem Walks.visit_eq {pending way : List NodeId} (h : d.Walks pending way) (hd : d.IsForest)
    (hpending : ∀ m ∈ pending, m < d.nodes.size) {fuel : Nat} (hfuel : way.length ≤ fuel) :
    d.visit fuel pending = way := by
  induction h generalizing fuel with
  | done => cases fuel <;> rfl
  | @unknown m pending way hm _ _ =>
    have hknown := (node?_isSome_iff d m).2 (hpending m (by simp))
    rw [hm] at hknown
    cases hknown
  | @visit m pending way hm _ ih =>
    obtain ⟨fuel, rfl⟩ : ∃ k, fuel = k + 1 := ⟨fuel - 1, by rw [List.length_cons] at hfuel; omega⟩
    obtain ⟨node, hnode⟩ := Option.isSome_iff_exists.1 ((node?_isSome_iff d _).2 hm)
    have hrest := ih (fun k hk ↦ ?_) (Nat.le_of_succ_le_succ hfuel)
    · rw [children, hnode] at hrest
      rw [Document.visit, hnode]
      exact congrArg _ hrest
    · rcases List.mem_append.1 hk with hk | hk
      · exact hd.lt_size_of_mem_children hk
      · exact hpending k (by simp [hk])

/-- **Walking down comes to an end, with every node at or below the first one, each of them
once.** -/
theorem IsForest.exists_walks (hd : d.IsForest) (n : NodeId) :
    ∃ way, d.Walks [n] way ∧ way.Nodup ∧ (∀ x, x ∈ way ↔ n < d.nodes.size ∧ d.AtOrAbove n x) ∧
      d.descendants n = way := by
  by_cases hn : n < d.nodes.size
  · obtain ⟨t, ht⟩ := hd.exists_shows hn
    obtain ⟨hnodup, hmem⟩ := Shows.entered (fun _ ↦ true) hd ht
    have hwalks := Shows.walks ht .done
    rw [List.append_nil] at hwalks
    have hmem' : ∀ x, x ∈ t.entered (fun _ ↦ true) ↔ n < d.nodes.size ∧ d.AtOrAbove n x := by
      intro x
      rw [hmem]
      exact ⟨fun h ↦ ⟨hn, h.1⟩, fun h ↦ ⟨h.2, fun _ _ _ _ _ ↦ rfl⟩⟩
    refine ⟨_, hwalks, hnodup, hmem', hwalks.visit_eq hd (by simpa using hn) ?_⟩
    -- all nodes of the walk are nodes of the document
    have hsubset : t.entered (fun _ ↦ true) ⊆ List.range d.nodes.size := by
      intro x hx
      rw [List.mem_range]
      rcases ((hmem' x).1 hx).2 with rfl | habove
      · exact hn
      · exact (habove.lt_size hd).2
    have hlength := (hnodup.subperm hsubset).length_le
    rw [List.length_range] at hlength
    exact Nat.le_succ_of_le hlength
  · have hnone := node?_eq_none d (Nat.le_of_not_lt hn)
    refine ⟨[], .unknown hnone .done, List.nodup_nil, by simp [hn], ?_⟩
    rw [descendants, visit, hnone]
    cases d.nodes.size <;> rfl

/-- **Writing a node comes to an end, and enters each node once that is not inside of a leaf or of a
void element.** -/
theorem IsForest.exists_writes (hd : d.IsForest) (n : NodeId) :
    ∃ entered out, d.Writes [.enter n] entered out ∧ entered.Nodup ∧
      (∀ x, x ∈ entered ↔ n < d.nodes.size ∧ d.Reaches (!·.isShut) n x) ∧
      d.outerMarkup n = String.ofList out := by
  by_cases hn : n < d.nodes.size
  · obtain ⟨t, ht⟩ := hd.exists_shows hn
    obtain ⟨hnodup, hmem⟩ := Shows.entered (!·.isShut) hd ht
    have hwrites := Shows.writes ht .done
    rw [List.append_nil, List.append_nil] at hwrites
    exact ⟨_, _, hwrites, hnodup, fun x ↦ (hmem x).trans (by simp [hn]),
      (Shows.draws ht).outerMarkup_eq hd⟩
  · have hnone := node?_eq_none d (Nat.le_of_not_lt hn)
    refine ⟨[], [], .unknown hnone .done, List.nodup_nil, by simp [hn], ?_⟩
    rw [outerMarkup, writeFuel, writePending, hnone]
    exact congrArg _ (writePending_nil d _)

/-- So do the loops that write the children of a node, one after the other. -/
theorem IsForest.exists_writes_children (hd : d.IsForest) (n : NodeId) :
    ∃ entered out, d.Writes ((d.children n).map .enter) entered out ∧ entered.Nodup ∧
      (∀ x, x ∈ entered ↔ ∃ k ∈ d.children n, d.Reaches (!·.isShut) k x) ∧
      d.innerMarkup n = String.ofList out := by
  obtain ⟨ts, hts⟩ : ∃ ts, d.ShowsAll (d.children n) ts :=
    exists_drawsAllBy fun k hk ↦ hd.exists_shows (hd.lt_size_of_mem_children hk)
  obtain ⟨hnodup, hmem⟩ := ShowsAll.entered (!·.isShut) hd (hd.children_apart n) hts
  have hwrites := ShowsAll.writes hts .done
  rw [List.append_nil, List.append_nil, List.append_nil] at hwrites
  exact ⟨_, _, hwrites, hnodup, hmem,
    congrArg _ ((ShowsAll.drawsAll hts).flatMap_writePending hd)⟩

/-- **Every document that can be built is a forest, and every loop over its nodes comes to an end**,
from any number and without entering a node twice.  Climbing and walking down enter the nodes at or
above a node and at or below it; the writer enters those that it reaches without looking into a leaf
or a void element. -/
theorem built_forest (h : d.Built) :
    d.IsForest ∧
      (∀ x, ∃ way, d.Climbs x way ∧ way.Nodup ∧
        ∀ a, (a ∈ way ↔ d.AtOrAbove a x) ∧ (d.isInclusiveAncestor a x = true ↔ a ∈ way)) ∧
      (∀ n, ∃ way, d.Walks [n] way ∧ way.Nodup ∧
        (∀ x, x ∈ way ↔ n < d.nodes.size ∧ d.AtOrAbove n x) ∧ d.descendants n = way ∧
        d.textContent n = String.join (way.map d.shownText)) ∧
      (∀ n, ∃ entered out, d.Writes [.enter n] entered out ∧ entered.Nodup ∧
        (∀ x, x ∈ entered ↔ n < d.nodes.size ∧ d.Reaches (!·.isShut) n x) ∧
        d.outerMarkup n = String.ofList out) ∧
      ∀ n, ∃ entered out, d.Writes ((d.children n).map .enter) entered out ∧ entered.Nodup ∧
        (∀ x, x ∈ entered ↔ ∃ k ∈ d.children n, d.Reaches (!·.isShut) k x) ∧
        d.innerMarkup n = String.ofList out := by
  have hd := h.isForest
  refine ⟨hd, fun x ↦ ?_, fun n ↦ ?_, hd.exists_writes, hd.exists_writes_children⟩
  · obtain ⟨way, hway⟩ := hd.exists_climbs x
    exact ⟨way, hway, hway.nodup hd, fun a ↦
      ⟨hway.mem_iff, hd.isInclusiveAncestor_iff.trans hway.mem_iff.symm⟩⟩
  · obtain ⟨way, hwalks, hnodup, hmem, hvisit⟩ := hd.exists_walks n
    exact ⟨way, hwalks, hnodup, hmem, hvisit, by rw [textContent, hvisit]; rfl⟩

/-- The line break that was given a text. -/
def filledBreak : Document :=
  ((Document.empty.apply (.createElement "br")).apply (.createText "x")).apply (.append 1 2)

theorem built_forest_filledBreak :
    filledBreak.Built ∧ filledBreak.IsForest ∧
      ∃ way, filledBreak.Walks [1] way ∧ filledBreak.descendants 1 = way ∧ 2 ∈ way := by
  have hbuilt : filledBreak.Built := ((Built.empty.edit _).edit _).edit _
  obtain ⟨hd, -, hwalks, -⟩ := built_forest hbuilt
  obtain ⟨way, hway, -, -, hdescendants, -⟩ := hwalks 1
  exact ⟨hbuilt, hd, way, hway, hdescendants, hdescendants ▸ by decide +kernel⟩

/-- **The writer does not enter every node of a tree**: the text below the line break is left
out. -/
theorem not_written_filledBreak :
    filledBreak.Built ∧ filledBreak.AtOrAbove 1 2 ∧ filledBreak.outerMarkup 1 = "<br>" ∧
      ∀ entered out, filledBreak.Writes [.enter 1] entered out → 2 ∉ entered := by
  refine ⟨((Built.empty.edit _).edit _).edit _, .inr (.parent (by decide +kernel)),
    by decide +kernel, fun entered out h ↦ ?_⟩
  have hcontent : filledBreak.content? 1 = some (.element (Element.ofTag "br")) := by
    decide +kernel
  cases h with
  | unknown hn => exact absurd hn (by decide +kernel)
  | inside hn => simp [hcontent] at hn
  | text hn => simp [hcontent] at hn
  | raw hn => simp [hcontent] at hn
  | void _ _ h =>
    cases h
    decide
  | element hn hvoid =>
    cases hcontent.symm.trans hn
    exact absurd hvoid (by decide)

end Document

end DataBinding

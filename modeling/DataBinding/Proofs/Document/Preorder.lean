import DataBinding.Document.Selector
import DataBinding.Proofs.Document.WalkTermination

/-!
# Document order

The walks keep a list of what is still to be done.  Here the same answers are given by recursion on
the tree that is seen at a node: its labels in pre-order (`Tree.preorder`), its texts (`Tree.text`),
its markup (`Tree.write`), and the first label with a property (`Tree.first?`).

**In every document that can be built each walk is the recursion**, at each of its nodes
(`built_reads`).  Without trees, what a walk gives at a node is told by what it gives at the
children.
-/

set_option autoImplicit false

namespace DataBinding

open Markup

/-- The text that a node has itself, raw markup included. -/
def Content.ownText : Content → String
  | .text t => t
  | .raw markup => markup
  | _ => ""

/-- The markup of a node, given what is written inside of it. -/
def Content.markupAround (inside : String) : Content → String
  | .element e =>
    if isVoid e.tag then String.ofList (openTag e)
    else String.ofList (openTag e) ++ inside ++ String.ofList (closeTag e.tag)
  | .text t => String.ofList (escapeText t)
  | .raw markup => markup
  | .document | .fragment => inside

/-! ## Recursion on trees -/

namespace Tree

variable {α β : Type}

mutual

/-- The labels of a tree, a node before what is below it, and one child after the other. -/
def preorder : Tree α → List α
  | .node a ts => a :: preorderAll ts

/-- The labels of trees that stand side by side. -/
def preorderAll : List (Tree α) → List α
  | [] => []
  | t :: ts => t.preorder ++ preorderAll ts

end

mutual

/-- The texts of a tree. -/
def text : Tree Content → String
  | .node c ts => c.ownText ++ textAll ts

/-- The texts of trees that stand side by side. -/
def textAll : List (Tree Content) → String
  | [] => ""
  | t :: ts => t.text ++ textAll ts

end

mutual

/-- The first label with a property: that of the node itself, or the first one below it. -/
def first? (p : α → Bool) : Tree α → Option α
  | .node a ts => if p a then some a else firstOfAll? p ts

/-- The first label with a property in trees that stand side by side. -/
def firstOfAll? (p : α → Bool) : List (Tree α) → Option α
  | [] => none
  | t :: ts => (t.first? p).or (firstOfAll? p ts)

end

theorem preorderAll_eq (ts : List (Tree α)) : preorderAll ts = ts.flatMap preorder := by
  induction ts with
  | nil => rfl
  | cons t ts ih => rw [preorderAll, ih, List.flatMap_cons]

theorem mapAll_eq (f : α → β) (ts : List (Tree α)) : mapAll f ts = ts.map (map f) := by
  induction ts with
  | nil => rfl
  | cons t ts ih => rw [mapAll, ih, List.map_cons]

mutual

theorem length_preorder (t : Tree α) : t.preorder.length = t.size := by
  match t with
  | .node a ts => rw [preorder, size, List.length_cons, length_preorderAll]

theorem length_preorderAll (ts : List (Tree α)) : (preorderAll ts).length = sizeAll ts := by
  match ts with
  | [] => rfl
  | t :: ts => rw [preorderAll, sizeAll, List.length_append, length_preorder, length_preorderAll]

end

mutual

/-- Looking for a label is looking along the pre-order. -/
theorem first?_eq (p : α → Bool) (t : Tree α) : t.first? p = t.preorder.find? p := by
  match t with
  | .node a ts =>
    rw [first?, preorder, List.find?_cons, firstOfAll?_eq]
    cases p a <;> rfl

theorem firstOfAll?_eq (p : α → Bool) (ts : List (Tree α)) :
    firstOfAll? p ts = (preorderAll ts).find? p := by
  match ts with
  | [] => rfl
  | t :: ts => rw [firstOfAll?, preorderAll, List.find?_append, first?_eq, firstOfAll?_eq]

end

mutual

/-- What is entered when every node is looked into is the whole tree. -/
theorem entered_eq (t : Tree (NodeId × Content)) :
    t.entered (fun _ ↦ true) = (t.map Prod.fst).preorder := by
  match t with
  | .node (n, c) ts => rw [entered, if_pos rfl, enteredAll_eq, map, preorder]

theorem enteredAll_eq (ts : List (Tree (NodeId × Content))) :
    enteredAll (fun _ ↦ true) ts = preorderAll (mapAll Prod.fst ts) := by
  match ts with
  | [] => rfl
  | t :: ts => rw [enteredAll, entered_eq, enteredAll_eq, mapAll, preorderAll]

end

end Tree

/-! ## The walks -/

namespace Document

variable {d : Document} {n x : NodeId} {c : Content} {t : Tree (NodeId × Content)}

/-- Whether a node is an element that meets a selector. -/
def meets (d : Document) (selector : Selector) (n : NodeId) : Bool :=
  (d.element? n).any selector.holdsOf

/-- Two functions that agree on a node and its tree agree on nodes and their trees. -/
theorem DrawsAllBy.map_eq {α β : Type} {label : NodeId → Option α} {ns : List NodeId}
    {ts : List (Tree α)} {f : NodeId → β} {g : Tree α → β} (h : d.DrawsAllBy label ns ts)
    (hfg : ∀ n t, d.DrawsBy label n t → f n = g t) : ns.map f = ts.map g := by
  induction ts generalizing ns with
  | nil =>
    cases h
    rfl
  | cons t ts ih =>
    obtain ⟨n, rest, rfl, ht, hts⟩ := h
    rw [List.map_cons, List.map_cons, hfg n t ht, ih hts]

/-- **Walking down gives the tree in pre-order.** -/
theorem Shows.descendants_eq (h : d.Shows n t) (hd : d.IsForest) :
    d.descendants n = (t.map Prod.fst).preorder := by
  have hwalks := Shows.walks h .done
  rw [List.append_nil, Tree.entered_eq] at hwalks
  refine hwalks.visit_eq hd (fun m hm ↦ ?_) ?_
  · rw [List.mem_singleton.1 hm]
    match t with
    | .node (k, c) ts =>
      obtain ⟨b, hb, -⟩ := Option.map_eq_some_iff.1 h.1
      exact lt_size_of_content? hb
  · have hsize := (Shows.draws h).size_le hd
    rw [Tree.size_map] at hsize
    rw [Tree.length_preorder, Tree.size_map]
    exact Nat.le_succ_of_le hsize

theorem shownText_eq (hc : d.content? n = some c) : d.shownText n = c.ownText := by
  rw [shownText, hc]
  cases c <;> rfl

mutual

/-- The texts along the pre-order are the texts of the tree. -/
theorem Shows.join_ownText {n : NodeId} {t : Tree (NodeId × Content)} (h : d.Shows n t) :
    String.join ((t.map Prod.fst).preorder.map d.shownText) = (t.map Prod.snd).text := by
  match t with
  | .node (m, c) ts =>
    obtain ⟨rfl, hc, hts⟩ := shows_node h
    rw [Tree.map, Tree.preorder, List.map_cons, String.join_cons, ShowsAll.join_ownText hts,
      shownText_eq hc, Tree.map, Tree.text]

theorem ShowsAll.join_ownText {ns : List NodeId} {ts : List (Tree (NodeId × Content))}
    (h : d.ShowsAll ns ts) :
    String.join ((Tree.preorderAll (Tree.mapAll Prod.fst ts)).map d.shownText) =
      Tree.textAll (Tree.mapAll Prod.snd ts) := by
  match ts with
  | [] => rfl
  | t :: ts =>
    obtain ⟨n, rest, rfl, ht, hts⟩ := h
    rw [Tree.mapAll, Tree.preorderAll, List.map_append, String.join_append, Shows.join_ownText ht,
      ShowsAll.join_ownText hts, Tree.mapAll, Tree.textAll]

end

theorem Shows.textContent_eq (h : d.Shows n t) (hd : d.IsForest) :
    d.textContent n = (t.map Prod.snd).text := by
  rw [← Shows.join_ownText h, ← Shows.descendants_eq h hd]
  rfl

/-- Selecting is looking along the walk. -/
theorem select?_eq_find? {s : String} {selector : Selector}
    (hs : Selector.ofString? s = some selector) :
    d.select? n s = (d.descendants n).find? (d.meets selector) := by
  rw [select?, selectAll, hs, List.head?_filter]
  rfl

/-- **What is selected is the first node of the walk that meets the selector.** -/
theorem select?_eq_some_iff {s : String} : d.select? n s = some x ↔ ∃ selector before after,
    Selector.ofString? s = some selector ∧ d.descendants n = before ++ x :: after ∧
      d.meets selector x = true ∧ ∀ y ∈ before, d.meets selector y = false := by
  cases hs : Selector.ofString? s with
  | none => simp [select?, selectAll, hs]
  | some selector =>
    rw [select?_eq_find? hs, List.find?_eq_some_iff_append]
    constructor
    · rintro ⟨hx, before, after, hwalk, hbefore⟩
      exact ⟨selector, before, after, rfl, hwalk, hx, fun y hy ↦ by simpa using hbefore y hy⟩
    · rintro ⟨_, before, after, ⟨⟩, hwalk, hx, hbefore⟩
      exact ⟨hx, before, after, hwalk, fun y hy ↦ by rw [hbefore y hy]; rfl⟩

/-- Nothing is selected exactly if no node at or below the first one meets the selector. -/
theorem IsForest.select?_eq_none_iff (hd : d.IsForest) (hn : n < d.nodes.size) {s : String} :
    d.select? n s = none ↔ ∀ selector, Selector.ofString? s = some selector →
      ∀ x, d.AtOrAbove n x → d.meets selector x = false := by
  obtain ⟨way, -, -, hmem, hway⟩ := hd.exists_walks n
  cases hs : Selector.ofString? s with
  | none => simp [select?, selectAll, hs]
  | some selector =>
    rw [select?_eq_find? hs, List.find?_eq_none, hway]
    constructor
    · rintro hnone _ ⟨⟩ x hx
      simpa using hnone x ((hmem x).2 ⟨hn, hx⟩)
    · intro hnone x hx
      rw [hnone selector rfl x ((hmem x).1 hx).2]
      exact Bool.false_ne_true

theorem Shows.select?_eq (h : d.Shows n t) (hd : d.IsForest) {s : String} {selector : Selector}
    (hs : Selector.ofString? s = some selector) :
    d.select? n s = (t.map Prod.fst).first? (d.meets selector) := by
  rw [select?_eq_find? hs, Shows.descendants_eq h hd, Tree.first?_eq]

/-! ## What a walk gives at a node, told by what it gives at the children -/

/-- Walking down from a node: the node itself, then down from each child in turn. -/
theorem IsForest.descendants_eq (hd : d.IsForest) (hc : d.content? n = some c) :
    d.descendants n = n :: (d.children n).flatMap d.descendants := by
  obtain ⟨t, ht⟩ := hd.exists_shows (lt_size_of_content? hc)
  rw [Shows.descendants_eq ht hd]
  match t with
  | .node (m, b) ts =>
    obtain ⟨rfl, -, hts⟩ := shows_node ht
    have hbelow := hts.map_eq fun _ _ hk ↦ Shows.descendants_eq hk hd
    rw [Tree.map, Tree.preorder, Tree.preorderAll_eq, Tree.mapAll_eq, List.flatMap_map,
      List.flatMap_def, List.flatMap_def, hbelow]

/-- What is inside of a node is the markup of its children. -/
theorem innerMarkup_eq_join (d : Document) (n : NodeId) :
    d.innerMarkup n = String.join ((d.children n).map d.outerMarkup) := by
  rw [innerMarkup]
  induction d.children n with
  | nil => rfl
  | cons k ks ih =>
    rw [List.flatMap_cons, String.ofList_append, ih, List.map_cons, String.join_cons, outerMarkup]

/-- The markup of a node, with what is inside of it between its tags. -/
theorem IsForest.outerMarkup_eq (hd : d.IsForest) (hc : d.content? n = some c) :
    d.outerMarkup n = c.markupAround (d.innerMarkup n) := by
  obtain ⟨t, ht⟩ := hd.exists_shows (lt_size_of_content? hc)
  have hdraws := Shows.draws ht
  match t with
  | .node (m, b) ts =>
    cases hdraws.1.symm.trans hc
    rw [hdraws.outerMarkup_eq hd, hdraws.innerMarkup_eq hd, Tree.map]
    cases b with
    | element e =>
      rw [Content.markupAround, Tree.write]
      split
      · rw [List.append_nil]
      · rw [String.ofList_append, String.ofList_append, String.append_assoc]
    | raw markup => exact String.ofList_toList
    | document | fragment | text => rfl

/-- The text of a node: its own, then that of each child in turn. -/
theorem IsForest.textContent_eq (hd : d.IsForest) (hc : d.content? n = some c) :
    d.textContent n = c.ownText ++ String.join ((d.children n).map d.textContent) := by
  have htext : ∀ m, d.textContent m = String.join ((d.descendants m).map d.shownText) := fun _ ↦ rfl
  rw [htext, hd.descendants_eq hc, List.map_cons, String.join_cons, shownText_eq hc]
  congr 1
  induction d.children n with
  | nil => rfl
  | cons k ks ih =>
    rw [List.flatMap_cons, List.map_append, String.join_append, ih, List.map_cons, String.join_cons,
      htext k]

/-- **In a document that can be built every walk is the recursion on the tree below the node**,
which is also said without trees.  The markup of an element is its opening tag, what is inside of it
and its closing tag, and the opening tag alone if it is void; that of the document and of fragments
is what is inside of them.  Selecting gives the first node of the walk that meets the selector, and
nothing if none at or below the node does. -/
theorem built_reads (h : d.Built) (hc : d.content? n = some c) :
    (∃ t, d.Shows n t ∧ d.descendants n = (t.map Prod.fst).preorder ∧
      d.textContent n = (t.map Prod.snd).text ∧
      d.outerMarkup n = String.ofList (t.map Prod.snd).write ∧
      ∀ s selector, Selector.ofString? s = some selector →
        d.select? n s = (t.map Prod.fst).first? (d.meets selector)) ∧
      d.descendants n = n :: (d.children n).flatMap d.descendants ∧
      d.textContent n = c.ownText ++ String.join ((d.children n).map d.textContent) ∧
      d.outerMarkup n = c.markupAround (d.innerMarkup n) ∧
      d.innerMarkup n = String.join ((d.children n).map d.outerMarkup) ∧
      (∀ s x, d.select? n s = some x ↔ ∃ selector before after,
        Selector.ofString? s = some selector ∧ d.descendants n = before ++ x :: after ∧
          d.meets selector x = true ∧ ∀ y ∈ before, d.meets selector y = false) ∧
      ∀ s, d.select? n s = none ↔ ∀ selector, Selector.ofString? s = some selector →
        ∀ x, d.AtOrAbove n x → d.meets selector x = false := by
  have hd := h.isForest
  refine ⟨?_, hd.descendants_eq hc, hd.textContent_eq hc, hd.outerMarkup_eq hc,
    d.innerMarkup_eq_join n, fun s x ↦ ?_, fun s ↦ ?_⟩
  · obtain ⟨t, ht⟩ := hd.exists_shows (lt_size_of_content? hc)
    exact ⟨t, ht, Shows.descendants_eq ht hd, Shows.textContent_eq ht hd,
      (Shows.draws ht).outerMarkup_eq hd, fun s selector ↦ Shows.select?_eq ht hd⟩
  · exact select?_eq_some_iff
  · exact hd.select?_eq_none_iff (lt_size_of_content? hc)

/-- A page with a line break. -/
def linesMarkup : String := "<main><p class='k'>x &lt; y</p>z<br></main>"

/-- The page, in which the line break has been given a text. -/
def brokenLine : Document :=
  (((parse linesMarkup).toOption.getD .empty).apply (.createText "w")).apply (.append 5 6)

theorem built_reads_brokenLine :
    brokenLine.Built ∧ (∃ e, brokenLine.content? 1 = some (.element e) ∧
      brokenLine.outerMarkup 1 = (Content.element e).markupAround (brokenLine.innerMarkup 1)) ∧
      brokenLine.descendants 1 = [1, 2, 3, 4, 5, 6] ∧ brokenLine.textContent 1 = "x < yzw" ∧
      brokenLine.innerMarkup 1 = "<p class=\"k\">x &lt; y</p>z<br>" ∧
      brokenLine.select? 1 ".k" = some 2 ∧ brokenLine.select? 1 "td" = none := by
  have hparse : parse linesMarkup = .ok ((parse linesMarkup).toOption.getD .empty) := by
    decide +kernel
  have hbuilt : brokenLine.Built := ((Built.parse hparse).edit _).edit _
  have hmain : brokenLine.content? 1 = some (.element (Element.ofTag "main")) := by decide +kernel
  obtain ⟨-, -, -, houter, -⟩ := built_reads hbuilt hmain
  exact ⟨hbuilt, ⟨_, hmain, houter⟩, by decide +kernel, by decide +kernel, by decide +kernel,
    by decide +kernel, by decide +kernel⟩

end Document

end DataBinding

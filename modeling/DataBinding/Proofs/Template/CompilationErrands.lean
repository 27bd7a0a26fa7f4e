import DataBinding.Proofs.Document.ReplacedContent
import DataBinding.Proofs.State.Rendering
import DataBinding.Proofs.Template.VisitOrder

/-!
# The errands of a compilation

A compilation does its work in small errands: it counts something, makes a binding on a node, or
takes a marker away.  Which errands there are is decided by the contents of the nodes before any of
them is done (`Errand.ofNode`), given that directives keep to their own elements.  The latter is a
property of the table of directives, `DirectiveTable.Orderly`, and the standard table has it.

What an errand does to the document depends on the state through the texts of `Bond`s only.  A bond
says that a place in the document is kept equal to something in the state; `Errand.apply` takes the
texts of all bonds as an argument.

**The errands of one node stay with that node** (`Aside`): they change its content and, if it is an
element whose content is owned, its children, and of all other nodes at most those children.
-/

set_option autoImplicit false

namespace DataBinding

/-! ## Bonds -/

/-- A place in the document that is kept equal to something in the state. -/
inductive Bond where
  /-- A slot shows the value of an expression. -/
  | value (node : NodeId) (slot : Slot) (expr : String)
  /-- The text of a node is a template that is filled in. -/
  | template (node : NodeId) (text : String)
  deriving DecidableEq

namespace Bond

/-- The node on which it is. -/
def node : Bond → NodeId
  | .value n _ _ => n
  | .template n _ => n

/-- The slot of the node. -/
def slot : Bond → Slot
  | .value _ slot _ => slot
  | .template _ _ => .text

/-- The expressions that are watched for it. -/
def exprs : Bond → List String
  | .value _ _ expr => [expr]
  | .template _ text => Template.expressions text

/-- The text that belongs there. -/
def text (s : Store) (root : Value) : Bond → Except StateError String
  | .value _ _ expr => (s.resolve expr root).map s.display
  | .template _ text => s.filled text root

/-- The edit that puts a text there. -/
def edit (b : Bond) (text : String) : Edit := b.slot.edit b.node text

end Bond

/-- The bond that a binding makes, if it makes one. -/
def Binding.bond? (node : NodeId) : Binding → Option Bond
  | .live slot expr => some (.value node slot expr)
  | .template text => some (.template node text)
  | _ => none

/-! ## Errands -/

/-- A small piece of work. -/
inductive Errand where
  | count (f : CompileStats → CompileStats)
  | bind (node : NodeId) (binding : Binding)
  | strip (node : NodeId) (name : String)

namespace Errand

/-- The bond that an errand makes. -/
def bond? : Errand → Option Bond
  | .bind node binding => binding.bond? node
  | _ => none

/-- What an errand does to the document, given the texts of bonds. -/
def edit? (shown : Bond → String) : Errand → Option Edit
  | .count _ => none
  | .bind node (.fixed slot text) => some (slot.edit node text)
  | .bind node binding => (binding.bond? node).map fun b ↦ b.edit (shown b)
  | .strip node name => some (.removeAttribute node name)

/-- A document after an errand. -/
def apply (shown : Bond → String) (e : Errand) (d : Document) : Document :=
  match e.edit? shown with
  | none => d
  | some edit => d.apply edit

/-- The errands of a directive. -/
def ofDirective (table : DirectiveTable) (n : NodeId) (unknown kind : String)
    (directive : Directive) : List Errand :=
  match table.lookup kind with
  | none => [.bind n (.refuse (.unknownDirective unknown))]
  | some handler => (handler directive).map (.bind n)

/-- The errands of an attribute. -/
def ofAttribute (table : DirectiveTable) (dialect : Dialect) (n : NodeId)
    (a : String × String) : List Errand :=
  match dialect.classify a.1 with
  | none => []
  | some (.directive kind detail) =>
    ofDirective table n a.1 kind ⟨a.2, detail⟩ ++
      [.count fun s ↦ { s with directives := s.directives + 1 }, .strip n a.1]
  | some (.event event) =>
    ofDirective table n a.1 "on" ⟨a.2, if event.isEmpty then none else some event⟩ ++
      [.count fun s ↦ { s with events := s.events + 1 }, .strip n a.1]

/-- The errands of a node with the given content. -/
def ofNode (table : DirectiveTable) (dialect : Dialect) (n : NodeId) :
    Option Content → List Errand
  | some (.element e) =>
    .count (fun s ↦ { s with elements := s.elements + 1 }) ::
      e.attributes.flatMap (ofAttribute table dialect n)
  | some (.text text) =>
    if Template.hasExpression text then
      .count (fun s ↦ { s with texts := s.texts + 1 }) ::
        ofDirective table n "text" "text" ⟨text, none⟩
    else []
  | _ => []

/-- The errands of the nodes of a route. -/
def ofRoute (table : DirectiveTable) (dialect : Dialect) (d : Document) (way : List NodeId) :
    List Errand :=
  way.flatMap fun n ↦ ofNode table dialect n (d.content? n)

end Errand

/-! ## Directives that keep to their elements -/

/-- Whether a slot is the content of its node. -/
def Slot.isContent : Slot → Bool
  | .text | .markup => true
  | .control | .attribute _ => false

/-- Whether a binding concerns the content of its node. -/
def Binding.onContent : Binding → Bool
  | .fixed slot _ | .live slot _ => slot.isContent
  | .template _ => true
  | _ => false

/-- Whether a binding calls a method while it is made. -/
def Binding.isCall : Binding → Bool
  | .call .. => true
  | _ => false

/-- Directives call nothing while they are compiled, and concern the content of their elements only
if they own it. -/
structure DirectiveTable.Orderly (t : DirectiveTable) : Prop where
  text : t.lookup "text" = some .text
  silent : ∀ {kind handler}, t.lookup kind = some handler →
    ∀ d, ∀ b ∈ handler d, b.isCall = false
  owned : ∀ {kind handler}, t.lookup kind = some handler →
    ∀ d, ∀ b ∈ handler d, b.onContent = true → Compilation.ownsContent kind = true

/-- The kinds of the standard directives and their handlers. -/
theorem DirectiveTable.standard_cases {kind : String} {handler : DirectiveHandler}
    (h : DirectiveTable.standard.lookup kind = some handler) :
    (kind = "text" ∧ handler = .text) ∨ (kind = "markup" ∧ handler = .markup) ∨
      (kind = "value" ∧ handler = .value) ∨ (kind = "attr" ∧ handler = .attr) ∨
        (kind = "on" ∧ handler = .on) := by
  obtain ⟨l₁, l₂, heq, -⟩ := List.lookup_eq_some_iff.1 h
  have hmem : (kind, handler) ∈ DirectiveTable.standard := by
    rw [heq]
    simp
  simpa only [DirectiveTable.standard, List.mem_cons, Prod.mk.injEq, List.not_mem_nil, or_false]
    using hmem

/-- The standard directives are orderly. -/
theorem DirectiveTable.standard_orderly : DirectiveTable.standard.Orderly where
  text := rfl
  silent {kind handler} h d b hb := by
    rcases standard_cases h with ⟨-, rfl⟩ | ⟨-, rfl⟩ | ⟨-, rfl⟩ | ⟨-, rfl⟩ | ⟨-, rfl⟩
    · rw [DirectiveHandler.text] at hb
      split at hb <;> simp_all [Binding.isCall]
    · simp_all [DirectiveHandler.markup, Binding.isCall]
    · rcases List.mem_cons.1 hb with rfl | hb
      · rfl
      · simp_all [Binding.isCall]
    all_goals
      first | rw [DirectiveHandler.attr] at hb | rw [DirectiveHandler.on] at hb
      split at hb <;> simp_all [Binding.isCall]
  owned {kind handler} h d b hb hcontent := by
    rcases standard_cases h with ⟨rfl, rfl⟩ | ⟨rfl, rfl⟩ | ⟨rfl, rfl⟩ | ⟨rfl, rfl⟩ | ⟨rfl, rfl⟩
    · rfl
    · rfl
    · rcases List.mem_cons.1 hb with rfl | hb
      · cases hcontent
      · simp_all [Binding.onContent]
    all_goals
      first | rw [DirectiveHandler.attr] at hb | rw [DirectiveHandler.on] at hb
      split at hb <;> simp_all [Binding.onContent, Slot.isContent]

/-! ## Errands stay with their node -/

namespace Document

/-- What a document looks like when only one node was worked on: its content is of the same sort,
and its children are other ones at most if its content is owned. -/
structure Aside (d : Document) (n : NodeId) (owned : Bool) (e : Document) : Prop where
  size_le : d.nodes.size ≤ e.nodes.size
  content?_eq : ∀ x, x < d.nodes.size → x ≠ n → (owned = true → x ∉ d.children n) →
    e.content? x = d.content? x
  children_eq : ∀ x, (owned = true → x ≠ n) → e.children x = d.children x
  own_children : ∀ x ∈ e.children n, x ∈ d.children n ∨ d.nodes.size ≤ x
  sort : ∀ c, d.content? n = some c → ∃ c', e.content? n = some c' ∧ c.sameSort c' = true

namespace Aside

variable {d e : Document} {n : NodeId} {owned : Bool}

theorem refl (d : Document) (n : NodeId) (owned : Bool) : d.Aside n owned d :=
  ⟨Nat.le_refl _, fun _ _ _ _ ↦ rfl, fun _ _ ↦ rfl, fun _ h ↦ .inl h,
    fun c h ↦ ⟨c, h, c.sameSort_refl⟩⟩

/-- The content of the node is changed to another one of its sort. -/
theorem setContent (h : d.Aside n owned e) {c : Content}
    (hsort : ∀ c', e.content? n = some c' → c'.sameSort c = true) :
    d.Aside n owned (e.setContent n c) where
  size_le := by
    rw [size_setContent]
    exact h.size_le
  content?_eq x hx hne hch := by
    rw [content?_setContent, if_neg hne]
    exact h.content?_eq x hx hne hch
  children_eq x hx := by
    rw [children_setContent]
    exact h.children_eq x hx
  own_children x hx := by
    rw [children_setContent] at hx
    exact h.own_children x hx
  sort c₀ hc₀ := by
    obtain ⟨c', hc', hcc'⟩ := h.sort c₀ hc₀
    refine ⟨c, ?_, Content.sameSort_trans hcc' (hsort c' hc')⟩
    rw [content?_setContent, if_pos rfl, hc']
    rfl

theorem modifyElement (h : d.Aside n owned e) (f : Element → Element) :
    d.Aside n owned (e.modifyElement n f) := by
  rw [modifyElement_eq]
  split
  · rename_i x hx
    refine h.setContent fun c' hc' ↦ ?_
    rw [element?, hc'] at hx
    cases c' <;> first | rfl | cases hx
  · exact h

/-- The owned content is replaced. -/
theorem replaceContent (h : d.Aside n true e) (hd : d.IsForest) (hn : n < d.nodes.size)
    (c : Content) : d.Aside n true (e.replaceContent n c) := by
  have hr := replaceContent_replaced (Nat.lt_of_lt_of_le hn h.size_le) c
  have hspot : e.spot n c ∈ d.children n ∨ d.nodes.size ≤ e.spot n c := by
    rcases hr.spot_old with hold | hnew
    · exact h.own_children _ (by rw [hold]; exact List.mem_singleton_self _)
    · exact .inr (hnew ▸ h.size_le)
  have hne : ∀ x, x < d.nodes.size → x ∉ d.children n → x ≠ e.spot n c := by
    rintro x hx hch rfl
    exact hspot.elim hch (Nat.not_le_of_lt hx)
  have hself : n ∉ d.children n := fun hmem ↦ hd.acyclic n (.parent ((hd.linked n n).2 hmem))
  refine ⟨Nat.le_trans h.size_le hr.size_le, fun x hx hxn hch ↦ ?_, fun x hx ↦ ?_, fun x hx ↦ ?_,
    fun c₀ hc₀ ↦ ?_⟩
  · rw [hr.content?_of_ne x (Nat.lt_of_lt_of_le hx h.size_le) (hne x hx (hch rfl))]
    exact h.content?_eq x hx hxn hch
  · rw [hr.children_of_ne x (hx rfl)]
    exact h.children_eq x hx
  · rw [hr.children_self] at hx
    rwa [List.mem_singleton.1 hx]
  · rw [hr.content?_of_ne n (Nat.lt_of_lt_of_le hn h.size_le) (hne n hn hself)]
    exact h.sort c₀ hc₀

end Aside

end Document

namespace Errand

variable {d e : Document} {n : NodeId} {owned : Bool}

/-- The node that an errand works on. -/
def node? : Errand → Option NodeId
  | .count _ => none
  | .bind n _ => some n
  | .strip n _ => some n

/-- Whether an errand concerns the content of its node. -/
def onContent : Errand → Bool
  | .bind _ b => b.onContent
  | _ => false

/-- An errand works on the node of its bond. -/
theorem node?_of_bond {err : Errand} {b : Bond} (h : err.bond? = some b) :
    err.node? = some b.node := by
  cases err with
  | bind n binding => cases binding <;> first | (cases h; rfl) | cases h
  | _ => cases h

/-- An errand with a bond shows its text. -/
theorem apply_of_bond {err : Errand} {b : Bond} (h : err.bond? = some b) (shown : Bond → String)
    (d : Document) : err.apply shown d = d.apply (b.edit (shown b)) := by
  cases err with
  | bind n binding => cases binding <;> first | (cases h; rfl) | cases h
  | _ => cases h

/-- A node whose errands are done: either its content is owned, or it is a text that follows a
template, or its errands leave its content to others. -/
theorem aside_edit (h : d.Aside n owned e) (hd : d.IsForest) (hn : n < d.nodes.size) {slot : Slot}
    (hslot : slot.isContent = true → (owned = true ∧ ∃ x, d.content? n = some (.element x)) ∨
      (slot = .text ∧ ∃ t, d.content? n = some (.text t))) (text : String) :
    d.Aside n owned (e.apply (slot.edit n text)) := by
  have helement : ∀ x, d.content? n = some (.element x) →
      ∃ y, e.content? n = some (.element y) := by
    intro x hx
    obtain ⟨c, hc, hsort⟩ := h.sort _ hx
    cases c <;> first | exact ⟨_, hc⟩ | cases hsort
  cases slot with
  | control => exact h.modifyElement _
  | «attribute» name => exact h.modifyElement _
  | text =>
    rw [Slot.edit, Document.apply, Document.setText]
    rcases hslot rfl with ⟨rfl, x, hx⟩ | ⟨-, t, ht⟩
    · obtain ⟨y, hy⟩ := helement x hx
      rw [hy]
      exact h.replaceContent hd hn _
    · obtain ⟨c, hc, hsort⟩ := h.sort _ ht
      cases c with
      | text t' =>
        rw [hc]
        refine h.setContent fun c' hc' ↦ ?_
        cases hc.symm.trans hc'
        rfl
      | _ => cases hsort
  | markup =>
    rw [Slot.edit, Document.apply, Document.setMarkup]
    rcases hslot rfl with ⟨rfl, x, hx⟩ | ⟨hslot, -⟩
    · obtain ⟨y, hy⟩ := helement x hx
      rw [hy]
      exact h.replaceContent hd hn _
    · cases hslot

/-- Whether an errand calls a method. -/
def isCall : Errand → Bool
  | .bind _ b => b.isCall
  | _ => false

/-- What the errands of a node with the given content are like. -/
structure Fits (dialect : Dialect) (n : NodeId) (c : Option Content) (e : Errand) : Prop where
  node : e.node? = none ∨ e.node? = some n
  silent : e.isCall = false
  content : e.onContent = true → (dialect.owns c = true ∧ ∃ x, c = some (.element x)) ∨
    ∃ t, c = some (.text t) ∧ e = .bind n (.template t)
  element_or_text : e.node? = some n → (∃ x, c = some (.element x)) ∨
    ∃ t, c = some (.text t) ∧ e = .bind n (.template t)

/-- The errand of a text node is the one for its template. -/
theorem Fits.text {dialect : Dialect} {err : Errand} {t : String}
    (h : Fits dialect n (some (.text t)) err) (hn : err.node? = some n) :
    err = .bind n (.template t) := by
  rcases h.element_or_text hn with ⟨x, hx⟩ | ⟨t', ht', herr⟩
  · cases hx
  · cases ht'
    exact herr

section Fits

variable {table : DirectiveTable} {dialect : Dialect} {c : Option Content} {err : Errand}

theorem fits_of_free
    (hnode : err.node? = none ∨ (err.node? = some n ∧ ∃ x, c = some (.element x)))
    (hsilent : err.isCall = false) (hcontent : err.onContent = false) : Fits dialect n c err where
  node := hnode.imp_right And.left
  silent := hsilent
  content h := by
    rw [hcontent] at h
    cases h
  element_or_text hn := by
    rcases hnode with hnode | ⟨-, hnode⟩
    · cases hnode.symm.trans hn
    · exact .inl hnode

theorem fits_of_mem_ofDirective (ht : table.Orderly) {unknown kind : String}
    {directive : Directive} (helement : ∃ x, c = some (.element x))
    (howns : Compilation.ownsContent kind = true → dialect.owns c = true)
    (h : err ∈ ofDirective table n unknown kind directive) : Fits dialect n c err := by
  rw [ofDirective] at h
  cases hl : table.lookup kind with
  | none =>
    rw [hl, List.mem_singleton] at h
    subst h
    exact fits_of_free (.inr ⟨rfl, helement⟩) rfl rfl
  | some handler =>
    rw [hl, List.mem_map] at h
    obtain ⟨b, hb, rfl⟩ := h
    exact ⟨.inr rfl, ht.silent hl _ b hb,
      fun hcontent ↦ .inl ⟨howns (ht.owned hl _ b hb hcontent), helement⟩, fun _ ↦ .inl helement⟩

/-- A text with an expression is bound to itself as a template. -/
theorem ofNode_of_hasExpression (ht : table.Orderly) (n : NodeId) {t : String}
    (hexpr : Template.hasExpression t = true) : ofNode table dialect n (some (.text t)) =
      [.count fun s ↦ { s with texts := s.texts + 1 }, .bind n (.template t)] := by
  rw [ofNode, if_pos hexpr, ofDirective, ht.text]
  simp only [DirectiveHandler.text, hexpr, if_true, List.map_cons, List.map_nil]

/-- **The errands of a node fit the node.** -/
theorem fits_of_mem_ofNode (ht : table.Orderly) (h : err ∈ ofNode table dialect n c) :
    Fits dialect n c err := by
  cases c with
  | none => cases h
  | some c =>
    cases c with
    | document | fragment | raw _ => cases h
    | text t =>
      by_cases hexpr : Template.hasExpression t = true
      · rw [ofNode_of_hasExpression ht n hexpr, List.mem_cons, List.mem_singleton] at h
        rcases h with rfl | rfl
        · exact fits_of_free (.inl rfl) rfl rfl
        · exact ⟨.inr rfl, rfl, fun _ ↦ .inr ⟨t, rfl, rfl⟩, fun _ ↦ .inr ⟨t, rfl, rfl⟩⟩
      · rw [ofNode, if_neg hexpr] at h
        cases h
    | element x =>
      rw [ofNode] at h
      rcases List.mem_cons.1 h with rfl | h
      · exact fits_of_free (.inl rfl) rfl rfl
      · obtain ⟨a, ha, h⟩ := List.mem_flatMap.1 h
        rw [ofAttribute] at h
        have hrest : ∀ f, err ∈ [Errand.count f, .strip n a.1] →
            Fits dialect n (some (.element x)) err := by
          intro f hmem
          simp only [List.mem_cons, List.not_mem_nil, or_false] at hmem
          rcases hmem with rfl | rfl
          · exact fits_of_free (.inl rfl) rfl rfl
          · exact fits_of_free (.inr ⟨rfl, x, rfl⟩) rfl rfl
        cases hm : dialect.classify a.1 with
        | none =>
          rw [hm] at h
          cases h
        | some marker =>
          rw [hm] at h
          cases marker with
          | directive kind detail =>
            rcases List.mem_append.1 h with h | h
            · refine fits_of_mem_ofDirective ht ⟨x, rfl⟩ (fun howns ↦ ?_) h
              refine List.any_eq_true.2 ⟨a, ha, ?_⟩
              rw [Dialect.givesContent, hm]
              exact howns
            · exact hrest _ h
          | event event =>
            rcases List.mem_append.1 h with h | h
            · refine fits_of_mem_ofDirective ht ⟨x, rfl⟩ (fun howns ↦ ?_) h
              exact absurd howns (by decide)
            · exact hrest _ h

end Fits

/-- An errand of a node stays with it. -/
theorem aside_apply (h : d.Aside n owned e) (hd : d.IsForest) (hn : n < d.nodes.size)
    {err : Errand} (hnode : err.node? = none ∨ err.node? = some n)
    (hcontent : err.onContent = true → (owned = true ∧ ∃ x, d.content? n = some (.element x)) ∨
      ∃ t, d.content? n = some (.text t) ∧ ∃ template, err = .bind n (.template template))
    (shown : Bond → String) : d.Aside n owned (err.apply shown e) := by
  rw [apply]
  cases err with
  | count f => exact h
  | strip m name =>
    rcases hnode with hm | hm <;> cases hm
    exact h.modifyElement _
  | bind m b =>
    rcases hnode with hm | hm <;> cases hm
    cases b with
    | fixed slot text =>
      refine aside_edit h hd hn (fun hs ↦ ?_) text
      rcases hcontent hs with h | ⟨t, -, template, heq⟩
      · exact .inl h
      · cases heq
    | live slot expr =>
      refine aside_edit h hd hn (fun hs ↦ ?_) _
      rcases hcontent hs with h | ⟨t, -, template, heq⟩
      · exact .inl h
      · cases heq
    | template text =>
      show d.Aside n owned (e.apply (Slot.text.edit n (shown (.template n text))))
      refine aside_edit h hd hn (fun hs ↦ ?_) _
      rcases hcontent rfl with h | ⟨t, ht, -⟩
      · exact .inl h
      · exact .inr ⟨rfl, t, ht⟩
    | _ => exact h

/-- A document after errands in turn. -/
def painted (shown : Bond → String) (d : Document) (es : List Errand) : Document :=
  es.foldl (fun d e ↦ e.apply shown d) d

theorem painted_append (shown : Bond → String) (d : Document) (es es' : List Errand) :
    painted shown d (es ++ es') = painted shown (painted shown d es) es' :=
  List.foldl_append ..

theorem apply_isForest (hd : d.IsForest) (shown : Bond → String) (err : Errand) :
    (err.apply shown d).IsForest := by
  rw [apply]
  split
  · exact hd
  · exact hd.apply _

theorem painted_isForest (hd : d.IsForest) (shown : Bond → String) (es : List Errand) :
    (painted shown d es).IsForest := by
  induction es generalizing d with
  | nil => exact hd
  | cons err es ih => exact ih (apply_isForest hd shown err)

/-- **All errands of a node stay with it.** -/
theorem aside_painted (h : d.Aside n owned e) (hd : d.IsForest) (hn : n < d.nodes.size)
    (dialect : Dialect) (howned : dialect.owns (d.content? n) = owned) {es : List Errand}
    (hfits : ∀ err ∈ es, Fits dialect n (d.content? n) err) (shown : Bond → String) :
    d.Aside n owned (painted shown e es) := by
  induction es generalizing e with
  | nil => exact h
  | cons err es ih =>
    have hfit := hfits err (by simp)
    refine ih (aside_apply h hd hn hfit.node (fun hcontent ↦ ?_) shown)
      fun err' hmem ↦ hfits err' (by simp [hmem])
    rw [← howned]
    exact (hfit.content hcontent).imp_right fun ⟨t, ht, herr⟩ ↦ ⟨t, ht, t, herr⟩

end Errand

end DataBinding

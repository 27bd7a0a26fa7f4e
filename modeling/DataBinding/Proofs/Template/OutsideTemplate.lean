import DataBinding.Proofs.Template.CompilationTermination

/-!
# What is around a template

A compilation moves the children of its root to a fragment, works on the nodes there, and moves the
children back.  `Document.Preserved` says what this leaves as it was: the children of the root,
everything that is not below the root, and the links below it but for those of elements to which a
`text` or `markup` directive has given other children.

Which elements these are depends on how far the compilation comes.  `Executed` follows it: an
element is there when the turn of such a directive has come.  Work on a node leaves all links alone
until then (`exists_aside_node`), a visit adds up such work (`visit_framed`), and so **a compilation
preserves what is around it, at whatever point it may end** (`compile_preserves`).
-/

set_option autoImplicit false

namespace DataBinding

variable {σ : Type}

/-- Work on a node leaves at least as much alone if the content of the node is not owned. -/
theorem Document.Aside.weaken {d e : Document} {n : NodeId} {owned owned' : Bool}
    (h : d.Aside n owned e) (howned : owned = true → owned' = true) : d.Aside n owned' e where
  size_le := h.size_le
  content?_eq x hx hne hchild := h.content?_eq x hx hne fun ho ↦ hchild (howned ho)
  children_eq x hne := h.children_eq x fun ho ↦ hne (howned ho)
  own_children := h.own_children
  sort := h.sort

namespace Compilation

/-! ## Directives that have been executed -/

section Executed

variable (call : Call σ) (job : CompileJob σ) (methods : String → Event → Action σ)

/-- Going over attributes of a node, the turn of a text or markup directive comes. -/
inductive RunsOwner (n : NodeId) : List (String × String) → Progress → World σ → Prop
  | here {name value : String} {rest : List (String × String)} {p : Progress} {w : World σ}
      (hname : job.dialect.givesContent name = true) : RunsOwner n ((name, value) :: rest) p w
  | there {name value : String} {rest : List (String × String)} {p p₁ : Progress} {w w₁ : World σ}
      {owned : Bool}
      (hfirst : (visitAttribute call job methods n name value).Succeeds p w owned p₁ w₁)
      (hrest : RunsOwner n rest p₁ w₁) : RunsOwner n ((name, value) :: rest) p w

/-- Visiting the pending nodes and what is below them, the turn of a text or markup directive of a
node comes. -/
inductive Executes : Nat → List NodeId → Progress → World σ → NodeId → Prop
  | here {fuel : Nat} {n : NodeId} {pending : List NodeId} {p : Progress} {w : World σ}
      {x : Element} (hx : w.scene.document.content? n = some (.element x))
      (h : RunsOwner call job methods n x.attributes
        { p with stats := { p.stats with elements := p.stats.elements + 1 } } w) :
      Executes (fuel + 1) (n :: pending) p w n
  | later {fuel : Nat} {m n : NodeId} {pending : List NodeId} {p p₁ : Progress} {w w₁ : World σ}
      {owned : Bool} (hnode : (visitNode call job methods m).Succeeds p w owned p₁ w₁)
      (h : Executes fuel (if owned then pending else w₁.scene.document.children m ++ pending)
        p₁ w₁ n) :
      Executes (fuel + 1) (m :: pending) p w n

/-- Compiling, the turn of a text or markup directive of a node comes. -/
def Executed (limit : Nat) (w : World σ) (n : NodeId) : Prop :=
  Executes call job methods limit [w.scene.document.nodes.size] .start
    (w.withDocument (w.scene.document.stage job.root).2) n

end Executed

/-! ## Work on one node -/

section Node

variable {call : Call σ} {job : CompileJob σ} {methods : String → Event → Action σ} {d : Document}
  {n : NodeId} {owned : Bool} (hd : d.IsForest) (hn : n < d.nodes.size)

theorem keeps_document_watch {P : Document → Prop} (expr : String) (reaction : Value → Action σ) :
    Keeps (fun _ w ↦ P w.scene.document) (watch job expr reaction) := by
  refine .bind (.attemptState fun _ ↦ .bind (.change fun _ hw ↦ hw) fun id ↦
    .bind (.change fun _ hw ↦ hw) fun x ↦ ?_) fun _ ↦ .hold fun _ _ h ↦ h
  cases x with
  | error e => exact .bind (.change fun _ hw ↦ hw) fun _ ↦ .pure _
  | ok v => exact .bind (.change fun _ hw ↦ hw) fun _ ↦ .pure _

include hd hn

theorem keeps_aside_present {slot : Slot} (hslot : slot.isContent = true →
      (owned = true ∧ ∃ x, d.content? n = some (.element x)) ∨
        (slot = .text ∧ ∃ t, d.content? n = some (.text t))) (text : String) :
    Keeps (fun _ w ↦ d.Aside n owned w.scene.document) (present job n slot text) :=
  .lift fun _ ↦ .bind (.change fun _ hw ↦ hw) fun _ ↦
    .change fun _ hw ↦ Errand.aside_edit hw hd hn hslot text

/-- **A binding leaves the links alone** unless it concerns content that is owned. -/
theorem keeps_aside_bind {b : Binding} (hsilent : b.isCall = false)
    (hcontent : b.onContent = true → (owned = true ∧ ∃ x, d.content? n = some (.element x)) ∨
      ((∃ t, b = .template t) ∧ ∃ t, d.content? n = some (.text t))) :
    Keeps (fun _ w ↦ d.Aside n owned w.scene.document) (bind call job methods n b) := by
  have hlisten : ∀ event handler, Keeps (fun _ w ↦ d.Aside n owned w.scene.document)
      (listen job n event handler) := fun event handler ↦
    .lift fun _ ↦ .change fun _ hw ↦ hw
  cases b with
  | fixed slot text =>
    exact keeps_aside_present hd hn
      (fun h ↦ (hcontent h).imp_right fun ⟨⟨t, ht⟩, _⟩ ↦ by cases ht) text
  | live slot expr =>
    exact .bind (.attemptState fun _ ↦ .change fun _ hw ↦ hw) fun _ ↦ .bind (.lift fun _ ↦ .look)
      fun _ ↦ .bind (keeps_aside_present hd hn
        (fun h ↦ (hcontent h).imp_right fun ⟨⟨t, ht⟩, _⟩ ↦ by cases ht) _) fun _ ↦
          keeps_document_watch ..
  | template text =>
    exact .bind (.attemptState fun _ ↦ .change fun _ hw ↦ hw) fun _ ↦
      .bind (keeps_aside_present hd hn (fun _ ↦ (hcontent rfl).imp_right fun h ↦ ⟨rfl, h.2⟩) _)
        fun _ ↦ (Keeps.compositional fun _ _ _ h ↦ h).forM fun _ _ ↦ keeps_document_watch ..
  | writeBack expr => exact hlisten ..
  | listen event method => exact hlisten ..
  | call method event value => cases hsilent
  | refuse e => exact .refuse e

/-- A directive of an element is executed. -/
theorem keeps_aside_direct (ht : job.table.Orderly)
    (helement : ∃ x, d.content? n = some (.element x)) {kind : String}
    (howned : ownsContent kind = true → owned = true) (unknown : String) (directive : Directive) :
    Keeps (fun _ w ↦ d.Aside n owned w.scene.document)
      (direct call job methods n unknown kind directive) := by
  rw [direct]
  split
  · exact .refuse _
  · rename_i handler hlookup
    refine (Keeps.compositional fun _ _ _ h ↦ h).forM fun b hb ↦
      keeps_aside_bind hd hn (ht.silent hlookup directive b hb) fun hcontent ↦ .inl ⟨?_, helement⟩
    exact howned (ht.owned hlookup directive b hb hcontent)

/-- **An attribute leaves the links alone** unless it gives the content of its element away. -/
theorem keeps_aside_attribute (ht : job.table.Orderly)
    (helement : ∃ x, d.content? n = some (.element x)) {name : String}
    (howned : job.dialect.givesContent name = true → owned = true) (value : String) :
    Keeps (fun _ w ↦ d.Aside n owned w.scene.document)
      (visitAttribute call job methods n name value) := by
  have hstrip : Keeps (fun _ w ↦ d.Aside n owned w.scene.document)
      (lift (Run.editDocument fun d ↦ d.removeAttribute n name) : Compilation σ Unit) :=
    .lift fun _ ↦ .change fun _ hw ↦ hw.modifyElement _
  rw [Dialect.givesContent] at howned
  rw [visitAttribute]
  split
  · exact .pure _
  · rename_i kind detail hname
    rw [hname] at howned
    exact .bind (keeps_aside_direct hd hn ht helement howned _ _) fun _ ↦
      .bind (.count fun _ _ h ↦ h) fun _ ↦ .bind hstrip fun _ ↦ .pure _
  · exact .bind (keeps_aside_direct hd hn ht helement (fun h ↦ absurd h (by decide)) _ _) fun _ ↦
      .bind (.count fun _ _ h ↦ h) fun _ ↦ .bind hstrip fun _ ↦ .pure _

/-- A text with expressions is shown in its own place. -/
theorem keeps_aside_text (ht : job.table.Orderly) {t : String}
    (htext : d.content? n = some (.text t)) :
    Keeps (fun _ w ↦ d.Aside n owned w.scene.document)
      (visitContent call job methods n (some (.text t))) := by
  rw [visitContent]
  split
  · rename_i hexpr
    have hbindings : DirectiveHandler.text ⟨t, none⟩ = [.template t] := by
      rw [DirectiveHandler.text, if_pos hexpr]
    refine .bind (.count fun _ _ h ↦ h) fun _ ↦ .bind ?_ fun _ ↦ .pure _
    rw [direct, ht.text]
    dsimp only
    rw [hbindings]
    exact .bind (keeps_aside_bind hd hn rfl fun _ ↦ .inr ⟨⟨t, rfl⟩, t, htext⟩) fun _ ↦ .pure _
  · exact .pure _

/-- Going over attributes leaves the links alone until the turn of a text or markup directive
comes. -/
theorem exists_aside_attributes (ht : job.table.Orderly)
    (helement : ∃ x, d.content? n = some (.element x)) {attributes : List (String × String)}
    {p p' : Progress} {w w' : World σ} {x : Except BindError Bool}
    (h : d.Aside n owned w.scene.document)
    (hrun : (visitAttributes call job methods n attributes).run.run p w = some ((x, p'), w')) :
    ∃ owned', (owned' = true → owned = true ∨ RunsOwner call job methods n attributes p w) ∧
      d.Aside n owned' w'.scene.document := by
  induction attributes generalizing p w owned x p' w' with
  | nil =>
    cases hrun
    exact ⟨owned, .inl, h⟩
  | cons a attributes ih =>
    obtain ⟨name, value⟩ := a
    have hnow : (owned || job.dialect.givesContent name) = true →
        owned = true ∨ RunsOwner call job methods n ((name, value) :: attributes) p w := fun hor ↦
      (Bool.or_eq_true_iff.1 hor).imp_right .here
    rw [visitAttributes, run_bind] at hrun
    obtain ⟨⟨r, p₁⟩, w₁, hfirst, hrest⟩ := Run.bind_eq_some_iff.1 hrun
    have h₁ : d.Aside n (owned || job.dialect.givesContent name) w₁.scene.document :=
      (keeps_aside_attribute hd hn ht helement (fun hgives ↦ by simp [hgives]) value).kept hfirst
        (h.weaken fun ho ↦ by simp [ho])
    cases r with
    | error e =>
      cases hrest
      exact ⟨_, hnow, h₁⟩
    | ok first =>
      dsimp only at hrest
      rw [run_bind] at hrest
      obtain ⟨⟨r, p₂⟩, w₂, hothers, hend⟩ := Run.bind_eq_some_iff.1 hrest
      obtain ⟨owned', howned', h₂⟩ := ih h₁ hothers
      have hw' : w' = w₂ := by
        cases r <;> cases hend <;> rfl
      subst hw'
      exact ⟨owned', fun ho ↦ (howned' ho).elim hnow fun hlater ↦ .inr (.there hfirst hlater), h₂⟩

end Node

/-- **Visiting a node leaves the links alone** until the turn of a text or markup directive
comes. -/
theorem exists_aside_node {call : Call σ} {job : CompileJob σ} {methods : String → Event → Action σ}
    (ht : job.table.Orderly) {n : NodeId} {p p' : Progress} {w w' : World σ}
    {x : Except BindError Bool} (hd : w.scene.document.IsForest)
    (hn : n < w.scene.document.nodes.size)
    (hrun : (visitNode call job methods n).run.run p w = some ((x, p'), w')) (fuel : Nat)
    (pending : List NodeId) : ∃ owned,
      (owned = true → Executes call job methods (fuel + 1) (n :: pending) p w n) ∧
        w.scene.document.Aside n owned w'.scene.document := by
  have hcontent : (visitContent call job methods n (w.scene.document.content? n)).run.run p w =
      some ((x, p'), w') := hrun
  cases hc : w.scene.document.content? n with
  | none =>
    rw [hc] at hcontent
    cases hcontent
    exact ⟨false, nofun, .refl ..⟩
  | some c =>
    rw [hc] at hcontent
    cases c with
    | element e =>
      rw [visitContent, run_bind] at hcontent
      obtain ⟨⟨r, p₁⟩, w₁, hcount, hrest⟩ := Run.bind_eq_some_iff.1 hcontent
      cases hcount
      obtain ⟨owned, howned, haside⟩ := exists_aside_attributes hd hn ht ⟨e, hc⟩
        (.refl w.scene.document n false) hrest
      exact ⟨owned, fun ho ↦ .here hc ((howned ho).resolve_left (by simp)), haside⟩
    | text t =>
      exact ⟨false, nofun, (keeps_aside_text hd hn ht hc).kept hcontent (.refl ..)⟩
    | document | fragment | raw _ =>
      cases hcontent
      exact ⟨false, nofun, .refl ..⟩

end Compilation

/-! ## Visits -/

namespace Document

variable {d e f : Document} {top m root x : NodeId} {executed : NodeId → Prop} {owned : Bool}

/-- What a visit below a node leaves as it is: contents elsewhere, and the children of nodes whose
content has not been given away. -/
structure Framed (d : Document) (top : NodeId) (executed : NodeId → Prop) (e : Document) :
    Prop where
  content?_eq : ∀ x < d.nodes.size, ¬d.Above top x → e.content? x = d.content? x
  children_eq : ∀ x < d.nodes.size, ¬executed x → e.children x = d.children x
  below : ∀ x < d.nodes.size, executed x → d.Above top x

theorem Framed.refl (d : Document) (top : NodeId) : d.Framed top (fun _ ↦ False) d :=
  ⟨fun _ _ _ ↦ rfl, fun _ _ _ ↦ rfl, fun _ _ h ↦ h.elim⟩

/-- **Work on a node below the top.** -/
theorem Framed.aside (h : d.Framed top executed e) (hd : d.IsForest) (hcut : d.Cut e)
    (he : e.IsForest) (hm : e.Above top m) (haside : e.Aside m owned f) :
    d.Framed top (fun x ↦ executed x ∨ (owned = true ∧ x = m)) f where
  content?_eq x hx hnot := by
    have hxm : x ≠ m := by
      rintro rfl
      exact hnot (hcut.above hd hx hm)
    have hchild : x ∉ e.children m := fun hmem ↦
      hnot (hcut.above hd hx (.step ((he.linked m x).2 hmem) hm))
    rw [haside.content?_eq x (Nat.lt_of_lt_of_le hx hcut.size_le) hxm fun _ ↦ hchild]
    exact h.content?_eq x hx hnot
  children_eq x hx hnot := by
    rw [not_or, not_and] at hnot
    rw [haside.children_eq x hnot.2]
    exact h.children_eq x hx hnot.1
  below x hx := by
    rintro (ho | ⟨-, rfl⟩)
    · exact h.below x hx ho
    · exact hcut.above hd hx hm

end Document

namespace Compilation

/-- **A visit keeps what is around the nodes that it comes to**, and their links but for those of
nodes whose directives it executes. -/
theorem visit_framed {w₀ : World σ} {top : NodeId} {call : Call σ} {job : CompileJob σ}
    {methods : String → Event → Action σ} (ht : job.table.Orderly) (hd : w₀.scene.document.IsForest)
    (htop : top < w₀.scene.document.nodes.size) {fuel : Nat} {seen pending : List NodeId}
    (hseen : top ∈ seen) {executed : NodeId → Prop} {p p' : Progress} {w w' : World σ}
    {x : Except BindError Unit} (h : Touring w₀ top seen pending w)
    (hframed : w₀.scene.document.Framed top executed w.scene.document)
    (hrun : (visit call job methods fuel pending).run.run p w = some ((x, p'), w')) :
    ∃ executed', (∀ n, executed' n → executed n ∨ Executes call job methods fuel pending p w n) ∧
      w₀.scene.document.Framed top executed' w'.scene.document := by
  induction fuel generalizing seen pending executed p w with
  | zero =>
    cases pending with
    | nil =>
      cases hrun
      exact ⟨executed, fun _ ↦ .inl, hframed⟩
    | cons m pending => cases hrun
  | succ fuel ih =>
    cases pending with
    | nil =>
      cases hrun
      exact ⟨executed, fun _ ↦ .inl, hframed⟩
    | cons m pending =>
      have hmem : m ∈ seen ++ m :: pending := List.mem_append_right _ List.mem_cons_self
      have hm : top ≠ m := fun heq ↦
        (List.nodup_append.1 h.toured.nodup).2.2 top hseen m List.mem_cons_self heq
      have habove : w.scene.document.Above top m := (h.toured.reached m hmem).resolve_left hm
      have hsize : m < w.scene.document.nodes.size :=
        h.toured.lt_size (Nat.lt_of_lt_of_le htop h.cut.size_le) hmem
      rw [visit, run_bind] at hrun
      obtain ⟨⟨result, p₁⟩, w₁, hnode, hrest⟩ := Run.bind_eq_some_iff.1 hrun
      have h₁ := h.visitNode ht htop hm hnode
      obtain ⟨owned, howned, haside⟩ :=
        exists_aside_node ht h.toured.forest hsize hnode fuel pending
      have hframed₁ := hframed.aside hd h.cut h.toured.forest habove haside
      -- What is executed at this node, and what the rest of the visit executes.
      have hnow : ∀ n, executed n ∨ (owned = true ∧ n = m) →
          executed n ∨ Executes call job methods (fuel + 1) (m :: pending) p w n := by
        rintro n (hn | ⟨ho, rfl⟩)
        · exact .inl hn
        · exact .inr (howned ho)
      rcases result with e | _ | _
      · cases hrest
        exact ⟨_, hnow, hframed₁⟩
      · obtain ⟨executed', hexecuted, hframed'⟩ :=
          ih (List.mem_cons_of_mem m hseen) h₁.enter hframed₁ hrest
        exact ⟨executed', fun n hn ↦ (hexecuted n hn).elim (hnow n) fun hlater ↦
          .inr (.later hnode hlater), hframed'⟩
      · obtain ⟨executed', hexecuted, hframed'⟩ :=
          ih (List.mem_cons_of_mem m hseen) h₁.skip hframed₁ hrest
        exact ⟨executed', fun n hn ↦ (hexecuted n hn).elim (hnow n) fun hlater ↦
          .inr (.later hnode hlater), hframed'⟩

end Compilation

/-! ## Moving back -/

namespace Document

variable {d e : Document} {root x : NodeId} {executed : NodeId → Prop}

/-- A node that looks the same is the same. -/
theorem node?_ext (hd : x < d.nodes.size) (he : x < e.nodes.size)
    (hparent : e.parent? x = d.parent? x) (hchildren : e.children x = d.children x)
    (hcontent : e.content? x = d.content? x) :
    e.node? x = d.node? x := by
  have hd' : d.node? x = some d.nodes[x] := Array.getElem?_eq_getElem hd
  have he' : e.node? x = some e.nodes[x] := Array.getElem?_eq_getElem he
  rw [parent?, parent?, hd', he', Option.bind_some, Option.bind_some] at hparent
  rw [children_eq, children_eq, hd', he'] at hchildren
  rw [content?, content?, hd', he'] at hcontent
  rw [hd', he']
  cases hnode : d.nodes[x]
  cases hnode' : e.nodes[x]
  simp_all

/-- What a compilation leaves as it was.  `executed` are the nodes whose text or markup directive
has been executed. -/
structure Preserved (d : Document) (root : NodeId) (executed : NodeId → Prop) (e : Document) :
    Prop where
  children_root : e.children root = d.children root
  /-- The fragment is the first new node. -/
  fragment : e.content? d.nodes.size = some .fragment ∧ e.parent? d.nodes.size = none ∧
    e.children d.nodes.size = []
  /-- What is not below the root is as it was, the root included. -/
  node?_eq : ∀ x < d.nodes.size, ¬d.Above root x → e.node? x = d.node? x
  parent?_eq : ∀ x < d.nodes.size, (∀ p, d.parent? x = some p → ¬executed p) →
    e.parent? x = d.parent? x
  children_eq : ∀ x < d.nodes.size, ¬executed x → e.children x = d.children x

theorem Preserved.mono {executed' : NodeId → Prop} (h : d.Preserved root executed e)
    (hmore : ∀ x, executed x → executed' x) : d.Preserved root executed' e :=
  { h with
    parent?_eq := fun x hx hp ↦ h.parent?_eq x hx fun p hxp hexecuted ↦ hp p hxp (hmore p hexecuted)
    children_eq := fun x hx hnot ↦ h.children_eq x hx fun hexecuted ↦ hnot (hmore x hexecuted) }

/-- Links are as they were, but at the nodes whose directive has been executed and below them. -/
theorem Preserved.links (h : d.Preserved root executed e) (hx : x < d.nodes.size)
    (hapart : ∀ n, executed n → ¬d.AtOrAbove n x) :
    e.parent? x = d.parent? x ∧ e.children x = d.children x :=
  ⟨h.parent?_eq x hx fun p hp hexecuted ↦ hapart p hexecuted (.inr (.parent hp)),
    h.children_eq x hx fun hexecuted ↦ hapart x hexecuted (.inl rfl)⟩

section Restore

variable (hd : d.IsForest) (hcut : (d.stage root).2.Cut e) (he : e.IsForest)
  (hchildren : e.children d.nodes.size = d.children root)

include hd hcut he hchildren

/-- The children of the root are moved back, if there are any. -/
theorem moved_back : e.Moved root (d.children root) (e.restore d.nodes.size root) := by
  have hstaged := hd.staged root
  rcases Nat.lt_or_ge root d.nodes.size with hroot | hout
  · have hsize : root < (d.stage root).2.nodes.size :=
      hstaged.lt_size hroot
    have hbelow : ¬e.AtOrAbove d.nodes.size root := by
      rintro (heq | habove)
      · exact Nat.lt_irrefl _ (heq ▸ hroot)
      · exact hstaged.not_above hd (hcut.above (hd.stage root) hsize habove)
    rw [← hchildren]
    exact moved_of_restore he (Nat.lt_of_lt_of_le hsize hcut.size_le) hbelow
  · rw [restore, hchildren, children_of_size_le d hout]
    exact ⟨by simp [appendAll], by simp [appendAll], fun _ ↦ rfl, rfl⟩

/-- The fragment is left by itself. -/
theorem fragment_moved_back (hdetached : e.parent? d.nodes.size = none) :
    (e.restore d.nodes.size root).parent? d.nodes.size = none ∧
      (e.restore d.nodes.size root).children d.nodes.size = [] := by
  have hmoved := moved_back hd hcut he hchildren
  have hfragment : d.nodes.size ∉ d.children root := fun hmem ↦
    Nat.lt_irrefl _ (hd.lt_size_of_mem_children hmem)
  have hgone : (d.children root).filter (· ∉ d.children root) = [] := by
    rw [List.filter_eq_nil_iff]
    simp
  refine ⟨?_, ?_⟩
  · rw [hmoved.parent?_eq, if_neg hfragment, hdetached]
  · rw [hmoved.children_eq, hchildren, hgone, List.nil_append]
    split
    · rename_i hroot
      exact children_of_size_le d (Nat.le_of_eq hroot)
    · rfl

variable (hframed : (d.stage root).2.Framed d.nodes.size executed e)

include hframed

/-- **A parent is the same again**, if no directive has given it other children. -/
theorem parent?_moved_back (hx : x < d.nodes.size)
    (hp : ∀ p, d.parent? x = some p → ¬executed p) :
    (e.restore d.nodes.size root).parent? x = d.parent? x := by
  have hstaged := hd.staged root
  rw [(moved_back hd hcut he hchildren).parent?_eq]
  by_cases hchild : x ∈ d.children root
  · rw [if_pos hchild, (hd.linked root x).2 hchild]
  · have hsame : (d.stage root).2.parent? x = d.parent? x := by
      rw [hstaged.parent?_eq, if_neg hchild]
    rw [if_neg hchild, ← hsame]
    refine Option.ext fun p ↦ ⟨hcut.parent? x (hstaged.lt_size hx) p, fun hxp ↦ ?_⟩
    have hmem := ((hd.stage root).linked p x).1 hxp
    rw [he.linked, hframed.children_eq p (Document.lt_size_of_mem_children hmem)
      (hp p (hsame ▸ hxp))]
    exact hmem

/-- **Children are the same again**, unless a directive has given others. -/
theorem children_moved_back (hx : x < d.nodes.size) (hnot : ¬executed x) :
    (e.restore d.nodes.size root).children x = d.children x := by
  have hstaged := hd.staged root
  rw [(moved_back hd hcut he hchildren).children_eq, hframed.children_eq x
    (hstaged.lt_size hx) hnot, hstaged.children_eq, if_neg (Nat.ne_of_lt hx)]
  by_cases hroot : x = root
  · rw [if_pos hroot, if_pos hroot, hroot, List.filter_nil, List.nil_append]
  · rw [if_neg hroot, if_neg hroot, List.append_nil, List.filter_eq_self]
    intro c hc
    have hother : c ∉ d.children root := by
      intro hmem
      rw [← hd.linked] at hc hmem
      cases hc.symm.trans hmem
      exact hroot rfl
    simpa using hother

/-- What a visit has left as it was is preserved when the nodes are moved back. -/
theorem Framed.preserved (hdetached : e.parent? d.nodes.size = none)
    (hunknown : d.nodes.size ≤ root → e = (d.stage root).2) :
    d.Preserved root executed (e.restore d.nodes.size root) := by
  have hstaged := hd.staged root
  have hmoved := moved_back hd hcut he hchildren
  have hnew : d.nodes.size < (d.stage root).2.nodes.size :=
    hstaged.fragment_lt_size
  have hbelow : ∀ x < d.nodes.size, executed x → d.Above root x := fun x hx hexecuted ↦
    hstaged.above_of_above hd (hframed.below x (hstaged.lt_size hx) hexecuted)
  have hparent := fun x (hx : x < d.nodes.size) ↦
    parent?_moved_back hd hcut he hchildren hframed hx
  have hlinks := fun x (hx : x < d.nodes.size) ↦
    children_moved_back hd hcut he hchildren hframed hx
  refine ⟨?_, ⟨?_, fragment_moved_back hd hcut he hchildren hdetached⟩, fun x hx hnot ↦ ?_, hparent,
    hlinks⟩
  · rcases Nat.lt_or_ge root d.nodes.size with hroot | hout
    · exact hlinks root hroot fun hexecuted ↦ hd.acyclic root (hbelow root hroot hexecuted)
    · rw [hmoved.children_eq, hunknown hout, hstaged.children_eq, children_of_size_le d hout]
      simp
  · rw [hmoved.content?_eq, hframed.content?_eq _ hnew ((hd.stage root).acyclic _),
      hstaged.fragment]
  · have habove : ∀ p, d.parent? x = some p → ¬executed p := by
      intro p hp hexecuted
      have hlt := (Above.lt_size hd (.parent hp)).1
      exact hnot (.step hp (hbelow p hlt hexecuted))
    have hcontent : (e.restore d.nodes.size root).content? x = d.content? x := by
      rw [hmoved.content?_eq, hframed.content?_eq x (hstaged.lt_size hx)
        (fun h ↦ hnot (hstaged.above_of_above hd h)), hstaged.content?_eq x hx]
    have hrange : x < (e.restore d.nodes.size root).nodes.size :=
      Nat.lt_of_lt_of_eq (Nat.lt_of_lt_of_le (hstaged.lt_size hx) hcut.size_le) hmoved.size_eq.symm
    exact node?_ext hx hrange (hparent x hx habove) (hlinks x hx fun h ↦ hnot (hbelow x hx h))
      hcontent

end Restore

end Document

/-! ## Compilations -/

namespace Compilation

section Compile

variable {call : Call σ} {limit : Nat} {job : CompileJob σ} {methods : String → Event → Action σ}
  {w w' : World σ} (ht : job.table.Orderly) (hd : w.scene.document.IsForest)

include ht hd

/-- When the visit is over, what is around it is as it was, and the fragment still has its
children. -/
theorem visit_staged_framed {x : Except BindError Unit} {p : Progress}
    (hrun : (visit call job methods limit [w.scene.document.nodes.size]).run.run .start
      (w.withDocument (w.scene.document.stage job.root).2) = some ((x, p), w')) :
    (∃ executed, (∀ n, executed n → Executed call job methods limit w n) ∧
      (w.scene.document.stage job.root).2.Framed w.scene.document.nodes.size executed
        w'.scene.document) ∧
      ∃ seen pending, Touring (w.withDocument (w.scene.document.stage job.root).2)
        w.scene.document.nodes.size seen pending w' := by
  have hstaged := hd.staged job.root
  have htop : w.scene.document.nodes.size < (w.scene.document.stage job.root).2.nodes.size :=
    hstaged.fragment_lt_size
  cases limit with
  | zero => cases hrun
  | succ fuel =>
    rw [visit_fragment hstaged.fragment] at hrun
    refine ⟨?_, visit_touring ht htop (List.mem_singleton_self _) (.start hd job.root) hrun⟩
    obtain ⟨executed, hexecuted, hframed⟩ := visit_framed ht (hd.stage job.root) htop
      (List.mem_singleton_self _) (.start hd job.root) (.refl _ _) hrun
    refine ⟨executed, fun n hn ↦ .later (visitNode_fragment hstaged.fragment) ?_, hframed⟩
    have hlater := (hexecuted n hn).resolve_left id
    rwa [if_neg (by simp), List.append_nil]

/-- **What a compilation preserves**, given its result. -/
theorem preserved_of_compile {x : Except BindError Compiled}
    (hrun : compile call limit job methods w = some (x, w')) :
    w.scene.document.Preserved job.root (Executed call job methods limit w) w'.scene.document := by
  have hstaged := hd.staged job.root
  rw [compile_eq_bind] at hrun
  obtain ⟨⟨⟨result, p⟩, w₁⟩, hvisit, hfinish⟩ := Option.bind_eq_some_iff.1 hrun
  have hdocument : w'.scene.document =
      w₁.scene.document.restore w.scene.document.nodes.size job.root := by
    cases result <;> cases hfinish <;> rfl
  obtain ⟨⟨executed, hexecuted, hframed⟩, seen, pending, htouring⟩ :=
    visit_staged_framed ht hd hvisit
  have hchildren : w₁.scene.document.children w.scene.document.nodes.size =
      w.scene.document.children job.root := by
    rw [htouring.children_top]
    exact (hstaged.children_eq _).trans (if_pos rfl)
  -- Nothing is below a root that is no node, so nothing is done to the fragment.
  have hunknown : w.scene.document.nodes.size ≤ job.root →
      w₁.scene.document = (w.scene.document.stage job.root).2 := by
    intro hout
    have hnone : (w.scene.document.stage job.root).2.children w.scene.document.nodes.size = [] := by
      rw [hstaged.children_eq, if_pos rfl, Document.children_of_size_le _ hout]
    cases limit with
    | zero => cases hvisit
    | succ fuel =>
      rw [visit_fragment hstaged.fragment] at hvisit
      change (visit call job methods fuel
        ((w.scene.document.stage job.root).2.children _)).run.run _ _ = _ at hvisit
      rw [hnone, visit] at hvisit
      cases hvisit
      rfl
  rw [hdocument]
  exact (Document.Framed.preserved hd htouring.cut htouring.toured.forest hchildren hframed
    htouring.toured.detached hunknown).mono hexecuted

/-- **A compilation preserves what is around it**, whether it succeeds or not, and it ends if its
limit is above the number of nodes.  The root has the children that it had, the fragment is left
empty and by itself, nothing outside of the root is changed, and below it the links of a node are
changed only at or below an element whose text or markup directive has been executed. -/
theorem compile_preserves :
    (w.scene.document.nodes.size < limit → ∃ x w',
        compile call limit job methods w = some (x, w')) ∧
      ∀ x w', compile call limit job methods w = some (x, w') →
        w.scene.document.Preserved job.root (Executed call job methods limit w) w'.scene.document ∧
          ∀ n < w.scene.document.nodes.size,
            (∀ m, Executed call job methods limit w m → ¬w.scene.document.AtOrAbove m n) →
              w'.scene.document.parent? n = w.scene.document.parent? n ∧
                w'.scene.document.children n = w.scene.document.children n := by
  refine ⟨exists_result ht hd, fun x w' hrun ↦ ?_⟩
  have hpreserved := preserved_of_compile ht hd hrun
  exact ⟨hpreserved, fun n hn hapart ↦ hpreserved.links hn hapart⟩

end Compile

/-! ## A failure half-way -/

/-- A box with a paragraph that gets a text and with an expression that has no value, and a line
after the box. -/
def boxedPage : World Unit :=
  .ofTemplate "<div><p bind-text=\"n\"><b>old</b></p><i bind-text=\"x.y\"></i></div><hr>"
    (.object [("n", .int 7), ("x", .int 1)])

/-- Only what is in the box is compiled. -/
def boxedJob : CompileJob Unit := ⟨1, .object 0, .standard, .standard, fun _ data ↦ data⟩

/-- The paragraph has lost its child when the compilation fails, but the box has both of its own,
and the line is as it was. -/
theorem compile_preserves_boxedPage : ∃ e w',
    compile (run 1) 8 boxedJob (fun _ _ ↦ .done (.ok ())) boxedPage = some (.error e, w') ∧
      boxedPage.scene.document.children 2 = [3] ∧ 3 ∉ w'.scene.document.children 2 ∧
      w'.scene.document.children 1 = boxedPage.scene.document.children 1 ∧
      w'.scene.document.node? 6 = boxedPage.scene.document.node? 6 ∧
      w'.scene.document.content? 7 = some .fragment ∧ w'.scene.document.children 7 = [] := by
  have hfails : ((compile (run 1) 8 boxedJob (fun _ _ ↦ .done (.ok ())) boxedPage).map fun r ↦
      (r.1.isOk, r.2.scene.document.children 2)) = some (false, [8]) := by decide +kernel
  have hbefore : boxedPage.scene.document.nodes.size = 7 ∧
      boxedPage.scene.document.children 2 = [3] ∧
      boxedPage.scene.document.isInclusiveAncestor 1 6 = false := by decide +kernel
  obtain ⟨hsize, hchildren, hbeside⟩ := hbefore
  have hforest : boxedPage.scene.document.IsForest := (World.sound_ofMarkup _).forest
  have houtside : ¬boxedPage.scene.document.Above 1 6 := fun habove ↦
    Bool.noConfusion ((hforest.isInclusiveAncestor_iff.2 (.inr habove)).symm.trans hbeside)
  have hstandard : boxedJob.table.Orderly := DirectiveTable.standard_orderly
  obtain ⟨⟨e | compiled, w'⟩, hrun, heq⟩ := Option.map_eq_some_iff.1 hfails
  · obtain ⟨hpreserved, -⟩ := (compile_preserves hstandard hforest).2 _ _ hrun
    obtain ⟨hfragment, -, hempty⟩ := hpreserved.fragment
    rw [hsize] at hfragment hempty
    simp only [Prod.mk.injEq] at heq
    refine ⟨e, w', hrun, hchildren, by simp [heq.2], hpreserved.children_root,
      hpreserved.node?_eq 6 (by rw [hsize]; decide) houtside, hfragment, hempty⟩
  · simp [Except.isOk, Except.toBool] at heq

end Compilation

end DataBinding

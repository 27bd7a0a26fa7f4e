import DataBinding.Proofs.Document.ReplacedContent
import DataBinding.Proofs.Template.RouteErrands

/-!
# Working on nodes in document order

A compilation works on one node after the other, and what it does to a node may unlink the children
of the node and put new nodes below it (`Around`).  So links are cut, but no node that was there is
put below another one (`Cut`).

`d.Toured top seen pending` is what stays true on a tour through the nodes below `top`: those that
have been worked on and those that are pending are linked to `top` through nodes that have been
worked on.  Because **the children of a node are not among them before its turn**
(`Toured.not_child`), work on the node does not cut any of these links.  Hence all of them are below
the root when the tour is over, whether it came to its end or not (`Toured.above_restore`).
-/

set_option autoImplicit false

namespace DataBinding

variable {σ : Type}

namespace Document

variable {d e f : Document} {n m top root x p : NodeId} {seen pending : List NodeId}

/-! ## Cutting links -/

/-- A node of the first document has the parent in the second one that it had there, or none. -/
structure Cut (d e : Document) : Prop where
  size_le : d.nodes.size ≤ e.nodes.size
  parent? : ∀ x < d.nodes.size, ∀ p, e.parent? x = some p → d.parent? x = some p

namespace Cut

theorem refl (d : Document) : d.Cut d := ⟨Nat.le_refl _, fun _ _ _ h ↦ h⟩

theorem trans (h : d.Cut e) (h' : e.Cut f) : d.Cut f where
  size_le := Nat.le_trans h.size_le h'.size_le
  parent? x hx p hp := h.parent? x hx p (h'.parent? x (Nat.lt_of_lt_of_le hx h.size_le) p hp)

/-- Whatever is above an old node was above it from the start. -/
theorem above (h : d.Cut e) (hd : d.IsForest) {a : NodeId} (hx : x < d.nodes.size)
    (habove : e.Above a x) : d.Above a x := by
  induction habove with
  | parent hp => exact .parent (h.parent? _ hx _ hp)
  | step hp _ ih =>
    have hpx := h.parent? _ hx _ hp
    exact .step hpx (ih (Above.lt_size hd (.parent hpx)).1)

end Cut

/-! ## Work on one node -/

/-- What a document looks like when only one node was worked on: the other ones have the children
they had, and it has none but some of its own and new ones. -/
structure Around (d : Document) (n : NodeId) (e : Document) : Prop where
  forest : e.IsForest
  size_le : d.nodes.size ≤ e.nodes.size
  children_of_ne : ∀ x, x ≠ n → e.children x = d.children x
  own_children : ∀ x ∈ e.children n, x ∈ d.children n ∨ d.nodes.size ≤ x

namespace Around

theorem refl (hd : d.IsForest) (n : NodeId) : d.Around n d :=
  ⟨hd, Nat.le_refl _, fun _ _ ↦ rfl, fun _ h ↦ .inl h⟩

theorem setContent (hd : d.IsForest) (n i : NodeId) (c : Content) : d.Around n (d.setContent i c) :=
  ⟨hd.setContent i c, Nat.le_of_eq (size_setContent ..).symm, fun x _ ↦ children_setContent ..,
    fun x hx ↦ .inl (by rwa [children_setContent] at hx)⟩

theorem modifyElement (hd : d.IsForest) (n : NodeId) (f : Element → Element) :
    d.Around n (d.modifyElement n f) := by
  rw [modifyElement_eq]
  split
  · exact setContent hd n n _
  · exact .refl hd n

theorem replaceContent (hd : d.IsForest) (hn : n < d.nodes.size) (c : Content) :
    d.Around n (d.replaceContent n c) := by
  have h := replaceContent_replaced hn c
  refine ⟨hd.replaceContent n c, h.size_le, h.children_of_ne, fun x hx ↦ ?_⟩
  rw [h.children_self, List.mem_singleton] at hx
  subst hx
  exact h.spot_old.imp (fun hold ↦ by rw [hold]; exact List.mem_singleton_self _) fun hnew ↦
    Nat.le_of_eq hnew.symm

/-- Showing a text in a slot of a node is work on that node. -/
theorem apply_edit (hd : d.IsForest) (slot : Slot) (n : NodeId) (text : String) :
    d.Around n (d.apply (slot.edit n text)) := by
  cases slot with
  | control => exact modifyElement hd n _
  | «attribute» name => exact modifyElement hd n _
  | text =>
    rw [Slot.edit, apply, setText]
    split
    · exact setContent hd n n _
    · rename_i h
      exact replaceContent hd (lt_size_of_content? h) _
    · rename_i h
      exact replaceContent hd (lt_size_of_content? h) _
    · rename_i h
      exact replaceContent hd (lt_size_of_content? h) _
    · exact .refl hd n
  | markup =>
    rw [Slot.edit, apply, setMarkup]
    split
    · exact setContent hd n n _
    · exact setContent hd n n _
    · rename_i h
      exact replaceContent hd (lt_size_of_content? h) _
    · exact .refl hd n

/-- The children of the node aside, everybody keeps the parent. -/
theorem parent?_eq (h : d.Around n e) (hd : d.IsForest) (hx : x < d.nodes.size)
    (hchild : x ∉ d.children n) : e.parent? x = d.parent? x := by
  refine Option.ext fun p ↦ ?_
  rw [h.forest.linked, hd.linked]
  by_cases hp : p = n
  · subst hp
    exact ⟨fun hmem ↦ absurd (h.own_children x hmem) fun hor ↦
      hor.elim hchild (Nat.not_le_of_lt hx), fun hmem ↦ absurd hmem hchild⟩
  · rw [h.children_of_ne p hp]

/-- **Work on a node only cuts links.** -/
theorem cut (h : d.Around n e) (hd : d.IsForest) : d.Cut e where
  size_le := h.size_le
  parent? x hx p hp := by
    rw [h.forest.linked] at hp
    rw [hd.linked]
    by_cases hpn : p = n
    · subst hpn
      exact (h.own_children x hp).resolve_right (Nat.not_le_of_lt hx)
    · rwa [← h.children_of_ne p hpn]

end Around

/-! ## Tours -/

/-- The nodes that have been worked on and the ones that are pending are linked to the top through
nodes that have been worked on. -/
structure Toured (d : Document) (top : NodeId) (seen pending : List NodeId) : Prop where
  forest : d.IsForest
  detached : d.parent? top = none
  nodup : (seen ++ pending).Nodup
  up : ∀ n ∈ seen ++ pending, n = top ∨ ∃ p ∈ seen, d.parent? n = some p
  reached : ∀ n ∈ seen ++ pending, d.AtOrAbove top n

namespace Toured

/-- A tour begins with the children of the top. -/
theorem start (hd : d.IsForest) (htop : d.parent? top = none) :
    d.Toured top [top] (d.children top) where
  forest := hd
  detached := htop
  nodup := by
    rw [List.singleton_append, List.nodup_cons, ← hd.linked, htop]
    exact ⟨nofun, hd.nodup top⟩
  up n hn := (List.mem_cons.1 hn).imp_right fun hchild ↦
    ⟨top, List.mem_singleton_self _, (hd.linked top n).2 hchild⟩
  reached n hn := (List.mem_cons.1 hn).elim (fun heq ↦ .inl heq.symm) fun hchild ↦
    .inr (.parent ((hd.linked top n).2 hchild))

/-- **The children of a node are not on the tour before its turn.** -/
theorem not_child (h : d.Toured top seen (m :: pending)) (hn : n ∈ seen ++ m :: pending) :
    n ∉ d.children m := by
  intro hchild
  have hparent := (h.forest.linked m n).2 hchild
  rcases h.up n hn with rfl | ⟨p, hp, hup⟩
  · rw [h.detached] at hparent
    cases hparent
  · cases hup.symm.trans hparent
    exact (List.nodup_append.1 h.nodup).2.2 m hp m List.mem_cons_self rfl

/-- Whatever is above a node of the tour is on the tour. -/
theorem mem_of_atOrAbove (h : d.Toured top seen pending) (hn : n ∈ seen ++ pending)
    (hx : d.AtOrAbove x n) : x ∈ seen ++ pending := by
  have hup : ∀ {n p}, n ∈ seen ++ pending → d.parent? n = some p → p ∈ seen ++ pending := by
    intro n p hn hp
    rcases h.up n hn with rfl | ⟨q, hq, hup⟩
    · rw [h.detached] at hp
      cases hp
    · cases hup.symm.trans hp
      exact List.mem_append_left _ hq
  rcases hx with rfl | hx
  · exact hn
  · induction hx with
    | parent hp => exact hup hn hp
    | step hp _ ih => exact ih (hup hn hp)

theorem lt_size (h : d.Toured top seen pending) (htop : top < d.nodes.size)
    (hn : n ∈ seen ++ pending) : n < d.nodes.size := by
  rcases h.reached n hn with rfl | habove
  · exact htop
  · exact (habove.lt_size h.forest).2

/-- **Work on the node whose turn it is leaves the tour as it is.** -/
theorem around (h : d.Toured top seen (m :: pending)) (htop : top < d.nodes.size)
    (he : d.Around m e) : e.Toured top seen (m :: pending) := by
  have hparent : ∀ n ∈ seen ++ m :: pending, e.parent? n = d.parent? n := fun n hn ↦
    he.parent?_eq h.forest (h.lt_size htop hn) (h.not_child hn)
  refine ⟨he.forest, ?_, h.nodup, fun n hn ↦ ?_, fun n hn ↦ ?_⟩
  · have hchild : top ∉ d.children m := fun hmem ↦ by
      cases h.detached.symm.trans ((h.forest.linked m top).2 hmem)
    rw [he.parent?_eq h.forest htop hchild, h.detached]
  · rw [hparent n hn]
    exact h.up n hn
  · exact (h.reached n hn).imp_right fun habove ↦
      habove.of_parents fun y hy ↦ hparent y (h.mem_of_atOrAbove hn hy)

/-- The tour leaves out what is below the node. -/
theorem skip (h : d.Toured top seen (m :: pending)) : d.Toured top (m :: seen) pending where
  forest := h.forest
  detached := h.detached
  nodup := List.perm_middle.nodup_iff.1 h.nodup
  up n hn := (h.up n (List.perm_middle.mem_iff.2 hn)).imp_right fun ⟨p, hp, hup⟩ ↦
    ⟨p, List.mem_cons_of_mem m hp, hup⟩
  reached n hn := h.reached n (List.perm_middle.mem_iff.2 hn)

/-- The tour goes on with the children of the node. -/
theorem enter (h : d.Toured top seen (m :: pending)) :
    d.Toured top (m :: seen) (d.children m ++ pending) := by
  have hsplit : ∀ {n}, n ∈ m :: seen ++ (d.children m ++ pending) →
      n ∈ d.children m ∨ n ∈ seen ++ m :: pending := by
    intro n hn
    simp only [List.cons_append, List.mem_cons, List.mem_append] at hn ⊢
    tauto
  have hparent : ∀ {n}, n ∈ d.children m → d.parent? n = some m := fun hn ↦
    (h.forest.linked m _).2 hn
  refine ⟨h.forest, h.detached, ?_, fun n hn ↦ ?_, fun n hn ↦ ?_⟩
  · have hskip := h.skip.nodup
    rw [List.nodup_append] at hskip ⊢
    refine ⟨hskip.1, List.nodup_append.2 ⟨h.forest.nodup m, hskip.2.1, fun a ha b hb heq ↦ ?_⟩,
      fun a ha b hb heq ↦ ?_⟩
    · exact h.not_child (List.mem_append_right _ (List.mem_cons_of_mem m hb)) (heq ▸ ha)
    · subst heq
      refine (List.mem_append.1 hb).elim (fun hchild ↦ ?_) fun hb ↦ hskip.2.2 a ha a hb rfl
      have hseen : a ∈ m :: seen ++ pending := List.mem_append_left _ ha
      exact h.not_child (List.perm_middle.mem_iff.2 hseen) hchild
  · exact (hsplit hn).elim (fun hchild ↦ .inr ⟨m, List.mem_cons_self, hparent hchild⟩) fun hold ↦
      h.skip.up n (List.perm_middle.mem_iff.1 hold)
  · refine (hsplit hn).elim (fun hchild ↦ .inr ?_) (h.reached n)
    exact (h.reached m (by simp)).above_of_parent (hparent hchild)

end Toured

/-! ## Moving back -/

section Restore

variable (hd : d.IsForest) (hroot : root < d.nodes.size) (hbelow : ¬d.AtOrAbove top root)

include hd hroot hbelow

/-- The root is nowhere below the top, so nothing is in the way. -/
theorem moved_of_restore : d.Moved root (d.children top) (d.restore top root) :=
  hd.appendAll_moved hroot (fun _ ↦ hd.lt_size_of_mem_children) (hd.nodup top) fun c hc hat ↦
    hbelow (.inr (hat.above_of_child ((hd.linked top c).2 hc)))

/-- **What was below the top is below the root** when the nodes have been moved back. -/
theorem above_restore (hx : d.Above top x) : (d.restore top root).Above root x := by
  have hmoved := moved_of_restore hd hroot hbelow
  have hchild : ∀ {x}, x ∈ d.children top →
      (d.restore top root).parent? x = some root := fun hx ↦ by
    rw [hmoved.parent?_eq, if_pos hx]
  induction hx with
  | parent hp => exact .parent (hchild ((hd.linked _ _).1 hp))
  | @step x p hp _ ih =>
    by_cases hx : x ∈ d.children top
    · exact .parent (hchild hx)
    · refine .step (p := p) ?_ ih
      rw [hmoved.parent?_eq, if_neg hx, hp]

end Restore

end Document

/-! ## Compiling -/

namespace Compilation

/-- Compiling has come so far on its tour: documents are only cut, and what listeners have been put
stand on nodes of the tour. -/
structure Touring (w₀ : World σ) (top : NodeId) (seen pending : List NodeId) (w : World σ) :
    Prop where
  toured : w.scene.document.Toured top seen pending
  cut : w₀.scene.document.Cut w.scene.document
  children_top : w.scene.document.children top = w₀.scene.document.children top
  posted : ∃ made, w.scene.listeners = w₀.scene.listeners ++ made ∧
    ∀ l ∈ made, l.node ∈ seen ++ pending ∧ l.node ≠ top
  viewModels_eq : w.scene.viewModels = w₀.scene.viewModels
  grows : w₀.code.Grows w.code

namespace Touring

variable {w₀ w w' : World σ} {top m : NodeId} {seen pending : List NodeId}

/-- The tour does not depend on the store or on data. -/
theorem of_eq (h : Touring w₀ top seen pending w) (hdocument : w'.scene.document = w.scene.document)
    (hlisteners : w'.scene.listeners = w.scene.listeners)
    (hviewModels : w'.scene.viewModels = w.scene.viewModels) (hcode : w.code.Grows w'.code) :
    Touring w₀ top seen pending w' where
  toured := hdocument ▸ h.toured
  cut := hdocument ▸ h.cut
  children_top := hdocument ▸ h.children_top
  posted := hlisteners ▸ h.posted
  viewModels_eq := hviewModels.trans h.viewModels_eq
  grows := h.grows.trans hcode

/-- Work on the node whose turn it is. -/
theorem around (h : Touring w₀ top seen (m :: pending) w)
    (htop : top < w₀.scene.document.nodes.size) (hm : top ≠ m) {d : Document}
    (he : w.scene.document.Around m d) :
    Touring w₀ top seen (m :: pending) (w.withDocument d) where
  toured := h.toured.around (Nat.lt_of_lt_of_le htop h.cut.size_le) he
  cut := h.cut.trans (he.cut h.toured.forest)
  children_top := (he.children_of_ne top hm).trans h.children_top
  posted := h.posted
  viewModels_eq := h.viewModels_eq
  grows := h.grows

/-- A listener is put on the node whose turn it is. -/
theorem listening (h : Touring w₀ top seen (m :: pending) w) (hm : top ≠ m) (job : CompileJob σ)
    (event : String) (handler : Event → Action σ) :
    Touring w₀ top seen (m :: pending) (w.listening job m event handler) where
  toured := h.toured
  cut := h.cut
  children_top := h.children_top
  posted := by
    obtain ⟨made, hlisteners, hmade⟩ := h.posted
    refine ⟨made ++ [⟨m, event, w.code.handlers.size⟩], ?_, fun l hl ↦ ?_⟩
    · rw [← List.append_assoc, ← hlisteners]
      rfl
    · rcases List.mem_append.1 hl with hl | hl
      · exact hmade l hl
      · rw [List.mem_singleton.1 hl]
        exact ⟨by simp, hm.symm⟩
  viewModels_eq := h.viewModels_eq
  grows := h.grows.trans (.of_handler ..)

theorem skip (h : Touring w₀ top seen (m :: pending) w) : Touring w₀ top (m :: seen) pending w :=
  { h with
    toured := h.toured.skip
    posted := by
      obtain ⟨made, hlisteners, hmade⟩ := h.posted
      exact ⟨made, hlisteners, fun l hl ↦ ⟨List.perm_middle.mem_iff.1 (hmade l hl).1,
        (hmade l hl).2⟩⟩ }

theorem enter (h : Touring w₀ top seen (m :: pending) w) :
    Touring w₀ top (m :: seen) (w.scene.document.children m ++ pending) w :=
  { h with
    toured := h.toured.enter
    posted := by
      obtain ⟨made, hlisteners, hmade⟩ := h.skip.posted
      refine ⟨made, hlisteners, fun l hl ↦ ⟨?_, (hmade l hl).2⟩⟩
      rcases List.mem_append.1 (hmade l hl).1 with hseen | hpending
      · exact List.mem_append_left _ hseen
      · exact List.mem_append_right _ (List.mem_append_right _ hpending) }

/-- All listeners that have been put are strictly below the top. -/
theorem above_of_posted (h : Touring w₀ top seen pending w) : ∃ made,
    w.scene.listeners = w₀.scene.listeners ++ made ∧
      ∀ l ∈ made, w.scene.document.Above top l.node := by
  obtain ⟨made, hlisteners, hmade⟩ := h.posted
  exact ⟨made, hlisteners, fun l hl ↦
    (h.toured.reached l.node (hmade l hl).1).resolve_left fun heq ↦ (hmade l hl).2 heq.symm⟩

end Touring

section Steps

variable {w₀ : World σ} {top m : NodeId} {seen pending : List NodeId} {call : Call σ}
  {job : CompileJob σ} {methods : String → Event → Action σ}

theorem keeps_touring_onStore {α : Type} (f : Store → α × Store) :
    Run.Keeps (Touring w₀ top seen pending) (Run.onStore f) :=
  .change fun _ hw ↦ hw.of_eq rfl rfl rfl (.refl _)

theorem keeps_touring_watch (expr : String) (reaction : Value → Action σ) :
    Compilation.Keeps (fun _ ↦ Touring w₀ top seen pending) (watch job expr reaction) := by
  have hobserved : ∀ id v, Run.Keeps (Touring w₀ top seen pending)
      (Notification.observed id v : Run σ Unit) := fun _ _ ↦
    .change fun _ hw ↦ hw.of_eq rfl rfl rfl (.refl _)
  have hsubscriber : ∀ s, Run.Keeps (Touring w₀ top seen pending)
      (Notification.subscriber s reaction) := fun _ ↦
    .change fun _ hw ↦ hw.of_eq rfl rfl rfl (.of_reaction ..)
  refine .bind (.attemptState fun _ ↦ .bind (hsubscriber _) fun id ↦
    .bind (keeps_touring_onStore _) fun x ↦ ?_) fun _ ↦ .hold fun _ _ h ↦ h
  cases x with
  | error e => exact .bind (keeps_touring_onStore _) fun _ ↦ .pure _
  | ok v => exact .bind (hobserved id v) fun _ ↦ .pure _

variable (htop : top < w₀.scene.document.nodes.size) (hm : top ≠ m)

include htop hm

theorem keeps_touring_present (slot : Slot) (text : String) :
    Compilation.Keeps (fun _ ↦ Touring w₀ top seen (m :: pending)) (present job m slot text) :=
  .lift fun _ ↦ .bind (.change fun _ hw ↦ hw.of_eq rfl rfl rfl (.refl _)) fun _ ↦
    .change fun _ hw ↦ hw.around htop hm (.apply_edit hw.toured.forest slot m text)

/-- **A binding is made on the node whose turn it is**, unless it calls something. -/
theorem keeps_touring_bind {binding : Binding} (hsilent : binding.isCall = false) :
    Compilation.Keeps (fun _ ↦ Touring w₀ top seen (m :: pending))
      (bind call job methods m binding) := by
  have hlisten : ∀ event handler, Compilation.Keeps (fun _ ↦ Touring w₀ top seen (m :: pending))
      (listen job m event handler) := fun event handler ↦
    .lift fun _ ↦ .change fun _ hw ↦ hw.listening hm job event handler
  cases binding with
  | fixed slot text => exact keeps_touring_present htop hm slot text
  | live slot expr =>
    exact .bind (.attemptState fun _ ↦ keeps_touring_onStore _) fun _ ↦ .bind (.lift fun _ ↦ .look)
      fun _ ↦ .bind (keeps_touring_present htop hm slot _) fun _ ↦ keeps_touring_watch ..
  | template text =>
    exact .bind (.attemptState fun _ ↦ keeps_touring_onStore _) fun _ ↦
      .bind (keeps_touring_present htop hm .text _) fun _ ↦
        (Keeps.compositional fun _ _ _ h ↦ h).forM fun _ _ ↦ keeps_touring_watch ..
  | writeBack expr => exact hlisten ..
  | listen event method => exact hlisten ..
  | call method event value => cases hsilent
  | refuse e => exact .refuse e

end Steps

/-- **A node is visited when it is its turn.** -/
theorem Touring.visitNode {w₀ : World σ} {top m : NodeId} {seen pending : List NodeId}
    {call : Call σ} {job : CompileJob σ} {methods : String → Event → Action σ}
    (ht : job.table.Orderly) (htop : top < w₀.scene.document.nodes.size) (hm : top ≠ m)
    {p p₁ : Progress} {w w₁ : World σ} {x : Except BindError Bool}
    (h : Touring w₀ top seen (m :: pending) w)
    (hnode : (visitNode call job methods m).run.run p w = some ((x, p₁), w₁)) :
    Touring w₀ top seen (m :: pending) w₁ :=
  ((Keeps.compositional fun _ _ _ h ↦ h).visitNode
    (fun hlookup directive binding hmem ↦
      keeps_touring_bind htop hm (ht.silent hlookup directive binding hmem))
    fun _ ↦ .lift fun _ ↦ .change fun _ hw ↦
      hw.around htop hm (.modifyElement hw.toured.forest m _)).kept hnode h

/-- **Visiting goes on the tour.** -/
theorem visit_touring {w₀ : World σ} {top : NodeId} {call : Call σ} {job : CompileJob σ}
    {methods : String → Event → Action σ} (ht : job.table.Orderly)
    (htop : top < w₀.scene.document.nodes.size) {fuel : Nat} {seen pending : List NodeId}
    (hseen : top ∈ seen) {p p' : Progress} {w w' : World σ} {x : Except BindError Unit}
    (h : Touring w₀ top seen pending w)
    (hrun : (visit call job methods fuel pending).run.run p w = some ((x, p'), w')) :
    ∃ seen' pending', Touring w₀ top seen' pending' w' := by
  induction fuel generalizing seen pending p w with
  | zero =>
    cases pending with
    | nil =>
      cases hrun
      exact ⟨seen, [], h⟩
    | cons m pending => cases hrun
  | succ fuel ih =>
    cases pending with
    | nil =>
      cases hrun
      exact ⟨seen, [], h⟩
    | cons m pending =>
      have hm : top ≠ m := fun heq ↦
        (List.nodup_append.1 h.toured.nodup).2.2 top hseen m List.mem_cons_self heq
      rw [visit, run_bind] at hrun
      obtain ⟨⟨owned, p₁⟩, w₁, hnode, hrest⟩ := Run.bind_eq_some_iff.1 hrun
      have h₁ := h.visitNode ht htop hm hnode
      rcases owned with e | _ | _
      · cases hrest
        exact ⟨seen, m :: pending, h₁⟩
      · exact ih (List.mem_cons_of_mem m hseen) h₁.enter hrest
      · exact ih (List.mem_cons_of_mem m hseen) h₁.skip hrest

/-- The fragment is not worked on itself. -/
theorem visitNode_fragment {call : Call σ} {job : CompileJob σ}
    {methods : String → Event → Action σ} {n : NodeId} {p : Progress} {w : World σ}
    (h : w.scene.document.content? n = some .fragment) :
    (visitNode call job methods n).Succeeds p w false p w := by
  show (visitContent call job methods n (w.scene.document.content? n)).run.run p w = _
  rw [h]
  rfl

/-- The tour begins with the children of the fragment. -/
theorem visit_fragment {call : Call σ} {job : CompileJob σ} {methods : String → Event → Action σ}
    {fuel : Nat} {n : NodeId} {p : Progress} {w : World σ}
    (h : w.scene.document.content? n = some .fragment) :
    (visit call job methods (fuel + 1) [n]).run.run p w =
      (visit call job methods fuel (w.scene.document.children n)).run.run p w := by
  have hnode : (visitNode call job methods n).run.run p w = some ((.ok false, p), w) :=
    visitNode_fragment h
  have hrest : (visit call job methods (fuel + 1) [n]).run.run p w =
      (visit call job methods fuel (w.scene.document.children n ++ [])).run.run p w := by
    rw [visit, run_bind]
    show ((visitNode call job methods n).run.run p w).bind _ = _
    rw [hnode]
    rfl
  rw [hrest, List.append_nil]

/-- When the children of the root have been moved to the fragment, the tour can begin. -/
theorem Touring.start {w : World σ} (hd : w.scene.document.IsForest) (root : NodeId) :
    Touring (w.withDocument (w.scene.document.stage root).2) w.scene.document.nodes.size
      [w.scene.document.nodes.size]
      ((w.scene.document.stage root).2.children w.scene.document.nodes.size)
      (w.withDocument (w.scene.document.stage root).2) where
  toured := by
    have hdetached :
        (w.scene.document.stage root).2.parent? w.scene.document.nodes.size = none := by
      rw [(hd.staged root).parent?_eq,
        if_neg fun hmem ↦ Nat.lt_irrefl _ (hd.lt_size_of_mem_children hmem), Document.parent?,
        Document.node?_eq_none _ (Nat.le_refl _)]
      rfl
    exact .start (hd.stage root) hdetached
  cut := .refl _
  children_top := rfl
  posted := ⟨[], by simp⟩
  viewModels_eq := rfl
  grows := .refl _

/-- What a compilation leaves of the world around it: it cuts links below its root, and **puts its
listeners on nodes below its root**. -/
structure Posts (root : NodeId) (w w' : World σ) : Prop where
  forest : w'.scene.document.IsForest
  cut : w.scene.document.Cut w'.scene.document
  posted : ∃ made, w'.scene.listeners = w.scene.listeners ++ made ∧
    ∀ l ∈ made, w'.scene.document.Above root l.node
  viewModels_eq : w'.scene.viewModels = w.scene.viewModels
  grows : w.code.Grows w'.code

/-- The nodes are moved back when the tour is over. -/
theorem Touring.restore {root : NodeId} {seen pending : List NodeId} {w w₁ : World σ}
    (hd : w.scene.document.IsForest)
    (h : Touring (w.withDocument (w.scene.document.stage root).2) w.scene.document.nodes.size seen
      pending w₁) :
    Posts root w
      (w₁.withDocument (w₁.scene.document.restore w.scene.document.nodes.size root)) := by
  have hstaged := hd.staged root
  have hsize : w.scene.document.nodes.size < (w.scene.document.stage root).2.nodes.size :=
    hstaged.fragment_lt_size
  have hfragment : w₁.scene.document.children w.scene.document.nodes.size =
      w.scene.document.children root := by
    rw [h.children_top]
    exact (hstaged.children_eq _).trans (if_pos rfl)
  have hparent : ∀ x < w.scene.document.nodes.size, ∀ p, x ∉ w.scene.document.children root →
      w₁.scene.document.parent? x = some p → w.scene.document.parent? x = some p := by
    intro x hx p hchild hp
    have hstage := (hstaged.parent?_eq x).symm.trans (h.cut.parent? x (Nat.lt_trans hx hsize) p hp)
    rwa [if_neg hchild] at hstage
  obtain ⟨made, hlisteners, hmade⟩ := h.above_of_posted
  rcases Nat.lt_or_ge root w.scene.document.nodes.size with hroot | hout
  · have hbelow : ¬w₁.scene.document.AtOrAbove w.scene.document.nodes.size root := by
      rintro (heq | habove)
      · exact Nat.lt_irrefl _ (heq ▸ hroot)
      · exact hstaged.not_above hd
          (h.cut.above (hd.stage root) (Nat.lt_trans hroot hsize) habove)
    have hroot₁ : root < w₁.scene.document.nodes.size :=
      Nat.lt_of_lt_of_le (Nat.lt_trans hroot hsize) h.cut.size_le
    have hmoved := Document.moved_of_restore h.toured.forest hroot₁ hbelow
    refine ⟨h.toured.forest.appendAll .., ⟨?_, fun x hx p hp ↦ ?_⟩, ⟨made, hlisteners, fun l hl ↦
      Document.above_restore h.toured.forest hroot₁ hbelow (hmade l hl)⟩, h.viewModels_eq, h.grows⟩
    · exact Nat.le_trans (Nat.le_of_lt hsize) (Nat.le_trans h.cut.size_le
        (Nat.le_of_eq hmoved.size_eq.symm))
    · -- A child of the root is a child of the root again.
      have hback := (hmoved.parent?_eq x).symm.trans hp
      rw [hfragment] at hback
      by_cases hchild : x ∈ w.scene.document.children root
      · rw [if_pos hchild] at hback
        exact Option.some.inj hback ▸ (hd.linked root x).2 hchild
      · rw [if_neg hchild] at hback
        exact hparent x hx p hchild hback
  · -- There is no such root, so nothing has been staged.
    have hnone : w.scene.document.children root = [] := Document.children_of_size_le _ hout
    have hsame : w₁.scene.document.restore w.scene.document.nodes.size root =
        w₁.scene.document := by
      rw [Document.restore, hfragment, hnone]
      rfl
    rw [hsame]
    refine ⟨h.toured.forest, ⟨Nat.le_trans (Nat.le_of_lt hsize) h.cut.size_le, fun x hx p hp ↦
      hparent x hx p (by simp [hnone]) hp⟩, ⟨made, hlisteners, fun l hl ↦ ?_⟩,
        h.viewModels_eq, h.grows⟩
    obtain ⟨c, hc, -⟩ := (hmade l hl).exists_child
    rw [h.toured.forest.linked, hfragment, hnone] at hc
    cases hc

/-- **The listeners of a compilation stand below its root**, whether it succeeds or not. -/
theorem compile_posts {call : Call σ} {limit : Nat} {job : CompileJob σ}
    {methods : String → Event → Action σ} (ht : job.table.Orderly) {w w' : World σ}
    (hd : w.scene.document.IsForest) {x : Except BindError Compiled}
    (hrun : compile call limit job methods w = some (x, w')) : Posts job.root w w' := by
  have hstaged := hd.staged job.root
  rw [compile_eq_bind] at hrun
  obtain ⟨⟨⟨result, p⟩, w₁⟩, hvisit, hfinish⟩ := Option.bind_eq_some_iff.1 hrun
  cases limit with
  | zero => cases hvisit
  | succ fuel =>
    rw [visit_fragment hstaged.fragment] at hvisit
    obtain ⟨seen, pending, h⟩ := visit_touring ht hstaged.fragment_lt_size
      (List.mem_singleton_self _) (.start hd job.root) hvisit
    have hposts := h.restore hd
    cases result with
    | ok u =>
      cases hfinish
      exact hposts
    | error e =>
      cases hfinish
      exact { hposts with }

end Compilation

end DataBinding

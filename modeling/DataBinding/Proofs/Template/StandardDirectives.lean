import DataBinding.Proofs.Template.ShownAgain

/-!
# Templates of standard directives

Two directives for the content of one element, or two for its control, show one over the other, and
which of them is seen depends on which was shown last.  `Document.Sole` says that there are none.
Then **no two errands of the standard directives have the same part of a node to themselves**
(`Finished.nodup_parts`), every bond has a part (`part?_isSome_of_bond`), and no node writes to two
paths.
-/

set_option autoImplicit false

namespace DataBinding

open Document Errand

/-- Whether an attribute ties the control of its element to a path. -/
def Dialect.givesValue (dialect : Dialect) (name : String) : Bool :=
  match dialect.classify name with
  | some (.directive kind _) => kind == "value"
  | _ => false

/-- Whether an attribute is a directive for a part of its element. -/
def Dialect.gives (dialect : Dialect) : Part → String → Bool
  | .content => dialect.givesContent
  | .control => dialect.givesValue

namespace Document

/-- No element has two directives for its content, or two for its control. -/
def Sole (d : Document) (dialect : Dialect) : Prop :=
  ∀ n x, d.content? n = some (.element x) →
    x.attributes.countP (fun a ↦ dialect.givesContent a.1) ≤ 1 ∧
      x.attributes.countP (fun a ↦ dialect.givesValue a.1) ≤ 1

/-- No element has two directives for this part of it. -/
def SoleIn (d : Document) (dialect : Dialect) (part : Part) : Prop :=
  ∀ n x, d.content? n = some (.element x) →
    x.attributes.countP (fun a ↦ dialect.gives part a.1) ≤ 1

theorem Sole.soleIn {d : Document} {dialect : Dialect} (h : d.Sole dialect) (part : Part) :
    d.SoleIn dialect part := by
  intro n x hx
  cases part with
  | content => exact (h n x hx).1
  | control => exact (h n x hx).2

instance (d : Document) (dialect : Dialect) (part : Part) : Decidable (d.SoleIn dialect part) :=
  decidable_of_iff (∀ n < d.nodes.size, ∀ x ∈ d.element? n,
      x.attributes.countP (fun a ↦ dialect.gives part a.1) ≤ 1) <| by
    refine ⟨fun h n x hx ↦ h n (lt_size_of_content? hx) x (element?_eq_some_iff.2 hx),
      fun h n _ x hx ↦ h n x (element?_eq_some_iff.1 hx)⟩

instance (d : Document) (dialect : Dialect) : Decidable (d.Sole dialect) :=
  decidable_of_iff (∀ n < d.nodes.size, ∀ x ∈ d.element? n,
      x.attributes.countP (fun a ↦ dialect.givesContent a.1) ≤ 1 ∧
        x.attributes.countP (fun a ↦ dialect.givesValue a.1) ≤ 1) <| by
    refine ⟨fun h n x hx ↦ h n (lt_size_of_content? hx) x (element?_eq_some_iff.2 hx),
      fun h n _ x hx ↦ h n x (element?_eq_some_iff.1 hx)⟩

/-- The control of a node is tied to a path by a directive. -/
structure ValueBound (d : Document) (dialect : Dialect) (root n : NodeId) (expr : String) :
    Prop where
  visited : d.Visited dialect root n
  directive : ∃ x name, d.content? n = some (.element x) ∧ (name, expr) ∈ x.attributes ∧
    dialect.givesValue name = true

end Document

/-! ## The parts of standard directives -/

namespace Errand

variable {dialect : Dialect} {n : NodeId} {kind unknown : String} {err : Errand}

/-- What the standard directives of a kind are about. -/
theorem parts_ofDirective (n : NodeId) (unknown kind : String) (directive : Directive) :
    (ofDirective .standard n unknown kind directive).filterMap part? =
        (if Compilation.ownsContent kind then [(n, Part.content)] else
          if kind == "value" then [(n, Part.control)] else []) ∧
      (ofDirective .standard n unknown kind directive).filterMap back? =
        (if kind == "value" then [(n, Text.trim directive.expr)] else []) ∧
      ∀ err ∈ ofDirective .standard n unknown kind directive, err.bond?.isSome →
        err.part?.isSome := by
  cases hl : DirectiveTable.standard.lookup kind with
  | none =>
    have hnone : ∀ known handler, (known, handler) ∈ DirectiveTable.standard →
        (kind == known) = false := by
      simpa using List.lookup_eq_none_iff.1 hl
    rw [ofDirective, hl, Compilation.ownsContent, hnone "text" .text
      (by simp [DirectiveTable.standard]), hnone "markup" .markup
        (by simp [DirectiveTable.standard]),
      hnone "value" .value (by simp [DirectiveTable.standard])]
    exact ⟨rfl, rfl, by simp [bond?, Binding.bond?]⟩
  | some handler =>
    rw [ofDirective, hl]
    rcases DirectiveTable.standard_cases hl with ⟨rfl, rfl⟩ | ⟨rfl, rfl⟩ | ⟨rfl, rfl⟩ | ⟨rfl,
      rfl⟩ | ⟨rfl, rfl⟩
    · simp only [DirectiveHandler.text]
      split <;> exact ⟨rfl, rfl, by simp [part?, Binding.slot?, Slot.part?]⟩
    · exact ⟨rfl, rfl, by simp [DirectiveHandler.markup, part?, Binding.slot?, Slot.part?]⟩
    · exact ⟨rfl, rfl, by
        simp [DirectiveHandler.value, part?, Binding.slot?, Slot.part?, bond?, Binding.bond?]⟩
    · simp only [DirectiveHandler.attr]
      split <;> exact ⟨rfl, rfl, by simp [bond?, Binding.bond?]⟩
    · simp only [DirectiveHandler.on]
      split <;> exact ⟨rfl, rfl, by simp [bond?, Binding.bond?]⟩

/-- What the standard errands of an attribute are about. -/
theorem parts_ofAttribute (dialect : Dialect) (n : NodeId) (a : String × String) :
    (ofAttribute .standard dialect n a).filterMap part? =
        (if dialect.givesContent a.1 then [(n, Part.content)] else
          if dialect.givesValue a.1 then [(n, Part.control)] else []) ∧
      (ofAttribute .standard dialect n a).filterMap back? =
        (if dialect.givesValue a.1 then [(n, Text.trim a.2)] else []) ∧
      ∀ err ∈ ofAttribute .standard dialect n a, err.bond?.isSome → err.part?.isSome := by
  rw [ofAttribute, Dialect.givesContent, Dialect.givesValue]
  cases dialect.classify a.1 with
  | none => exact ⟨rfl, rfl, by simp⟩
  | some marker =>
    cases marker with
    | directive kind detail =>
      obtain ⟨hparts, hbacks, hbonds⟩ := parts_ofDirective n a.1 kind ⟨a.2, detail⟩
      simp only [List.filterMap_append, hparts, hbacks]
      refine ⟨List.append_nil _, List.append_nil _, List.forall_mem_append.2 ⟨hbonds, ?_⟩⟩
      simp [bond?]
    | event event =>
      obtain ⟨hparts, hbacks, hbonds⟩ := parts_ofDirective n a.1 "on"
        ⟨a.2, if event.isEmpty then none else some event⟩
      simp only [List.filterMap_append, hparts, hbacks]
      exact ⟨rfl, rfl, List.forall_mem_append.2 ⟨hbonds, by simp [bond?]⟩⟩

/-- An attribute that is no directive for a part of its element has no errand for it, and others
have one at most. -/
theorem count_parts_ofAttribute (n : NodeId) (a : String × String) (part : NodeId × Part) :
    ((ofAttribute .standard dialect n a).filterMap part?).count part ≤
      if dialect.gives part.2 a.1 then 1 else 0 := by
  rw [(parts_ofAttribute dialect n a).1]
  obtain ⟨m, part⟩ := part
  cases part with
  | content =>
    rw [Dialect.gives]
    split
    · exact List.count_le_length
    · split <;> simp
  | control =>
    rw [Dialect.gives]
    split
    · simp
    · split
      · exact List.count_le_length
      · simp

/-- **At most one standard errand of a node is about a part of it** that has one directive at
most. -/
theorem count_parts_ofNode (n : NodeId) {c : Option Content} (part : NodeId × Part)
    (hsole : ∀ x, c = some (.element x) →
      x.attributes.countP (fun a ↦ dialect.gives part.2 a.1) ≤ 1) :
    ((ofNode .standard dialect n c).filterMap part?).count part ≤ 1 := by
  cases c with
  | none => exact Nat.zero_le 1
  | some c =>
    cases c with
    | document | fragment | raw _ => exact Nat.zero_le 1
    | text t =>
      rw [ofNode]
      split
      · rw [List.filterMap_cons_none rfl, (parts_ofDirective n "text" "text" ⟨t, none⟩).1]
        exact List.count_le_length
      · exact Nat.zero_le 1
    | element x =>
      refine Nat.le_trans ?_ (hsole x rfl)
      rw [ofNode, List.filterMap_cons_none rfl, List.filterMap_flatMap]
      induction x.attributes with
      | nil => exact Nat.le_refl 0
      | cons a as ih =>
        rw [List.flatMap_cons, List.count_append, List.countP_cons, Nat.add_comm]
        exact Nat.add_le_add ih (count_parts_ofAttribute n a part)

/-- The parts of the standard errands of a node are parts of that node. -/
theorem node_of_mem_parts {c : Option Content} {part : NodeId × Part}
    (h : part ∈ (ofNode .standard dialect n c).filterMap part?) : part.1 = n := by
  obtain ⟨err, herr, hpart⟩ := List.mem_filterMap.1 h
  have hnode : err.node? = some part.1 := by
    cases err with
    | bind m b =>
      obtain ⟨x, -, hx⟩ := Option.map_eq_some_iff.1 hpart
      rw [← hx]
      rfl
    | _ => cases hpart
  exact node?_of_mem_ofNode DirectiveTable.standard_orderly herr hnode

/-- **At most one standard errand of a template is about a part of a node**, if no element has two
directives for this part. -/
theorem count_parts_ofRoute {d : Document} {way : List NodeId} (hway : way.Nodup)
    (part : NodeId × Part) (hsole : d.SoleIn dialect part.2) :
    ((ofRoute .standard dialect d way).filterMap part?).count part ≤ 1 := by
  induction way with
  | nil => exact Nat.zero_le 1
  | cons n way ih =>
    rw [List.nodup_cons] at hway
    rw [ofRoute, List.flatMap_cons, List.filterMap_append, List.count_append]
    by_cases hn : part.1 = n
    · -- the other nodes of the way have other parts
      have hothers : ((ofRoute .standard dialect d way).filterMap part?).count part = 0 := by
        rw [List.count_eq_zero, ofRoute, List.filterMap_flatMap, List.mem_flatMap]
        rintro ⟨m, hm, hpart⟩
        obtain rfl : n = m := hn.symm.trans (node_of_mem_parts hpart)
        exact hway.1 hm
      rw [ofRoute] at hothers
      rw [hothers, Nat.add_zero]
      exact count_parts_ofNode n part (hsole n)
    · have hnone : ((ofNode .standard dialect n (d.content? n)).filterMap part?).count part = 0 :=
        List.count_eq_zero.2 fun hpart ↦ hn (node_of_mem_parts hpart)
      rw [hnone, Nat.zero_add]
      exact ih hway.2

/-- **The standard errands of a template have different parts.** -/
theorem nodup_parts_ofRoute {d : Document} {way : List NodeId} (hway : way.Nodup)
    (hsole : d.Sole dialect) : ((ofRoute .standard dialect d way).filterMap part?).Nodup :=
  List.nodup_iff_count_le_one.2 fun part ↦ count_parts_ofRoute hway part (hsole.soleIn part.2)

/-- A bond of a standard errand has a part. -/
theorem part?_isSome_of_bond {d : Document} {way : List NodeId}
    (h : err ∈ ofRoute .standard dialect d way) (hb : err.bond?.isSome) : err.part?.isSome := by
  obtain ⟨n, -, h⟩ := List.mem_flatMap.1 h
  cases hc : d.content? n with
  | none =>
    rw [hc] at h
    cases h
  | some c =>
    rw [hc] at h
    cases c with
    | document | fragment | raw _ => cases h
    | text t =>
      rw [ofNode] at h
      split at h
      · rcases List.mem_cons.1 h with rfl | h
        · cases hb
        · exact (parts_ofDirective n "text" "text" ⟨t, none⟩).2.2 err h hb
      · cases h
    | element x =>
      rcases List.mem_cons.1 h with rfl | h
      · cases hb
      · obtain ⟨a, -, h⟩ := List.mem_flatMap.1 h
        exact (parts_ofAttribute dialect n a).2.2 err h hb

/-- **No two standard errands of a node write back what is entered there.** -/
theorem length_backs_ofNode (n : NodeId) {c : Option Content} (hsole : ∀ x, c = some (.element x) →
    x.attributes.countP (fun a ↦ dialect.givesValue a.1) ≤ 1) :
    ((ofNode .standard dialect n c).filterMap back?).length ≤ 1 := by
  cases c with
  | none => exact Nat.zero_le 1
  | some c =>
    cases c with
    | document | fragment | raw _ => exact Nat.zero_le 1
    | text t =>
      rw [ofNode]
      split
      · rw [List.filterMap_cons_none rfl, (parts_ofDirective n "text" "text" ⟨t, none⟩).2.1]
        exact Nat.zero_le 1
      · exact Nat.zero_le 1
    | element x =>
      refine Nat.le_trans (Nat.le_of_eq ?_) (hsole x rfl)
      rw [ofNode, List.filterMap_cons_none rfl, List.filterMap_flatMap]
      simp only [(parts_ofAttribute dialect n _).2.1]
      induction x.attributes with
      | nil => rfl
      | cons a as ih =>
        rw [List.flatMap_cons, List.length_append, ih, List.countP_cons]
        split <;> simp [Nat.add_comm]

/-- **No node writes to two paths.** -/
theorem nodup_backs_ofRoute {d : Document} {way : List NodeId} (hway : way.Nodup)
    (hsole : d.Sole dialect) :
    (((ofRoute .standard dialect d way).filterMap back?).map Prod.fst).Nodup := by
  rw [ofRoute, List.filterMap_flatMap, List.map_flatMap, List.nodup_flatMap]
  refine ⟨fun n _ ↦ ?_, hway.imp fun hne ↦ ?_⟩
  · have hlength : ((ofNode .standard dialect n (d.content? n)).filterMap back?).length ≤ 1 :=
      length_backs_ofNode n fun x hx ↦ (hsole n x hx).2
    cases hbacks : (ofNode .standard dialect n (d.content? n)).filterMap back? with
    | nil => exact .nil
    | cons back backs =>
      rw [hbacks, List.length_cons] at hlength
      rw [List.eq_nil_of_length_eq_zero (by omega : backs.length = 0)]
      exact List.nodup_singleton _
  · have hnode : ∀ {m k : NodeId}, k ∈ ((ofNode .standard dialect m (d.content? m)).filterMap
        back?).map Prod.fst → k = m := by
      intro m k hk
      obtain ⟨c, hc, rfl⟩ := List.mem_map.1 hk
      obtain ⟨err, herr, hback⟩ := List.mem_filterMap.1 hc
      refine node?_of_mem_ofNode DirectiveTable.standard_orderly herr ?_
      cases err with
      | bind m' b => cases b <;> first | (cases hback; rfl) | cases hback
      | _ => cases hback
    exact List.disjoint_left.2 fun k hn hm ↦ hne ((hnode hn).symm.trans (hnode hm))

end Errand

/-! ## After a compilation -/

section Finished

variable {σ : Type} {job : CompileJob σ} {foreign : Action σ → Prop} {limit : Nat} {d : Document}
  {s : Store} {way : List NodeId} {roster : List Post} {w : World σ}

/-- The elements of a staged template are those of the template. -/
theorem Document.IsForest.content?_of_stage (hd : d.IsForest) {root n : NodeId} {x : Element}
    (hx : (d.stage root).2.content? n = some (.element x)) : d.content? n = some (.element x) := by
  have hstaged := hd.staged root
  have hlt := lt_size_of_content? hx
  rw [hstaged.size_eq] at hlt
  rcases Nat.lt_succ_iff_lt_or_eq.1 hlt with hlt | rfl
  · rwa [hstaged.content?_eq n hlt] at hx
  · rw [hstaged.fragment] at hx
    cases hx

/-- Staging a template gives no element another directive. -/
theorem Document.Sole.stage {dialect : Dialect} (hsole : d.Sole dialect) (hd : d.IsForest)
    (root : NodeId) : (d.stage root).2.Sole dialect :=
  fun n x hx ↦ hsole n x (hd.content?_of_stage hx)

theorem Document.SoleIn.stage {dialect : Dialect} {part : Part} (hsole : d.SoleIn dialect part)
    (hd : d.IsForest) (root : NodeId) : (d.stage root).2.SoleIn dialect part :=
  fun n x hx ↦ hsole n x (hd.content?_of_stage hx)

theorem Finished.nodup_way (h : Finished job foreign limit d s way roster w) (hd : d.IsForest) :
    way.Nodup :=
  ((hd.stage job.root).route_pairwise (by simp [Apart]) h.route).imp Before.ne

theorem Finished.nodup_parts (h : Finished job foreign limit d s way roster w) (hd : d.IsForest)
    (ht : job.table = .standard) (hsole : d.Sole job.dialect) :
    ((job.errands d way).filterMap Errand.part?).Nodup := by
  rw [CompileJob.errands, ht]
  exact nodup_parts_ofRoute (h.nodup_way hd) (hsole.stage hd job.root)

theorem Finished.nodup_backs (h : Finished job foreign limit d s way roster w) (hd : d.IsForest)
    (ht : job.table = .standard) (hsole : d.Sole job.dialect) :
    (((job.errands d way).filterMap Errand.back?).map Prod.fst).Nodup := by
  rw [CompileJob.errands, ht]
  exact nodup_backs_ofRoute (h.nodup_way hd) (hsole.stage hd job.root)

theorem Finished.part?_isSome (ht : job.table = .standard) {err : Errand}
    (herr : err ∈ job.errands d way) (hb : err.bond?.isSome) : err.part?.isSome := by
  rw [CompileJob.errands, ht] at herr
  exact part?_isSome_of_bond herr hb

/-- **A control that is tied to a path** shows the value there, and what is entered is written
back. -/
theorem Finished.mem_errands_of_valueBound (h : Finished job foreign limit d s way roster w)
    (hd : d.IsForest) (ht : job.table = .standard) {n : NodeId} {expr : String}
    (hn : d.ValueBound job.dialect job.root n expr) :
    .bind n (.live .control expr) ∈ job.errands d way ∧
      .bind n (.writeBack (Text.trim expr)) ∈ job.errands d way := by
  obtain ⟨hvisited, x, name, hx, hattribute, hvalue⟩ := hn
  have hstaged := hd.staged job.root
  have hx' := (hstaged.content?_eq n ((hvisited.above hd).lt_size hd).2).trans hx
  have hmem : ∀ err ∈ ofAttribute .standard job.dialect n (name, expr), err ∈
      job.errands d way := by
    intro err herr
    rw [CompileJob.errands, ht]
    refine List.mem_flatMap.2 ⟨n, hvisited.mem_route hd hstaged h.route, ?_⟩
    rw [hx']
    exact List.mem_cons_of_mem _ (List.mem_flatMap.2 ⟨_, hattribute, herr⟩)
  rw [Dialect.givesValue] at hvalue
  cases hm : job.dialect.classify name with
  | none =>
    rw [hm] at hvalue
    cases hvalue
  | some marker =>
    rw [hm] at hvalue
    cases marker with
    | event event => cases hvalue
    | directive kind detail =>
      obtain rfl : kind = "value" := by simpa using hvalue
      have hof : ofAttribute .standard job.dialect n (name, expr) =
          ofDirective .standard n name "value" ⟨expr, detail⟩ ++
            [.count fun s ↦ { s with directives := s.directives + 1 }, .strip n name] := by
        rw [ofAttribute, hm]
      rw [hof] at hmem
      exact ⟨hmem _ List.mem_cons_self, hmem _ (List.mem_cons_of_mem _ List.mem_cons_self)⟩

end Finished

end DataBinding

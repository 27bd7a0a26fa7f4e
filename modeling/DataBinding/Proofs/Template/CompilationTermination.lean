import DataBinding.Proofs.Template.DocumentOrderWork

/-!
# Compilations come to an end

Every step of a compilation ends, with or without an error, unless a directive calls something
(`Returns.visitNode`).  What a compilation has still to visit is there from the start, because work
on a node does not put anything below the nodes that come later, and no node is visited twice.  So
**a compilation ends if its limit is above the number of nodes** (`exists_result`), whatever the
template and the state are.
-/

set_option autoImplicit false

namespace DataBinding

variable {σ : Type}

/-! ## Steps -/

/-- The program ends in whatever world it runs. -/
structure Run.Returns {α : Type} (r : Run σ α) : Prop where
  exists_eq : ∀ w, ∃ x, r w = some x

theorem Run.Returns.bind {α β : Type} {r : Run σ α} {f : α → Run σ β} (hr : r.Returns)
    (hf : ∀ a, (f a).Returns) : (r >>= f).Returns := by
  refine ⟨fun w ↦ ?_⟩
  obtain ⟨⟨a, w₁⟩, hfirst⟩ := hr.exists_eq w
  obtain ⟨x, hx⟩ := (hf a).exists_eq w₁
  exact ⟨x, Run.bind_eq_some_iff.2 ⟨a, w₁, hfirst, hx⟩⟩

namespace Compilation

/-- The step ends in whatever world it is taken. -/
structure Returns {α : Type} (m : Compilation σ α) : Prop where
  exists_eq : ∀ p w, ∃ r, m.run.run p w = some r

namespace Returns

variable {α β : Type}

theorem bind {m : Compilation σ α} {f : α → Compilation σ β} (hm : Returns m)
    (hf : ∀ a, Returns (f a)) : Returns (m >>= f) := by
  refine ⟨fun p w ↦ ?_⟩
  obtain ⟨⟨⟨x, p₁⟩, w₁⟩, hfirst⟩ := hm.exists_eq p w
  rw [run_bind]
  show ∃ r, (m.run.run p w).bind _ = some r
  rw [hfirst]
  cases x with
  | error e => exact ⟨_, rfl⟩
  | ok a => exact (hf a).exists_eq p₁ w₁

theorem lift {r : Run σ α} (h : r.Returns) : Returns (lift r) where
  exists_eq p w := by
    rw [run_lift]
    exact (h.bind fun _ ↦ ⟨fun _ ↦ ⟨_, rfl⟩⟩).exists_eq w

theorem attemptState {r : Run σ (Except StateError α)} (h : r.Returns) :
    Returns (attemptState r) where
  exists_eq p w := by
    rw [Compilation.attemptState, run_attempt]
    exact ((h.bind fun _ ↦ ⟨fun _ ↦ ⟨_, rfl⟩⟩).bind fun _ ↦ ⟨fun _ ↦ ⟨_, rfl⟩⟩).exists_eq w

theorem sequential : Sequential fun _ (m : Compilation σ _) ↦ Returns m where
  pure _ := ⟨fun _ _ ↦ ⟨_, rfl⟩⟩
  bind := .bind
  refuse _ := ⟨fun _ _ ↦ ⟨_, rfl⟩⟩
  scene := .lift ⟨fun _ ↦ ⟨_, rfl⟩⟩
  count _ := ⟨fun _ _ ↦ ⟨_, rfl⟩⟩

variable {call : Call σ} {job : CompileJob σ} {methods : String → Event → Action σ}

theorem watch (expr : String) (reaction : Value → Action σ) :
    Returns (watch job expr reaction) := by
  have hsubscriber : ∀ s, (Notification.subscriber s reaction).Returns := fun _ ↦ ⟨fun _ ↦ ⟨_, rfl⟩⟩
  have hstore : ∀ {γ : Type} (f : Store → γ × Store), (Run.onStore f : Run σ γ).Returns := fun _ ↦
    ⟨fun _ ↦ ⟨_, rfl⟩⟩
  have hobserved : ∀ id value, (Notification.observed id value : Run σ Unit).Returns := fun _ _ ↦
    ⟨fun _ ↦ ⟨_, rfl⟩⟩
  refine .bind (.attemptState (.bind (hsubscriber _) fun id ↦ .bind (hstore _) fun x ↦ ?_)) fun _ ↦
    ⟨fun _ _ ↦ ⟨_, rfl⟩⟩
  cases x with
  | error e => exact .bind (hstore _) fun _ ↦ ⟨fun _ ↦ ⟨_, rfl⟩⟩
  | ok value => exact .bind (hobserved id value) fun _ ↦ ⟨fun _ ↦ ⟨_, rfl⟩⟩

/-- **Making a binding ends** unless it calls something. -/
theorem binding {n : NodeId} {b : Binding} (hsilent : b.isCall = false) :
    Returns (Compilation.bind call job methods n b) := by
  have hstore : ∀ {γ : Type} (f : Store → Except StateError γ × Store),
      Returns (Compilation.attemptState (Run.onStore f) : Compilation σ γ) := fun _ ↦
    .attemptState ⟨fun _ ↦ ⟨_, rfl⟩⟩
  have hpresent : ∀ slot text, Returns (present job n slot text) :=
    fun _ _ ↦ .lift ⟨fun _ ↦ ⟨_, rfl⟩⟩
  have hlisten : ∀ event handler, Returns (listen job n event handler) := fun _ _ ↦
    .lift ⟨fun _ ↦ ⟨_, rfl⟩⟩
  cases b with
  | fixed slot text => exact hpresent slot text
  | live slot expr =>
    exact .bind (hstore _) fun _ ↦ .bind sequential.scene fun _ ↦ .bind (hpresent ..)
      fun _ ↦ watch ..
  | template text =>
    exact .bind (hstore _) fun _ ↦ .bind (hpresent ..) fun _ ↦ sequential.forM fun _ _ ↦ watch ..
  | writeBack expr => exact hlisten ..
  | listen event method => exact hlisten ..
  | call method event value => cases hsilent
  | refuse e => exact sequential.refuse e

/-- **Every visit of a node ends.** -/
theorem visitNode (ht : job.table.Orderly) (n : NodeId) : Returns (visitNode call job methods n) :=
  sequential.visitNode
    (fun hlookup directive b hmem ↦ binding (ht.silent hlookup directive b hmem))
    fun _ ↦ .lift ⟨fun _ ↦ ⟨_, rfl⟩⟩

end Returns

/-! ## The visit -/

/-- A list without repetitions of numbers below a bound is not longer than the bound. -/
theorem length_le_of_nodup {l : List NodeId} {bound : Nat} (hnodup : l.Nodup)
    (hlt : ∀ n ∈ l, n < bound) : l.length ≤ bound := by
  have hsub : l ⊆ List.range bound := fun n hn ↦ List.mem_range.2 (hlt n hn)
  simpa using (hnodup.subperm hsub).length_le

section Visit

variable {call : Call σ} {job : CompileJob σ} {methods : String → Event → Action σ}

/-- **A visit ends when the limit leaves room for the nodes that have not been worked on.** -/
theorem exists_visit_result (ht : job.table.Orderly) {d : Document} (hd : d.IsForest) {top : NodeId}
    (htop : top < d.nodes.size) {fuel : Nat} {seen pending : List NodeId} {p : Progress}
    {w : World σ} (htour : d.Toured top seen pending) (hfuel : d.nodes.size ≤ fuel + seen.length)
    (hw : w.scene.document.IsForest) (hsize : d.nodes.size ≤ w.scene.document.nodes.size)
    (hapart : d.Apart pending) (hagrees : d.AgreesUnder pending w.scene.document) :
    ∃ r, (visit call job methods fuel pending).run.run p w = some r := by
  induction fuel generalizing seen pending p w with
  | zero =>
    cases pending with
    | nil => exact ⟨_, rfl⟩
    | cons m pending =>
      have hlength := length_le_of_nodup htour.nodup fun n ↦ htour.lt_size htop
      simp only [List.length_append, List.length_cons] at hlength
      omega
  | succ fuel ih =>
    cases pending with
    | nil => exact ⟨_, rfl⟩
    | cons m pending =>
      have hvalid : ∀ n ∈ m :: pending, n < d.nodes.size := fun n hn ↦
        htour.lt_size htop (List.mem_append_right _ hn)
      have hcontent := (hagrees m ⟨m, by simp, .inl rfl⟩).1
      have hreturns : Returns (visitNode call job methods m) := .visitNode ht m
      obtain ⟨⟨⟨result, p₁⟩, w₁⟩, hnode⟩ := hreturns.exists_eq p w
      rw [visit, run_bind]
      show ∃ r, ((visitNode call job methods m).run.run p w).bind _ = some r
      rw [hnode]
      cases result with
      | error e => exact ⟨_, rfl⟩
      | ok owned =>
        obtain ⟨rfl, herrands⟩ := visitNode_succeeds.1 hnode
        rw [hcontent] at herrands ⊢
        have hpainting := performAll_paints
          (fun err hmem ↦ (Errand.fits_of_mem_ofNode ht hmem).silent) herrands
        have haside := hpainting.aside (.refl _ m _) hw
          (Nat.lt_of_lt_of_le (hvalid m (by simp)) hsize) (by rw [hcontent])
          (fun err hmem ↦ by rw [hcontent]; exact Errand.fits_of_mem_ofNode ht hmem)
        obtain ⟨hagrees', hchildren, hsize'⟩ := haside.agrees_next hd hsize hapart hvalid hagrees
        have hfuel' : d.nodes.size ≤ fuel + (m :: seen).length := by
          rw [List.length_cons]
          omega
        have hnext := fun htour' : d.Toured top (m :: seen) (d.next job.dialect m pending) ↦
          ih (p := p₁) htour' hfuel' (hpainting.isForest hw) hsize' (hd.apart_next hapart) hagrees'
        cases howns : job.dialect.owns (d.content? m) with
        | true =>
          rw [Document.next, if_pos howns] at hnext
          exact hnext htour.skip
        | false =>
          rw [Document.next, if_neg (by simp [howns]), ← hchildren howns] at hnext
          refine hnext ?_
          rw [hchildren howns]
          exact htour.enter

/-- **A compilation ends.** -/
theorem exists_result (ht : job.table.Orderly) {limit : Nat} {w : World σ}
    (hd : w.scene.document.IsForest) (hlimit : w.scene.document.nodes.size < limit) :
    ∃ x w', compile call limit job methods w = some (x, w') := by
  have hstaged := hd.staged job.root
  have hsize : w.scene.document.nodes.size < (w.scene.document.stage job.root).2.nodes.size :=
    hstaged.fragment_lt_size
  have htour : (w.scene.document.stage job.root).2.Toured w.scene.document.nodes.size []
      [w.scene.document.nodes.size] :=
    { forest := hd.stage job.root
      detached := (Touring.start hd job.root).toured.detached
      nodup := by simp
      up := fun n hn ↦ .inl (List.mem_singleton.1 hn)
      reached := fun n hn ↦ .inl (List.mem_singleton.1 hn).symm }
  have hfuel : (w.scene.document.stage job.root).2.nodes.size ≤
      limit + ([] : List NodeId).length := by
    rw [hstaged.size_eq]
    exact hlimit
  obtain ⟨⟨⟨result, p⟩, w₁⟩, hvisit⟩ : ∃ r, (visit call job methods limit
      [w.scene.document.nodes.size]).run.run .start
        (w.withDocument (w.scene.document.stage job.root).2) = some r :=
    exists_visit_result ht (hd.stage job.root) hsize htour hfuel (hd.stage job.root) (Nat.le_refl _)
      (by simp [Document.Apart]) fun x _ ↦ ⟨rfl, rfl⟩
  rw [compile_eq_bind, hvisit]
  cases result <;> exact ⟨_, _, rfl⟩

end Visit

end Compilation

end DataBinding

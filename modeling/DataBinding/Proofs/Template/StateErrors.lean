import DataBinding.Proofs.Template.StepsByRecursion
import DataBinding.Proofs.Template.RouteErrands

/-!
# Compilations that fail for a reason of state

A compilation fails when it comes to a bond that has no text, and the error is the one that its
expression has.  So if all bonds of a template have texts or one and the same error, **the
compilation ends with that error as soon as one of them has it** (`exists_failed_compile`), however
the others are spread over the template.
-/

set_option autoImplicit false

namespace DataBinding

open Compilation Errand

variable {σ : Type}

/-! ## Bonds without a text -/

section Fails

variable {call : Call σ} {job : CompileJob σ} {methods : String → Event → Action σ}
  {foreign : Action σ → Prop} {d d₀ : Document} {s : Store} {roster : List Post}
  {done : List Errand} {p : Progress} {w w' : World σ} {x : StateError}

/-- A step that looks something up in the store which is not there. -/
theorem fails_onStore {α β : Type} {f : Store → Except StateError α × Store}
    (h : (f w.scene.store).1 = .error x) (g : α → Compilation σ β) :
    (attemptState (Run.onStore f) >>= g).Fails p w (.state x) := by
  have hrun : Run.onStore f w = some (.error x, w.withStore (f w.scene.store).2) := by
    rw [← h]
    rfl
  exact (fails_attemptState hrun).bind g

/-- An errand whose bond has no text. -/
theorem perform_fails {err : Errand} {b : Bond} (hb : err.bond? = some b)
    (hidle : w.scene.store.tracking = []) (htext : b.text w.scene.store job.state = .error x) :
    (perform call job methods err).Fails p w (.state x) := by
  cases err with
  | count f => cases hb
  | strip n name => cases hb
  | bind n binding =>
    cases binding with
    | live slot expr =>
      cases hb
      refine fails_onStore ?_ _
      rw [Store.getValue_fst]
      rw [Bond.text] at htext
      cases hv : w.scene.store.resolve expr job.state with
      | ok v => rw [hv] at htext; cases htext
      | error e => rw [hv] at htext; cases htext; rfl
    | template text =>
      cases hb
      refine fails_onStore ?_ _
      rw [Store.render_eq hidle]
      exact htext
    | _ => cases hb

/-- The bonds of errands have texts, or all the same error. -/
def AgreeOn (x : StateError) (s : Store) (root : Value) (es : List Errand) : Prop :=
  ∀ err ∈ es, ∀ b, err.bond? = some b →
    (∃ text, b.text s root = .ok text) ∨ b.text s root = .error x

/-- Some bond of errands has the error. -/
def Lacks (x : StateError) (s : Store) (root : Value) (es : List Errand) : Prop :=
  ∃ err ∈ es, ∃ b, err.bond? = some b ∧ b.text s root = .error x

/-- **Errands fail with the error that one of their bonds has.** -/
theorem performAll_fails (h : Underway job foreign d s roster done p w) {es : List Errand}
    (hsilent : ∀ e ∈ es, e.isCall = false) (haccepted : ∀ e ∈ es, e.isRefused = false)
    (hmethods : ∀ name event, foreign (methods name event)) (hagree : AgreeOn x s job.state es)
    (hlacks : Lacks x s job.state es) :
    (performAll call job methods es).Fails p w (.state x) := by
  induction es generalizing roster done p w with
  | nil =>
    obtain ⟨err, herr, -⟩ := hlacks
    cases herr
  | cons err es ih =>
    by_cases hbad : ∃ b, err.bond? = some b ∧ b.text s job.state = .error x
    · obtain ⟨b, hb, htext⟩ := hbad
      rw [← Bond.text_of_contents h.contents] at htext
      exact (perform_fails hb h.idle htext).bind _
    · have hgood : ∀ e ∈ [err], ∀ b, e.bond? = some b → ∃ text, b.text s job.state = .ok text := by
        simp only [List.mem_singleton, forall_eq]
        exact fun b hb ↦ (hagree err (by simp) b hb).resolve_right fun htext ↦ hbad ⟨b, hb, htext⟩
      have hquiet : ∀ e ∈ [err], e.isCall = false := by simpa using hsilent err (by simp)
      obtain ⟨p₁, w₁, hfirst⟩ := h.exists_performAll call hquiet
        (by simpa using haccepted err (by simp)) hmethods hgood
      rw [performAll_singleton] at hfirst
      obtain ⟨more, h₁⟩ := h.perform (hsilent err (by simp)) hmethods hfirst
      refine hfirst.bind_fails (ih h₁ (fun e he ↦ hsilent e (by simp [he]))
        (fun e he ↦ haccepted e (by simp [he])) (fun e he ↦ hagree e (by simp [he])) ?_)
      obtain ⟨e, he, b, hb, htext⟩ := hlacks
      rcases List.mem_cons.1 he with rfl | he
      · exact absurd ⟨b, hb, htext⟩ hbad
      · exact ⟨e, he, b, hb, htext⟩

/-- A visit fails at a node, or later. -/
theorem visit_cons_fails {fuel : Nat} {n : NodeId} {pending : List NodeId} {e : BindError}
    (h : (performAll call job methods (ofNode job.table job.dialect n
          (w.scene.document.content? n))).Fails p w e ∨
      ∃ p₁ w₁, (performAll call job methods (ofNode job.table job.dialect n
          (w.scene.document.content? n))).Succeeds p w () p₁ w₁ ∧
        (visit call job methods fuel
          (if job.dialect.owns (w.scene.document.content? n) then pending
            else w₁.scene.document.children n ++ pending)).Fails p₁ w₁ e) :
    (visit call job methods (fuel + 1) (n :: pending)).Fails p w e := by
  have hscene : ∀ {w₁ : World σ} {p₁ : Progress},
      (lift Run.scene : Compilation σ (Scene σ)).Succeeds p₁ w₁ w₁.scene p₁ w₁ :=
    succeeds_lift.2 ⟨rfl, rfl⟩
  rw [visit]
  rcases h with hfails | ⟨p₁, w₁, hsucceeds, hrest⟩
  · refine Fails.bind ?_ _
    rw [visitNode_eq]
    refine hscene.bind_fails ?_
    rw [visitContent_eq]
    exact hfails.bind _
  · refine (visitNode_succeeds.2 ⟨rfl, hsucceeds⟩).bind_fails ?_
    split
    · rename_i howns
      rwa [if_pos howns] at hrest
    · rename_i howns
      rw [if_neg howns] at hrest
      exact hscene.bind_fails hrest

/-- **A visit fails with the error that a bond of its route has.** -/
theorem visit_fails {fuel : Nat} {pending : List NodeId} (ht : job.table.Orderly) (hd : d.IsForest)
    (hd₀ : d₀.IsForest) (hmethods : ∀ name event, foreign (methods name event))
    (h : Underway job foreign d₀ s roster done p w)
    (hsize : d.nodes.size ≤ w.scene.document.nodes.size) (hapart : d.Apart pending)
    (hvalid : ∀ m ∈ pending, m < d.nodes.size) (hagrees : d.AgreesUnder pending w.scene.document)
    {way : List NodeId} (hway : d.route job.dialect fuel pending = some way)
    (haccepted : ∀ e ∈ ofRoute job.table job.dialect d way, e.isRefused = false)
    (hagree : AgreeOn x s job.state (ofRoute job.table job.dialect d way))
    (hlacks : Lacks x s job.state (ofRoute job.table job.dialect d way)) :
    (visit call job methods fuel pending).Fails p w (.state x) := by
  induction fuel generalizing pending roster done p w way with
  | zero =>
    cases pending with
    | nil =>
      cases hway
      obtain ⟨err, herr, -⟩ := hlacks
      cases herr
    | cons n pending => cases hway
  | succ fuel ih =>
    cases pending with
    | nil =>
      cases hway
      obtain ⟨err, herr, -⟩ := hlacks
      cases herr
    | cons n pending =>
      rw [Document.route_succ, Option.map_eq_some_iff] at hway
      obtain ⟨rest, hrest, rfl⟩ := hway
      rw [ofRoute_cons] at haccepted hagree hlacks
      rw [List.forall_mem_append] at haccepted
      have hagree' := List.forall_mem_append.1 hagree
      have hsilent : ∀ e ∈ ofNode job.table job.dialect n (d.content? n), e.isCall = false :=
        fun err hmem ↦ (fits_of_mem_ofNode ht hmem).silent
      have hcontent := (hagrees n ⟨n, by simp, .inl rfl⟩).1
      refine visit_cons_fails ?_
      rw [hcontent]
      by_cases hhere : Lacks x s job.state (ofNode job.table job.dialect n (d.content? n))
      · exact .inl (performAll_fails h hsilent haccepted.1 hmethods hagree'.1 hhere)
      · -- All bonds of this node have texts, so the visit comes to the next one.
        have htexts : ∀ e ∈ ofNode job.table job.dialect n (d.content? n), ∀ b, e.bond? = some b →
            ∃ text, b.text s job.state = .ok text := fun e he b hb ↦
          (hagree'.1 e he b hb).resolve_right fun htext ↦ hhere ⟨e, he, b, hb, htext⟩
        have hlater : Lacks x s job.state (ofRoute job.table job.dialect d rest) := by
          obtain ⟨e, he, hbad⟩ := hlacks
          exact ⟨e, (List.mem_append.1 he).resolve_left fun he ↦ hhere ⟨e, he, hbad⟩, hbad⟩
        obtain ⟨p₁, w₁, herrands⟩ := h.exists_performAll call hsilent haccepted.1 hmethods htexts
        obtain ⟨more, h₁, hsize', hagrees', hnext⟩ :=
          h.next ht hd hd₀ hmethods hsize hapart hvalid hagrees herrands
        refine .inr ⟨p₁, w₁, herrands, ?_⟩
        rw [hnext]
        exact ih h₁ hsize' (hd.apart_next hapart) (hd.lt_size_next hvalid) hagrees'
          hrest haccepted.2 hagree'.2 hlater

/-- **A compilation ends with the error that its bonds have.** -/
theorem exists_failed_compile {limit : Nat} (ht : job.table.Orderly)
    (hmethods : ∀ name event, foreign (methods name event)) (hready : w.Ready foreign)
    (hroot : job.state.Within w.scene.store.objects.size) (hd : w.scene.document.IsForest)
    {way : List NodeId}
    (hway : (w.scene.document.stage job.root).2.route job.dialect limit
      [w.scene.document.nodes.size] = some way)
    (haccepted : ∀ e ∈ job.errands w.scene.document way, e.isRefused = false)
    (hagree : AgreeOn x w.scene.store job.state (job.errands w.scene.document way))
    (hlacks : Lacks x w.scene.store job.state (job.errands w.scene.document way)) :
    ∃ w', compile call limit job methods w = some (.error (.state x), w') := by
  have hsize : w.scene.document.nodes.size < (w.scene.document.stage job.root).2.nodes.size :=
    (hd.staged job.root).fragment_lt_size
  obtain ⟨p, w₁, hvisit⟩ := visit_fails ht (hd.stage job.root) (hd.stage job.root)
    hmethods ((hready.withDocument (w.scene.document.stage job.root).2).underway hroot)
    (Nat.le_refl _) (by simp [Document.Apart]) (by simpa using hsize) (fun x _ ↦ ⟨rfl, rfl⟩) hway
    haccepted hagree hlacks
  rw [compile_eq_bind, hvisit]
  exact ⟨_, rfl⟩

end Fails

end DataBinding

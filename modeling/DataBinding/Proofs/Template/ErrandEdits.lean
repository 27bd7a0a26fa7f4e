import DataBinding.Proofs.Engine.Soundness
import DataBinding.Proofs.Template.SuccessfulCompilations

/-!
# What errands do to the document

Which edits a compilation makes is said by its errands, and only the texts are a matter of the
state.  `Painting es d e` says that `e` is `d` after the errands `es`, with whatever texts there
were.  It is what **errands that have been done leave behind** (`performAll_paints`), in any world
and with any code, so a property of documents that no errand takes away is a property of every
compiled document (`Painting.keeps`).
-/

set_option autoImplicit false

namespace DataBinding

namespace Errand

/-- Errands done to a document in turn, each with some texts. -/
inductive Painting : List Errand → Document → Document → Prop
  | nil (d : Document) : Painting [] d d
  | cons {err : Errand} {es : List Errand} {d e : Document} (shown : Bond → String)
      (h : Painting es (err.apply shown d) e) : Painting (err :: es) d e

variable {es es' : List Errand} {d e f : Document} {n : NodeId} {owned : Bool}

namespace Painting

theorem append (h : Painting es d e) (h' : Painting es' e f) : Painting (es ++ es') d f := by
  induction h with
  | nil => exact h'
  | cons shown _ ih => exact .cons shown (ih h')

/-- **What no errand takes away is kept.** -/
theorem keeps (h : Painting es d e) {P : Document → Prop}
    (hstep : ∀ err ∈ es, ∀ shown d, P d → P (err.apply shown d)) (hd : P d) : P e := by
  induction h with
  | nil => exact hd
  | cons shown _ ih =>
    exact ih (fun err hmem ↦ hstep err (List.mem_cons_of_mem _ hmem))
      (hstep _ List.mem_cons_self shown _ hd)

theorem isForest (h : Painting es d e) (hd : d.IsForest) : e.IsForest :=
  h.keeps (fun err _ shown _ hd ↦ apply_isForest hd shown err) hd

/-- **The errands of a node stay with it**, whatever the texts are. -/
theorem aside (h : Painting es e f) (haside : d.Aside n owned e) (hd : d.IsForest)
    (hn : n < d.nodes.size) {dialect : Dialect} (howned : dialect.owns (d.content? n) = owned)
    (hfits : ∀ err ∈ es, Fits dialect n (d.content? n) err) : d.Aside n owned f := by
  refine h.keeps (fun err hmem shown d' hd' ↦ ?_) haside
  refine aside_apply hd' hd hn (hfits err hmem).node (fun hcontent ↦ ?_) shown
  rw [← howned]
  exact ((hfits err hmem).content hcontent).imp_right fun ⟨t, ht, herr⟩ ↦ ⟨t, ht, t, herr⟩

end Painting

end Errand

/-! ## Errands that have been done -/

section Perform

variable {σ : Type} {call : Call σ} {job : CompileJob σ} {methods : String → Event → Action σ}
  {p p' : Progress} {w w' : World σ} {d : Document}

open Compilation

/-- The document is the given one. -/
def World.Holds (d : Document) (w : World σ) : Prop := w.scene.document = d

theorem Run.keeps_document_onStore {α : Type} (f : Store → α × Store) :
    Run.Keeps (World.Holds d) (Run.onStore f : Run σ α) := .change fun _ h ↦ h

theorem keeps_document_watch (expr : String) (reaction : Value → Action σ) :
    Compilation.Keeps (fun _ ↦ World.Holds d) (watch job expr reaction) := by
  refine .bind (.attemptState fun _ ↦ .bind (.bind (Run.keeps_document_onStore _) fun _ ↦
    .bind (.change fun _ h ↦ h) fun _ ↦ .bind (.change fun _ h ↦ h) fun _ ↦ .pure _) fun id ↦
    .bind (Run.keeps_document_onStore _) fun r ↦ ?_) fun _ ↦ .hold fun _ _ h ↦ h
  cases r with
  | error e => exact .bind (Run.keeps_document_onStore _) fun _ ↦ .pure _
  | ok v => exact .bind (.change fun _ h ↦ h) fun _ ↦ .pure _

theorem keeps_document_listen (n : NodeId) (event : String) (handler : Event → Action σ) :
    Compilation.Keeps (fun _ ↦ World.Holds d) (listen job n event handler) :=
  .lift fun _ ↦ .bind (.change fun _ h ↦ h) fun _ ↦ .bind .look fun _ ↦
    .bind (.change fun _ h ↦ h) fun _ ↦ .change fun _ h ↦ h

/-- **An errand that has been done has edited the document** with some texts. -/
theorem perform_paints {err : Errand} (hsilent : err.isCall = false) {u : Unit}
    (hrun : (perform call job methods err).Succeeds p w u p' w') :
    ∃ shown, w'.scene.document = err.apply shown w.scene.document := by
  cases err with
  | count f =>
    obtain ⟨-, rfl⟩ := succeeds_count.1 hrun
    exact ⟨fun _ ↦ "", rfl⟩
  | strip n name =>
    obtain ⟨hrun, -⟩ := succeeds_lift.1 hrun
    cases hrun
    exact ⟨fun _ ↦ "", rfl⟩
  | bind n binding =>
    cases binding with
    | fixed slot text =>
      obtain ⟨-, rfl⟩ := present_succeeds.1 hrun
      exact ⟨fun _ ↦ "", rfl⟩
    | live slot expr =>
      obtain ⟨v, p₁, w₁, hvalue, hrun⟩ := succeeds_bind.1 hrun
      obtain ⟨s, p₂, w₂, hscene, hrun⟩ := succeeds_bind.1 hrun
      obtain ⟨u, p₃, w₃, hpresent, hrun⟩ := succeeds_bind.1 hrun
      have hw₁ : World.Holds w.scene.document w₁ :=
        (Keeps.attemptState fun _ ↦ Run.keeps_document_onStore _).kept hvalue rfl
      obtain ⟨hscene, -⟩ := succeeds_lift.1 hscene
      cases hscene
      obtain ⟨-, rfl⟩ := present_succeeds.1 hpresent
      have hw' := (keeps_document_watch expr _).kept hrun rfl
      exact ⟨fun _ ↦ w₁.scene.store.display v, hw'.trans (congrArg (Document.apply · _) hw₁)⟩
    | template text =>
      obtain ⟨t, p₁, w₁, hrender, hrun⟩ := succeeds_bind.1 hrun
      obtain ⟨u, p₂, w₂, hpresent, hrun⟩ := succeeds_bind.1 hrun
      have hw₁ : World.Holds w.scene.document w₁ :=
        (Keeps.attemptState fun _ ↦ Run.keeps_document_onStore _).kept hrender rfl
      obtain ⟨-, rfl⟩ := present_succeeds.1 hpresent
      have hw' := ((Keeps.compositional fun _ _ _ h ↦ h).forM fun expr _ ↦
        keeps_document_watch expr _).kept hrun rfl
      exact ⟨fun _ ↦ t, hw'.trans (congrArg (Document.apply · (Slot.text.edit n t)) hw₁)⟩
    | writeBack expr => exact ⟨fun _ ↦ "", (keeps_document_listen n _ _).kept hrun rfl⟩
    | listen event method => exact ⟨fun _ ↦ "", (keeps_document_listen n _ _).kept hrun rfl⟩
    | call method event value => cases hsilent
    | refuse r => exact absurd hrun not_succeeds_refuse

/-- **So have errands in turn.** -/
theorem performAll_paints {es : List Errand} (hsilent : ∀ err ∈ es, err.isCall = false) {u : Unit}
    (hrun : (performAll call job methods es).Succeeds p w u p' w') :
    Errand.Painting es w.scene.document w'.scene.document := by
  induction es generalizing p w with
  | nil =>
    obtain ⟨-, rfl⟩ := performAll_nil.1 hrun
    exact .nil _
  | cons err es ih =>
    obtain ⟨p₁, w₁, hfirst, hrest⟩ := performAll_cons.1 hrun
    obtain ⟨shown, hshown⟩ := perform_paints (hsilent err List.mem_cons_self) hfirst
    exact .cons shown
      (hshown ▸ ih (fun err' hmem ↦ hsilent err' (List.mem_cons_of_mem _ hmem)) hrest)

end Perform

end DataBinding

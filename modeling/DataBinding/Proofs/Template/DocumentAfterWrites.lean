import DataBinding.Proofs.Template.WritesAfterCompiling
import DataBinding.Proofs.Template.StandardDirectives

/-!
# What a document depicts

The document of a compiled template is what its errands make of the original, for some assignment of
texts to bonds.  `Depicted` says which assignment it is.  A write changes it at those bonds that are
shown, and **a bond that is not shown again keeps its text, and its watchers know what they knew**
(`Depicted.writes`).

This takes that bonds do not show one over the other, `Separate`, and that foreign code leaves the
document alone.
-/

set_option autoImplicit false

namespace DataBinding

open Document Errand
open Relation (ReflTransGen)

variable {σ : Type}

/-- Foreign code leaves the document alone. -/
def NoEdits (_ _ : Document) : Prop := False

theorem NoEdits.eq_of_reflTransGen {d e : Document} (h : ReflTransGen NoEdits d e) : e = d := by
  induction h with
  | refl => rfl
  | tail _ hedit => exact hedit.elim

/-- The errands of a template that is staged do not show one over the other. -/
structure Separate (job : CompileJob σ) (d : Document) (es : List Errand) : Prop where
  forest : d.IsForest
  parts : (es.filterMap Errand.part?).Nodup
  bonds : ∀ err ∈ es, err.bond?.isSome → err.part?.isSome
  backs : ((es.filterMap Errand.back?).map Prod.fst).Nodup
  free : ∀ err ∈ es, ∀ n, err.node? = some n → n ≠ d.nodes.size ∧ n ≠ job.root

/-- The document that errands make of a template, given the texts of bonds. -/
def CompileJob.depiction (job : CompileJob σ) (d : Document) (es : List Errand)
    (shown : Bond → String) : Document :=
  (painted shown (d.stage job.root).2 es).restore d.nodes.size job.root

/-- A compiled template whose bonds have been shown with the given texts, and whose watchers are up
to date. -/
structure Depicted (job : CompileJob σ) (foreign : Action σ → Prop) (d : Document)
    (es : List Errand) (roster : List Post) (shown : Bond → String) (w : World σ) : Prop where
  attended : Attended job foreign NoEdits (d.stage job.root).2 es roster w
  current : ∀ q ∈ roster, q.Current job w
  wired : Wired job foreign (es.filterMap Errand.back?) w
  document : w.scene.document = job.depiction d es shown

/-! ## Showing a bond -/

section Depiction

variable {job : CompileJob σ} {d e e' : Document} {es : List Errand} {err : Errand} {b : Bond}
  {shown : Bond → String}

/-- A place stays a place when other nodes are moved. -/
theorem Bond.ShownAt.restore {i staged root : NodeId} (h : b.ShownAt i e) (he : e.IsForest)
    (hstaged : b.node ≠ staged) (hroot : b.node ≠ root) : b.ShownAt i (e.restore staged root) := by
  have hcontent : ∀ k, (e.restore staged root).content? k = e.content? k :=
    fun k ↦ content?_appendAll _ _ _ k
  cases h with
  | control hslot hi hx => exact .control hslot hi ((hcontent i).trans hx)
  | text hslot hi ht => exact .text hslot hi ((hcontent i).trans ht)
  | inside hslot hx hch ht =>
    exact .inside hslot ((hcontent _).trans hx) ((he.children_restore hstaged hroot).trans hch)
      ((hcontent i).trans ht)

/-- **Showing a bond again** gives the depiction with the new text, and the bond has a place
there. -/
theorem Separate.apply (h : Separate job d es) (hl : Laid job.dialect (d.stage job.root).2 es)
    (herr : err ∈ es) (hb : err.bond? = some b) (shown : Bond → String) (text : String) :
    (∃ i, b.ShownAt i (job.depiction d es shown)) ∧
      (job.depiction d es shown).apply (b.edit text) =
        job.depiction d es (Function.update shown b text) := by
  obtain ⟨⟨i, hplace⟩, happly⟩ := painted_apply hl h.parts herr hb
    (h.bonds err herr (by rw [hb]; rfl)) shown text
  have hforest := painted_isForest hl.forest shown es
  obtain ⟨hstaged, hroot⟩ := h.free err herr _ (node?_of_bond hb)
  have hplace' : b.ShownAt i (job.depiction d es shown) := hplace.restore hforest hstaged hroot
  refine ⟨⟨i, hplace'⟩, ?_⟩
  rw [hplace'.apply_edit, CompileJob.depiction, CompileJob.depiction, ← happly, hplace.apply_edit,
    mapContent_restore]

/-- **Where bonds are shown again**, the depiction changes there and nowhere else. -/
theorem Separate.redrawn (h : Separate job d es) (hl : Laid job.dialect (d.stage job.root).2 es)
    {log : List (Bond × String)} (hredrawn : Redrawn NoEdits e log e')
    (hlog : ∀ c ∈ log, ∃ err ∈ es, err.bond? = some c.1) (he : e = job.depiction d es shown) :
    ∃ shown', e' = job.depiction d es shown' ∧ ∀ b, (b, shown' b) ∈ log ∨
      (∀ c ∈ log, c.1 ≠ b) ∧ shown' b = shown b := by
  induction hredrawn with
  | start => exact ⟨shown, he, fun b ↦ .inr ⟨by simp, rfl⟩⟩
  | foreign _ hedit _ => exact hedit.elim
  | shown _ b text ih =>
    rw [List.forall_mem_append] at hlog
    obtain ⟨err, herr, hb⟩ := hlog.2 (b, text) (by simp)
    obtain ⟨shown', rfl, hshown⟩ := ih hlog.1
    refine ⟨_, (h.apply hl herr hb shown' text).2, fun b' ↦ ?_⟩
    by_cases heq : b' = b
    · rw [heq, Function.update_self]
      exact .inl (by simp)
    · rw [Function.update_of_ne heq]
      rcases hshown b' with hmem | ⟨hnone, hsame⟩
      · exact .inl (List.mem_append_left _ hmem)
      · exact .inr ⟨List.forall_mem_append.2 ⟨hnone, by simpa using Ne.symm heq⟩, hsame⟩

end Depiction

/-! ## Foreign code and writes -/

namespace Depicted

variable {job : CompileJob σ} {foreign : Action σ → Prop} {d : Document} {es : List Errand}
  {roster : List Post} {shown : Bond → String} {w w' : World σ} {depth : Nat}

/-- What spares a template changes nothing of what is depicted. -/
theorem spared (h : Depicted job foreign d es roster shown w)
    (horder : ∃ marks, InOrder [] [] marks w')
    (hspared : Spared foreign NoEdits (roster.map Post.id) w w') :
    Depicted job foreign d es roster shown w' := by
  have hdocument := NoEdits.eq_of_reflTransGen hspared.document
  refine ⟨h.attended.spared horder hspared, fun q hq ↦ ?_, h.wired.kept hspared.listeners,
    hdocument.trans h.document⟩
  exact (h.current q hq).congr (hspared.watchers _ (List.mem_map_of_mem hq))
    (hspared.kept.resolve_eq h.attended.closed h.attended.rooted q.expr)

variable (hby : Bystanding foreign NoEdits (roster.map Post.id))

include hby

/-- **A write shows some bonds again and leaves the others.** -/
theorem writes (h : Depicted job foreign d es roster shown w) (hseparate : Separate job d es)
    {o : ObjectId} {key : String} {v : Value} {r : Except StateError Unit}
    (hw : w.Writes depth o key v r w')
    (hsettled : ∀ err ∈ es, ∀ b, err.bond? = some b → b.Settled w'.scene.store job.state) :
    (w.scene.store.write o key v).2.Closed ∧
      (w.scene.store.write o key v).2.Kept w'.scene.store ∧ w.ListenersKept foreign w' ∧
      ∃ shown', Depicted job foreign d es roster shown' w' ∧ ∀ err ∈ es, ∀ b, err.bond? = some b →
        shown' b = b.shown w'.scene.store job.state ∨ shown' b = shown b ∧
          ∀ q ∈ roster, q.bond = b → w'.scene.watcher? q.id = w.scene.watcher? q.id := by
  obtain ⟨hclosed, hroot, log, hup, h'⟩ := h.attended.writes hby hw
  obtain ⟨shown', hdocument, hshown⟩ := hseparate.redrawn h.attended.laid hup.document
    (fun _ hc ↦ h.attended.log_errands hup hc) h.document
  have hlisteners : w.ListenersKept foreign w' := ⟨hup.listeners.handlers, hup.listeners.listeners⟩
  refine ⟨hclosed, hup.kept, hlisteners, shown', ⟨h', fun q hq ↦ ?_, h.wired.kept hlisteners,
      hdocument⟩, fun err herr b hb ↦ ?_⟩
  · obtain ⟨err, herr, hb, -⟩ := h.attended.errands q hq
    exact hup.current hclosed hroot hq (.inl (h.current q hq)) (hsettled err herr _ hb).exists_text
  · rcases hshown b with hmem | ⟨hquiet, hsame⟩
    · have htext := hup.text_eq hclosed hroot hmem (hsettled err herr b hb)
      exact .inl (Bond.shown_of_text htext).symm
    · exact .inr ⟨hsame, fun q hq hqb ↦ hup.observed q hq (by rwa [hqb])⟩

end Depicted

/-! ## Documents that depict the state -/

/-- A compiled template whose bonds all have texts made of scalars, and are shown with these. -/
structure Mirrored (job : CompileJob σ) (foreign : Action σ → Prop) (d : Document)
    (es : List Errand) (roster : List Post) (w : World σ) : Prop where
  depicted : Depicted job foreign d es roster (Bond.shown w.scene.store job.state) w
  settled : ∀ err ∈ es, ∀ b, err.bond? = some b → b.Settled w.scene.store job.state

namespace Depicted

variable {job : CompileJob σ} {foreign : Action σ → Prop} {d : Document} {es : List Errand}
  {roster : List Post} {shown shown' : Bond → String} {w w' : World σ}

/-- A bond whose watchers have observed nothing new has the text that it had. -/
theorem shown_eq (h : Depicted job foreign d es roster shown w)
    (h' : Depicted job foreign d es roster shown' w') {err : Errand} (herr : err ∈ es) {b : Bond}
    (hb : err.bond? = some b) (hsettled : b.Settled w.scene.store job.state)
    (hsettled' : b.Settled w'.scene.store job.state)
    (hsame : ∀ q ∈ roster, q.bond = b → w'.scene.watcher? q.id = w.scene.watcher? q.id) :
    b.shown w'.scene.store job.state = b.shown w.scene.store job.state := by
  have htext : b.text w.scene.store job.state = b.text w'.scene.store job.state := by
    refine Bond.text_congr fun expr hexpr ↦ ?_
    obtain ⟨q, hq, hqb, rfl⟩ := h.attended.posts err herr b hb expr hexpr
    obtain ⟨y, hy⟩ := (h.attended.staffed.held q hq).watcher
    obtain ⟨v, hv, -⟩ := hsettled q.expr hexpr
    obtain ⟨u, hu, hscalar⟩ := hsettled' q.expr hexpr
    exact Store.showsSame_of_alike hv hu (h.current q hq _ v hy hv)
      (h'.current q hq _ u ((hsame q hq hqb).trans hy) hu) hscalar
  rw [hsettled.text_eq, hsettled'.text_eq] at htext
  exact (Except.ok.inj htext).symm

/-- A depiction that shows the text of every bond mirrors the state. -/
theorem mirrored (h : Depicted job foreign d es roster shown w)
    (hsettled : ∀ err ∈ es, ∀ b, err.bond? = some b → b.Settled w.scene.store job.state)
    (hshown : ∀ err ∈ es, ∀ b, err.bond? = some b → shown b = b.shown w.scene.store job.state) :
    Mirrored job foreign d es roster w := by
  refine ⟨{ h with document := ?_ }, hsettled⟩
  rw [h.document, CompileJob.depiction, CompileJob.depiction, painted_congr hshown]

end Depicted

namespace Mirrored

variable {job : CompileJob σ} {foreign : Action σ → Prop} {d : Document} {es : List Errand}
  {roster : List Post} {w w' : World σ}

/-- What spares a template leaves it a mirror of the state. -/
theorem spared (h : Mirrored job foreign d es roster w) (horder : ∃ marks, InOrder [] [] marks w')
    (hspared : Spared foreign NoEdits (roster.map Post.id) w w') :
    Mirrored job foreign d es roster w' := by
  have hclosed := h.depicted.attended.closed
  have hroot := h.depicted.attended.rooted
  refine (h.depicted.spared horder hspared).mirrored (fun err herr b hb ↦ ?_) fun err herr b hb ↦ ?_
  · exact (hspared.kept.settled_iff hclosed hroot).2 (h.settled err herr b hb)
  · have htext := hspared.kept.text_eq hclosed hroot (h.settled err herr b hb)
    rw [(h.settled err herr b hb).text_eq] at htext
    exact (Bond.shown_of_text htext).symm

/-- **A write after which all bonds are settled leaves a template a mirror of the state.** -/
theorem writes (h : Mirrored job foreign d es roster w)
    (hby : Bystanding foreign NoEdits (roster.map Post.id)) (hseparate : Separate job d es)
    {depth : Nat} {o : ObjectId} {key : String} {v : Value} {r : Except StateError Unit}
    (hw : w.Writes depth o key v r w')
    (hsettled : ∀ err ∈ es, ∀ b, err.bond? = some b → b.Settled w'.scene.store job.state) :
    Mirrored job foreign d es roster w' := by
  obtain ⟨-, -, -, shown', h', hshown⟩ := h.depicted.writes hby hseparate hw hsettled
  refine h'.mirrored hsettled fun err herr b hb ↦ ?_
  rcases hshown err herr b hb with hright | ⟨hsame, hquiet⟩
  · exact hright
  · exact hsame.trans (h.depicted.shown_eq h' herr hb (h.settled err herr b hb)
      (hsettled err herr b hb) hquiet).symm

end Mirrored

end DataBinding

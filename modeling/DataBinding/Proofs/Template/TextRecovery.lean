import DataBinding.Proofs.Template.WritesAfterCompiling
import DataBinding.Proofs.Template.ReadOnlyCode
import Mathlib.Logic.Relation

/-!
# When interpolated text recovers

A text node with expressions has one watcher for each of them, and each of these renders the whole
template when its own expression has a new value.  That fails while some other expression has no
value, and then the watcher has observed nothing.  Whether the text is right when all expressions
have values again is the question of this file.

* `interpolated_text` — **as long as no watcher is left behind in this way, the text is right
  whenever all expressions have scalars for values**; and, whatever happened before, a write after
  which they have makes the text right exactly if it tells a watcher with news, or the text happened
  to be right.
* `text_stays_stale` — a run in which a watcher is left behind and the text stays wrong for good.
-/

set_option autoImplicit false

namespace DataBinding

open Relation (ReflTransGen)

variable {σ : Type}

/-! ## What is asked of the text -/

namespace CompileJob

/-- Every expression of a template has a scalar for its value. -/
def Resolves (job : CompileJob σ) (template : String) (s : Store) : Prop :=
  ∀ expr ∈ Template.expressions template,
    ∃ v, (Store.getValue expr job.state s).1 = .ok v ∧ v.isScalar = true

instance (job : CompileJob σ) (template : String) (s : Store) :
    Decidable (job.Resolves template s) :=
  decidable_of_iff (∀ expr ∈ Template.expressions template,
      (Store.getValue expr job.state s).1.toOption.any Value.isScalar = true) <|
    forall₂_congr fun _ _ ↦ Store.any_isScalar_iff

/-- The text of a node is what rendering the template gives. -/
def Renders (job : CompileJob σ) (template : String) (n : NodeId) (s : Store) (d : Document) :
    Prop :=
  ∃ text, (Store.render template job.state s).1 = .ok text ∧ d.content? n = some (.text text)

/-- From `w` to `w'` a watcher is left behind: rendering fails now, so whoever has news cannot have
shown them. -/
def Strands (job : CompileJob σ) (template : String) (posts : List Post) (w w' : World σ) : Prop :=
  (∃ e, (Store.render template job.state w'.scene.store).1 = .error e) ∧
    ∃ q ∈ posts, ∃ x v, w.scene.watcher? q.id = some x ∧
      (Store.getValue q.expr job.state w'.scene.store).1 = .ok v ∧ ¬x.observed.Alike v

end CompileJob

/-- What is tried: a write, to a key that is there or to a path that leads nowhere, or new objects,
which later writes may put into the state. -/
inductive World.Tries (w w' : World σ) : Prop
  | write {depth : Nat} {o : ObjectId} {key : String} {v : Value} {r : Except StateError Unit}
      (h : w.Writes depth o key v r w')
  | astray {depth : Nat} {path : String} {root v : Value} {r : Except StateError Unit}
      {e : StateError} (hpath : (Store.target path root w.scene.store).1 = .error e)
      (hrun : Notification.setPath (run depth) path root v w = some (r, w'))
  | observe (data : Json) (h : w' = w.withStore (Store.observe data w.scene.store).2)

/-- The posts of a bond. -/
def Bond.posts (b : Bond) (roster : List Post) : List Post := roster.filter fun q ↦ q.bond = b

theorem Bond.mem_posts {b : Bond} {roster : List Post} {q : Post} :
    q ∈ b.posts roster ↔ q ∈ roster ∧ q.bond = b := by
  simp [Bond.posts]

section Text

variable {job : CompileJob σ} {template : String} {n : NodeId} {s : Store} {root : Value}

theorem CompileJob.resolves_iff :
    job.Resolves template s ↔ (Bond.template n template).Settled s job.state :=
  forall₂_congr fun expr _ ↦ by rw [Store.getValue_fst]

/-- Nobody is left behind when all watchers that see a value have observed it. -/
theorem CompileJob.not_strands {posts : List Post} {scope : List SubscriberId} {w₁ w w' : World σ}
    (hposts : ∀ q ∈ posts, q.id ∈ scope ∧ q.Held job w₁)
    (habreast : ∀ id ∈ scope, ∀ x₁ ∈ w₁.scene.watcher? id, ∀ x ∈ w.scene.watcher? id,
      ∀ v ∈ (Store.getValue x₁.expr x₁.root w'.scene.store).1.toOption, x.observed.Alike v) :
    ¬job.Strands template posts w w' := by
  rintro ⟨-, q, hq, x, v, hx, hv, hbehind⟩
  obtain ⟨hid, hheld⟩ := hposts q hq
  obtain ⟨u, hu⟩ := hheld.watcher
  refine hbehind (habreast q.id hid _ hu x hx v ?_)
  rw [Store.getValue_fst, Store.resolve_trim, ← Store.getValue_fst, hv]
  rfl

theorem CompileJob.renders_iff (hidle : s.tracking = []) {d : Document} :
    job.Renders template n s d ↔
      ∃ text, s.filled template job.state = .ok text ∧ d.content? n = some (.text text) := by
  rw [Renders, Store.render_eq hidle]

end Text

/-! ## One write -/

section Write

variable {job : CompileJob σ} {foreign : Action σ → Prop} {edits : Document → Document → Prop}
  {d : Document} {es : List Errand} {roster : List Post} {w w' : World σ} {n : NodeId}
  {template : String} {depth : Nat} {o : ObjectId} {key : String} {v : Value}
  {r : Except StateError Unit}

/-- A text node that is bound to its template.  Foreign edits leave it alone. -/
structure Interpolates (edits : Document → Document → Prop) (d : Document) (es : List Errand)
    (n : NodeId) (template : String) : Prop where
  content : d.content? n = some (.text template)
  errand : .bind n (.template template) ∈ es
  spared : ∀ e e', edits e e' → e'.content? n = e.content? n

/-- The text of a node is in step: its watchers have observed the values of their expressions, and
in whatever state these are the values, the text is what the template gives there. -/
structure InStep (job : CompileJob σ) (posts : List Post) (n : NodeId) (template : String)
    (w : World σ) : Prop where
  current : ∀ q ∈ posts, q.Current job w
  text : ∀ t : Store, (∀ q ∈ posts, ∃ x v, w.scene.watcher? q.id = some x ∧
    t.resolve q.expr job.state = .ok v ∧ x.observed.Alike v ∧ v.isScalar = true) →
    ∃ text, t.filled template job.state = .ok text ∧
      w.scene.document.content? n = some (.text text)

/-- Two stores in which the watchers of a text would observe the same scalars give the same text. -/
theorem Attended.filled_congr (h : Attended job foreign edits d es roster w)
    (hn : Interpolates edits d es n template) {s t : Store}
    (hposts : ∀ q ∈ (Bond.template n template).posts roster, ∃ x u v : Value,
      s.resolve q.expr job.state = .ok u ∧ t.resolve q.expr job.state = .ok v ∧ x.Alike u ∧
        x.Alike v ∧ v.isScalar = true) :
    s.filled template job.state = t.filled template job.state := by
  refine Store.filled_congr fun expr hexpr ↦ ?_
  obtain ⟨q, hq, hbond, rfl⟩ := h.posts _ hn.errand _ rfl expr hexpr
  obtain ⟨x, u, v, hu, hv, hxu, hxv, hscalar⟩ := hposts q (Bond.mem_posts.2 ⟨hq, hbond⟩)
  exact Store.showsSame_of_alike hu hv hxu hxv hscalar

/-- Where the text of a node is what the template gives, it is in step with watchers that are up to
date. -/
theorem InStep.of_shown (h : Attended job foreign edits d es roster w)
    (hn : Interpolates edits d es n template)
    (hcurrent : ∀ q ∈ (Bond.template n template).posts roster, q.Current job w)
    (htext : ∃ text, (Bond.template n template).text w.scene.store job.state = .ok text)
    {text : String} (hshown : (Bond.template n template).Settled w.scene.store job.state →
      (Bond.template n template).text w.scene.store job.state = .ok text)
    (hcontent : w.scene.document.content? n = some (.text text)) :
    InStep job ((Bond.template n template).posts roster) n template w := by
  refine ⟨hcurrent, fun t ht ↦ ?_⟩
  have hvalue : ∀ q ∈ (Bond.template n template).posts roster, ∃ x u v : Value,
      w.scene.store.resolve q.expr job.state = .ok u ∧ t.resolve q.expr job.state = .ok v ∧
        x.Alike u ∧ x.Alike v ∧ v.isScalar = true := by
    intro q hq
    obtain ⟨x, v, hx, hv, halike, hscalar⟩ := ht q hq
    obtain ⟨hmem, hbond⟩ := Bond.mem_posts.1 hq
    obtain ⟨err, -, -, hexpr⟩ := h.errands q hmem
    obtain ⟨text, htext⟩ := htext
    rw [hbond] at hexpr
    obtain ⟨u, hu⟩ := Bond.resolve_of_text htext hexpr
    exact ⟨x.observed, u, v, hu, hv, hcurrent q hq x u hx hu, halike, hscalar⟩
  have hsettled : (Bond.template n template).Settled w.scene.store job.state := by
    intro expr hexpr
    obtain ⟨q, hq, hbond, rfl⟩ := h.posts _ hn.errand _ rfl expr hexpr
    obtain ⟨x, u, v, hu, -, hxu, hxv, hscalar⟩ := hvalue q (Bond.mem_posts.2 ⟨hq, hbond⟩)
    exact ⟨u, hu, by rw [← hxu.isScalar_eq, hxv.isScalar_eq, hscalar]⟩
  rw [← h.filled_congr hn hvalue]
  exact ⟨text, hshown hsettled, hcontent⟩

/-- **What becomes of the text of a text node**: it is the text that was shown last for its
template, or what it was. -/
theorem Redrawn.content?_eq {dialect : Dialect} {e e' : Document} {log : List (Bond × String)}
    (h : Redrawn edits e log e') (hn : Interpolates edits d es n template) (hl : Laid dialect d es)
    (hedits : ∀ e e', edits e e' → Tended dialect d es e → Tended dialect d es e')
    (hlog : ∀ c ∈ log, ∃ err ∈ es, err.bond? = some c.1) (he : Tended dialect d es e) :
    (∃ text, (Bond.template n template, text) ∈ log ∧ e'.content? n = some (.text text)) ∨
      (∀ c ∈ log, c.1 ≠ .template n template) ∧ e'.content? n = e.content? n := by
  induction h with
  | start => exact .inr ⟨by simp, rfl⟩
  | foreign _ hedit ih =>
    rw [hn.spared _ _ hedit]
    exact ih hlog
  | shown hearlier b text ih =>
    rw [List.forall_mem_append] at hlog
    obtain ⟨err, herr, hb⟩ := hlog.2 (b, text) (by simp)
    rw [(hearlier.tended hl hedits hlog.1 he).content?_shown hl hn.content hn.errand herr hb text]
    by_cases heq : b = .template n template
    · rw [if_pos heq, heq]
      exact .inl ⟨text, by simp, rfl⟩
    · rw [if_neg heq]
      rcases ih hlog.1 with ⟨text', hmem, hcontent⟩ | ⟨hnone, hcontent⟩
      · exact .inl ⟨text', List.mem_append_left _ hmem, hcontent⟩
      · exact .inr ⟨List.forall_mem_append.2 ⟨hnone, by simpa using heq⟩, hcontent⟩

/-- What a write does to the text: it is shown, or nothing of it changes. -/
theorem Attended.text_or_quiet (h : Attended job foreign edits d es roster w)
    (hn : Interpolates edits d es n template) {told : List SubscriberId} {owed : Post → Prop}
    {log : List (Bond × String)} {s : Store}
    (hup : Upkeep job foreign edits roster owed told (w.withStore s) [] log w') :
    (∃ text, (Bond.template n template, text) ∈ log ∧
        w'.scene.document.content? n = some (.text text)) ∨
      (∀ c ∈ log, c.1 ≠ .template n template) ∧
        w'.scene.document.content? n = w.scene.document.content? n :=
  hup.document.content?_eq hn h.laid h.harmless (fun _ hc ↦ h.log_errands hup hc) h.tended

variable (h : Attended job foreign edits d es roster w)
  (hby : Bystanding foreign edits (roster.map Post.id)) (hn : Interpolates edits d es n template)
  (hw : w.Writes depth o key v r w')

include h hby hn hw

/-- **A write makes the text right exactly if it tells a watcher with news**, or if the text happens
to be right already. -/
theorem Attended.renders_iff (hresolves : job.Resolves template w'.scene.store) :
    job.Renders template n w'.scene.store w'.scene.document ↔
      (∃ q ∈ (Bond.template n template).posts roster,
        q.id ∈ w.told o key v ∧ q.HasNews job w w'.scene.store) ∨
      job.Renders template n w'.scene.store w.scene.document := by
  obtain ⟨hclosed, hroot, log, hup, h'⟩ := h.writes hby hw
  have hsettled := CompileJob.resolves_iff (n := n).1 hresolves
  rw [CompileJob.renders_iff h'.idle, CompileJob.renders_iff h'.idle]
  -- What is news is so before and after the fan-out.
  have hnews : ∀ q : Post, q.HasNews job w w'.scene.store ↔
      q.HasNews job (w.withStore (w.scene.store.write o key v).2) (w.scene.store.write o key v).2 :=
    fun q ↦ exists₂_congr fun x u ↦ by
      rw [hup.kept.resolve_eq hclosed hroot q.expr, World.store_withStore, World.watcher?_withStore]
  rcases h.text_or_quiet hn hup with ⟨text, hlog, hcontent⟩ | ⟨hquiet, hcontent⟩
  · refine iff_of_true ⟨text, hup.text_eq hclosed hroot hlog hsettled, hcontent⟩ (.inl ?_)
    obtain ⟨⟨q, hq, hbond, htold, hq'⟩, -⟩ := hup.texts _ hlog
    exact ⟨q, Bond.mem_posts.2 ⟨hq, hbond⟩, htold, (hnews q).2 hq'⟩
  · rw [hcontent]
    refine ⟨.inr, fun hright ↦ hright.resolve_left ?_⟩
    rintro ⟨q, hq, htold, hq'⟩
    obtain ⟨hq, hbond⟩ := Bond.mem_posts.1 hq
    rcases hup.announced q hq htold (by simp) ((hnews q).1 hq') with ⟨c, hc, hcb⟩ | ⟨e, he⟩
    · exact hquiet c hc (hcb.trans hbond)
    · obtain ⟨text, htext⟩ := ((hup.kept.settled_iff hclosed hroot).1 hsettled).exists_text
      rw [hbond, htext] at he
      cases he

/-- **A write that leaves no watcher behind keeps the text in step.** -/
theorem InStep.writes (hstep : InStep job ((Bond.template n template).posts roster) n template w)
    (hstrands : ¬job.Strands template ((Bond.template n template).posts roster) w w') :
    InStep job ((Bond.template n template).posts roster) n template w' := by
  obtain ⟨hclosed, hroot, log, hup, h'⟩ := h.writes hby hw
  -- If there is a text, everybody is up to date.
  have hcurrent : (∃ text, (Bond.template n template).text w'.scene.store job.state = .ok text) →
      ∀ q ∈ (Bond.template n template).posts roster, q.Current job w' := by
    intro htext q hq
    obtain ⟨hmem, hbond⟩ := Bond.mem_posts.1 hq
    exact hup.current hclosed hroot hmem (.inl (hstep.current q hq)) (by rwa [hbond])
  rcases h.text_or_quiet hn hup with ⟨text, hlog, hcontent⟩ | ⟨hquiet, hcontent⟩
  · have htext : ∃ text, (Bond.template n template).text w'.scene.store job.state = .ok text := by
      obtain ⟨-, t, hkept, htext⟩ := hup.texts _ hlog
      rw [hup.kept.text_isOk_iff hclosed hroot, ← hkept.text_isOk_iff hclosed hroot]
      exact ⟨text, htext⟩
    exact .of_shown h' hn (hcurrent htext) htext (hup.text_eq hclosed hroot hlog) hcontent
  · have hsame : ∀ q ∈ (Bond.template n template).posts roster,
        w'.scene.watcher? q.id = w.scene.watcher? q.id := fun q hq ↦
      hup.observed q (Bond.mem_posts.1 hq).1 (by rw [(Bond.mem_posts.1 hq).2]; exact hquiet)
    refine ⟨fun q hq ↦ ?_, fun t ht ↦ ?_⟩
    · by_cases htext : ∃ text, (Bond.template n template).text w'.scene.store job.state = .ok text
      · exact hcurrent htext q hq
      · obtain ⟨e, he⟩ := Bond.exists_error htext
        intro x u hx hu
        by_contra hbehind
        refine hstrands ⟨⟨e, ?_⟩, q, hq, x, u, (hsame q hq).symm.trans hx, ?_, hbehind⟩
        · rw [Store.render_eq h'.idle]
          exact he
        · rw [Store.getValue_fst]
          exact hu
    · rw [hcontent]
      exact hstep.text t fun q hq ↦ by rw [← hsame q hq]; exact ht q hq

end Write

/-! ## Runs of writes -/

section Run

variable {job : CompileJob σ} {foreign : Action σ → Prop} {edits : Document → Document → Prop}
  {roster : List Post} {w w' : World σ} {n : NodeId} {template : String}

/-- A visited text node with an expression is bound to its template. -/
theorem Finished.interpolates {limit : Nat} {d : Document} {s : Store} {way : List NodeId}
    (h : Finished job foreign limit d s way roster w) (hd : d.IsForest) (ht : job.table.Orderly)
    (hvisited : d.Visited job.dialect job.root n) (hcontent : d.content? n = some (.text template))
    (hexpr : Template.hasExpression template = true)
    (hedits : ∀ e e', edits e e' → e.ChangedElsewhere (d.Above job.root) e') :
    Interpolates edits (d.stage job.root).2 (job.errands d way) n template := by
  have hstaged := hd.staged job.root
  have hcontent' : (d.stage job.root).2.content? n = some (.text template) := by
    rw [hstaged.content?_eq n ((hvisited.above hd).lt_size hd).2, hcontent]
  refine ⟨hcontent', List.mem_flatMap.2 ⟨n, hvisited.mem_route hd hstaged h.route, ?_⟩,
    fun e e' hedit ↦ (hedits e e' hedit).content?_eq n (hvisited.above hd)⟩
  rw [hcontent', Errand.ofNode_of_hasExpression ht n hexpr]
  exact List.mem_cons_of_mem _ List.mem_cons_self

/-- A compilation leaves its texts in step. -/
theorem Finished.inStep {limit : Nat} {d : Document} {s : Store} {way : List NodeId}
    (h : Finished job foreign limit d s way roster w)
    (hattended : Attended job foreign edits (d.stage job.root).2 (job.errands d way) roster w)
    (hn : Interpolates edits (d.stage job.root).2 (job.errands d way) n template) :
    InStep job ((Bond.template n template).posts roster) n template w := by
  obtain ⟨text, htext⟩ := h.texts _ hn.errand _ rfl
  have hfilled : w.scene.store.filled template job.state = .ok text :=
    (Store.filled_of_contents h.contents template job.state).trans htext
  have hcontent : w.scene.document.content? n = some (.text text) := by
    rw [h.document, Document.restore, Document.content?_appendAll,
      (Tended.refl hattended.laid).content?_painted hattended.laid hn.content hn.errand _
        (fun _ hmem ↦ hmem) (.inl hn.errand), Bond.shown_of_text htext]
  refine ⟨fun q hq ↦ h.manned.current q (Bond.mem_posts.1 hq).1, fun t ht ↦ ⟨text, ?_, hcontent⟩⟩
  rw [← hfilled]
  refine (hattended.filled_congr hn fun q hq ↦ ?_).symm
  obtain ⟨x, v, hx, hv, halike, hscalar⟩ := ht q hq
  obtain ⟨hmem, hbond⟩ := Bond.mem_posts.1 hq
  obtain ⟨err, -, -, hexpr⟩ := hattended.errands q hmem
  rw [hbond] at hexpr
  obtain ⟨u, hu⟩ := (w.scene.store.filled_isOk_iff template job.state).1 ⟨text, hfilled⟩ _ hexpr
  exact ⟨x.observed, u, v, hu, hv, h.manned.current q hmem x u hx hu, halike, hscalar⟩

/-- **A text in step is right** when its expressions have scalars for values. -/
theorem InStep.renders {d : Document} {es : List Errand}
    (hstep : InStep job ((Bond.template n template).posts roster) n template w)
    (h : Attended job foreign edits d es roster w)
    (hresolves : job.Resolves template w.scene.store) :
    job.Renders template n w.scene.store w.scene.document := by
  rw [CompileJob.renders_iff h.idle]
  refine hstep.text w.scene.store fun q hq ↦ ?_
  obtain ⟨hmem, hbond⟩ := Bond.mem_posts.1 hq
  obtain ⟨err, -, -, hexpr⟩ := h.errands q hmem
  rw [hbond] at hexpr
  obtain ⟨v, hv, hscalar⟩ := hresolves q.expr hexpr
  rw [Store.getValue_fst] at hv
  obtain ⟨x, hx⟩ := (h.staffed.held q hmem).watcher
  exact ⟨_, v, hx, hv, hstep.current q hq _ v hx hv, hscalar⟩

variable {d : Document} {es : List Errand}

/-- **What is tried is a write, or it spares the template**: a write to a path that leads nowhere
changes nothing. -/
theorem Attended.tries (h : Attended job foreign edits d es roster w)
    (hby : Bystanding foreign edits (roster.map Post.id)) (htry : w.Tries w') :
    Attended job foreign edits d es roster w' ∧
      (Spared foreign edits (roster.map Post.id) w w' ∨
        ∃ depth o key v r, w.Writes depth o key v r w') := by
  cases htry with
  | write hw =>
    obtain ⟨-, -, -, -, h'⟩ := h.writes hby hw
    exact ⟨h', .inr ⟨_, _, _, _, _, hw⟩⟩
  | @astray depth path root v r e hpath hrun =>
    have htarget : w.scene.store.destination path root = .error e := by
      rwa [Store.target_of_tracking_nil h.idle] at hpath
    rw [Notification.setPath_eq path root v h.idle, htarget] at hrun
    cases hrun
    exact ⟨h, .inl (.refl w)⟩
  | observe data hw =>
    subst hw
    exact ⟨h.observe data, .inl (.observed w data)⟩

/-- A template stays compiled through a run of writes. -/
theorem Attended.run (h : Attended job foreign edits d es roster w)
    (hby : Bystanding foreign edits (roster.map Post.id)) (hrun : ReflTransGen World.Tries w w') :
    Attended job foreign edits d es roster w' := by
  induction hrun with
  | refl => exact h
  | tail _ hstep ih => exact (ih.tries hby hstep).1

/-- A text stays in step when the template is spared. -/
theorem InStep.spared (hstep : InStep job ((Bond.template n template).posts roster) n template w)
    (h : Attended job foreign edits d es roster w) (hn : Interpolates edits d es n template)
    (hspared : Spared foreign edits (roster.map Post.id) w w') :
    InStep job ((Bond.template n template).posts roster) n template w' := by
  have hwatchers : ∀ q ∈ (Bond.template n template).posts roster,
      w'.scene.watcher? q.id = w.scene.watcher? q.id := fun q hq ↦
    hspared.watchers _ (List.mem_map_of_mem (Bond.mem_posts.1 hq).1)
  have hcontent : ∀ e, ReflTransGen edits w.scene.document e →
      e.content? n = w.scene.document.content? n := by
    intro e he
    induction he with
    | refl => rfl
    | tail _ hedit ih => exact (hn.spared _ _ hedit).trans ih
  refine ⟨fun q hq ↦ (hstep.current q hq).congr (hwatchers q hq)
    (hspared.kept.resolve_eq h.closed h.rooted q.expr), fun t ht ↦ ?_⟩
  rw [hcontent _ hspared.document]
  exact hstep.text t fun q hq ↦ by rw [← hwatchers q hq]; exact ht q hq

/-- A text stays in step through a run of writes that leave no watcher behind. -/
theorem InStep.run (hstep : InStep job ((Bond.template n template).posts roster) n template w)
    (h : Attended job foreign edits d es roster w)
    (hby : Bystanding foreign edits (roster.map Post.id)) (hn : Interpolates edits d es n template)
    (hrun : ReflTransGen (fun w w' ↦ w.Tries w' ∧
      ¬job.Strands template ((Bond.template n template).posts roster) w w') w w') :
    InStep job ((Bond.template n template).posts roster) n template w' ∧
      Attended job foreign edits d es roster w' := by
  induction hrun with
  | refl => exact ⟨hstep, h⟩
  | tail _ htry ih =>
    obtain ⟨hstep, h⟩ := ih
    obtain ⟨h', hspared | ⟨_, _, _, _, _, hw⟩⟩ := h.tries hby htry.1
    · exact ⟨hstep.spared h hn hspared, h'⟩
    · exact ⟨hstep.writes h hby hn hw htry.2, h'⟩

end Run

/-- A paragraph that shows two numbers, each in an object of its own. -/
def twoNumbers : Document := (Document.parse "<p>{{a.x}} {{b.y}}</p>").toOption.getD .empty

/-- The state of that paragraph, made anew. -/
def twoNumbersState : Json :=
  .object [("a", .object [("x", .int 1)]), ("b", .object [("y", .int 1)])]

/-- The paragraph and its state before anything is compiled. -/
def twoNumbersWorld : World Nat where
  scene := { (World.start twoNumbers 0).scene with store :=
    (Store.observe twoNumbersState .empty).2 }
  code := ⟨#[], #[], #[]⟩

/-- Compiles the whole document against that state. -/
def twoNumbersJob : CompileJob Nat := ⟨0, .object 2, .standard, .standard, fun _ n ↦ n + 1⟩

/-- Code that is never called. -/
def noMethods : String → Event → Action Nat := fun _ _ ↦ .done (.ok ())

theorem twoNumbersWorld_unwatched : twoNumbersWorld.Unwatched where
  idle := by decide +kernel
  closed := by
    refine (Store.observe_observed twoNumbersState ?_).1.closed
    intro o key v h
    simp [Store.peek, Store.property?, Store.object?, Store.empty] at h
  subscribers := rfl
  handles := by decide +kernel

/-- Writes to a path of that state; says whether this succeeded. -/
def writeAt (path : String) (v : Value) : Run Nat Bool := do
  return (← Notification.setPath (run 20) path (.object 2) v).isOk

/-- What rendering gives in the end, and what the text of the node is. -/
def shownText (w : World Nat) : Option String × String :=
  ((Store.render "{{a.x}} {{b.y}}" (.object 2) w.scene.store).1.toOption,
    w.scene.document.textOf 2)

end DataBinding

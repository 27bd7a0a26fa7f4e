import DataBinding.Proofs.Template.RouteErrands
import Mathlib.Logic.Relation

/-!
# Keeping a template up to date

A write tells the watchers of what was written, and those that work for a template show new texts.
This file says what all of it does to the template, in three steps: what the code of a bond does
when it is run (`run_showingValue`, `run_showingTemplate`), what one turn does (`Upkeep.turn`), and
from it, by induction over the fan-out, what a write does (`set_upkeep`).

`Upkeep` holds in the middle of a fan-out and at its end.  Its heart is the log: the bonds that were
shown again, with their texts.  **The document is what the log makes of it, whoever works for a bond
that is not in the log has observed nothing, and whoever has had a turn has observed the value of
its expression**, unless the bond has no text any more.

Foreign code is called in between.  What it must leave alone is said by `Bystanding`; it may make
objects, watchers and listeners of its own kind, and it may change the document in the ways that are
given.
-/

set_option autoImplicit false

namespace DataBinding

open Relation (ReflTransGen)

variable {σ : Type}

/-! ## Texts of objects that are kept -/

namespace Store

namespace Kept

variable {s t : Store}

/-- A bond has a text in the one store if it has one in the other. -/
theorem text_isOk_iff (h : s.Kept t) (hs : s.Closed) {root : Value}
    (hroot : root.Within s.objects.size) (b : Bond) :
    (∃ text, b.text t root = .ok text) ↔ ∃ text, b.text s root = .ok text := by
  constructor
  · rintro ⟨text, htext⟩
    refine Bond.exists_text fun expr hexpr ↦ ?_
    obtain ⟨v, hv⟩ := Bond.resolve_of_text htext hexpr
    exact ⟨v, (h.resolve_eq hs hroot expr).symm.trans hv⟩
  · rintro ⟨text, htext⟩
    refine Bond.exists_text fun expr hexpr ↦ ?_
    obtain ⟨v, hv⟩ := Bond.resolve_of_text htext hexpr
    exact ⟨v, (h.resolve_eq hs hroot expr).trans hv⟩

end Kept

end Store

/-! ## The code of bonds -/

section Reactions

/-- Code that shows what rendering a template has given. -/
def CompileJob.showingRendered (job : CompileJob σ) (n : NodeId) :
    Except StateError String → Action σ
  | .ok text => job.showing n .text text
  | .error e => .done (.error (.state e))

variable {job : CompileJob σ} {depth : Nat} {w w' : World σ} {r : Except BindError Unit}

theorem run_showingValue {n : NodeId} {slot : Slot} {v : Value}
    (h : run depth (job.showingValue n slot v) w = some (r, w')) :
    r = .ok () ∧ w' = w.presenting job n slot (w.scene.store.display v) := by
  cases depth with
  | zero => cases h
  | succ depth =>
    cases h
    exact ⟨rfl, rfl⟩

/-- Showing a template is showing what it is filled in with. -/
theorem run_showingTemplate_eq (hidle : w.scene.store.tracking = []) (n : NodeId)
    (template : String) :
    run (depth + 1) (job.showingTemplate n template) w =
      follow (run depth) depth
        (job.showingRendered n (w.scene.store.filled template job.state)) w := by
  show follow (run depth) depth
    (job.showingRendered n (Store.render template job.state w.scene.store).1)
    (w.withStore (Store.render template job.state w.scene.store).2) = _
  rw [Store.render_eq hidle]
  rfl

theorem run_showingTemplate {n : NodeId} {template : String} (hidle : w.scene.store.tracking = [])
    (h : run depth (job.showingTemplate n template) w = some (r, w')) :
    (∃ text, w.scene.store.filled template job.state = .ok text ∧ r = .ok () ∧
        w' = w.presenting job n .text text) ∨
      ∃ e, w.scene.store.filled template job.state = .error e ∧ r = .error (.state e) ∧ w' = w := by
  cases depth with
  | zero => cases h
  | succ depth =>
    rw [run_showingTemplate_eq hidle] at h
    cases hfilled : w.scene.store.filled template job.state with
    | error e =>
      rw [hfilled] at h
      cases h
      exact .inr ⟨e, rfl, rfl, rfl⟩
    | ok text =>
      rw [hfilled] at h
      cases h
      exact .inl ⟨text, rfl, rfl, rfl⟩

/-- **The code of a bond shows its text**, or fails because it has none. -/
theorem run_reaction {b : Bond} {expr : String} {v : Value} (hexpr : expr ∈ b.exprs)
    (hv : w.scene.store.resolve expr job.state = .ok v) (hidle : w.scene.store.tracking = [])
    (h : run depth (b.reaction job v) w = some (r, w')) :
    (∃ text, b.text w.scene.store job.state = .ok text ∧ r = .ok () ∧
        w' = w.presenting job b.node b.slot text) ∨
      ∃ e, b.text w.scene.store job.state = .error e ∧ r = .error (.state e) ∧ w' = w := by
  cases b with
  | value n slot e =>
    rw [Bond.exprs, List.mem_singleton] at hexpr
    subst hexpr
    obtain ⟨rfl, rfl⟩ := run_showingValue h
    exact .inl ⟨_, by rw [Bond.text, hv]; rfl, rfl, rfl⟩
  | template n template => exact run_showingTemplate hidle h

/-- Nothing is noted of the code of bonds. -/
theorem chronicle_reaction (b : Bond) (v : Value) (w : World σ) :
    chronicle depth (b.reaction job v) w = [] := by
  cases depth with
  | zero => rfl
  | succ depth =>
    cases b with
    | value n slot e => rfl
    | template n template =>
      rw [chronicle, Bond.reaction, CompileJob.showingTemplate, Chronicle.ofAction]
      show Chronicle.ofAction _ _
        (job.showingRendered n (Store.render template job.state w.scene.store).1) _ = []
      cases (Store.render template job.state w.scene.store).1 <;> rfl

end Reactions

/-! ## Foreign code -/

/-- From `w` to `w'` nothing has happened to the template whose watchers are given, nor to what
objects hold.  The document was changed by `edits` at most, and code may have been added that is
foreign. -/
structure Spared (foreign : Action σ → Prop) (edits : Document → Document → Prop)
    (scope : List SubscriberId) (w w' : World σ) : Prop where
  document : ReflTransGen edits w.scene.document w'.scene.document
  kept : w.scene.store.Kept w'.scene.store
  watchers : ∀ id ∈ scope, w'.scene.watcher? id = w.scene.watcher? id
  holders : ∀ id ∈ scope, w.scene.store.holders id ≤ w'.scene.store.holders id
  reactions : ∀ (id : SubscriberId) reaction, w.code.reactions[id]? = some reaction →
    w'.code.reactions[id]? = some reaction
  recruits : ∀ (id : SubscriberId) reaction, w'.code.reactions[id]? = some reaction →
    w.code.reactions[id]? = some reaction ∨ ∀ v, foreign (reaction v)
  listeners : w.ListenersKept foreign w'

/-- A class of code whose members spare the template with the given watchers.  They may do whatever
the chronicle covers that leaves these watchers and the contents of objects alone, and may change
the document by `edits`. -/
structure Bystanding (foreign : Action σ → Prop) (edits : Document → Document → Prop)
    (scope : List SubscriberId) : Prop where
  covered : ∀ {depth : Nat} {a : Action σ} {w : World σ}, foreign a →
    w.scene.store.tracking = [] → Covered (chronicle depth a w)
  spares : ∀ {depth : Nat} {a : Action σ} {w w' : World σ} {r : Except BindError Unit}, foreign a →
    w.scene.store.tracking = [] → run depth a w = some (r, w') → Spared foreign edits scope w w'

namespace Spared

variable {foreign : Action σ → Prop} {edits : Document → Document → Prop}
  {scope : List SubscriberId} {w w₁ w' : World σ}

/-- A change of the store that leaves objects as they are, and of the watchers that are not the
template's. -/
theorem of_kept (hdocument : w'.scene.document = w.scene.document)
    (hkept : w.scene.store.Kept w'.scene.store)
    (hhandles : w'.scene.store.handles = w.scene.store.handles)
    (hwatchers : ∀ id ∈ scope, w'.scene.watcher? id = w.scene.watcher? id)
    (hlisteners : w'.scene.listeners = w.scene.listeners) (hcode : w'.code = w.code) :
    Spared foreign edits scope w w' where
  document := by
    rw [hdocument]
  kept := hkept
  watchers := hwatchers
  holders id _ := Nat.le_of_eq (by rw [Store.holders, Store.holders, hhandles])
  reactions id reaction h := by rwa [hcode]
  recruits id reaction h := .inl (by rwa [hcode] at h)
  listeners := .of_eq hlisteners (by rw [hcode])

theorem refl (w : World σ) : Spared foreign edits scope w w :=
  of_kept rfl (.of_contents rfl) rfl (fun _ _ ↦ rfl) rfl rfl

theorem trans (h : Spared foreign edits scope w w₁) (h' : Spared foreign edits scope w₁ w') :
    Spared foreign edits scope w w' where
  document := h.document.trans h'.document
  kept := h.kept.trans h'.kept
  watchers id hid := (h'.watchers id hid).trans (h.watchers id hid)
  holders id hid := Nat.le_trans (h.holders id hid) (h'.holders id hid)
  reactions id reaction hr := h'.reactions id reaction (h.reactions id reaction hr)
  recruits id reaction hr := by
    rcases h'.recruits id reaction hr with hr | hr
    · exact h.recruits id reaction hr
    · exact .inr hr
  listeners := h.listeners.trans h'.listeners

theorem evaluated (w : World σ) (id : SubscriberId) (x : Watcher) :
    Spared foreign edits scope w (w.evaluated id x) :=
  of_kept rfl (.of_contents (w.contents_evaluated id x)) (w.handles_evaluated id x) (fun _ _ ↦ rfl)
    rfl rfl

/-- New objects. -/
theorem observed (w : World σ) (data : Json) :
    Spared foreign edits scope w (w.withStore (Store.observe data w.scene.store).2) :=
  have hextends := Store.extends_observe data w.scene.store
  of_kept rfl (.of_extends hextends) hextends.handles (fun _ _ ↦ rfl) rfl rfl

theorem noting (w : World σ) {id : SubscriberId} (hid : id ∉ scope) (v : Value) :
    Spared foreign edits scope w (w.noting id v) := by
  refine of_kept rfl (.of_contents rfl) rfl (fun id' hid' ↦ ?_) rfl rfl
  rw [World.watcher?_noting, if_neg]
  rintro rfl
  exact hid hid'

/-- The template stays staffed. -/
theorem staffed {job : CompileJob σ} {roster : List Post}
    (h : Spared foreign edits (roster.map Post.id) w w') (hw : Staffed job foreign roster w) :
    Staffed job foreign roster w' where
  nodup := hw.nodup
  held q hq := by
    have hid := List.mem_map_of_mem (f := Post.id) hq
    obtain ⟨hlive, hreaction, x, hx⟩ := hw.held q hq
    refine ⟨?_, h.reactions _ _ hreaction, x, (h.watchers _ hid).trans hx⟩
    rw [Store.isLive_iff_holders] at hlive ⊢
    exact Nat.lt_of_lt_of_le hlive (h.holders _ hid)
  others id reaction hid hr := by
    rcases h.recruits id reaction hr with hr | hr
    · exact hw.others id reaction hid hr
    · exact hr

end Spared

/-! ## One turn -/

/-- The watcher has observed something else than the value that its expression has in a store.  NaN
is always something else. -/
def Post.HasNews (job : CompileJob σ) (w : World σ) (s : Store) (q : Post) : Prop :=
  ∃ x v, w.scene.watcher? q.id = some x ∧ s.resolve q.expr job.state = .ok v ∧
    x.observed.identical v = false

/-- `e` is what `d` has become when bonds were shown as the log says, with foreign edits in
between. -/
inductive Redrawn (edits : Document → Document → Prop) (d : Document) :
    List (Bond × String) → Document → Prop
  | start : Redrawn edits d [] d
  | foreign {log : List (Bond × String)} {e e' : Document} (h : Redrawn edits d log e)
      (he : edits e e') : Redrawn edits d log e'
  | shown {log : List (Bond × String)} {e : Document} (h : Redrawn edits d log e) (b : Bond)
      (text : String) : Redrawn edits d (log ++ [(b, text)]) (e.apply (b.edit text))

theorem Redrawn.spared {edits : Document → Document → Prop} {d e e' : Document}
    {log : List (Bond × String)} (h : Redrawn edits d log e) (he : ReflTransGen edits e e') :
    Redrawn edits d log e' := by
  induction he with
  | refl => exact h
  | tail _ hlast ih => exact ih.foreign hlast

/-- A template in the middle of a fan-out that began in `w₀` and in which the subscribers `told`
have their turns.  `owed` are further posts of which it is asked that they have observed the value
of their expression. -/
structure Upkeep (job : CompileJob σ) (foreign : Action σ → Prop)
    (edits : Document → Document → Prop) (roster : List Post) (owed : Post → Prop)
    (told : List SubscriberId) (w₀ : World σ) (pending : List SubscriberId)
    (log : List (Bond × String)) (w : World σ) : Prop where
  order : ∃ marks, InOrder pending [] marks w
  staffed : Staffed job foreign roster w
  holders : ∀ q ∈ roster, pending.count q.id < w.scene.store.holders q.id
  pending_told : ∀ id ∈ pending, id ∈ told
  kept : w₀.scene.store.Kept w.scene.store
  /-- The document is what the log and foreign edits make of it. -/
  document : Redrawn edits w₀.scene.document log w.scene.document
  /-- A bond is shown when somebody who is told has news. -/
  texts : ∀ c ∈ log, (∃ q ∈ roster, q.bond = c.1 ∧ q.id ∈ told ∧
      q.HasNews job w₀ w₀.scene.store) ∧
    ∃ t, w₀.scene.store.Kept t ∧ c.1.text t job.state = .ok c.2
  /-- Whoever works for a bond that was not shown has observed nothing. -/
  observed : ∀ q ∈ roster, (∀ c ∈ log, c.1 ≠ q.bond) →
    w.scene.watcher? q.id = w₀.scene.watcher? q.id
  /-- Whoever has had a turn is up to date. -/
  turned : ∀ q ∈ roster, owed q ∨ q.id ∈ told → q.id ∉ pending →
    q.Current job w ∨ ∃ e, q.bond.text w₀.scene.store job.state = .error e
  /-- Whoever had news has shown them. -/
  announced : ∀ q ∈ roster, q.id ∈ told → q.id ∉ pending → q.HasNews job w₀ w₀.scene.store →
    (∃ c ∈ log, c.1 = q.bond) ∨ ∃ e, q.bond.text w₀.scene.store job.state = .error e
  listeners : w₀.ListenersKept foreign w

/-- What is noted of an update is covered if what is noted of the code is. -/
theorem covered_ofUpdate {call : Call σ} {tell : Action σ → World σ → List Mark} {id : SubscriberId}
    {w : World σ} (hprobe : Covered (Chronicle.ofReact tell id .null w))
    (hreact : ∀ x v, w.scene.watcher? id = some x →
      Covered (Chronicle.ofReact tell id v (w.evaluated id x))) :
    Covered (Chronicle.ofUpdate call tell id w) := by
  rw [Chronicle.ofUpdate]
  split
  · simp [Covered]
  · exact hprobe
  · rename_i x hx
    have hx' : w.scene.watcher? id = some x := by rw [Scene.watcher?, hx]
    split
    · simp [Covered]
    · split
      · simp [Covered, Mark.isCovered]
      · refine covered_append.2 ⟨hreact x _ hx', ?_⟩
        rw [Chronicle.andThen]
        split
        · simp [Covered]
        · split <;> simp [Covered, Mark.isCovered]

/-- Nothing changes whether a watcher is up to date but its value and its expression's. -/
theorem Post.Current.congr {job : CompileJob σ} {w w' : World σ} {q : Post} (h : q.Current job w)
    (hwatcher : w'.scene.watcher? q.id = w.scene.watcher? q.id)
    (hresolve : w'.scene.store.resolve q.expr job.state = w.scene.store.resolve q.expr job.state) :
    q.Current job w' := by
  intro x v hx hv
  rw [hwatcher] at hx
  rw [hresolve] at hv
  exact h x v hx hv

namespace Upkeep

variable {job : CompileJob σ} {foreign : Action σ → Prop} {edits : Document → Document → Prop}
  {roster : List Post} {owed : Post → Prop} {w₀ w w₁ w' : World σ} {id : SubscriberId}
  {told rest : List SubscriberId} {log : List (Bond × String)} {depth : Nat}

theorem idle (h : Upkeep job foreign edits roster owed told w₀ rest log w) :
    w.scene.store.tracking = [] := by
  obtain ⟨marks, horder⟩ := h.order
  exact horder.idle

theorem closed (h : Upkeep job foreign edits roster owed told w₀ rest log w) :
    w.scene.store.Closed := by
  obtain ⟨marks, horder⟩ := h.order
  exact horder.closed

theorem within (h : Upkeep job foreign edits roster owed told w₀ rest log w) {q : Post}
    (hq : q ∈ roster) :
    job.state.Within w.scene.store.objects.size := by
  obtain ⟨marks, horder⟩ := h.order
  obtain ⟨x, hx⟩ := (h.staffed.held q hq).watcher
  exact horder.rooted _ _ hx

/-- The theory covers every turn. -/
theorem covered (hby : Bystanding foreign edits (roster.map Post.id))
    (h : Upkeep job foreign edits roster owed told w₀ (id :: rest) log w) :
    Covered (Chronicle.ofUpdate (run depth) (chronicle depth) id w) := by
  have hreact : ∀ (v : Value) (w' : World σ), w'.code = w.code → w'.scene.store.tracking = [] →
      Covered (Chronicle.ofReact (chronicle depth) id v w') := by
    intro v w' hcode hidle
    rw [Chronicle.ofReact, hcode]
    cases hr : w.code.reactions[id]? with
    | none => simp [Covered]
    | some reaction =>
      by_cases hpost : ∃ q ∈ roster, q.id = id
      · obtain ⟨q, hq, rfl⟩ := hpost
        cases (h.staffed.held q hq).reaction.symm.trans hr
        show Covered (chronicle depth (q.bond.reaction job v) w')
        rw [chronicle_reaction]
        simp [Covered]
      · have hid : ∀ q ∈ roster, q.id ≠ id := fun q hq heq ↦ hpost ⟨q, hq, heq⟩
        exact hby.covered (h.staffed.others id reaction hid hr v) hidle
  exact covered_ofUpdate (hreact _ w rfl h.idle) fun x v _ ↦
    hreact v _ rfl ((w.tracking_evaluated id x).trans h.idle)

/-- While its bond is not shown, a post has the news that it had when the fan-out began. -/
theorem hasNews_iff (hclosed : w₀.scene.store.Closed)
    (hroot : job.state.Within w₀.scene.store.objects.size)
    (h : Upkeep job foreign edits roster owed told w₀ rest log w) {q : Post} (hq : q ∈ roster)
    (hlog : ∀ c ∈ log, c.1 ≠ q.bond) :
    q.HasNews job w w.scene.store ↔ q.HasNews job w₀ w₀.scene.store := by
  rw [Post.HasNews, Post.HasNews, h.observed q hq hlog, h.kept.resolve_eq hclosed hroot q.expr]

/-- When a turn is over and its handle given back, every post has more holders than turns to
come. -/
theorem count_lt_holders (h : Upkeep job foreign edits roster owed told w₀ (id :: rest) log w)
    {s : Store} {q : Post} (hq : q ∈ roster) (hs : w.scene.store.holders q.id ≤ s.holders q.id) :
    rest.count q.id < (s.release id).holders q.id := by
  have hbefore := h.holders q hq
  rw [List.count_cons] at hbefore
  simp only [beq_iff_eq] at hbefore
  rw [Store.holders_release]
  omega

/-- A turn in which nothing is shown. -/
theorem quiet (h : Upkeep job foreign edits roster owed told w₀ (id :: rest) log w)
    (horder : ∃ marks, InOrder rest [] marks w₁)
    (hspared : Spared foreign edits (roster.map Post.id) w w₁)
    (hturn : ∀ q ∈ roster, q.id = id →
      q.Current job w₁ ∨ ∃ e, q.bond.text w₀.scene.store job.state = .error e)
    (hnews : ∀ q ∈ roster, q.id = id → q.HasNews job w₀ w₀.scene.store →
      (∃ c ∈ log, c.1 = q.bond) ∨ ∃ e, q.bond.text w₀.scene.store job.state = .error e) :
    Upkeep job foreign edits roster owed told w₀ rest log
      (w₁.withStore (w₁.scene.store.release id)) := by
  have hholders : ∀ q ∈ roster, rest.count q.id < (w₁.scene.store.release id).holders q.id :=
    fun q hq ↦ h.count_lt_holders hq (hspared.holders q.id (List.mem_map_of_mem hq))
  have hrelease : ∀ q : Post, q.Current job w₁ →
      q.Current job (w₁.withStore (w₁.scene.store.release id)) := fun q hcurrent ↦
    hcurrent.congr rfl (Store.resolve_of_contents (Store.contents_release _ _) _ _)
  refine ⟨?_, (hspared.staffed h.staffed).withStore fun q hq ↦ Nat.zero_lt_of_lt (hholders q hq),
    hholders, fun id' hid' ↦ h.pending_told id' (List.mem_cons_of_mem _ hid'),
    h.kept.trans hspared.kept, h.document.spared hspared.document, h.texts, fun q hq hlog ↦ ?_,
    fun q hq howed hid ↦ ?_, fun q hq htold hid hq' ↦ ?_,
    (h.listeners.trans hspared.listeners).trans (.of_eq rfl rfl)⟩
  · obtain ⟨marks, horder⟩ := horder
    exact ⟨marks, horder.release id⟩
  · exact (hspared.watchers _ (List.mem_map_of_mem hq)).trans (h.observed q hq hlog)
  · by_cases heq : q.id = id
    · exact (hturn q hq heq).imp_left (hrelease q)
    · refine (h.turned q hq howed (by simp [heq, hid])).imp_left fun hcurrent ↦ hrelease q ?_
      exact hcurrent.congr (hspared.watchers _ (List.mem_map_of_mem hq))
        (hspared.kept.resolve_eq h.closed (h.within hq) q.expr)
  · by_cases heq : q.id = id
    · exact hnews q hq heq hq'
    · exact h.announced q hq htold (by simp [heq, hid]) hq'

/-- A turn of a post in which it shows the text of its bond. -/
theorem shown (hclosed : w₀.scene.store.Closed)
    (hroot : job.state.Within w₀.scene.store.objects.size) {q : Post}
    (h : Upkeep job foreign edits roster owed told w₀ (q.id :: rest) log w) (hq : q ∈ roster)
    {x : Watcher} {v : Value} {text : String}
    (hx : w.scene.watcher? q.id = some x) (hnew : x.observed.identical v = false)
    (hv : w.scene.store.resolve q.expr job.state = .ok v)
    (htext : q.bond.text w.scene.store job.state = .ok text)
    (hw₁ : w₁ = ((w.evaluated q.id x).presenting job q.bond.node q.bond.slot text).noting q.id v)
    (horder : ∃ marks, InOrder rest [] marks w₁) :
    Upkeep job foreign edits roster owed told w₀ rest (log ++ [(q.bond, text)])
      (w₁.withStore (w₁.scene.store.release q.id)) := by
  have hstore : w₁.scene.store = (w.evaluated q.id x).scene.store := by rw [hw₁]; rfl
  have hcontents : w₁.scene.store.contents = w.scene.store.contents := by
    rw [hstore]
    exact w.contents_evaluated q.id x
  have hhandles : w₁.scene.store.handles = w.scene.store.handles := by
    rw [hstore]
    exact w.handles_evaluated q.id x
  have hresolve : ∀ expr, (w₁.scene.store.release q.id).resolve expr job.state
      = w.scene.store.resolve expr job.state := fun expr ↦
    Store.resolve_of_contents ((Store.contents_release _ _).trans hcontents) expr job.state
  have hwatcher : ∀ id, w₁.scene.watcher? id =
      if id = q.id then (w.scene.watcher? id).map ({ · with observed := v })
      else w.scene.watcher? id := by
    intro id
    rw [hw₁, World.watcher?_noting]
    rfl
  have hunique : ∀ q' ∈ roster, q'.id = q.id → q' = q := fun q' hq' hid ↦
    h.staffed.eq_of_id_eq hq' hq hid
  have hpresented : Staffed job foreign roster
      ((w.evaluated q.id x).presenting job q.bond.node q.bond.slot text) :=
    h.staffed.of_handles_eq rfl (w.handles_evaluated q.id x) rfl
  have hstaffed : Staffed job foreign roster w₁ := hw₁ ▸ hpresented.noting q.id v
  have hholders : ∀ q' ∈ roster, rest.count q'.id < (w₁.scene.store.release q.id).holders q'.id :=
    fun q' hq' ↦ h.count_lt_holders hq'
      (Nat.le_of_eq (by rw [Store.holders, Store.holders, hhandles]))
  refine ⟨?_, hstaffed.withStore fun q' hq' ↦ Nat.zero_lt_of_lt (hholders q' hq'), hholders,
    fun id hid ↦ h.pending_told id (List.mem_cons_of_mem _ hid),
    h.kept.trans (.of_contents hcontents), ?_, fun c hc ↦ ?_,
    fun q' hq' hlog ↦ ?_, fun q' hq' howed hid ↦ ?_, fun q' hq' htold hid hnews ↦ ?_,
    h.listeners.trans (.of_eq (by rw [hw₁]; rfl) (by rw [hw₁]; rfl))⟩
  · obtain ⟨marks, horder⟩ := horder
    exact ⟨marks, horder.release q.id⟩
  · rw [hw₁]
    exact h.document.shown q.bond text
  · rcases List.mem_append.1 hc with hc | hc
    · exact h.texts c hc
    · rw [List.mem_singleton.1 hc]
      refine ⟨?_, w.scene.store, h.kept, htext⟩
      -- The first who shows the bond has observed nothing before.
      by_cases hshown : ∃ c ∈ log, c.1 = q.bond
      · obtain ⟨c, hc, hbond⟩ := hshown
        obtain ⟨q', hq', hq'c, hnews⟩ := (h.texts c hc).1
        exact ⟨q', hq', hq'c.trans hbond, hnews⟩
      · refine ⟨q, hq, rfl, h.pending_told q.id (by simp), ?_⟩
        exact (h.hasNews_iff hclosed hroot hq fun c hc heq ↦ hshown ⟨c, hc, heq⟩).1
          ⟨x, v, hx, hv, hnew⟩
  · have hne : q'.id ≠ q.id := fun heq ↦ by
      rw [hunique q' hq' heq] at hlog
      exact hlog (q.bond, text) (by simp) rfl
    rw [World.watcher?_withStore, hwatcher, if_neg hne]
    exact h.observed q' hq' fun c hc ↦ hlog c (List.mem_append_left _ hc)
  · by_cases heq : q'.id = q.id
    · rw [hunique q' hq' heq]
      refine .inl fun y u hy hu ↦ ?_
      rw [World.store_withStore, hresolve, hv] at hu
      rw [World.watcher?_withStore, hwatcher, if_pos rfl] at hy
      obtain ⟨z, -, rfl⟩ := Option.map_eq_some_iff.1 hy
      cases hu
      exact .refl _
    · refine (h.turned q' hq' howed (by simp [heq, hid])).imp_left fun hcurrent ↦
        hcurrent.congr ?_ (hresolve _)
      rw [World.watcher?_withStore, hwatcher, if_neg heq]
  · by_cases heq : q'.id = q.id
    · rw [hunique q' hq' heq]
      exact .inl ⟨(q.bond, text), by simp, rfl⟩
    · refine (h.announced q' hq' htold (by simp [heq, hid]) hnews).imp_left ?_
      rintro ⟨c, hc, hcb⟩
      exact ⟨c, List.mem_append_left _ hc, hcb⟩

/-- The code of a subscriber that does not work for the template spares it. -/
theorem react_spared (hby : Bystanding foreign edits (roster.map Post.id)) {v : Value}
    (hidle : w.scene.store.tracking = [])
    (hforeign : ∀ reaction, w.code.reactions[id]? = some reaction → ∀ v, foreign (reaction v))
    {r : Except StateError Unit} (hrun : Notification.react (run depth) id v w = some (r, w')) :
    Spared foreign edits (roster.map Post.id) w w' := by
  rcases Notification.react_eq_some hrun with ⟨-, -, rfl⟩ | ⟨reaction, result, hr, hrun, -⟩
  · exact .refl _
  · exact hby.spares (hforeign reaction hr v) hidle hrun

/-- A turn of somebody who does not work for the template. -/
theorem other_turn (hby : Bystanding foreign edits (roster.map Post.id))
    (hidle : w.scene.store.tracking = [])
    (hstaffed : Staffed job foreign roster w) (hid : ∀ q ∈ roster, q.id ≠ id)
    {r : Except StateError Unit}
    (hrun : Notification.update (run depth) id w = some (r, w')) :
    Spared foreign edits (roster.map Post.id) w w' := by
  have hforeign := hstaffed.others id
  have hout : id ∉ roster.map Post.id := fun hmem ↦ by
    obtain ⟨q, hq, heq⟩ := List.mem_map.1 hmem
    exact hid q hq heq
  have hevaluated : ∀ x : Watcher, (w.evaluated id x).scene.store.tracking = [] := fun x ↦
    (w.tracking_evaluated id x).trans hidle
  cases Notification.update_outcome hrun with
  | absent _ => exact .refl _
  | probe _ hreact => exact react_spared hby hidle (fun reaction ↦ hforeign reaction hid) hreact
  | unresolved _ _ => exact .evaluated w id _
  | unchanged _ _ _ => exact .evaluated w id _
  | failed _ _ _ hreact =>
    exact (Spared.evaluated w id _).trans
      (react_spared hby (hevaluated _) (fun reaction ↦ hforeign reaction hid) hreact)
  | reacted _ _ _ hreact =>
    exact ((Spared.evaluated w id _).trans (react_spared hby (hevaluated _)
      (fun reaction ↦ hforeign reaction hid) hreact)).trans (.noting _ hout _)

/-- What the code of a post does: it shows the text of the bond, or fails because the bond has none,
nor had one when the fan-out began. -/
theorem react_post (hclosed : w₀.scene.store.Closed)
    (hroot : job.state.Within w₀.scene.store.objects.size)
    (h : Upkeep job foreign edits roster owed told w₀ rest log w) {q : Post} (hq : q ∈ roster)
    (hexpr : q.expr ∈ q.bond.exprs) {x : Watcher} {v : Value} {r : Except StateError Unit}
    (hv : w.scene.store.resolve q.expr job.state = .ok v)
    (hreact : Notification.react (run depth) q.id v (w.evaluated q.id x) = some (r, w₁)) :
    (∃ text, q.bond.text w.scene.store job.state = .ok text ∧ r = .ok () ∧
      w₁ = (w.evaluated q.id x).presenting job q.bond.node q.bond.slot text) ∨
    (∃ e, q.bond.text w₀.scene.store job.state = .error e) ∧ r ≠ .ok () ∧
      w₁ = w.evaluated q.id x := by
  have hreaction := (h.staffed.held q hq).reaction
  have hidle : (w.evaluated q.id x).scene.store.tracking = [] :=
    (w.tracking_evaluated q.id x).trans h.idle
  rcases Notification.react_eq_some hreact with ⟨hnone, -, -⟩ | ⟨reaction, result, hr, hrun, rfl⟩
  · cases hreaction.symm.trans hnone
  · cases hreaction.symm.trans hr
    rcases run_reaction hexpr ((w.resolve_evaluated q.id x _ _).trans hv) hidle hrun with
      ⟨text, htext, rfl, hw₁⟩ | ⟨e, htext, rfl, hw₁⟩
    · rw [Bond.text_of_contents (w.contents_evaluated q.id x)] at htext
      exact .inl ⟨text, htext, rfl, hw₁⟩
    · rw [Bond.text_of_contents (w.contents_evaluated q.id x)] at htext
      refine .inr ⟨Bond.exists_error fun hok ↦ ?_, by simp [Except.mapError], hw₁⟩
      obtain ⟨text, hok⟩ := (h.kept.text_isOk_iff hclosed hroot q.bond).2 hok
      cases htext.symm.trans hok

/-- A turn of a post. -/
theorem post_turn (hclosed : w₀.scene.store.Closed)
    (hroot : job.state.Within w₀.scene.store.objects.size) {q : Post}
    (h : Upkeep job foreign edits roster owed told w₀ (q.id :: rest) log w) (hq : q ∈ roster)
    (hexpr : q.expr ∈ q.bond.exprs) (horder : ∃ marks, InOrder rest [] marks w')
    {r : Except StateError Unit}
    (hrun : Notification.update (run depth) q.id w = some (r, w')) :
    ∃ more, Upkeep job foreign edits roster owed told w₀ rest (log ++ more)
      (w'.withStore (w'.scene.store.release q.id)) := by
  have hheld := h.staffed.held q hq
  -- A turn that shows nothing owes something about this post only.
  have hquiet : Spared foreign edits (roster.map Post.id) w w' →
      (q.Current job w' ∨ ∃ e, q.bond.text w₀.scene.store job.state = .error e) →
      (q.HasNews job w₀ w₀.scene.store → (∃ c ∈ log, c.1 = q.bond) ∨
        ∃ e, q.bond.text w₀.scene.store job.state = .error e) →
      ∃ more, Upkeep job foreign edits roster owed told w₀ rest (log ++ more)
        (w'.withStore (w'.scene.store.release q.id)) := by
    intro hspared hcurrent hnews
    refine ⟨[], ?_⟩
    rw [List.append_nil]
    exact h.quiet horder hspared (fun q' hq' hid ↦ by rwa [h.staffed.eq_of_id_eq hq' hq hid])
      fun q' hq' hid ↦ by rwa [h.staffed.eq_of_id_eq hq' hq hid]
  -- Whoever has no news by now has shown them.
  have hstale : ¬q.HasNews job w w.scene.store → q.HasNews job w₀ w₀.scene.store →
      ∃ c ∈ log, c.1 = q.bond := by
    intro hnone hnews
    by_contra hshown
    exact hnone ((h.hasNews_iff hclosed hroot hq fun c hc heq ↦ hshown ⟨c, hc, heq⟩).2 hnews)
  cases Notification.update_outcome hrun with
  | absent hnone =>
    obtain ⟨u, hu⟩ := hheld.watcher
    rw [Scene.watcher?, hnone] at hu
    cases hu
  | probe hprobe _ =>
    obtain ⟨u, hu⟩ := hheld.watcher
    rw [Scene.watcher?, hprobe] at hu
    cases hu
  | unresolved hx hv =>
    rename_i x e
    rw [hheld.resolve_eq hx] at hv
    refine hquiet (.evaluated w q.id x) (.inl fun y v _ hv' ↦ ?_) fun hnews ↦ .inl (hstale ?_ hnews)
    · cases hv.symm.trans ((w.resolve_evaluated q.id x _ _).symm.trans hv')
    · rintro ⟨-, v, -, hv', -⟩
      cases hv.symm.trans hv'
  | unchanged hx hv hsame =>
    rename_i x v
    rw [hheld.resolve_eq hx] at hv
    refine hquiet (.evaluated w q.id x) (.inl fun y u hy hu ↦ ?_) fun hnews ↦ .inl (hstale ?_ hnews)
    · cases hx.symm.trans hy
      cases hv.symm.trans ((w.resolve_evaluated q.id x _ _).symm.trans hu)
      exact .inl hsame
    · rintro ⟨y, u, hy, hu, hnew⟩
      cases hx.symm.trans hy
      cases hv.symm.trans hu
      cases hsame.symm.trans hnew
  | failed hx hv hnew hreact =>
    rename_i x v e
    rw [hheld.resolve_eq hx] at hv
    rcases h.react_post hclosed hroot hq hexpr hv hreact with ⟨_, _, hr, _⟩ | ⟨htext, -, rfl⟩
    · cases hr
    · exact hquiet (.evaluated w q.id x) (.inr htext) fun _ ↦ .inr htext
  | reacted hx hv hnew hreact =>
    rename_i x v w₁
    rw [hheld.resolve_eq hx] at hv
    rcases h.react_post hclosed hroot hq hexpr hv hreact with ⟨text, htext, -, rfl⟩ | ⟨-, hr, -⟩
    · exact ⟨_, h.shown hclosed hroot hq hx hnew hv htext rfl horder⟩
    · exact absurd rfl hr

/-- **One turn keeps a template up.** -/
theorem turn (hby : Bystanding foreign edits (roster.map Post.id)) (hclosed : w₀.scene.store.Closed)
    (hroot : job.state.Within w₀.scene.store.objects.size)
    (h : Upkeep job foreign edits roster owed told w₀ (id :: rest) log w)
    (hexprs : ∀ q ∈ roster, q.expr ∈ q.bond.exprs) {r : Except StateError Unit}
    (hrun : Notification.update (run depth) id w = some (r, w')) :
    ∃ more, Upkeep job foreign edits roster owed told w₀ rest (log ++ more)
      (w'.withStore (w'.scene.store.release id)) := by
  obtain ⟨marks, horder⟩ := h.order
  have horder' : ∃ marks, InOrder rest [] marks w' :=
    ⟨_, (Notification.update_carries (run_respects depth) horder hrun (h.covered hby)).inOrder⟩
  by_cases hpost : ∃ q ∈ roster, q.id = id
  · obtain ⟨q, hq, rfl⟩ := hpost
    exact h.post_turn hclosed hroot hq (hexprs q hq) horder' hrun
  · have hid : ∀ q ∈ roster, q.id ≠ id := fun q hq heq ↦ hpost ⟨q, hq, heq⟩
    refine ⟨[], ?_⟩
    rw [List.append_nil]
    exact h.quiet horder' (other_turn hby h.idle h.staffed hid hrun)
      (fun q hq heq ↦ absurd heq (hid q hq)) fun q hq heq ↦ absurd heq (hid q hq)

/-- **A fan-out keeps a template up.** -/
theorem updateAll (hby : Bystanding foreign edits (roster.map Post.id))
    (hclosed : w₀.scene.store.Closed) (hroot : job.state.Within w₀.scene.store.objects.size)
    (hexprs : ∀ q ∈ roster, q.expr ∈ q.bond.exprs) {ids : List SubscriberId}
    (h : Upkeep job foreign edits roster owed told w₀ ids log w) {r : Except StateError Unit}
    (hrun : Notification.updateAll (run depth) ids w = some (r, w')) :
    ∃ log, Upkeep job foreign edits roster owed told w₀ [] log w' := by
  refine Notification.updateAll_induction
    (P := fun ids w ↦ ∃ log, Upkeep job foreign edits roster owed told w₀ ids log w)
    ?_ ⟨log, h⟩ hrun
  rintro id rest w r w₁ ⟨log, h⟩ hturn
  obtain ⟨more, h'⟩ := h.turn hby hclosed hroot hexprs hturn
  exact ⟨log ++ more, h'⟩

end Upkeep

/-! ## Writes -/

section Write

variable {job : CompileJob σ} {foreign : Action σ → Prop} {edits : Document → Document → Prop}
  {roster : List Post} {w w' : World σ} {o : ObjectId} {key : String} {v : Value} {depth : Nat}

/-- A fan-out begins with everybody up to date who is not about to be told. -/
theorem announced_upkeep (horder : ∃ marks, InOrder [] [] marks w)
    (hstaffed : Staffed job foreign roster w) (hv : v.Within w.scene.store.objects.size)
    (hw : (w.scene.store.write o key v).1 = .replaced) :
    Upkeep job foreign edits roster (fun q ↦ q.Current job w)
      ((w.scene.store.write o key v).2.liveSubscribers o key)
      (w.withStore (w.scene.store.write o key v).2)
      ((w.scene.store.write o key v).2.liveSubscribers o key) []
      (Notification.announced w o key v) := by
  obtain ⟨marks, horder⟩ := horder
  have hann := horder.announced hv (Store.isSome_property?_of_replaced hw) hw
  rw [List.append_nil] at hann
  have hlt : ∀ q ∈ roster, q.id < ((w.scene.store.write o key v).2.prune o key).handles.size := by
    intro q hq
    obtain ⟨x, hx⟩ := (hstaffed.held q hq).watcher
    show q.id < (w.scene.store.write o key v).2.handles.size
    rw [Store.handles_write]
    exact horder.lt_size hx
  have hholders : ∀ q ∈ roster, ((w.scene.store.write o key v).2.liveSubscribers o key).count q.id <
      (Notification.announced w o key v).scene.store.holders q.id := by
    intro q hq
    have hlive := (Store.isLive_iff_holders _ _).1 (hstaffed.held q hq).live
    have hsame : ((w.scene.store.write o key v).2.prune o key).holders q.id
        = w.scene.store.holders q.id := by
      show (w.scene.store.write o key v).2.handles.getD q.id 0 = w.scene.store.handles.getD q.id 0
      rw [Store.handles_write]
    rw [Notification.announced, World.store_withStore, Store.holders_retainAll (hlt q hq), hsame]
    omega
  have hcontents := Notification.contents_announced w o key v
  refine ⟨⟨marks, hann⟩, hstaffed.withStore fun q hq ↦ Nat.zero_lt_of_lt (hholders q hq), hholders,
    fun _ hid ↦ hid, .of_contents hcontents, .start, by simp, fun _ _ _ ↦ rfl,
    fun q hq howed hid ↦ .inl ?_, fun _ _ htold hid ↦ absurd htold hid,
    .of_eq rfl rfl⟩
  · -- Whoever is not told does not read what was written.
    obtain ⟨hlive, -, x, hx⟩ := hstaffed.held q hq
    refine (howed.resolve_right hid).congr rfl ?_
    rw [Store.resolve_of_contents hcontents]
    refine Store.resolve_write_of_not_read hw fun hr ↦ hid ?_
    refine (horder.attached q.id hlive (by simp)).mem_liveSubscribers hlive hx hw ?_
    rwa [Store.reads_trim]

/-- **A write keeps a template up**, whatever becomes of it. -/
theorem set_upkeep (hby : Bystanding foreign edits (roster.map Post.id))
    (horder : ∃ marks, InOrder [] [] marks w) (hstaffed : Staffed job foreign roster w)
    (hroot : job.state.Within w.scene.store.objects.size)
    (hexprs : ∀ q ∈ roster, q.expr ∈ q.bond.exprs) (hv : v.Within w.scene.store.objects.size)
    (hkey : (w.scene.store.property? o key).isSome) {r : Except StateError Unit}
    (hrun : Notification.set (run depth) o key v w = some (r, w')) :
    ∃ log, Upkeep job foreign edits roster (fun q ↦ q.Current job w) (w.told o key v)
      (w.withStore (w.scene.store.write o key v).2) [] log w' := by
  rw [Notification.set_eq] at hrun
  cases hw : (w.scene.store.write o key v).1 with
  | defined => exact absurd hw (Store.write_ne_defined hkey)
  | unchanged =>
    rw [hw] at hrun
    cases hrun
    rw [(Store.write_of_unchanged hw).1]
    refine ⟨[], horder, hstaffed, fun q hq ↦ ?_, by simp, .refl _, .start, by simp, fun _ _ _ ↦ rfl,
      fun q _ howed _ ↦ .inl (howed.resolve_right ?_), fun q _ htold _ ↦ absurd htold ?_,
      .of_eq rfl rfl⟩
    · simpa using (Store.isLive_iff_holders _ _).1 (hstaffed.held q hq).live
    all_goals
      rw [World.told, hw]
      exact List.not_mem_nil
  | replaced =>
    rw [hw] at hrun
    obtain ⟨marks, h⟩ := horder
    have htold : w.told o key v = (w.scene.store.write o key v).2.liveSubscribers o key := by
      rw [World.told, hw]
    rw [htold]
    refine (announced_upkeep ⟨marks, h⟩ hstaffed hv hw).updateAll hby (h.closed.write hv hkey) ?_
      hexprs hrun
    rw [World.store_withStore, Store.size_write]
    exact hroot

end Write

end DataBinding

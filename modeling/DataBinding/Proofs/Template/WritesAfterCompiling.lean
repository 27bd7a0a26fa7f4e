import DataBinding.Proofs.Engine.Coherence
import DataBinding.Proofs.Template.IndependentErrands
import DataBinding.Proofs.Template.UpdatedBonds

/-!
# Compiled templates and writes

A compiled template stays one whatever is written: its watchers keep their posts, and of its
document a write makes what the log of the turns says (`Attended.writes`).  From the log and from
what watchers have observed one reads off what a bond shows.  Texts of bonds depend on what their
expressions show only, and **scalars that are alike show the same** — objects do not, since they may
change inside.  So the results are about bonds whose expressions have scalars for values,
`Bond.Settled`.
-/

set_option autoImplicit false

namespace DataBinding

open Relation (ReflTransGen)

variable {σ : Type}

/-! ## What bonds show -/

namespace Bond

/-- The expressions of the bond have scalars for values. -/
def Settled (s : Store) (root : Value) (b : Bond) : Prop :=
  ∀ expr ∈ b.exprs, ∃ v, s.resolve expr root = .ok v ∧ v.isScalar = true

variable {s t : Store} {root : Value} {b : Bond}

theorem text_congr (h : ∀ expr ∈ b.exprs, s.ShowsSame t root expr) :
    b.text s root = b.text t root := by
  cases b with
  | value n slot expr =>
    obtain ⟨v, u, hv, hu, hsame⟩ := h expr (by simp [exprs])
    rw [text, text, hv, hu]
    exact congrArg Except.ok hsame
  | template n template => exact Store.filled_congr h

theorem Settled.exists_text (h : b.Settled s root) : ∃ text, b.text s root = .ok text :=
  Bond.exists_text fun expr hexpr ↦ by
    obtain ⟨v, hv, -⟩ := h expr hexpr
    exact ⟨v, hv⟩

theorem Settled.text_eq (h : b.Settled s root) : b.text s root = .ok (b.shown s root) := by
  obtain ⟨text, htext⟩ := h.exists_text
  rw [shown_of_text htext, htext]

end Bond

namespace Store.Kept

variable {s t : Store} {root : Value} {b : Bond}

variable (h : s.Kept t) (hs : s.Closed) (hroot : root.Within s.objects.size)

include h hs hroot

theorem settled_iff : b.Settled t root ↔ b.Settled s root :=
  forall₂_congr fun expr _ ↦ by rw [h.resolve_eq hs hroot expr]

/-- Scalars are shown alike when objects are kept. -/
theorem text_eq (hsettled : b.Settled s root) : b.text t root = b.text s root := by
  refine (Bond.text_congr fun expr hexpr ↦ ?_).symm
  obtain ⟨v, hv, hscalar⟩ := hsettled expr hexpr
  exact ⟨v, v, hv, (h.resolve_eq hs hroot expr).trans hv, (Value.Alike.refl v).display_eq hscalar⟩

end Store.Kept

/-- An expression shows the same in two stores if its values are like one and the same scalar. -/
theorem Store.showsSame_of_alike {s t : Store} {root x v u : Value} {expr : String}
    (hv : s.resolve expr root = .ok v) (hu : t.resolve expr root = .ok u) (hxv : x.Alike v)
    (hxu : x.Alike u) (hscalar : u.isScalar = true) : s.ShowsSame t root expr := by
  have hx := hxu.isScalar_eq.trans hscalar
  exact ⟨v, u, hv, hu, (hxv.display_eq (s := s) hx).symm.trans (hxu.display_eq hx)⟩

/-- Whether an expression has a scalar for its value can be looked up. -/
theorem Store.any_isScalar_iff {s : Store} {expr : String} {root : Value} :
    (getValue expr root s).1.toOption.any Value.isScalar = true ↔
      ∃ v, (getValue expr root s).1 = .ok v ∧ v.isScalar = true := by
  cases (getValue expr root s).1 <;> simp [Except.toOption]

/-! ## Writes -/

/-- A write to a property that is there, with what comes of it.  The value may be an object of the
state. -/
inductive World.Writes (depth : Nat) (w : World σ) (o : ObjectId) (key : String) (v : Value)
    (r : Except StateError Unit) (w' : World σ) : Prop
  /-- To a key of an object. -/
  | set (hv : v.Within w.scene.store.objects.size) (hkey : (w.scene.store.property? o key).isSome)
      (hrun : Notification.set (run depth) o key v w = some (r, w'))
  /-- To a path. -/
  | setPath (path : String) (root : Value) (hv : v.Within w.scene.store.objects.size)
      (hkey : (w.scene.store.property? o key).isSome)
      (hpath : (Store.target path root w.scene.store).1 = .ok (o, key))
      (hrun : Notification.setPath (run depth) path root v w = some (r, w'))

theorem World.Writes.set_eq {depth : Nat} {w w' : World σ} {o : ObjectId} {key : String} {v : Value}
    {r : Except StateError Unit} (h : w.Writes depth o key v r w')
    (hidle : w.scene.store.tracking = []) :
    v.Within w.scene.store.objects.size ∧ (w.scene.store.property? o key).isSome ∧
      Notification.set (run depth) o key v w = some (r, w') := by
  cases h with
  | set hv hkey hrun => exact ⟨hv, hkey, hrun⟩
  | setPath path root hv hkey hpath hrun =>
    have htarget : w.scene.store.destination path root = .ok (o, key) := by
      rwa [Store.target_of_tracking_nil hidle] at hpath
    rw [Notification.setPath_eq path root v hidle, htarget] at hrun
    exact ⟨hv, hkey, hrun⟩

/-- A redrawn document stays tended if foreign edits keep it so. -/
theorem Redrawn.tended {edits : Document → Document → Prop} {dialect : Dialect}
    {d e e' : Document} {es : List Errand} {log : List (Bond × String)} (h : Redrawn edits e log e')
    (hl : Laid dialect d es) (hedits : ∀ e e', edits e e' → Tended dialect d es e →
      Tended dialect d es e')
    (hlog : ∀ c ∈ log, ∃ err ∈ es, err.bond? = some c.1) (he : Tended dialect d es e) :
    Tended dialect d es e' := by
  induction h with
  | start => exact he
  | foreign _ hedit ih => exact hedits _ _ hedit (ih hlog)
  | shown _ b text ih =>
    rw [List.forall_mem_append] at hlog
    obtain ⟨err, herr, hb⟩ := hlog.2 (b, text) (by simp)
    have hshown := (ih hlog.1).apply hl herr fun _ ↦ text
    rwa [Errand.apply_of_bond hb] at hshown

/-- A world with a compiled template: `d` is the document on which its errands `es` were done, and
`roster` are the posts of its bonds. -/
structure Attended (job : CompileJob σ) (foreign : Action σ → Prop)
    (edits : Document → Document → Prop) (d : Document) (es : List Errand) (roster : List Post)
    (w : World σ) : Prop where
  laid : Laid job.dialect d es
  /-- Foreign edits do no harm. -/
  harmless : ∀ e e', edits e e' → Tended job.dialect d es e → Tended job.dialect d es e'
  /-- Posts are there for bonds of errands. -/
  errands : ∀ q ∈ roster, ∃ err ∈ es, err.bond? = some q.bond ∧ q.expr ∈ q.bond.exprs
  /-- Bonds of errands have a post for each of their expressions. -/
  posts : ∀ err ∈ es, ∀ b, err.bond? = some b → ∀ expr ∈ b.exprs,
    ∃ q ∈ roster, q.bond = b ∧ q.expr = expr
  order : ∃ marks, InOrder [] [] marks w
  rooted : job.state.Within w.scene.store.objects.size
  staffed : Staffed job foreign roster w
  tended : Tended job.dialect d es w.scene.document

/-- A world without watchers, listeners and code of its own is ready. -/
theorem World.Unwatched.ready {foreign : Action σ → Prop} {w : World σ} (h : w.Unwatched)
    (hreactions : w.code.reactions = #[]) (hlisteners : w.scene.listeners = []) :
    w.Ready foreign where
  order := ⟨[], (Reached.start h).inOrder⟩
  aligned := by rw [hreactions, h.subscribers]; rfl
  reactions id reaction hr := by
    rw [hreactions] at hr
    cases hr
  listeners l hl := by
    rw [hlisteners] at hl
    cases hl

/-- A compilation that succeeds leaves a compiled template behind.  Foreign edits must leave what is
below its root alone. -/
theorem Finished.attended {job : CompileJob σ} {foreign : Action σ → Prop}
    {edits : Document → Document → Prop} {limit : Nat} {d : Document} {s : Store}
    {way : List NodeId} {roster : List Post} {w : World σ}
    (h : Finished job foreign limit d s way roster w) (hd : d.IsForest) (ht : job.table.Orderly)
    (hroot : job.state.Within s.objects.size)
    (hedits : ∀ e e', edits e e' → e.ChangedElsewhere (d.Above job.root) e') :
    Attended job foreign edits (d.stage job.root).2 (job.errands d way) roster w where
  laid := h.laid hd ht
  harmless _ _ hedit htended :=
    htended.elsewhere (fun _ herr _ hn ↦ h.above hd ht herr hn) (hedits _ _ hedit)
  errands _ hq := h.exists_errand hq
  posts _ herr _ hb _ hexpr := h.exists_post herr hb hexpr
  order := h.manned.order
  rooted := by
    have hsize := congrArg Array.size h.contents
    rw [Store.size_contents, Store.size_contents] at hsize
    rwa [hsize]
  staffed := h.manned.staffed
  tended := h.tended hd ht

namespace Attended

variable {job : CompileJob σ} {foreign : Action σ → Prop} {edits : Document → Document → Prop}
  {d : Document} {es : List Errand} {roster : List Post} {w w' : World σ} {depth : Nat}
  {o : ObjectId} {key : String} {v : Value} {r : Except StateError Unit}
  {log : List (Bond × String)} {told : List SubscriberId}

theorem idle (h : Attended job foreign edits d es roster w) : w.scene.store.tracking = [] := by
  obtain ⟨marks, horder⟩ := h.order
  exact horder.idle

theorem closed (h : Attended job foreign edits d es roster w) : w.scene.store.Closed := by
  obtain ⟨marks, horder⟩ := h.order
  exact horder.closed

/-- What is in the log are bonds of errands. -/
theorem log_errands (h : Attended job foreign edits d es roster w) {s : Store} {owed : Post → Prop}
    (hup : Upkeep job foreign edits roster owed told (w.withStore s) [] log w')
    {c : Bond × String} (hc : c ∈ log) : ∃ err ∈ es, err.bond? = some c.1 := by
  obtain ⟨⟨q, hq, hqc, -⟩, -⟩ := hup.texts c hc
  obtain ⟨err, herr, hb, -⟩ := h.errands q hq
  exact ⟨err, herr, by rw [hb, hqc]⟩

/-- A template that is kept up through a fan-out stays compiled. -/
theorem of_upkeep (h : Attended job foreign edits d es roster w) {s : Store}
    (hsize : w.scene.store.objects.size ≤ s.objects.size) {owed : Post → Prop}
    (hup : Upkeep job foreign edits roster owed told (w.withStore s) [] log w') :
    Attended job foreign edits d es roster w' where
  laid := h.laid
  harmless := h.harmless
  errands := h.errands
  posts := h.posts
  order := hup.order
  rooted := h.rooted.mono (Nat.le_trans hsize hup.kept.size_le)
  staffed := hup.staffed
  tended := hup.document.tended h.laid h.harmless (fun _ hc ↦ h.log_errands hup hc) h.tended

/-- What spares a template leaves it compiled. -/
theorem spared (h : Attended job foreign edits d es roster w)
    (horder : ∃ marks, InOrder [] [] marks w')
    (hspared : Spared foreign edits (roster.map Post.id) w w') :
    Attended job foreign edits d es roster w' := by
  have htended : ∀ e, ReflTransGen edits w.scene.document e → Tended job.dialect d es e := by
    intro e he
    induction he with
    | refl => exact h.tended
    | tail _ hedit ih => exact h.harmless _ _ hedit ih
  exact { h with
    order := horder
    rooted := h.rooted.mono hspared.kept.size_le
    staffed := hspared.staffed h.staffed
    tended := htended _ hspared.document }

/-- New objects leave a template compiled. -/
theorem observe (h : Attended job foreign edits d es roster w) (data : Json) :
    Attended job foreign edits d es roster (w.withStore (Store.observe data w.scene.store).2) := by
  obtain ⟨marks, horder⟩ := h.order
  exact h.spared ⟨marks, horder.observe data⟩ (.observed w data)

/-- Foreign code that is run spares the template. -/
theorem call (h : Attended job foreign edits d es roster w)
    (hby : Bystanding foreign edits (roster.map Post.id)) {a : Action σ} (ha : foreign a)
    {r : Except BindError Unit} (hrun : run depth a w = some (r, w')) :
    Spared foreign edits (roster.map Post.id) w w' ∧
      Attended job foreign edits d es roster w' := by
  have hspared := hby.spares ha h.idle hrun
  obtain ⟨marks, horder⟩ := h.order
  exact ⟨hspared, h.spared ⟨_, (run_respects depth horder hrun (hby.covered ha h.idle)).inOrder⟩
    hspared⟩

/-- **A write keeps a template up and compiled**, whatever becomes of it. -/
theorem writes (h : Attended job foreign edits d es roster w)
    (hby : Bystanding foreign edits (roster.map Post.id)) (hw : w.Writes depth o key v r w') :
    (w.scene.store.write o key v).2.Closed ∧
      job.state.Within (w.scene.store.write o key v).2.objects.size ∧ ∃ log,
      Upkeep job foreign edits roster (fun q ↦ q.Current job w) (w.told o key v)
        (w.withStore (w.scene.store.write o key v).2) [] log w' ∧
      Attended job foreign edits d es roster w' := by
  obtain ⟨hv, hkey, hrun⟩ := hw.set_eq h.idle
  obtain ⟨log, hup⟩ := set_upkeep hby h.order h.staffed h.rooted (fun q hq ↦ by
    obtain ⟨err, -, -, hexpr⟩ := h.errands q hq
    exact hexpr) hv hkey hrun
  exact ⟨h.closed.write hv hkey, by rw [Store.size_write]; exact h.rooted, log, hup,
    h.of_upkeep (Nat.le_of_eq (Store.size_write _ _ _ _).symm) hup⟩

end Attended

/-! ## After a write -/

namespace Upkeep

variable {job : CompileJob σ} {foreign : Action σ → Prop} {edits : Document → Document → Prop}
  {roster : List Post} {owed : Post → Prop} {told : List SubscriberId} {w₀ w' : World σ}
  {log : List (Bond × String)}

variable (h : Upkeep job foreign edits roster owed told w₀ [] log w')
  (hclosed : w₀.scene.store.Closed) (hroot : job.state.Within w₀.scene.store.objects.size)

include h hclosed hroot

/-- **What was shown is still right.** -/
theorem text_eq {c : Bond × String} (hc : c ∈ log)
    (hsettled : c.1.Settled w'.scene.store job.state) :
    c.1.text w'.scene.store job.state = .ok c.2 := by
  obtain ⟨t, hkept, htext⟩ := (h.texts c hc).2
  have hsettled₀ := (h.kept.settled_iff hclosed hroot).1 hsettled
  rw [h.kept.text_eq hclosed hroot hsettled₀, ← hkept.text_eq hclosed hroot hsettled₀, htext]

/-- **Whoever was told or up to date is up to date** if the bond has a text. -/
theorem current {q : Post} (hq : q ∈ roster) (howed : owed q ∨ q.id ∈ told)
    (htext : ∃ text, q.bond.text w'.scene.store job.state = .ok text) : q.Current job w' := by
  refine (h.turned q hq howed (by simp)).resolve_right ?_
  rintro ⟨e, he⟩
  obtain ⟨text, htext⟩ := (h.kept.text_isOk_iff hclosed hroot q.bond).1 htext
  rw [htext] at he
  cases he

end Upkeep

end DataBinding

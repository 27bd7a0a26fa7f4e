import DataBinding.Proofs.Engine.ShownValues
import DataBinding.Proofs.Template.RouteErrands

/-!
# Watchers as a compilation has made them

A compilation writes nothing, and a watcher that it has made is left alone until the compilation is
over: others are made, but their evaluations take only the dead off a list.  So **every new watcher
has observed exactly the value of its expression, and is on exactly the lists of the properties that
its expression finds** (`recorded_of_compile`).
-/

set_option autoImplicit false

namespace DataBinding

open Compilation

variable {σ : Type}

namespace World

/-- The watcher has observed the value of its expression, and is subscribed to what that finds and
to nothing else. -/
structure Records (w : World σ) (id : SubscriberId) (x : Watcher) : Prop where
  value : w.scene.store.resolve x.expr x.root = .ok x.observed
  listed : ∀ o key, id ∈ w.scene.store.subscribers o key ↔
    (o, key) ∈ w.scene.store.found x.expr x.root

/-- Beginning with a number, the subscribers are those in the scope, and all of them that are alive
are as they were made.  The objects are those of a store. -/
structure Recorded (w : World σ) (s : Store) (first : SubscriberId) (scope : List SubscriberId) :
    Prop extends w.Aligned where
  grown : first ≤ w.scene.store.handles.size
  mem_scope : ∀ id, id ∈ scope ↔ first ≤ id ∧ id < w.scene.store.handles.size
  idle : w.scene.store.tracking = []
  contents : w.scene.store.contents = s.contents
  known : ∀ {o : ObjectId} {key : String} {id : SubscriberId},
    id ∈ w.scene.store.subscribers o key → id < w.scene.store.handles.size
  records : ∀ id, first ≤ id → w.scene.store.isLive id = true →
    ∀ x, w.scene.watcher? id = some x → w.Records id x

namespace Recorded

variable {s : Store} {first : SubscriberId} {scope : List SubscriberId} {w w' : World σ}

/-- A world in which nobody has been made yet. -/
theorem start (hw : w.Aligned) (hidle : w.scene.store.tracking = []) (htidy : w.scene.store.Tidy) :
    w.Recorded w.scene.store w.scene.store.handles.size [] where
  toAligned := hw
  grown := Nat.le_refl _
  mem_scope id := by
    simp only [List.not_mem_nil, false_iff, not_and, Nat.not_lt, imp_self]
  idle := hidle
  contents := rfl
  known := htidy.known
  records _ hid hlive := absurd (Store.lt_of_isLive hlive) (Nat.not_lt.2 hid)

/-- Nothing of this depends on the document, the data or the listeners. -/
theorem of_eq (h : w.Recorded s first scope) (hstore : w'.scene.store = w.scene.store)
    (hsubscribers : w'.scene.subscribers = w.scene.subscribers)
    (hreactions : w'.code.reactions = w.code.reactions) : w'.Recorded s first scope where
  subscribers := by rw [hsubscribers, hstore, h.subscribers]
  reactions := by rw [hreactions, hsubscribers, h.reactions]
  grown := by rw [hstore]; exact h.grown
  mem_scope := by rw [hstore]; exact h.mem_scope
  idle := by rw [hstore, h.idle]
  contents := by rw [hstore, h.contents]
  known hid := by
    rw [hstore] at hid ⊢
    exact h.known hid
  records id hid hlive x hx := by
    rw [hstore] at hlive
    rw [Scene.watcher?, hsubscribers] at hx
    obtain ⟨hvalue, hlisted⟩ := h.records id hid hlive x hx
    exact ⟨by rw [hstore, hvalue], by rw [hstore]; exact hlisted⟩

/-- **A new watcher** observes its value and is subscribed to what its expression finds, and the
others stay as they are. -/
theorem joined (h : w.Recorded s first scope) {expr : String} {root : Value}
    (reaction : Value → Action σ) {v : Value} (hv : w.scene.store.resolve expr root = .ok v) :
    (w.joined expr root reaction v).Recorded s first (scope ++ [w.scene.store.handles.size]) := by
  have hcontents := (w.enlists_joined expr root reaction v).contents
  have hfound : (w.enrolled (.watcher ⟨Text.trim expr, root, .null⟩) reaction).scene.store.found
      (Text.trim expr) root = w.scene.store.found (Text.trim expr) root :=
    Store.found_congr (Store.contents_newSubscriber _) ..
  have hstore : (w.joined expr root reaction v).scene.store =
      ((w.enrolled (.watcher ⟨Text.trim expr, root, .null⟩) reaction).evaluated
        w.scene.store.handles.size ⟨Text.trim expr, root, .null⟩).scene.store := by
    rw [World.joined, World.store_noting]
  have hsize : (w.joined expr root reaction v).scene.store.handles.size =
      w.scene.store.handles.size + 1 := by
    rw [w.store_joined, Store.handles_evaluate]
    exact Array.size_push _
  refine ⟨⟨?_, ?_⟩, ?_, fun id ↦ ?_, ?_, hcontents.trans h.contents, fun {o key id} hid ↦ ?_,
    fun id hfirst hlive x hx ↦ ?_⟩
  · rw [hsize, ← h.subscribers]
    exact Array.size_modify.trans (Array.size_push _)
  · rw [w.reactions_joined, Array.size_push, h.reactions]
    exact (Array.size_modify.trans (Array.size_push _)).symm
  · rw [hsize]
    exact Nat.le_succ_of_le h.grown
  · rw [List.mem_append, List.mem_singleton, h.mem_scope, hsize, Nat.lt_succ_iff_lt_or_eq,
      and_or_left]
    exact or_congr_right (and_iff_right_of_imp fun hid ↦ hid ▸ h.grown).symm
  · rw [w.store_joined, Store.tracking_evaluate]
    exact h.idle
  · rw [hsize]
    rw [hstore, World.mem_subscribers_evaluated] at hid
    rcases hid with ⟨rfl, -⟩ | ⟨hold, -⟩
    · exact Nat.lt_succ_self _
    · exact Nat.lt_succ_of_lt (h.known hold)
  · have hlisted : ∀ o key, id ∈ (w.joined expr root reaction v).scene.store.subscribers o key ↔
        (id = w.scene.store.handles.size ∧ (o, key) ∈ w.scene.store.found (Text.trim expr) root) ∨
          id ∈ w.scene.store.subscribers o key := fun o key ↦ by
      rw [w.isLive_joined, ← Store.isLive_newSubscriber] at hlive
      rw [hstore, World.mem_subscribers_evaluated_of_live _ hlive, hfound]
      rfl
    rw [w.watcher?_joined _ _ _ _ h.subscribers] at hx
    by_cases hid : id = w.scene.store.handles.size
    · -- Nobody with a new number is on a list already.
      rw [if_pos hid, Option.some.injEq] at hx
      subst hx
      refine ⟨?_, fun o key ↦ ?_⟩
      · rw [Store.resolve_of_contents hcontents, Store.resolve_trim, hv]
      · rw [hlisted, Store.found_congr hcontents]
        simp only [hid, true_and]
        exact or_iff_left fun hold ↦ Nat.lt_irrefl _ (h.known hold)
    · rw [if_neg hid] at hx
      have hlive' := ((w.isLive_joined ..).1 hlive).resolve_right hid
      obtain ⟨hvalue, hold⟩ := h.records id hfirst hlive' x hx
      refine ⟨?_, fun o key ↦ ?_⟩
      · rw [Store.resolve_of_contents hcontents, hvalue]
      · rw [hlisted, Store.found_congr hcontents, hold]
        simp [hid]

end Recorded

end World

section Compile

variable {s : Store} {first : SubscriberId} {call : Call σ} {job : CompileJob σ}
  {methods : String → Event → Action σ} {w w' : World σ} {p p' : Progress} {u : Unit}

theorem World.Recorded.watchers (h : w.Recorded s first p.scope) (b : Bond) {exprs : List String}
    (hrun : (exprs.forM fun expr ↦ watch job expr (b.reaction job)).Succeeds p w u p' w') :
    w'.Recorded s first p'.scope := by
  induction exprs generalizing p w with
  | nil =>
    obtain ⟨-, rfl, rfl⟩ := succeeds_pure.1 hrun
    exact h
  | cons expr rest ih =>
    obtain ⟨p₁, w₁, hfirst, hrest⟩ := forM_cons_succeeds.1 hrun
    obtain ⟨v, hv, rfl, rfl⟩ := watch_succeeds.1 hfirst
    exact ih (h.joined _ hv) hrest

/-- **One errand.** -/
theorem World.Recorded.perform (h : w.Recorded s first p.scope) {err : Errand}
    (hsilent : err.isCall = false)
    (hrun : (perform call job methods err).Succeeds p w () p' w') :
    w'.Recorded s first p'.scope := by
  cases err with
  | count f =>
    obtain ⟨rfl, rfl⟩ := succeeds_count.1 hrun
    exact h
  | strip n name =>
    obtain ⟨hrun, rfl⟩ := succeeds_lift.1 hrun
    cases hrun
    exact h.of_eq rfl rfl rfl
  | bind n binding =>
    have hbond : ∀ {b : Bond}, binding.bond? n = some b →
        w'.Recorded s first p'.scope := fun {b} hb ↦ by
      obtain ⟨text, -, hwatch⟩ := (bind_succeeds hb h.idle).1 hrun
      have hpresent : (w.presenting job b.node b.slot text).Recorded s first p.scope :=
        h.of_eq rfl rfl rfl
      exact hpresent.watchers _ hwatch
    cases binding with
    | fixed slot text =>
      obtain ⟨rfl, rfl⟩ := present_succeeds.1 hrun
      exact h.of_eq rfl rfl rfl
    | live slot expr => exact hbond rfl
    | template text => exact hbond rfl
    | writeBack expr =>
      obtain ⟨rfl, rfl⟩ := listen_succeeds.1 hrun
      exact h.of_eq rfl rfl rfl
    | listen event method =>
      obtain ⟨rfl, rfl⟩ := listen_succeeds.1 hrun
      exact h.of_eq rfl rfl rfl
    | call method event value => cases hsilent
    | refuse e => exact absurd hrun not_succeeds_refuse

theorem World.Recorded.performAll (h : w.Recorded s first p.scope) {es : List Errand}
    (hsilent : ∀ err ∈ es, err.isCall = false)
    (hrun : (performAll call job methods es).Succeeds p w () p' w') :
    w'.Recorded s first p'.scope := by
  induction es generalizing p w with
  | nil =>
    obtain ⟨rfl, rfl⟩ := performAll_nil.1 hrun
    exact h
  | cons err es ih =>
    obtain ⟨p₁, w₁, hfirst, hrest⟩ := performAll_cons.1 hrun
    exact ih (h.perform (hsilent err (by simp)) hfirst) (fun err' hmem ↦
      hsilent err' (by simp [hmem])) hrest

/-- **A compilation leaves its watchers as it has made them.** -/
theorem recorded_of_compile (htable : job.table.Orderly) (hw : w.Aligned)
    (hidle : w.scene.store.tracking = []) (htidy : w.scene.store.Tidy)
    (hd : w.scene.document.IsForest) {limit : Nat} {compiled : Compiled}
    (hrun : compile call limit job methods w = some (.ok compiled, w')) :
    w'.Recorded w.scene.store w.scene.store.handles.size compiled.scope := by
  have hstart := World.Recorded.start hw hidle htidy
  obtain ⟨way, p, w₁, -, -, h, rfl, rfl⟩ := compile_follows
    (U := fun _ p w₁ ↦ w₁.Recorded w.scene.store w.scene.store.handles.size p.scope) htable hd
    (fun n _ _ _ _ _ _ _ h herrands ↦
      h.performAll (fun err hmem ↦ (Errand.fits_of_mem_ofNode htable hmem).silent) herrands)
    (hstart.of_eq rfl rfl rfl) hrun
  exact h.of_eq rfl rfl rfl

end Compile

end DataBinding

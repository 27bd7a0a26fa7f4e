import DataBinding.Proofs.Engine.WatcherOrder

/-!
# Running code keeps the watchers in order

Code may write while it runs, and a write calls other code, to any depth.  What all of it keeps is
`InOrder`, with the marks that the chronicle adds (`Carries`).  The proof follows the engine from
the inside out: assuming that called code carries order (`Respects`), one turn does
(`update_carries`), so a fan-out does (`updateAll_carries`), so a write does (`set_carries`), and so
does every action whose marks are covered (`follow_carries`).  **`run_respects` ties the knot** by
induction on the depth.

Each of these also says that an overtaken watcher was called by code that meddled with the state,
which is how the good news for code that does not meddle comes out of the same induction.
-/

set_option autoImplicit false

namespace DataBinding

variable {σ : Type}

/-- The marks of a part of a run are all covered. -/
def Covered (marks : List Mark) : Prop := ∀ k ∈ marks, k.isCovered = true

theorem covered_append {marks more : List Mark} :
    Covered (marks ++ more) ↔ Covered marks ∧ Covered more := List.forall_mem_append

/-- A check that was not noted has succeeded. -/
theorem Covered.of_check {p : Prop} [Decidable p] {marks : List Mark}
    (h : Covered (if p then marks else [.stray])) : p := by
  by_cases hp : p
  · exact hp
  · rw [if_neg hp] at h
    simpa [Mark.isCovered] using h .stray (by simp)

/-- From `w` to `w'` order has been carried on, `more` being what happened. -/
structure Carries (pending running : List SubscriberId) (marks more : List Mark)
    (w w' : World σ) : Prop where
  inOrder : InOrder pending running (marks ++ more) w'
  leads : w.Leads w'
  /-- Nobody is overtaken but by code of its own that changed the state. -/
  meddled : ∀ id, Mark.ended id .overtaken ∈ more → Mark.meddled id ∈ more

/-- Called code carries order on, whoever is pending and running. -/
def Respects (call : Call σ) (tell : Action σ → World σ → List Mark) : Prop :=
  ∀ ⦃a : Action σ⦄ ⦃pending running : List SubscriberId⦄ ⦃marks : List Mark⦄ ⦃w : World σ⦄
    ⦃r : Except BindError Unit⦄ ⦃w' : World σ⦄,
    InOrder pending running marks w → call a w = some (r, w') → Covered (tell a w) →
      Carries pending running marks (tell a w) w w'

namespace Carries

variable {pending running : List SubscriberId} {marks : List Mark} {w w' : World σ}

/-- A step of which the chronicle notes nothing. -/
theorem silent (h : InOrder pending running marks w') (hleads : w.Leads w') :
    Carries pending running marks [] w w' :=
  ⟨by rwa [List.append_nil], hleads, by simp⟩

theorem refl (h : InOrder pending running marks w) : Carries pending running marks [] w w :=
  .silent h (.refl w)

/-- Who is exempt at the end is what the last part says. -/
theorem trans {pending₀ running₀ : List SubscriberId} {more more' : List Mark} {w₁ : World σ}
    (h : Carries pending₀ running₀ marks more w w₁)
    (h' : Carries pending running (marks ++ more) more' w₁ w') :
    Carries pending running marks (more ++ more') w w' where
  inOrder := by
    rw [← List.append_assoc]
    exact h'.inOrder
  leads := h.leads.trans h'.leads
  meddled id hid := by
    rw [List.mem_append] at hid ⊢
    exact hid.imp (h.meddled id) (h'.meddled id)

/-- Nothing is noted of the first part. -/
theorem of_leads {more : List Mark} {w₁ : World σ} (h : w.Leads w₁)
    (h' : Carries pending running marks more w₁ w') : Carries pending running marks more w w' :=
  ⟨h'.inOrder, h.trans h'.leads, h'.meddled⟩

end Carries

namespace Chronicle

/-- Kept objects are read as before. -/
theorem peek_of_isKept {s t : Store} (h : isKept s t = true) {o : ObjectId}
    (ho : o < s.objects.size) (key : String) : t.peek o key = s.peek o key := by
  rw [isKept, List.isPrefixOf_iff_prefix] at h
  obtain ⟨rest, hrest⟩ := h
  have hget : t.contents[o]? = s.contents[o]? := by
    rw [← Array.getElem?_toList, ← hrest, List.getElem?_append_left (by simpa using ho),
      Array.getElem?_toList]
  rw [Store.peek_eq, Store.peek_eq, hget]

/-- Code that does not meddle overtakes nobody. -/
theorem endingOf_of_isKept {s t : Store} {x : Watcher} {v : Value} (hs : s.Closed)
    (hroot : x.root.Within s.objects.size) (hv : s.resolve x.expr x.root = .ok v)
    (hkept : isKept s t = true) : endingOf x v t (.ok ()) = .settled := by
  have hresolve : t.resolve x.expr x.root = .ok v := by
    rw [← hv]
    exact Store.resolve_congr fun r hr ↦ peek_of_isKept hkept (hs.reads_lt hroot hr) r.2
  simp [endingOf, hresolve, Value.Alike.refl]

end Chronicle

/-! ## Objects that are kept -/

namespace Store

/-- The objects of one store hold the same in another one, which may have more of them. -/
def Kept (s t : Store) : Prop := s.contents.toList <+: t.contents.toList

theorem kept_iff {s t : Store} : s.Kept t ↔ Chronicle.isKept s t = true := by
  rw [Kept, Chronicle.isKept, List.isPrefixOf_iff_prefix]

namespace Kept

variable {s t u : Store}

theorem refl (s : Store) : s.Kept s := List.prefix_rfl

theorem trans (h : s.Kept t) (h' : t.Kept u) : s.Kept u := List.IsPrefix.trans h h'

theorem of_contents (h : t.contents = s.contents) : s.Kept t := by
  show s.contents.toList <+: t.contents.toList
  exact h ▸ List.prefix_rfl

theorem size_le (h : s.Kept t) : s.objects.size ≤ t.objects.size := by
  have hlength := h.length_le
  rwa [Array.length_toList, Array.length_toList, size_contents, size_contents] at hlength

theorem peek_eq (h : s.Kept t) {o : ObjectId} (ho : o < s.objects.size) (key : String) :
    t.peek o key = s.peek o key :=
  Chronicle.peek_of_isKept (kept_iff.1 h) ho key

theorem resolve_eq (h : s.Kept t) (hs : s.Closed) {root : Value}
    (hroot : root.Within s.objects.size) (path : String) :
    t.resolve path root = s.resolve path root :=
  resolve_congr fun r hr ↦ Chronicle.peek_of_isKept (kept_iff.1 h) (hs.reads_lt hroot hr) r.2

/-- New objects do not matter. -/
theorem of_extends (h : s.Extends t) : s.Kept t := by
  obtain ⟨new, hnew⟩ := h.objects
  show s.contents.toList <+: t.contents.toList
  rw [contents, contents, hnew, Array.map_append, Array.toList_append]
  exact List.prefix_append _ _

end Kept

end Store

namespace Notification

open Chronicle

variable {call : Call σ} {tell : Action σ → World σ → List Mark}
  {pending running : List SubscriberId} {marks : List Mark} {w w' : World σ} {id : SubscriberId}

/-! ## One turn -/

theorem react_carries (hcall : Respects call tell) (h : InOrder pending running marks w) {v : Value}
    {r : Except StateError Unit} (hrun : react call id v w = some (r, w'))
    (hcov : Covered (ofReact tell id v w)) :
    Carries pending running marks (ofReact tell id v w) w w' := by
  rcases react_eq_some hrun with ⟨hnone, -, rfl⟩ | ⟨reaction, result, hsome, hrun, -⟩
  · rw [ofReact, hnone]
    exact .refl h
  · rw [ofReact, hsome] at hcov ⊢
    exact hcall h hrun hcov

/-- The marks of the update of a watcher whose expression has a new value. -/
theorem ofUpdate_of_react {x : Watcher} {v : Value} {r : Except StateError Unit} {w₁ : World σ}
    (hx : w.scene.watcher? id = some x) (hv : w.scene.store.resolve x.expr x.root = .ok v)
    (hnew : x.observed.identical v = false)
    (hreact : react call id v (w.evaluated id x) = some (r, w₁)) :
    ofUpdate call tell id w = ofReact tell id v (w.evaluated id x) ++
      ((if isKept w.scene.store w₁.scene.store then [] else [.meddled id]) ++
        [.ended id (endingOf x v w₁.scene.store r)]) := by
  simp only [ofUpdate, Scene.subscribers_of_watcher? hx, hv, hnew, Bool.false_eq_true, if_false,
    andThen_of_eq_some hreact]

/-- What is left when the code of a watcher has returned: the watcher is still running, and the
marks of its ending follow. -/
theorem ended_carries (kept : Bool) (ending : Ending)
    (h : InOrder pending (id :: running) marks w)
    (hfresh : w.scene.store.isLive id = true →
      w.Fresh (marks ++ ((if kept then [] else [.meddled id]) ++ [.ended id ending])) id)
    (hmeddled : kept = true → ending ≠ .overtaken) :
    Carries pending running marks
      ((if kept then [] else [.meddled id]) ++ [.ended id ending]) w w where
  inOrder := by
    refine h.settle (fun id' hid ↦ ?_) hfresh
    cases kept <;> simp [lastEnding, Mark.ending?, Ne.symm hid]
  leads := .refl w
  meddled id' hid := by
    cases kept with
    | true =>
      simp only [if_true, List.nil_append, List.mem_singleton, Mark.ended.injEq] at hid
      exact absurd hid.2.symm (hmeddled rfl)
    | false =>
      simp only [Bool.false_eq_true, if_false, List.mem_append, List.mem_singleton,
        Mark.ended.injEq, reduceCtorEq, false_or] at hid
      simp [hid.1]

theorem lastEnding_of_ended (marks : List Mark) (kept : Bool) (id : SubscriberId)
    (ending : Ending) :
    lastEnding (marks ++ ((if kept then [] else [.meddled id]) ++ [.ended id ending])) id
      = some ending := by
  rw [lastEnding_append, lastEnding_append, lastEnding_ended_self]
  rfl

/-- A watcher that has taken note of the value its code was called with is fresh unless it was
overtaken. -/
theorem fresh_noting {x : Watcher} {v : Value} {w₁ : World σ} {k : List Mark}
    (hx : ∀ x₁, w₁.scene.watcher? id = some x₁ → x₁.expr = x.expr ∧ x₁.root = x.root)
    (hlast : lastEnding k id = some (endingOf x v w₁.scene.store (.ok ()))) :
    (w₁.noting id v).Fresh k id := by
  intro x₂ u hx₂ hu _
  rw [World.watcher?_noting, if_pos rfl] at hx₂
  obtain ⟨x₁, hx₁, rfl⟩ := Option.map_eq_some_iff.1 hx₂
  obtain ⟨hexpr, hroot⟩ := hx x₁ hx₁
  have hresolve : w₁.scene.store.resolve x.expr x.root = .ok u := by
    rw [← hexpr, ← hroot]
    exact hu
  rw [hlast]
  by_cases halike : v.Alike u
  · simp [endingOf, hresolve, halike]
  · simp [endingOf, hresolve, halike]

/-- **One turn.** -/
theorem update_carries (hcall : Respects call tell) (h : InOrder (id :: pending) running marks w)
    {r : Except StateError Unit} (hrun : update call id w = some (r, w'))
    (hcov : Covered (ofUpdate call tell id w)) :
    Carries pending running marks (ofUpdate call tell id w) w w' := by
  cases update_outcome hrun with
  | absent hnone =>
    rw [ofUpdate, hnone]
    refine .refl (h.of_no_watcher ?_)
    rw [Scene.watcher?, hnone]
  | probe hprobe hreact =>
    have hmarks : ofUpdate call tell id w = ofReact tell id .null w := by rw [ofUpdate, hprobe]
    rw [hmarks] at hcov ⊢
    refine react_carries hcall (h.of_no_watcher ?_) hreact hcov
    rw [Scene.watcher?, hprobe]
  | unresolved hx hv =>
    rename_i x e
    have hmarks : ofUpdate call tell id w = [] := by
      rw [ofUpdate, Scene.subscribers_of_watcher? hx]
      simp only [hv]
    rw [hmarks]
    refine .silent ?_ (InOrder.leads_evaluated w id x)
    rw [← List.append_nil marks]
    refine (h.evaluated hx).settle (by simp) fun _ x' v hx' hv' ↦ ?_
    -- The value is still missing.
    cases hx'.symm.trans hx
    rw [World.resolve_evaluated, hv] at hv'
    cases hv'
  | unchanged hx hv hsame =>
    rename_i x v
    have hmarks : ofUpdate call tell id w = [.ended id .settled] := by
      simp only [ofUpdate, Scene.subscribers_of_watcher? hx, hv, hsame, if_true]
    rw [hmarks]
    refine ⟨(h.evaluated hx).settle (fun id' hid ↦ lastEnding_ended_of_ne hid _) ?_,
      InOrder.leads_evaluated w id x, by simp⟩
    intro _ x' u hx' hu _
    cases hx'.symm.trans hx
    rw [World.resolve_evaluated, hv] at hu
    cases hu
    simp [lastEnding_append, Value.Alike, hsame]
  | failed hx hv hnew hreact =>
    rename_i x v e
    rw [ofUpdate_of_react hx hv hnew hreact] at hcov ⊢
    rw [covered_append] at hcov
    have hran := react_carries hcall (h.evaluated hx) hreact hcov.1
    have hended := ended_carries (isKept w.scene.store w'.scene.store)
      (endingOf x v w'.scene.store (.error e)) hran.inOrder
      (fun _ x' u _ _ hfail ↦ absurd (lastEnding_of_ended _ _ id _) hfail) (by simp [endingOf])
    exact (hran.trans hended).of_leads (InOrder.leads_evaluated w id x)
  | reacted hx hv hnew hreact =>
    rename_i x v w₁
    rw [ofUpdate_of_react hx hv hnew hreact] at hcov ⊢
    rw [covered_append] at hcov
    have hran := react_carries hcall (h.evaluated hx) hreact hcov.1
    have hsame : ∀ x₁, w₁.scene.watcher? id = some x₁ → x₁.expr = x.expr ∧ x₁.root = x.root := by
      intro x₁ hx₁
      obtain ⟨x₀, hx₀, hexpr, hroot⟩ :=
        ((InOrder.leads_evaluated w id x).trans hran.leads).watcher id (h.lt_size hx) x₁ hx₁
      cases hx₀.symm.trans hx
      exact ⟨hexpr, hroot⟩
    have hkept : isKept w.scene.store w₁.scene.store = true →
        endingOf x v w₁.scene.store (.ok ()) ≠ .overtaken := by
      intro hkept
      rw [endingOf_of_isKept h.closed (h.rooted id x hx) hv hkept]
      simp
    have hended := ended_carries (isKept w.scene.store w₁.scene.store)
      (endingOf x v w₁.scene.store (.ok ())) (hran.inOrder.noting v)
      (fun _ ↦ fresh_noting hsame (lastEnding_of_ended _ _ id _)) hkept
    have hnoted : Carries pending running (marks ++ ofReact tell id v (w.evaluated id x))
        ((if isKept w.scene.store w₁.scene.store then [] else [.meddled id]) ++
          [.ended id (endingOf x v w₁.scene.store (.ok ()))]) w₁ (w₁.noting id v) :=
      ⟨hended.inOrder, InOrder.leads_noting w₁ id v, hended.meddled⟩
    exact (hran.trans hnoted).of_leads (InOrder.leads_evaluated w id x)

/-! ## Fan-outs and writes -/

/-- **A fan-out.**  When it is over nobody waits any more. -/
theorem updateAll_carries (hcall : Respects call tell) {ids : List SubscriberId}
    (h : InOrder (ids ++ pending) running marks w) {r : Except StateError Unit}
    (hrun : updateAll call ids w = some (r, w'))
    (hcov : Covered (ofUpdateAll call tell ids w)) :
    Carries pending running marks (ofUpdateAll call tell ids w) w w' := by
  induction ids generalizing marks w r with
  | nil =>
    cases hrun
    exact .refl h
  | cons id rest ih =>
    obtain ⟨first, others, w₁, hfirst, hothers, -⟩ := updateAll_cons hrun
    rw [ofUpdateAll, andThen_of_eq_some hfirst] at hcov ⊢
    rw [covered_append] at hcov
    have hturn := update_carries hcall h hfirst hcov.1
    exact hturn.trans
      ((ih (hturn.inOrder.release id) hothers hcov.2).of_leads (InOrder.leads_release w₁ id))

theorem notify_carries (hcall : Respects call tell) {ids : List SubscriberId}
    (h : InOrder pending running marks w) {r : Except StateError Unit}
    (hrun : notify call ids w = some (r, w')) (hcov : Covered (ofNotify call tell ids w)) :
    Carries pending running marks (ofNotify call tell ids w) w w' := by
  rw [ofNotify, covered_append] at hcov
  rw [notify_eq] at hrun
  have hall : ids.all w.scene.store.isLive = true := hcov.1.of_check
  rw [ofNotify, if_pos hall, List.nil_append]
  rw [List.all_eq_true] at hall
  have hheld : InOrder (ids ++ pending) running marks
      (w.withStore (ids.foldl Store.retain w.scene.store)) :=
    (h.retainAll hall).mono (fun _ ↦ List.mem_append_right _) fun _ hid ↦ hid
  exact (updateAll_carries hcall hheld hrun hcov.2).of_leads (InOrder.leads_retainAll hall)

theorem leads_announced (w : World σ) (o : ObjectId) (key : String) (v : Value) :
    w.Leads (announced w o key v) := by
  have hwritten : w.Leads (w.withStore ((w.scene.store.write o key v).2.prune o key)) :=
    .of_handles rfl Store.handles_write
  exact hwritten.trans (InOrder.leads_retainAll fun _ ↦ Store.isLive_of_mem_liveSubscribers)

theorem set_carries (hcall : Respects call tell) (h : InOrder pending running marks w)
    {o : ObjectId} {key : String} {v : Value} {r : Except StateError Unit}
    (hrun : set call o key v w = some (r, w')) (hcov : Covered (ofSet call tell o key v w)) :
    Carries pending running marks (ofSet call tell o key v w) w w' := by
  rw [ofSet, covered_append] at hcov
  have hv : v.Within w.scene.store.objects.size := hcov.1.of_check
  rw [ofSet, if_pos hv, List.nil_append]
  rw [set_eq] at hrun
  cases hw : (w.scene.store.write o key v).1 with
  | defined =>
    rw [hw] at hcov
    simpa [Mark.isCovered] using hcov.2 (.defined o key) (by simp)
  | unchanged =>
    rw [hw] at hrun
    cases hrun
    have hsame := (Store.write_of_unchanged hw).1
    exact .silent (h.of_store_eq rfl hsame) (.of_handles rfl Store.handles_write)
  | replaced =>
    rw [hw] at hrun hcov
    have hannounced := h.announced hv (Store.isSome_property?_of_replaced hw) hw
    exact (updateAll_carries hcall hannounced hrun hcov.2).of_leads
      (leads_announced w o key v)

theorem setPath_carries (hcall : Respects call tell) (h : InOrder pending running marks w)
    {path : String} {root v : Value} {r : Except StateError Unit}
    (hrun : setPath call path root v w = some (r, w'))
    (hcov : Covered (ofSetPath call tell path root v w)) :
    Carries pending running marks (ofSetPath call tell path root v w) w w' := by
  rw [setPath_eq path root v h.idle] at hrun
  rw [ofSetPath] at hcov ⊢
  cases hd : w.scene.store.destination path root with
  | error e =>
    rw [hd] at hrun
    cases hrun
    exact .refl h
  | ok target =>
    rw [hd] at hrun hcov
    exact set_carries hcall h hrun hcov

/-! ## New watchers -/

theorem watch_carries (h : InOrder pending running marks w) {expr : String} {root : Value}
    {reaction : Value → Action σ} {r : Except StateError SubscriberId}
    (hrun : watch expr root reaction w = some (r, w')) (hcov : Covered (ofWatch root w)) :
    Carries pending running marks (ofWatch root w) w w' := by
  rw [ofWatch] at hcov
  have hroot : root.Within w.scene.store.objects.size := hcov.of_check
  rw [ofWatch, if_pos hroot]
  generalize hid : w.scene.store.handles.size = id
  generalize hxx : (⟨Text.trim expr, root, .null⟩ : Watcher) = x
  have hx : (w.enrolled (.watcher x) reaction).scene.watcher? id = some x := by
    rw [← hid, ← h.size_subscribers]
    exact w.watcher?_enrolled_self x reaction
  have henrolled : InOrder (id :: pending) running marks (w.enrolled (.watcher x) reaction) := by
    rw [← hid]
    refine h.enrolled (.watcher x) (fun x' hx' ↦ ?_) reaction
    cases hx'
    rw [← hxx]
    exact hroot
  have hevaluated := henrolled.evaluated hx
  have hleads : w.Leads ((w.enrolled (.watcher x) reaction).evaluated id x) :=
    (h.leads_enrolled (.watcher x) reaction).trans (InOrder.leads_evaluated _ id x)
  have hresolve : ((w.enrolled (.watcher x) reaction).evaluated id x).scene.store.resolve
      x.expr x.root = w.scene.store.resolve (Text.trim expr) root := by
    have hcontents : ((w.enrolled (.watcher x) reaction).evaluated id x).scene.store.contents
        = w.scene.store.contents :=
      (Store.contents_evaluate id x.expr x.root _).trans (Store.contents_newSubscriber _)
    rw [Store.resolve_of_contents hcontents, ← hxx]
  have houtcome := watch_outcome hrun
  rw [hid, hxx] at houtcome
  cases houtcome with
  | unresolved _ =>
    rw [hid]
    refine ⟨(hevaluated.release id).settle (fun id' hne ↦ lastEnding_ended_of_ne hne _)
      fun hl ↦ ?_, hleads.trans (InOrder.leads_release _ id), by simp⟩
    -- The only handle has been given back.
    rw [World.store_withStore, Store.isLive_release_of_handles] at hl
    · cases hl
    · show (Store.evaluate id x.expr x.root w.scene.store.newSubscriber.2).2.handles[id]? = some 1
      rw [Store.handles_evaluate, ← hid]
      exact Array.getElem?_push_size
  | @observed v hv =>
    rw [hid]
    refine ⟨(hevaluated.noting v).settle (fun id' hne ↦ lastEnding_ended_of_ne hne _)
      fun _ ↦ ?_, hleads.trans (InOrder.leads_noting _ id v), by simp⟩
    have hsettled : endingOf x v ((w.enrolled (.watcher x) reaction).evaluated id x).scene.store
        (.ok ()) = .settled := by
      simp [endingOf, hresolve, hv, Value.Alike.refl]
    refine fresh_noting (x := x) (fun x₁ hx₁ ↦ ?_) ?_
    · cases hx₁.symm.trans hx
      exact ⟨rfl, rfl⟩
    · rw [hsettled, lastEnding_append, lastEnding_ended_self, Option.some_or]

theorem probe_carries (h : InOrder pending running marks w) {reaction : Action σ}
    {id : SubscriberId} (hrun : probe reaction w = some (id, w')) :
    Carries pending running marks [] w w' := by
  rw [probe_eq] at hrun
  cases hrun
  refine .silent ((h.enrolled .probe (by simp) _).of_no_watcher ?_) (h.leads_enrolled _ _)
  rw [← h.size_subscribers, Scene.watcher?, World.enrolled, Array.getElem?_push, if_pos rfl]

end Notification

/-! ## Actions -/

section Follow

open Chronicle Notification

variable {call : Call σ} {tell : Action σ → World σ → List Mark}
  {pending running : List SubscriberId} {marks : List Mark} {w w' : World σ}

/-- A computation and what follows it. -/
theorem Carries.bind {α : Type} {m : Run σ α} {f : α → Run σ (Except BindError Unit)}
    {g : α → World σ → List Mark} {k : List Mark} {r : Except BindError Unit}
    (hrun : (m >>= f) w = some (r, w')) (hcov : Covered (k ++ andThen m w g))
    (hstep : ∀ a w₁, m w = some (a, w₁) → Covered k → Carries pending running marks k w w₁)
    (hrest : ∀ a w₁, InOrder pending running (marks ++ k) w₁ → f a w₁ = some (r, w') →
      Covered (g a w₁) → Carries pending running (marks ++ k) (g a w₁) w₁ w') :
    Carries pending running marks (k ++ andThen m w g) w w' := by
  obtain ⟨a, w₁, hm, hf⟩ := Run.bind_eq_some_iff.1 hrun
  rw [andThen_of_eq_some hm, covered_append] at hcov
  rw [andThen_of_eq_some hm]
  have hfirst := hstep a w₁ hm hcov.1
  exact hfirst.trans (hrest a w₁ hfirst.inOrder hf hcov.2)

/-- A computation of which nothing is noted, and what follows it. -/
theorem Carries.bind_silent {α : Type} {m : Run σ α} {f : α → Run σ (Except BindError Unit)}
    {g : α → World σ → List Mark} {r : Except BindError Unit}
    (hrun : (m >>= f) w = some (r, w')) (hcov : Covered (andThen m w g))
    (hstep : ∀ a w₁, m w = some (a, w₁) → Carries pending running marks [] w w₁)
    (hrest : ∀ a w₁, InOrder pending running marks w₁ → f a w₁ = some (r, w') →
      Covered (g a w₁) → Carries pending running marks (g a w₁) w₁ w') :
    Carries pending running marks (andThen m w g) w w' := by
  obtain ⟨a, w₁, hm, hf⟩ := Run.bind_eq_some_iff.1 hrun
  rw [andThen_of_eq_some hm] at hcov ⊢
  have hfirst := hstep a w₁ hm
  have horder := hfirst.inOrder
  rw [List.append_nil] at horder
  exact (hrest a w₁ horder hf hcov).of_leads hfirst.leads

/-- A computation that concerns neither the store nor the subscribers. -/
theorem Carries.of_store_eq (h : InOrder pending running marks w)
    (hsubs : w'.scene.subscribers = w.scene.subscribers)
    (hstore : w'.scene.store = w.scene.store) : Carries pending running marks [] w w' :=
  .silent (h.of_store_eq hsubs hstore) (.of_handles hsubs (by rw [hstore]))

/-- **Following an action whose marks are covered carries order on.** -/
theorem follow_carries (hcall : Respects call tell) (limit : Nat) (a : Action σ)
    (h : InOrder pending running marks w) {r : Except BindError Unit}
    (hrun : follow call limit a w = some (r, w')) (hcov : Covered (ofAction call tell a w)) :
    Carries pending running marks (ofAction call tell a w) w w' := by
  induction a generalizing marks w with
  | done result =>
    cases hrun
    exact .refl h
  | inspect next ih => exact ih w.scene h hrun hcov
  | modify f next ih =>
    rw [ofAction] at hcov ⊢
    refine .bind_silent hrun hcov (fun a w₁ hm ↦ ?_) fun _ _ h₁ hf ↦ ih h₁ hf
    cases hm
    exact .of_store_eq h rfl rfl
  | observe data next ih =>
    rw [ofAction] at hcov ⊢
    refine .bind_silent hrun hcov (fun a w₁ hm ↦ ?_) fun a _ h₁ hf ↦ ih a h₁ hf
    obtain ⟨-, rfl⟩ := Run.onStore_eq_some hm
    exact .silent (h.observe data) (.of_handles rfl (Store.extends_observe data _).handles)
  | get o key next ih =>
    rw [ofAction] at hcov ⊢
    refine .bind_silent hrun hcov (fun a w₁ hm ↦ ?_) fun a _ h₁ hf ↦ ih a h₁ hf
    obtain ⟨-, rfl⟩ := Run.onStore_eq_some hm
    exact .of_store_eq h rfl (Store.get_snd_of_tracking_nil h.idle o key)
  | getPath path root next ih =>
    rw [ofAction] at hcov ⊢
    refine .bind_silent hrun hcov (fun a w₁ hm ↦ ?_) fun a _ h₁ hf ↦ ih a h₁ hf
    obtain ⟨-, rfl⟩ := Run.onStore_eq_some hm
    refine .of_store_eq h rfl ?_
    rw [World.store_withStore, Store.getValue_eq, Store.touch_of_tracking_nil h.idle]
  | render template root next ih =>
    rw [ofAction] at hcov ⊢
    refine .bind_silent hrun hcov (fun a w₁ hm ↦ ?_) fun a _ h₁ hf ↦ ih a h₁ hf
    obtain ⟨-, rfl⟩ := Run.onStore_eq_some hm
    refine .of_store_eq h rfl ?_
    rw [World.store_withStore, Store.render_eq h.idle]
  | set o key v next ih =>
    rw [ofAction] at hcov ⊢
    exact .bind hrun hcov (fun a w₁ hm hk ↦ set_carries hcall h hm hk)
      fun a _ h₁ hf ↦ ih a h₁ hf
  | setPath path root v next ih =>
    rw [ofAction] at hcov ⊢
    exact .bind hrun hcov (fun a w₁ hm hk ↦ setPath_carries hcall h hm hk)
      fun a _ h₁ hf ↦ ih a h₁ hf
  | watch expr root reaction next _ ih =>
    rw [ofAction] at hcov ⊢
    exact .bind hrun hcov (fun a w₁ hm hk ↦ watch_carries h hm hk) fun a _ h₁ hf ↦ ih a h₁ hf
  | probe reaction next _ ih =>
    rw [ofAction] at hcov ⊢
    exact .bind_silent hrun hcov (fun a w₁ hm ↦ probe_carries h hm)
      fun a _ h₁ hf ↦ ih a h₁ hf
  | retain id next ih =>
    rw [ofAction] at hcov ⊢
    refine .bind hrun hcov (fun a w₁ hm hk ↦ ?_) fun _ _ h₁ hf ↦ ih h₁ hf
    cases hm
    have hlive : ∀ id' ∈ [id], w.scene.store.isLive id' = true := by
      simpa using hk.of_check
    rw [if_pos hk.of_check]
    exact .silent (h.retainAll hlive) (InOrder.leads_retainAll hlive)
  | release id next ih =>
    rw [ofAction] at hcov ⊢
    refine .bind_silent hrun hcov (fun a w₁ hm ↦ ?_) fun _ _ h₁ hf ↦ ih h₁ hf
    obtain ⟨-, rfl⟩ := Run.onStore_eq_some hm
    exact .silent (h.release id) (InOrder.leads_release w id)
  | notify ids next ih =>
    rw [ofAction] at hcov ⊢
    exact .bind hrun hcov (fun a w₁ hm hk ↦ notify_carries hcall h hm hk)
      fun a _ h₁ hf ↦ ih a h₁ hf
  | edit e next ih =>
    rw [ofAction] at hcov ⊢
    refine .bind_silent hrun hcov (fun a w₁ hm ↦ ?_) fun _ _ h₁ hf ↦ ih h₁ hf
    cases hm
    exact .of_store_eq h rfl rfl
  | listen node event handler next _ ih =>
    rw [ofAction] at hcov ⊢
    refine .bind_silent hrun hcov (fun a w₁ hm ↦ ?_) fun _ _ h₁ hf ↦ ih h₁ hf
    cases hm
    exact .of_store_eq h rfl rfl
  | unlisten root next ih =>
    rw [ofAction] at hcov ⊢
    refine .bind_silent hrun hcov (fun a w₁ hm ↦ ?_) fun _ _ h₁ hf ↦ ih h₁ hf
    cases hm
    exact .of_store_eq h rfl rfl
  | _ => simpa [ofAction, Mark.isCovered] using hcov .outside (by simp [ofAction])

/-- **Code that is run carries order on**, however deeply it is nested. -/
theorem run_respects (depth : Nat) : Respects (run (σ := σ) depth) (chronicle depth) := by
  induction depth with
  | zero =>
    intro a pending running marks w r w' _ hrun
    cases hrun
  | succ depth ih =>
    intro a pending running marks w r w' h hrun hcov
    exact follow_carries ih depth a h hrun hcov

end Follow

end DataBinding

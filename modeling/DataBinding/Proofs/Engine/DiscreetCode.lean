import DataBinding.Proofs.Engine.ConsiderateFanOuts
import DataBinding.Proofs.Engine.Tracking

/-!
# Discreet code

*Discreet* code neither writes state nor updates anybody nor calls other code (`Action.Discreet`).
It may look at anything, change the program's own data and the document, make objects, watchers and
listeners, drop watchers and view-models, and fail.

**Discreet code is considerate of everybody who is not evaluating** (`Action.Discreet.considerate`),
and stays so while a fan-out calls it again and again (`Telling.considerateAll_of_discreet`).  Reads
are the reason for looking at the tracking stack: a read enters whoever is evaluating on a list.
-/

set_option autoImplicit false

namespace DataBinding

variable {σ : Type}

/-! ## Lists -/

namespace Store

variable {s : Store} {keep : SubscriberId → Bool}

/-- A read does not move those who are alive and not evaluating. -/
theorem filter_subscribers_get
    (hkeep : ∀ i, keep i = true → s.isLive i = true ∧ i ∉ s.tracking) (o : ObjectId) (key : String)
    (o' : ObjectId) (k : String) :
    ((s.get o key).2.subscribers o' k).filter keep = (s.subscribers o' k).filter keep := by
  cases ht : s.tracking with
  | nil => rw [get_snd_of_tracking_nil ht]
  | cons id rest =>
    rcases subscribers_get ht o' k with hlist | ⟨-, hlist⟩
    · rw [hlist]
    · have hid : ¬keep id = true :=
        fun hid ↦ (hkeep id hid).2 (by rw [ht]; exact List.mem_cons_self)
      rw [hlist, filter_subscribeTo fun i hi ↦ (hkeep i hi).1, if_neg hid]

theorem filter_subscribers_touch
    (hkeep : ∀ i, keep i = true → s.isLive i = true ∧ i ∉ s.tracking)
    (reads : List (ObjectId × String)) (o : ObjectId) (key : String) :
    ((s.touch reads).subscribers o key).filter keep = (s.subscribers o key).filter keep := by
  induction reads generalizing s with
  | nil => rfl
  | cons r reads ih =>
    rw [touch_cons, ih fun i hi ↦ ?_, filter_subscribers_get hkeep]
    rw [isLive_congr (handles_get s r.1 r.2), tracking_get]
    exact hkeep i hi

end Store

/-! ## Bypassing -/

namespace World

variable {told : List SubscriberId} {w w₁ w' : World σ} {id : SubscriberId}

/-- The given subscribers are watchers with code, and none of them is evaluating. -/
structure Aside (told : List SubscriberId) (w : World σ) : Prop where
  known : ∀ id ∈ told, id < w.scene.store.handles.size
  watchers : ∀ id ∈ told, (w.scene.watcher? id).isSome
  reactions : ∀ id ∈ told, (w.code.reactions[id]?).isSome
  idle : ∀ id ∈ told, id ∉ w.scene.store.tracking

/-- The given subscribers are bypassed, and whoever was evaluating still is. -/
structure Passes (told : List SubscriberId) (w w' : World σ) : Prop where
  bypasses : w.Bypasses told w'
  tracking : w'.scene.store.tracking = w.scene.store.tracking

namespace Passes

theorem trans (h : w.Passes told w₁) (h' : w₁.Passes told w') : w.Passes told w' :=
  ⟨h.bypasses.trans h'.bypasses, h'.tracking.trans h.tracking⟩

theorem of_eq (hstore : w'.scene.store = w.scene.store)
    (hsubscribers : w'.scene.subscribers = w.scene.subscribers)
    (hcode : w'.code.reactions = w.code.reactions) : w.Passes told w' :=
  ⟨.of_eq hstore hsubscribers hcode, by rw [hstore]⟩

theorem aside (h : w.Passes told w') (haside : w.Aside told) : w'.Aside told where
  known id hid := Nat.lt_of_lt_of_le (haside.known id hid) h.bypasses.size_le
  watchers id hid := by
    rw [h.bypasses.watchers id hid]
    exact haside.watchers id hid
  reactions id hid := by
    rw [h.bypasses.reactions id hid]
    exact haside.reactions id hid
  idle id hid := by
    rw [h.tracking]
    exact haside.idle id hid

/-! ### The steps -/

/-- Only the store is changed, and nobody in it is held otherwise. -/
theorem withStore {s : Store} (hkept : w.scene.store.Kept s)
    (hhandles : s.handles = w.scene.store.handles) (htracking : s.tracking = w.scene.store.tracking)
    (hlists : ∀ keep : SubscriberId → Bool,
      (∀ id, keep id = true → id ∈ told ∧ w.scene.store.isLive id = true) → ∀ o key,
        (s.subscribers o key).filter keep = (w.scene.store.subscribers o key).filter keep) :
    w.Passes told (w.withStore s) where
  bypasses := {
    kept := hkept
    size_le := Nat.le_of_eq (congrArg Array.size hhandles.symm)
    live id _ hlive := (Store.isLive_congr hhandles id).symm.trans hlive
    watchers _ _ := rfl
    reactions _ _ := rfl
    subscribers keep hkeep := hlists keep fun id hid ↦
      ⟨(hkeep id hid).1, (Store.isLive_congr hhandles id).symm.trans (hkeep id hid).2⟩ }
  tracking := htracking

theorem observe (data : Json) :
    w.Passes told (w.withStore (Store.observe data w.scene.store).2) := by
  have hextends := Store.extends_observe data w.scene.store
  refine withStore (.of_extends hextends) hextends.handles hextends.tracking fun _ _ o key ↦ ?_
  rw [Store.subscribers_observe]

theorem touch (h : w.Aside told) (reads : List (ObjectId × String)) :
    w.Passes told (w.withStore (w.scene.store.touch reads)) :=
  withStore (.of_contents (Store.contents_touch _ reads)) (Store.handles_touch _ reads)
    (Store.tracking_touch _ reads) fun _ hkeep ↦
      Store.filter_subscribers_touch (fun i hi ↦ ⟨(hkeep i hi).2, h.idle i (hkeep i hi).1⟩) reads

theorem evaluated (hid : id < w.scene.store.handles.size) (hnot : id ∉ told) (x : Watcher) :
    w.Passes told (w.evaluated id x) := by
  refine withStore (.of_contents (w.contents_evaluated id x)) (w.handles_evaluated id x)
    (w.tracking_evaluated id x) fun keep hkeep o key ↦ ?_
  have hnobody : ([id].filter fun i ↦ keep i && w.scene.store.finds x.expr x.root o key) = [] := by
    have hid : keep id = false := Bool.eq_false_iff.2 fun hid ↦ hnot (hkeep id hid).1
    rw [List.filter_cons, hid, Bool.false_and]
    rfl
  rw [Store.filter_subscribers_evaluate hid fun i hi ↦ (hkeep i hi).2, hnobody]
  rfl

theorem noting (hnot : id ∉ told) (v : Value) : w.Passes told (w.noting id v) where
  bypasses := {
    kept := .refl _
    size_le := Nat.le_refl _
    live _ _ hlive := hlive
    watchers i hi := by rw [w.watcher?_noting, if_neg (ne_of_mem_of_not_mem hi hnot)]
    reactions _ _ := rfl
    subscribers _ _ _ _ := rfl }
  tracking := rfl

/-- Somebody new is nobody of those who were there. -/
theorem enrolled (h : w.Aside told) (s : Subscriber) (reaction : Value → Action σ) :
    w.Passes told (w.enrolled s reaction) where
  bypasses := {
    kept := .of_contents (Store.contents_newSubscriber _)
    size_le := by
      show _ ≤ (w.scene.store.handles.push 1).size
      rw [Array.size_push]
      exact Nat.le_succ _
    live id hid hlive := ((Store.isLive_newSubscriber _ id).1 hlive).resolve_right
      (Nat.ne_of_lt (h.known id hid))
    watchers id hid := by
      refine w.watcher?_enrolled s reaction fun heq ↦ ?_
      obtain ⟨x, hx⟩ := Option.isSome_iff_exists.1 (h.watchers id hid)
      have hnone : w.scene.subscribers[id]? = none := by
        rw [heq]
        exact Array.getElem?_eq_none (Nat.le_refl _)
      cases hnone.symm.trans (Scene.subscribers_of_watcher? hx)
    reactions id hid := by
      obtain ⟨code, hcode⟩ := Option.isSome_iff_exists.1 (h.reactions id hid)
      show (w.code.reactions.push reaction)[id]? = _
      rw [Array.getElem?_push, if_neg (Nat.ne_of_lt (Array.getElem?_eq_some_iff.1 hcode).1)]
    subscribers _ _ _ _ := rfl }
  tracking := rfl

theorem releaseAll (ids : List SubscriberId) :
    w.Passes told (w.withStore (w.scene.store.releaseAll ids)) where
  bypasses := {
    kept := .of_contents (by
      rw [World.store_withStore, Store.contents, Store.objects_releaseAll, ← Store.contents])
    size_le := Nat.le_of_eq ((Store.MakesNobody.releaseAll ids).size_eq w.scene.store).symm
    live _ _ hlive := Store.isLive_of_releaseAll hlive
    watchers _ _ := rfl
    reactions _ _ := rfl
    subscribers _ _ o key := by
      rw [World.store_withStore, Store.subscribers_congr (Store.objects_releaseAll ..)] }
  tracking := Store.lasting_tracking.releaseAll ids rfl

/-- A view-model may take its watchers with it. -/
theorem released (vm : ViewModelId) : w.Passes told (w.released vm) := by
  rw [World.released]
  split
  · exact of_eq rfl rfl rfl
  · split
    · exact (releaseAll _).trans (of_eq rfl rfl rfl)
    · exact of_eq rfl rfl rfl

/-- A new watcher concerns nobody who was there. -/
theorem watch (h : w.Aside told) {expr : String} {root : Value} {reaction : Value → Action σ}
    {r : Except StateError SubscriberId}
    (hrun : Notification.watch expr root reaction w = some (r, w')) :
    w.Passes told w' := by
  have hnew : w.scene.store.handles.size ∉ told := fun hid ↦ Nat.lt_irrefl _ (h.known _ hid)
  have hmade (x : Watcher) :
      w.Passes told
        ((w.enrolled (.watcher x) reaction).evaluated w.scene.store.handles.size x) := by
    refine (enrolled h _ reaction).trans (evaluated ?_ hnew x)
    show _ < (w.scene.store.handles.push 1).size
    rw [Array.size_push]
    exact Nat.lt_succ_self _
  cases Notification.watch_outcome hrun with
  | unresolved _ => exact (hmade _).trans (releaseAll [_])
  | observed _ => exact (hmade _).trans (noting hnew _)

end Passes

end World

/-! ## Discreet code -/

/-- Code that neither writes state nor updates anybody nor calls other code, and holds nobody but
those whom it makes. -/
inductive Action.Discreet : Action σ → Prop
  | done (result : Except BindError Unit) : Discreet (.done result)
  | inspect {next : Scene σ → Action σ} (h : ∀ s, Discreet (next s)) : Discreet (.inspect next)
  | modify (f : σ → σ) {next : Action σ} (h : Discreet next) : Discreet (.modify f next)
  | observe (data : Json) {next : Value → Action σ} (h : ∀ v, Discreet (next v)) :
      Discreet (.observe data next)
  | get (o : ObjectId) (key : String) {next : Option Value → Action σ}
      (h : ∀ v, Discreet (next v)) :
      Discreet (.get o key next)
  | getPath (path : String) (root : Value) {next : Except StateError Value → Action σ}
      (h : ∀ x, Discreet (next x)) : Discreet (.getPath path root next)
  | render (template : String) (root : Value) {next : Except StateError String → Action σ}
      (h : ∀ x, Discreet (next x)) : Discreet (.render template root next)
  | watch (expr : String) (root : Value) (reaction : Value → Action σ)
      {next : Except StateError SubscriberId → Action σ} (h : ∀ x, Discreet (next x)) :
      Discreet (.watch expr root reaction next)
  | probe (reaction : Action σ) {next : SubscriberId → Action σ} (h : ∀ id, Discreet (next id)) :
      Discreet (.probe reaction next)
  | release (id : SubscriberId) {next : Action σ} (h : Discreet next) : Discreet (.release id next)
  | edit (e : Edit) {next : Action σ} (h : Discreet next) : Discreet (.edit e next)
  | listen (node : NodeId) (event : String) (handler : Event → Action σ) {next : Action σ}
      (h : Discreet next) : Discreet (.listen node event handler next)
  | unlisten (root : NodeId) {next : Action σ} (h : Discreet next) : Discreet (.unlisten root next)
  | retainViewModel (vm : ViewModelId) {next : Action σ} (h : Discreet next) :
      Discreet (.retainViewModel vm next)
  | releaseViewModel (vm : ViewModelId) {next : Action σ} (h : Discreet next) :
      Discreet (.releaseViewModel vm next)

variable {depth : Nat} {held told : List SubscriberId} {w₀ w : World σ}

/-- Making a watcher comes to its end. -/
theorem Notification.exists_watch (expr : String) (root : Value) (reaction : Value → Action σ)
    (w : World σ) : ∃ r w', watch expr root reaction w = some (r, w') := by
  rw [watch_eq]
  simp only
  cases w.scene.store.resolve (Text.trim expr) root <;> exact ⟨_, _, rfl⟩

/-- Code whose first step bypasses everybody, and which goes on considerately, is considerate. -/
theorem Considerate.step {call : Call σ} {tell : Tell σ} {a next : Action σ} {w₁ : World σ}
    (h : Considerate call tell held told next w₁) (hpasses : w.Passes told w₁)
    (hrun : call a w = call next w₁)
    (htrace : tell held a w = .step held a w.scene :: tell held next w₁) :
    Considerate call tell held told a w where
  returns := by
    obtain ⟨r, w', hnext, hbypasses⟩ := h.returns
    exact ⟨r, w', hrun.trans hnext, hpasses.bypasses.trans hbypasses⟩
  silent id hid hmem := by
    rw [htrace, List.mem_cons] at hmem
    exact h.silent id hid (hmem.resolve_left (by simp))

/-- **Discreet code is considerate** of everybody who is not evaluating. -/
theorem Action.Discreet.considerate {a : Action σ} (ha : a.Discreet) (h : w.Aside told) :
    Considerate (run (depth + 1)) (trace (depth + 1)) held told a w := by
  induction ha generalizing w with
  | done result =>
    refine ⟨⟨result, w, rfl, .refl told w⟩, fun id _ hmem ↦ ?_⟩
    have htrace :
        trace (depth + 1) held (.done result) w = [.step held (.done result) w.scene] := rfl
    simp [htrace] at hmem
  | inspect _ ih => exact (ih w.scene h).step (.of_eq rfl rfl rfl) rfl rfl
  | modify f _ ih =>
    have hpasses : w.Passes told { w with scene := { w.scene with data := f w.scene.data } } :=
      .of_eq rfl rfl rfl
    exact (ih (hpasses.aside h)).step hpasses rfl rfl
  | observe data _ ih =>
    have hpasses : w.Passes told (w.withStore (Store.observe data w.scene.store).2) := .observe data
    exact (ih _ (hpasses.aside h)).step hpasses rfl rfl
  | get o key _ ih =>
    have hpasses := World.Passes.touch h [(o, key)]
    exact (ih _ (hpasses.aside h)).step hpasses rfl rfl
  | getPath path root _ ih =>
    have hpasses : w.Passes told (w.withStore (Store.getValue path root w.scene.store).2) := by
      rw [Store.getValue_eq]
      exact .touch h _
    exact (ih _ (hpasses.aside h)).step hpasses rfl rfl
  | render template root _ ih =>
    have hpasses : w.Passes told (w.withStore (Store.render template root w.scene.store).2) := by
      obtain ⟨reads, hreads⟩ := w.scene.store.exists_render_eq template root
      rw [hreads]
      exact .touch h reads
    exact (ih _ (hpasses.aside h)).step hpasses rfl rfl
  | watch expr root reaction _ ih =>
    obtain ⟨r, w₁, hwatch⟩ := Notification.exists_watch expr root reaction w
    have hpasses := World.Passes.watch h hwatch
    refine (ih r (hpasses.aside h)).step hpasses (Run.bind_of_eq_some hwatch _) ?_
    show _ :: Trace.following (Notification.watch expr root reaction) _ w = _
    rw [Trace.following, hwatch]
    rfl
  | probe reaction _ ih =>
    have hpasses := World.Passes.enrolled h .probe fun _ ↦ reaction
    exact (ih _ (hpasses.aside h)).step hpasses rfl rfl
  | release id _ ih =>
    have hpasses : w.Passes told (w.withStore (w.scene.store.release id)) := .releaseAll [id]
    exact (ih (hpasses.aside h)).step hpasses rfl rfl
  | edit e _ ih =>
    have hpasses : w.Passes told
        { w with scene := { w.scene with document := w.scene.document.apply e } } :=
      .of_eq rfl rfl rfl
    exact (ih (hpasses.aside h)).step hpasses rfl rfl
  | listen node event handler _ ih =>
    have hpasses : w.Passes told
        { scene := { w.scene with
            listeners := w.scene.listeners ++ [⟨node, event, w.code.handlers.size⟩] }
          code := { w.code with handlers := w.code.handlers.push handler } } :=
      .of_eq rfl rfl rfl
    exact (ih (hpasses.aside h)).step hpasses rfl rfl
  | unlisten root _ ih =>
    have hpasses : w.Passes told { w with scene := w.scene.clearListeners root } :=
      .of_eq rfl rfl rfl
    exact (ih (hpasses.aside h)).step hpasses rfl rfl
  | retainViewModel vm _ ih =>
    have hpasses : w.Passes told (w.withEdited vm fun v ↦ { v with handles := v.handles + 1 }) :=
      .of_eq rfl rfl rfl
    exact (ih (hpasses.aside h)).step hpasses rfl rfl
  | releaseViewModel vm _ ih =>
    have hpasses : w.Passes told (w.released vm) := .released vm
    have hrelease := Lifetime.release_eq vm w
    refine (ih (hpasses.aside h)).step hpasses (Run.bind_of_eq_some hrelease _) ?_
    show _ :: Trace.following (Lifetime.release vm) _ w = _
    rw [Trace.following, hrelease]
    rfl

/-! ## Fan-outs among the discreet -/

/-- Whoever is told is still there when a turn is over. -/
theorem Told.aside {id : SubscriberId} {r : Except StateError Unit} {w' : World σ}
    (h : Told told w₀ [id] w [(id, r)] w') (hwatches : w₀.Watches id) (haside : w.Aside told)
    (htracking : w'.scene.store.tracking = w.scene.store.tracking) : w'.Aside told where
  known i hi := Nat.lt_of_lt_of_le (haside.known i hi) h.size_le
  watchers i hi := by
    by_cases heq : i = id
    · obtain ⟨x, hx, -⟩ := hwatches.watcher
      rw [heq, h.watchers _ List.mem_cons_self, hx]
      rfl
    · rw [h.others i hi (by simpa using heq)]
      exact haside.watchers i hi
  reactions i hi := by
    rw [h.reactions i hi]
    exact haside.reactions i hi
  idle i hi := by
    rw [htracking]
    exact haside.idle i hi

/-- Discreet code is considerate when a fan-out calls it. -/
theorem Telling.considerateAll_of_discreet {T ids : List SubscriberId} (h : Telling told w₀ ids w)
    (haside : w.Aside told) (htracks : w.Tracks T) (hwatches : ∀ id ∈ told, w₀.Watches id)
    (hcode : ∀ id ∈ told, ∀ reaction, w₀.code.reactions[id]? = some reaction → ∀ v,
      (reaction v).Discreet) :
    ConsiderateAll (run (depth + 1)) (trace (depth + 1)) held told ids w := by
  induction ids generalizing w with
  | nil => trivial
  | cons id ids ih =>
    have hid := h.subset id List.mem_cons_self
    have hturn : ∀ (held : List SubscriberId) x v reaction, w.scene.watcher? id = some x →
        w.news id = some v → w.code.reactions[id]? = some reaction →
          Considerate (run (depth + 1)) (trace (depth + 1)) held told (reaction v)
            (w.evaluated id x) := by
      intro held x v reaction _ _ hreaction
      refine (hcode id hid reaction ((h.reactions id hid).symm.trans hreaction) v).considerate ?_
      refine ⟨fun i hi ↦ ?_, haside.watchers, haside.reactions, fun i hi ↦ ?_⟩
      · rw [w.handles_evaluated id x]
        exact haside.known i hi
      · rw [w.tracking_evaluated id x]
        exact haside.idle i hi
    refine ⟨hturn _, fun r w₁ hrun ↦ ?_⟩
    obtain ⟨r', w₁', hrun', htold⟩ := h.turn (hwatches id hid) (hturn [])
    cases hrun.symm.trans hrun'
    have htracks₁ : (w₁.withStore (w₁.scene.store.release id)).Tracks T := by
      have hkept := (Notification.lasts_update Store.lasting_tracking
        (fun a ↦ run_lasts Store.lasting_tracking (depth + 1) a T) id).kept _ _ _ hrun htracks
      exact ⟨hkept.store, hkept.code⟩
    exact ih (h.next htold)
      (htold.aside (hwatches id hid) haside (htracks₁.store.trans htracks.store.symm)) htracks₁

end DataBinding

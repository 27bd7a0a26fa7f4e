import DataBinding.Proofs.State.WrittenValues
import DataBinding.Proofs.Template.DocumentAfterWrites
import DataBinding.Proofs.Template.ReadOnlyCode

/-!
# Updating is compiling anew

A compiled template is used by writing state and by entering values into its controls; what is
written may be new objects, which take the place of whole parts of the state.  Each time some bonds
are shown again and the others are left alone.  This file says that nothing is missed: **whatever
was written and entered, the document is the one that compiling the template anew against the
present state gives** (`compiled_anew`).

What is entered goes a way of its own.  The control shows it before anything is written, and the
write that follows is heard by the watcher of that same control, if there is anything new to be
heard.  In both cases the control shows what its expression is now (`Mirrored.enters`).
-/

set_option autoImplicit false

namespace DataBinding

open Document Errand
open Relation (ReflTransGen)

variable {σ : Type}

/-! ## Firing events -/

namespace Dispatch

variable {call : Call σ} {event : Event} {w w' : World σ} {r : Except BindError Unit}

theorem callAll_append {is js : List Nat} (h : callAll call event (is ++ js) w = some (r, w')) :
    ∃ r₁ w₁ r₂, callAll call event is w = some (r₁, w₁) ∧
      callAll call event js w₁ = some (r₂, w') := by
  induction is generalizing w r with
  | nil => exact ⟨Except.ok (), w, r, rfl, h⟩
  | cons i is ih =>
    rw [List.cons_append, callAll_cons_eq_some] at h
    obtain ⟨first, w₁, others, hfirst, hrest, rfl⟩ := h
    obtain ⟨r₁, w₂, r₂, his, hjs⟩ := ih hrest
    exact ⟨firstError first r₁, w₂, r₂,
      callAll_cons_eq_some.2 ⟨first, w₁, r₁, hfirst, his, rfl⟩, hjs⟩

end Dispatch

/-- What the user does to a control is a change of the control and an event. -/
theorem run_input {depth : Nat} {n : NodeId} {v : Value} {w w' : World σ}
    {r : Except BindError Unit} (h : run depth (Program.input n v).action w = some (r, w')) :
    ∃ depth', Dispatch.fire (run depth') n inputEvent v
      (w.withDocument (w.scene.document.setControl n (w.scene.store.display v))) =
      some (r, w') := by
  cases depth with
  | zero => cases h
  | succ depth =>
    refine ⟨depth, ?_⟩
    obtain ⟨r', w₁, hfire, hdone⟩ := Run.bind_eq_some_iff.1
      (show (Dispatch.fire (run depth) n inputEvent v >>= fun r ↦ pure r)
        (w.withDocument (w.scene.document.setControl n (w.scene.store.display v))) = some (r, w')
        from h)
    cases hdone
    exact hfire

/-- The code that writes back sets a path to what the event brings to the control. -/
theorem run_writing {job : CompileJob σ} {depth : Nat} {path : String} {event : Event}
    {w w' : World σ} {r : Except BindError Unit}
    (h : run depth (job.writing path event) w = some (r, w')) :
    ∃ depth' r', Notification.setPath (run depth') path job.state (w.scene.controlValue event) w
      = some (r', w') := by
  cases depth with
  | zero => cases h
  | succ depth =>
    obtain ⟨r', w₁, hset, hdone⟩ := Run.bind_eq_some_iff.1
      (show (Notification.setPath (run depth) path job.state (w.scene.controlValue event) >>=
        fun r ↦ pure (r.mapError BindError.state)) w = some (r, w') from h)
    cases hdone
    exact ⟨depth, r', hset⟩

/-- What an event brings to a control that already shows it is a scalar that is shown alike. -/
theorem Scene.controlValue_shown {s : Scene σ} {n : NodeId} {event : String} {v : Value}
    {x : Element} (hv : v.isScalar = true) {t : Store} (hx : s.document.element? n = some x)
    (hcontrol : x.control = some (t.display v)) :
    (s.controlValue ⟨n, event, v⟩).isScalar = true ∧
      ∀ t' : Store, t'.display (s.controlValue ⟨n, event, v⟩) = t.display v := by
  cases v with
  | null =>
    have hvalue : s.controlValue ⟨n, event, .null⟩ = .string (t.display .null) := by
      rw [Scene.controlValue, Document.control?, hx, Option.bind_some, hcontrol]
    rw [hvalue]
    exact ⟨rfl, fun t' ↦ rfl⟩
  | object o => cases hv
  | bool b => exact ⟨rfl, fun t' ↦ (Value.Alike.refl _).display_eq rfl⟩
  | number x => exact ⟨rfl, fun t' ↦ (Value.Alike.refl _).display_eq rfl⟩
  | string x => exact ⟨rfl, fun t' ↦ (Value.Alike.refl _).display_eq rfl⟩

/-! ## Stores whose objects are kept -/

namespace Store.Kept

variable {s t : Store}

theorem isSome_property? (h : s.Kept t) {o : ObjectId} {key : String}
    (hkey : (s.property? o key).isSome) : (t.property? o key).isSome := by
  have ho : o < s.objects.size := by
    by_contra hge
    rw [property?, object?, Array.getElem?_eq_none (Nat.le_of_not_lt hge)] at hkey
    cases hkey
  have hpeek := congrArg Option.isSome (h.peek_eq ho key)
  rwa [peek, peek, Option.isSome_map, Option.isSome_map, hkey] at hpeek

/-- A write at a path goes where it went. -/
theorem destination_eq (h : s.Kept t) (hs : s.Closed) {root : Value}
    (hroot : root.Within s.objects.size) {path : String} {place : ObjectId × String}
    (hplace : s.destination path root = .ok place) : t.destination path root = .ok place := by
  rw [destination] at hplace ⊢
  cases hsegments : Path.segments path with
  | error e =>
    rw [hsegments] at hplace
    cases hplace
  | ok segments =>
    rw [hsegments] at hplace
    have hsame : t.resolveFrom path segments.dropLast root
        = s.resolveFrom path segments.dropLast root :=
      resolveFrom_congr path fun r hr ↦ h.peek_eq (hs.readsFrom_lt hroot hr) r.2
    cases hobject : s.resolveFrom path segments.dropLast root with
    | error e => simp [hobject] at hplace
    | ok v =>
      cases v with
      | object o => simpa [hsame, hobject] using hplace
      | _ => simp [hobject] at hplace

end Store.Kept

/-! ## Scalars to show -/

/-- The expressions of the watchers have scalars for values. -/
def World.Scalars (w : World σ) (scope : List SubscriberId) : Prop :=
  ∀ id ∈ scope, ∀ x ∈ w.scene.watcher? id,
    ∃ v, (Store.getValue x.expr x.root w.scene.store).1 = .ok v ∧ v.isScalar = true

instance (w : World σ) (scope : List SubscriberId) : Decidable (w.Scalars scope) :=
  decidable_of_iff (∀ id ∈ scope, ∀ x ∈ w.scene.watcher? id,
      (Store.getValue x.expr x.root w.scene.store).1.toOption.any Value.isScalar = true) <|
    forall₂_congr fun _ _ ↦ forall₂_congr fun _ _ ↦ Store.any_isScalar_iff

/-! ## Foreign listeners -/

/-- The listeners on a node for an event, when one of all listeners is singled out. -/
theorem Scene.handlersFor_of_append {s : Scene σ} {before after : List Listener} {l : Listener}
    (h : s.listeners = before ++ l :: after) :
    ∃ is js, s.handlersFor l.node l.event = is ++ l.handler :: js ∧
      ∀ i ∈ is ++ js, ∃ l' ∈ before ++ after, l'.node = l.node ∧ l'.event = l.event ∧
        l'.handler = i := by
  refine ⟨_, _, by
    rw [handlersFor, h, List.filter_append, List.filter_cons_of_pos (by simp), List.map_append,
      List.map_cons], fun i hi ↦ ?_⟩
  rw [← List.map_append, ← List.filter_append, List.mem_map] at hi
  obtain ⟨l', hl', rfl⟩ := hi
  obtain ⟨hmem, hsame⟩ := List.mem_filter.1 hl'
  simp only [Bool.and_eq_true, beq_iff_eq] at hsame
  exact ⟨l', hmem, hsame.1, hsame.2, rfl⟩

namespace Attended

variable {job : CompileJob σ} {foreign : Action σ → Prop} {edits : Document → Document → Prop}
  {d : Document} {es : List Errand} {roster : List Post} {w w' : World σ} {depth : Nat}

/-- Bonds are settled if their watchers have scalars to show. -/
theorem settled (h : Attended job foreign edits d es roster w)
    (hscalars : w.Scalars (roster.map Post.id)) {err : Errand} (herr : err ∈ es) {b : Bond}
    (hb : err.bond? = some b) :
    b.Settled w.scene.store job.state := by
  intro expr hexpr
  obtain ⟨q, hq, -, rfl⟩ := h.posts err herr b hb expr hexpr
  obtain ⟨u, hu⟩ := (h.staffed.held q hq).watcher
  obtain ⟨v, hv, hscalar⟩ := hscalars q.id (List.mem_map_of_mem hq) _ hu
  rw [Store.getValue_fst, Store.resolve_trim] at hv
  exact ⟨v, hv, hscalar⟩

/-- **Foreign listeners spare a template.** -/
theorem callAll (h : Attended job foreign edits d es roster w)
    (hby : Bystanding foreign edits (roster.map Post.id)) {event : Event} {is : List Nat}
    (hforeign : ∀ i ∈ is, ∃ handler, w.code.handlers[i]? = some handler ∧ ∀ e, foreign (handler e))
    {r : Except BindError Unit} (hrun : Dispatch.callAll (run depth) event is w = some (r, w')) :
    Spared foreign edits (roster.map Post.id) w w' ∧
      Attended job foreign edits d es roster w' := by
  induction is generalizing w r with
  | nil =>
    cases hrun
    exact ⟨.refl _, h⟩
  | cons i is ih =>
    obtain ⟨first, w₁, others, hfirst, hrest, -⟩ := Dispatch.callAll_cons_eq_some.1 hrun
    obtain ⟨handler, hcode, hhandler⟩ := hforeign i (by simp)
    rw [Dispatch.callOne_of_code hcode] at hfirst
    obtain ⟨hspared, h₁⟩ := h.call hby (hhandler event) hfirst
    obtain ⟨hspared', h'⟩ := ih h₁ (fun j hj ↦ by
      obtain ⟨other, hother, hall⟩ := hforeign j (by simp [hj])
      exact ⟨other, hspared.listeners.handlers j other hother, hall⟩) hrest
    exact ⟨hspared.trans hspared', h'⟩

/-- **An input event writes back once**: other listeners are called before and after, and these are
foreign. -/
theorem fires (h : Attended job foreign edits d es roster w)
    (hby : Bystanding foreign edits (roster.map Post.id)) {backs : List (NodeId × String)}
    (hwired : Wired job foreign backs w) (hbacks : (backs.map Prod.fst).Nodup) {n : NodeId}
    {path : String} (hback : (n, path) ∈ backs) {v : Value} {r : Except BindError Unit}
    (hrun : Dispatch.fire (run depth) n inputEvent v w = some (r, w')) :
    ∃ w₁ w₂ depth' r', Spared foreign edits (roster.map Post.id) w w₁ ∧
      Attended job foreign edits d es roster w₁ ∧
      Notification.setPath (run depth') path job.state
        (w₁.scene.controlValue ⟨n, inputEvent, v⟩) w₁ = some (r', w₂) ∧
      (w₁.ListenersKept foreign w₂ → Attended job foreign edits d es roster w₂ →
        Spared foreign edits (roster.map Post.id) w₂ w' ∧
          Attended job foreign edits d es roster w') := by
  obtain ⟨before, l, after, hlisteners, hnode, hevent, hcode, hothers⟩ :=
    hwired.returned hbacks (n, path) hback
  obtain ⟨is, js, his, hmem⟩ := Scene.handlersFor_of_append hlisteners
  rw [hnode, hevent] at his hmem
  replace hrun : Dispatch.callAll (run depth) ⟨n, inputEvent, v⟩
    (w.scene.handlersFor n inputEvent) w = some (r, w') := hrun
  rw [his] at hrun
  have hforeign : ∀ i ∈ is ++ js, ∃ handler, w.code.handlers[i]? = some handler ∧
      ∀ e, foreign (handler e) := by
    intro i hi
    obtain ⟨l', hl', hnode', hevent', rfl⟩ := hmem i hi
    have hin : l' ∈ w.scene.listeners := by
      rw [hlisteners, List.mem_append, List.mem_cons]
      exact (List.mem_append.1 hl').imp_right .inr
    have hsome := Array.getElem?_eq_getElem (hwired.valid l' hin)
    exact ⟨_, hsome, hothers l' hl' hnode' hevent' _ hsome⟩
  rw [List.forall_mem_append] at hforeign
  obtain ⟨r₁, w₁, r₂, hbefore, hrest⟩ := Dispatch.callAll_append hrun
  obtain ⟨first, w₂, others, hwrite, hafter, -⟩ := Dispatch.callAll_cons_eq_some.1 hrest
  obtain ⟨hspared, h₁⟩ := h.callAll hby hforeign.1 hbefore
  rw [Dispatch.callOne_of_code (hspared.listeners.handlers _ _ hcode)] at hwrite
  obtain ⟨depth', r', hset⟩ := run_writing hwrite
  refine ⟨w₁, w₂, depth', r', hspared, h₁, hset, fun hkept h₂ ↦
    h₂.callAll hby (fun j hj ↦ ?_) hafter⟩
  obtain ⟨handler, hcode', hhandler⟩ := hforeign.2 j hj
  exact ⟨handler, hkept.handlers j _ (hspared.listeners.handlers j _ hcode'), hhandler⟩

end Attended

/-! ## Entering a value -/

namespace Depicted

variable {job : CompileJob σ} {foreign : Action σ → Prop} {d : Document} {es : List Errand}
  {roster : List Post} {shown : Bond → String} {w : World σ}

/-- **What is entered into a control is shown there**, and nothing else happens. -/
theorem setControl (h : Depicted job foreign d es roster shown w) (hseparate : Separate job d es)
    {n : NodeId} {expr : String} (herr : .bind n (.live .control expr) ∈ es) (text : String) :
    Depicted job foreign d es roster (Function.update shown (.value n .control expr) text)
        (w.withDocument (w.scene.document.setControl n text)) ∧
      ∃ x, (w.scene.document.setControl n text).element? n = some x ∧ x.control = some text := by
  obtain ⟨⟨i, hplace⟩, happly⟩ := hseparate.apply h.attended.laid herr
    (b := .value n .control expr) rfl shown text
  rw [← h.document] at hplace happly
  constructor
  · exact {
      attended := { h.attended with
        order := by
          obtain ⟨marks, horder⟩ := h.attended.order
          exact ⟨marks, horder.of_store_eq rfl rfl⟩
        staffed := ⟨h.attended.staffed.nodup, fun q hq ↦
          ⟨(h.attended.staffed.held q hq).live, (h.attended.staffed.held q hq).reaction,
            (h.attended.staffed.held q hq).watcher⟩, h.attended.staffed.others⟩
        tended := h.attended.tended.apply h.attended.laid herr fun _ ↦ text }
      current := h.current
      wired := ⟨h.wired.valid, h.wired.returned, h.wired.others⟩
      document := happly }
  · cases hplace with
    | @control hslot hi x hx =>
      rw [hi] at hx
      replace hx : w.scene.document.content? n = some (.element x) := hx
      refine ⟨{ x with control := some text }, ?_, rfl⟩
      rw [Document.setControl, Document.modifyElement, Document.element?_eq_some_iff.2 hx]
      refine Document.element?_eq_some_iff.2 ?_
      rw [Document.content?_setContent, if_pos rfl, hx, Option.map_some]
    | text hslot => cases hslot
    | inside hslot => cases hslot

end Depicted

namespace Mirrored

variable {job : CompileJob σ} {foreign : Action σ → Prop} {d : Document} {es : List Errand}
  {roster : List Post} {w w' : World σ} {depth : Nat}

/-- **A value that is entered into a control tied to a path** leaves a template a mirror of the
state, if its watchers have scalars to show afterwards. -/
theorem enters (h : Mirrored job foreign d es roster w)
    (hby : Bystanding foreign NoEdits (roster.map Post.id)) (hseparate : Separate job d es)
    {n : NodeId} {expr : String} (herr : .bind n (.live .control expr) ∈ es)
    (hback : .bind n (.writeBack (Text.trim expr)) ∈ es) {v : Value} (hv : v.isScalar = true)
    {o : ObjectId} {key : String} (hkey : (w.scene.store.property? o key).isSome)
    (hplace : w.scene.store.destination expr job.state = .ok (o, key))
    {r : Except BindError Unit} (hrun : run depth (Program.input n v).action w = some (r, w'))
    (hscalars : w'.Scalars (roster.map Post.id)) : Mirrored job foreign d es roster w' := by
  obtain ⟨depth, hfire⟩ := run_input hrun
  obtain ⟨h₁, x, hx, hcontrol⟩ := h.depicted.setControl hseparate herr (w.scene.store.display v)
  obtain ⟨w₁, w₂, depth', r', hspared, h₁', hset, hafter⟩ := h₁.attended.fires hby h₁.wired
    hseparate.backs (List.mem_filterMap.2 ⟨_, hback, rfl⟩) hfire
  replace h₁ := h₁.spared h₁'.order hspared
  have hdocument := NoEdits.eq_of_reflTransGen hspared.document
  -- the write of what the control shows
  obtain ⟨hscalar, hdisplay⟩ : (w₁.scene.controlValue ⟨n, inputEvent, v⟩).isScalar = true ∧ _ :=
    Scene.controlValue_shown hv ((congrArg (·.element? n) hdocument).trans hx) hcontrol
  generalize w₁.scene.controlValue ⟨n, inputEvent, v⟩ = u at hset hscalar hdisplay
  have hclosed := h.depicted.attended.closed
  have hrooted := h.depicted.attended.rooted
  have hplace₁ : w₁.scene.store.destination expr job.state = .ok (o, key) :=
    hspared.kept.destination_eq hclosed hrooted hplace
  have hkey₁ := hspared.kept.isSome_property? hkey
  have hw : w₁.Writes depth' o key u r' w₂ :=
    .setPath _ _ (Value.within_of_isScalar hscalar _) hkey₁
      (by rw [Store.target_of_tracking_nil h₁'.idle, Store.destination_trim, hplace₁]) hset
  obtain ⟨-, -, log, hup, h₂⟩ := h₁'.writes hby hw
  obtain ⟨hspared', h'⟩ := hafter ⟨hup.listeners.handlers, hup.listeners.listeners⟩ h₂
  have hsettled₂ : ∀ err ∈ es, ∀ b, err.bond? = some b → b.Settled w₂.scene.store job.state :=
    fun err herr b hb ↦ (hspared'.kept.settled_iff h₂.closed h₂.rooted).1
      (h'.settled hscalars herr hb)
  obtain ⟨hclosed₁, hkept, -, shown', hdepicted, hshown⟩ := h₁.writes hby hseparate hw hsettled₂
  refine (hdepicted.mirrored hsettled₂ fun err herr' b hb ↦ ?_).spared h'.order hspared'
  rcases hshown err herr' b hb with hright | ⟨hsame, hquiet⟩
  · exact hright
  rw [hsame]
  by_cases hthis : b = .value n .control expr
  · -- nobody was told, and the control shows the value already
    subst hthis
    rw [Function.update_self]
    obtain ⟨y, hy, -⟩ := hsettled₂ err herr' _ hb expr (by simp [Bond.exprs])
    have halike : u.Alike y := Store.resolve_write_alike hplace₁ hkey₁ hscalar
      ((hkept.resolve_eq hclosed₁ (h₁'.rooted.mono (Nat.le_of_eq
        (Store.size_write _ _ _ _).symm)) expr).symm.trans hy)
    refine (Bond.shown_of_text ?_).symm
    rw [Bond.text, hy]
    exact congrArg Except.ok ((halike.display_eq hscalar).symm.trans (hdisplay w₁.scene.store))
  · rw [Function.update_of_ne hthis]
    exact (h.depicted.shown_eq hdepicted herr' hb (h.settled err herr' b hb)
      (hsettled₂ err herr' b hb) fun q hq hqb ↦ (hquiet q hq hqb).trans
        (hspared.watchers _ (List.mem_map_of_mem hq))).symm

end Mirrored

/-! ## Runs -/

/-- What is done with a compiled template: a write, or a scalar that is entered into a control tied
to a path, both of which go to properties that are there; or new objects are made, which later
writes may put into the state.  `d` is the document before the compilation. -/
inductive CompileJob.Uses (job : CompileJob σ) (d : Document) (w w' : World σ) : Prop
  | write {depth : Nat} {o : ObjectId} {key : String} {v : Value} {r : Except StateError Unit}
      (h : w.Writes depth o key v r w')
  | input {depth : Nat} {n : NodeId} {expr : String} {v : Value} {r : Except BindError Unit}
      {o : ObjectId} {key : String} (hn : d.ValueBound job.dialect job.root n expr)
      (hv : v.isScalar = true)
      (hpath : (Store.target expr job.state w.scene.store).1 = .ok (o, key))
      (hkey : (w.scene.store.property? o key).isSome)
      (hrun : run depth (Program.input n v).action w = some (r, w'))
  | observe (data : Json) (h : w' = w.withStore (Store.observe data w.scene.store).2)

section Run

variable {job : CompileJob σ} {foreign : Action σ → Prop} {d : Document} {es : List Errand}
  {way : List NodeId} {roster : List Post} {w w' : World σ} {limit : Nat} {s : Store}

variable (h : Finished job foreign limit d s way roster w) (hd : d.IsForest)
  (ht : job.table = .standard)

include h hd ht

/-- The errands of the standard directives do not show one over the other. -/
theorem Finished.separate (hsole : d.Sole job.dialect) : Separate job d (job.errands d way) where
  forest := hd
  parts := h.nodup_parts hd ht hsole
  bonds _ herr hb := Finished.part?_isSome ht herr hb
  backs := h.nodup_backs hd ht hsole
  free _ herr _ hn := h.free hd (ht ▸ DirectiveTable.standard_orderly) herr hn

/-- **A compilation leaves a mirror of the state behind** if its watchers have scalars to show. -/
theorem Finished.mirrored (hroot : job.state.Within s.objects.size)
    (hscalars : w.Scalars (roster.map Post.id)) :
    Mirrored job foreign d (job.errands d way) roster w := by
  have hattended : Attended job foreign NoEdits (d.stage job.root).2 (job.errands d way) roster w :=
    h.attended hd (ht ▸ DirectiveTable.standard_orderly) hroot fun _ _ hedit ↦ hedit.elim
  refine ⟨⟨hattended, h.manned.current, h.wired, ?_⟩, fun err herr b hb ↦
    hattended.settled hscalars herr hb⟩
  have hpainted : painted (Bond.shown s job.state) (d.stage job.root).2 (job.errands d way) =
      painted (Bond.shown w.scene.store job.state) (d.stage job.root).2 (job.errands d way) :=
    painted_congr (fun err herr b hb ↦ by
      obtain ⟨text, htext⟩ := h.texts err herr b hb
      rw [Bond.shown_of_text htext,
        Bond.shown_of_text ((Bond.text_of_contents h.contents _ b).trans htext)]) _
  rw [h.document, CompileJob.depiction, hpainted]

/-- **A template stays a mirror of the state** whatever is done with it. -/
theorem Mirrored.uses {w₁ w₂ : World σ}
    (hmirrored : Mirrored job foreign d (job.errands d way) roster w₁)
    (hby : Bystanding foreign NoEdits (roster.map Post.id)) (hsole : d.Sole job.dialect)
    (huse : job.Uses d w₁ w₂) (hscalars : w₂.Scalars (roster.map Post.id)) :
    Mirrored job foreign d (job.errands d way) roster w₂ := by
  have hseparate := h.separate hd ht hsole
  cases huse with
  | write hw =>
    obtain ⟨-, -, -, -, h'⟩ := hmirrored.depicted.attended.writes hby hw
    exact hmirrored.writes hby hseparate hw fun err herr b hb ↦ h'.settled hscalars herr hb
  | input hn hv hpath hkey hrun =>
    rw [Store.target_of_tracking_nil hmirrored.depicted.attended.idle] at hpath
    obtain ⟨herr, hback⟩ := h.mem_errands_of_valueBound hd ht hn
    exact hmirrored.enters hby hseparate herr hback hv hkey hpath hrun hscalars
  | observe data hw =>
    subst hw
    exact hmirrored.spared (hmirrored.depicted.attended.observe data).order (.observed w₁ data)

theorem Mirrored.run {w₁ w₂ : World σ}
    (hmirrored : Mirrored job foreign d (job.errands d way) roster w₁)
    (hby : Bystanding foreign NoEdits (roster.map Post.id)) (hsole : d.Sole job.dialect)
    (hrun : ReflTransGen (fun w₁ w₂ ↦ job.Uses d w₁ w₂ ∧ w₂.Scalars (roster.map Post.id)) w₁ w₂) :
    Mirrored job foreign d (job.errands d way) roster w₂ := by
  induction hrun with
  | refl => exact hmirrored
  | tail _ hstep ih => exact ih.uses h hd ht hby hsole hstep.1 hstep.2

/-- **What mirrors a state is what compiling anew gives.** -/
theorem Mirrored.exists_compile (hmirrored : Mirrored job foreign d (job.errands d way) roster w')
    (call : Call σ) (methods : String → Event → Action σ) {fresh : World σ}
    (hfresh : fresh.Ready fun _ ↦ True) (hdocument : fresh.scene.document = d)
    (hcontents : fresh.scene.store.contents = w'.scene.store.contents) :
    ∃ compiled fresh', Compilation.compile call limit job methods fresh
        = some (.ok compiled, fresh') ∧ fresh'.scene.document = w'.scene.document := by
  have hsize := congrArg Array.size hcontents
  rw [Store.size_contents, Store.size_contents] at hsize
  have hroot : job.state.Within fresh.scene.store.objects.size := by
    rw [hsize]
    exact hmirrored.depicted.attended.rooted
  have horderly : job.table.Orderly := ht ▸ DirectiveTable.standard_orderly
  subst hdocument
  obtain ⟨compiled, fresh', hcompile⟩ : ∃ compiled fresh',
      Compilation.compile call limit job methods fresh = some (.ok compiled, fresh') :=
    DataBinding.exists_compile horderly (fun _ _ ↦ trivial) hfresh hroot hd h.route h.accepted
    fun err herr b hb ↦ by
      rw [Bond.text_of_contents hcontents]
      exact (hmirrored.settled err herr b hb).exists_text
  obtain ⟨way', roster', hfinished, -⟩ := compile_finished horderly
    (fun _ _ ↦ trivial) hfresh hroot hd hcompile
  obtain rfl : way = way' := Option.some.inj (h.route.symm.trans hfinished.route)
  refine ⟨compiled, fresh', hcompile, ?_⟩
  rw [hfinished.document, hmirrored.depicted.document, CompileJob.depiction]
  refine congrArg (fun e : Document ↦ e.restore _ job.root)
    (painted_congr (fun err herr b hb ↦ ?_) _)
  rw [Bond.shown, Bond.shown, Bond.text_of_contents hcontents]

end Run

/-- A control and a paragraph for one number. -/
def echo : Document :=
  (Document.parse "<input bind-value=\"p.n\"><p>{{p.n}}</p>").toOption.getD .empty

/-- The number in an object in an object. -/
def echoStore (n : Int) : Store :=
  (Store.observe (.object [("p", .object [("n", .int n)])]) .empty).2

/-- That store when the inner object has been replaced by one that holds three. -/
def replacedEchoStore : Store :=
  ((Store.observe (.object [("n", .int 3)]) (echoStore 2)).2.write 1 "p" (.object 2)).2

/-- The document and a store before anything is compiled. -/
def echoWorld (s : Store) : World Nat where
  scene := { (World.start echo 0).scene with store := s }
  code := ⟨#[], #[], #[]⟩

/-- Compiles the whole document against the outer object. -/
def echoJob : CompileJob Nat := ⟨0, .object 1, .standard, .standard, fun _ n ↦ n + 1⟩

/-- The template calls no methods. -/
def echoMethods : String → Event → Action Nat := fun _ _ ↦ .done (.ok ())

theorem echo_sole : echo.Sole echoJob.dialect := by decide +kernel

theorem echoStore_closed (n : Int) : (echoStore n).Closed := by
  refine (Store.observe_observed _ ?_).1.closed
  intro o key v h
  simp [Store.peek, Store.property?, Store.object?, Store.empty] at h

theorem replacedEchoStore_closed : replacedEchoStore.Closed :=
  (Store.observe_observed _ (echoStore_closed 2)).1.closed.write (by decide +kernel)
    (by decide +kernel)

theorem echoWorld_ready (foreign : Action Nat → Prop) {s : Store} (hs : s.Closed)
    (hidle : s.tracking = []) (hhandles : s.handles = #[]) : (echoWorld s).Ready foreign :=
  World.Unwatched.ready ⟨hidle, hs, rfl, hhandles⟩ rfl rfl

end DataBinding

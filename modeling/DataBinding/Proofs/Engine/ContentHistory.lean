import DataBinding.Proofs.Engine.ShownValues

/-!
# What has happened, and what the objects hold

The objects change when data is turned into state and when a property is written, and the trace of a
run shows when code does the one or the other (`Action.deed?`): the deed is done at once, before
other code is called on account of it.  Everything else that plain code does, and all that the
engine does by itself, leaves the contents of the objects alone.

So a relation between the past and the contents that goes on over deeds (`Annals`) **holds at every
moment of a run and at its end** (`recounts_run`), where the past of a moment is the trace before
it, with what has happened within fan-outs that are still under way.
-/

set_option autoImplicit false

namespace DataBinding

variable {σ : Type}

/-- What the next step of the code does to the state by itself. -/
def Action.deed? : Action σ → Option Deed
  | .observe data _ => some (.observe data)
  | .set o key v _ => some (.set o key v)
  | .setPath path root v _ => some (.setPath path root v)
  | _ => none

/-- The state when the next step of the code has done its deed. -/
def Action.leaves (s : Store) (a : Action σ) : Store := (a.deed?.map (Deed.state s)).getD s

/-- The code is about state, subscribers, events and the document. -/
def Moment.plain : Moment σ → Bool
  | .step _ a _ => a.isPlain
  | .called _ => true

theorem Moment.plain_of_fair {moment : Moment σ} (h : moment.fair = true) :
    moment.plain = true := by
  cases moment with
  | step held a s => exact (Moment.fair_step.1 h).1
  | called id => rfl

/-- If code takes a step, the store has some property. -/
def Moment.Sees (P : Store → Prop) : Moment σ → Prop
  | .step _ _ s => P s.store
  | .called _ => True

/-- A relation between the past and the store goes on from moment to moment. -/
structure Annals (I : List (Moment σ) → Store → Prop) : Prop where
  of_contents {past : List (Moment σ)} {s t : Store} (h : t.contents = s.contents) (hs : I past s) :
    I past t
  called {past : List (Moment σ)} {s : Store} (id : SubscriberId) (hs : I past s) :
    I (past ++ [.called id]) s
  step {past : List (Moment σ)} (held : List SubscriberId) (a : Action σ) {s : Scene σ}
    (hs : I past s.store) : I (past ++ [.step held a s]) (a.leaves s.store)

/-- At each moment of a trace the store is related to the past. -/
def Recounted (I : List (Moment σ) → Store → Prop) :
    List (Moment σ) → List (Moment σ) → Prop
  | _, [] => True
  | past, moment :: rest => moment.Sees (I past) ∧ Recounted I (past ++ [moment]) rest

theorem recounted_append {I : List (Moment σ) → Store → Prop} {past t u : List (Moment σ)} :
    Recounted I past (t ++ u) ↔ Recounted I past t ∧ Recounted I (past ++ t) u := by
  induction t generalizing past with
  | nil => simp [Recounted]
  | cons moment t ih =>
    rw [List.cons_append, Recounted, Recounted, ih, and_assoc, List.append_assoc,
      List.singleton_append]

theorem Recounted.sees {I : List (Moment σ) → Store → Prop} {past before after : List (Moment σ)}
    {moment : Moment σ} (h : Recounted I past (before ++ moment :: after)) :
    moment.Sees (I (past ++ before)) :=
  (recounted_append.1 h).2.1

/-- If a computation of plain code begins with `P`, the store is related to the past at each moment
and at the end. -/
structure Run.Recounts {α : Type} (I : List (Moment σ) → Store → Prop)
    (P : List (Moment σ) → World σ → Prop) (m : Run σ α) (t : World σ → List (Moment σ)) :
    Prop where
  recounts : ∀ past w, P past w → (∀ moment ∈ t w, moment.plain = true) →
    Recounted I past (t w) ∧ ∀ a w', m w = some (a, w') → I (past ++ t w) w'.scene.store

/-- The store is related to the past. -/
abbrev World.Tells (I : List (Moment σ) → Store → Prop) (past : List (Moment σ)) (w : World σ) :
    Prop :=
  I past w.scene.store

namespace Run.Recounts

open Trace

variable {α β : Type} {I : List (Moment σ) → Store → Prop} {P P' : List (Moment σ) → World σ → Prop}
  {m : Run σ α} {t : World σ → List (Moment σ)}

/-- A computation in which no code is run. -/
theorem quiet (h : ∀ past w a w', m w = some (a, w') → P past w → I past w'.scene.store) :
    Recounts I P m nothing :=
  ⟨fun past w hw _ ↦ ⟨trivial, fun a w' hrun ↦ by
    rw [nothing, List.append_nil]
    exact h past w a w' hrun hw⟩⟩

/-- A computation that leaves alone what the objects hold. -/
theorem silent (hI : Annals I)
    (h : ∀ w a w', m w = some (a, w') → w'.scene.store.contents = w.scene.store.contents) :
    Recounts I (World.Tells I) m nothing :=
  quiet fun _ w a w' hrun hw ↦ hI.of_contents (h w a w' hrun) hw

protected theorem pure (a : α) : Recounts I (World.Tells I) (pure a : Run σ α) nothing :=
  quiet fun _ _ _ _ hrun hw ↦ by
    cases hrun
    exact hw

theorem bind {f : α → Run σ β} {u : α → World σ → List (Moment σ)} (hm : Recounts I P m t)
    (hf : ∀ a, Recounts I (World.Tells I) (f a) (u a)) :
    Recounts I P (m >>= f) fun w ↦ t w ++ following m u w := by
  refine ⟨fun past w hw hplain ↦ ?_⟩
  obtain ⟨hplain, hplain'⟩ := List.forall_mem_append.1 hplain
  obtain ⟨htold, hend⟩ := hm.recounts past w hw hplain
  rw [recounted_append]
  cases hrun : m w with
  | none =>
    rw [following, hrun]
    refine ⟨⟨htold, trivial⟩, fun b w' hrun' ↦ ?_⟩
    obtain ⟨a, w₁, hrun₁, -⟩ := Run.bind_eq_some_iff.1 hrun'
    cases hrun.symm.trans hrun₁
  | some x =>
    rw [following, hrun] at hplain'
    obtain ⟨htold', hend'⟩ := (hf x.1).recounts _ x.2 (hend x.1 x.2 hrun) hplain'
    rw [following, hrun]
    refine ⟨⟨htold, htold'⟩, fun b w' hrun' ↦ ?_⟩
    obtain ⟨a, w₁, hrun₁, hrun₂⟩ := Run.bind_eq_some_iff.1 hrun'
    cases hrun.symm.trans hrun₁
    rw [← List.append_assoc]
    exact hend' b w' hrun₂

/-- No code is run at first. -/
theorem quiet_bind {f : α → Run σ β} {u : α → World σ → List (Moment σ)}
    (hm : Recounts I P m nothing) (hf : ∀ a, Recounts I (World.Tells I) (f a) (u a)) :
    Recounts I P (m >>= f) (following m u) := hm.bind hf

/-- No code is run afterwards, and the store is left as it is. -/
theorem bind_quiet {f : α → Run σ β} (hm : Recounts I P m t)
    (hf : ∀ a w b w', f a w = some (b, w') → w'.scene.store = w.scene.store) :
    Recounts I P (m >>= f) t := by
  refine ⟨fun past w hw hplain ↦ ?_⟩
  obtain ⟨htold, hend⟩ := hm.recounts past w hw hplain
  refine ⟨htold, fun b w' hrun ↦ ?_⟩
  obtain ⟨a, w₁, hrun₁, hrun₂⟩ := Run.bind_eq_some_iff.1 hrun
  rw [hf a w₁ b w' hrun₂]
  exact hend a w₁ hrun₁

theorem imp (h : Recounts I P m t) (hP : ∀ past w, P' past w → P past w) : Recounts I P' m t :=
  ⟨fun past w hw ↦ h.recounts past w (hP past w hw)⟩

section Steps

variable {a : Action σ} {held : List SubscriberId}

/-- A step of code: its deed is done first. -/
theorem step (hI : Annals I) (h : Recounts I
      (fun past w ↦ a.isPlain = true ∧ I past (a.leaves w.scene.store)) m t) :
    Recounts I (World.Tells I) m fun w ↦ .step held a w.scene :: t w := by
  refine ⟨fun past w hw hplain ↦ ?_⟩
  obtain ⟨hfirst, hrest⟩ := List.forall_mem_cons.1 hplain
  obtain ⟨htold, hend⟩ := h.recounts _ w ⟨hfirst, hI.step held a hw⟩ hrest
  refine ⟨⟨hw, htold⟩, fun b w' hrun ↦ ?_⟩
  have htell := hend b w' hrun
  rwa [List.append_assoc, List.singleton_append] at htell

/-- A step of code that is no deed. -/
theorem idle (hI : Annals I) (ha : a.deed? = none) (h : Recounts I (World.Tells I) m t) :
    Recounts I (World.Tells I) m fun w ↦ .step held a w.scene :: t w := by
  refine step hI (h.imp fun past w hw ↦ ?_)
  have hleaves := hw.2
  rwa [Action.leaves, ha] at hleaves

/-- A step that is no deed and runs no other code, and what code does after it. -/
theorem idle_bind (hI : Annals I) (ha : a.deed? = none) {f : α → Run σ (Except BindError Unit)}
    {u : α → World σ → List (Moment σ)}
    (hm : ∀ w x w', m w = some (x, w') → w'.scene.store.contents = w.scene.store.contents)
    (hf : ∀ x, Recounts I (World.Tells I) (f x) (u x)) :
    Recounts I (World.Tells I) (m >>= f) fun w ↦ .step held a w.scene :: following m u w :=
  idle hI ha ((silent hI hm).quiet_bind hf)

end Steps

end Run.Recounts

/-! ## What leaves the objects alone -/

section Silent

/-- Something that is done with the store. -/
theorem contents_of_onStore {α : Type} {f : Store → α × Store}
    (hf : ∀ s, (f s).2.contents = s.contents) (w : World σ) (x : α) (w' : World σ)
    (hrun : Run.onStore f w = some (x, w')) :
    w'.scene.store.contents = w.scene.store.contents := by
  cases hrun
  exact hf _

end Silent

/-! ## The engine -/

namespace Notification

open Run Trace

variable {call : Call σ} {tell : Tell σ} {I : List (Moment σ) → Store → Prop}
  {held : List SubscriberId} (hI : Annals I)
  (hcall : ∀ held a, Recounts I (World.Tells I) (call a) (tell held a))

include hI hcall

theorem recounts_react (id : SubscriberId) (v : Value) :
    Recounts I (World.Tells I) (react call id v) (ofReact tell held id v) := by
  refine ⟨fun past w hw hplain ↦ ?_⟩
  rw [ofReact] at hplain ⊢
  cases hreaction : w.code.reactions[id]? with
  | none =>
    refine ⟨trivial, fun r w' hrun ↦ ?_⟩
    rcases react_eq_some hrun with ⟨-, -, rfl⟩ | ⟨reaction, result, hsome, -⟩
    · rw [List.append_nil]
      exact hw
    · cases hreaction.symm.trans hsome
  | some reaction =>
    rw [hreaction] at hplain
    obtain ⟨htold, hend⟩ := (hcall held (reaction v)).recounts _ w (hI.called id hw)
      (List.forall_mem_cons.1 hplain).2
    refine ⟨⟨trivial, htold⟩, fun r w' hrun ↦ ?_⟩
    rcases react_eq_some hrun with ⟨hnone, -, -⟩ | ⟨reaction', result, hsome, hcalled, -⟩
    · cases hreaction.symm.trans hnone
    · cases hreaction.symm.trans hsome
      have htell := hend result w' hcalled
      rwa [List.append_assoc, List.singleton_append] at htell

theorem recounts_update (id : SubscriberId) :
    Recounts I (World.Tells I) (update call id) (ofUpdate tell held id) := by
  refine ⟨fun past w hw ↦ ?_⟩
  rw [update, Run.scene_bind, ofUpdate]
  cases w.scene.subscribers[id]? with
  | none => exact (Recounts.pure _).recounts past w hw
  | some subscriber =>
    cases subscriber with
    | probe => exact (recounts_react hI hcall id .null).recounts past w hw
    | watcher x =>
      have hevaluate := Recounts.silent hI (contents_of_onStore (σ := σ)
        (f := Store.evaluate id x.expr x.root) fun s ↦ Store.contents_evaluate ..)
      refine (hevaluate.quiet_bind fun r ↦ ?_).recounts past w hw
      cases r with
      | error e => exact .pure _
      | ok v =>
        show Recounts I _ (if x.observed.identical v then _ else _)
          (if x.observed.identical v then nothing else ofReact tell held id v)
        split
        · exact .pure _
        · refine .bind_quiet (recounts_react hI hcall id v) fun r w a w' hrun ↦ ?_
          cases r <;> cases hrun <;> rfl

/-- **A fan-out.** -/
theorem recounts_updateAll (ids : List SubscriberId) :
    Recounts I (World.Tells I) (updateAll call ids) (ofUpdateAll call tell held ids) := by
  induction ids with
  | nil => exact .pure _
  | cons id rest ih =>
    have hreleased := Recounts.silent hI (contents_of_onStore (σ := σ)
      (f := fun s ↦ ((), s.release id)) fun s ↦ Store.contents_release s id)
    exact (recounts_update hI hcall id).bind fun _ ↦ hreleased.quiet_bind fun _ ↦
      .bind_quiet ih fun _ _ _ _ hrun ↦ by
        cases hrun
        rfl

theorem recounts_notify (ids : List SubscriberId) :
    Recounts I (World.Tells I) (notify call ids) (ofNotify call tell held ids) := by
  refine (Recounts.silent hI (contents_of_onStore fun s ↦ ?_)).quiet_bind fun _ ↦
    recounts_updateAll hI hcall ids
  induction ids generalizing s with
  | nil => rfl
  | cons id ids ih => exact (ih _).trans (Store.contents_retain s id)

/-- **A write**, of which the past tells already. -/
theorem recounts_set (o : ObjectId) (key : String) (v : Value) :
    Recounts I (fun past w ↦ I past (w.scene.store.write o key v).2) (set call o key v)
      (ofSet call tell held o key v) := by
  refine (Recounts.quiet fun past w x w' hrun hw ↦ ?_).quiet_bind fun x ↦ ?_
  · cases hrun
    exact hw
  · cases x with
    | defined | unchanged => exact .pure _
    | replaced =>
      have haudience := Recounts.silent hI
        (contents_of_onStore (σ := σ) (f := audience o key) fun s ↦
        Store.contents_prune s o key)
      exact haudience.quiet_bind fun ids ↦ recounts_notify hI hcall ids

theorem recounts_setPath (path : String) (root v : Value) :
    Recounts I (fun past w ↦ I past (Deed.state w.scene.store (.setPath path root v)))
      (setPath call path root v) (ofSetPath call tell held path root v) := by
  have htarget : ∀ s, Store.target path root s =
      (s.destination path root, s.touch (s.approach path root)) := Store.target_eq path root
  refine ⟨fun past w hw ↦ ?_⟩
  have hcontents := Store.contents_touch w.scene.store (w.scene.store.approach path root)
  rw [setPath, Run.onStore_bind, ofSetPath, following]
  simp only [Run.onStore, htarget]
  rw [Deed.state] at hw
  cases hd : w.scene.store.destination path root with
  | error e =>
    rw [hd] at hw
    exact (Recounts.pure _).recounts past _ (hI.of_contents hcontents hw)
  | ok place =>
    rw [hd] at hw
    exact (recounts_set hI hcall place.1 place.2 v).recounts past _
      (hI.of_contents (Store.write_congr hcontents place.1 place.2 v).2 hw)

end Notification

/-! ## Code -/

section Code

open Run Trace

variable {call : Call σ} {tell : Tell σ} {I : List (Moment σ) → Store → Prop}
  {held : List SubscriberId} (hI : Annals I)
  (hcall : ∀ held a, Recounts I (World.Tells I) (call a) (tell held a))

include hI hcall

omit hI in
theorem Dispatch.recounts_fire (n : NodeId) (event : String) (v : Value) :
    Recounts I (World.Tells I) (fire call n event v) (ofFire call tell held n event v) := by
  have hall : ∀ e handlers, Recounts I (World.Tells I) (callAll call e handlers)
      (ofCallAll call tell held e handlers) := by
    intro e handlers
    induction handlers with
    | nil => exact .pure _
    | cons handler rest ih =>
      have hone : Recounts I (World.Tells I) (callOne call e handler)
          (ofCall tell held e handler) := by
        refine ⟨fun past w hw ↦ ?_⟩
        rw [callOne, Run.get_bind, ofCall]
        cases w.code.handlers[handler]? with
        | none => exact (Recounts.pure _).recounts past w hw
        | some code => exact (hcall held (code e)).recounts past w hw
      rw [callAll]
      exact hone.bind fun _ ↦ .bind_quiet ih fun _ _ _ _ hrun ↦ by
        cases hrun
        rfl
  exact ⟨fun past w hw ↦ (hall ⟨n, event, v⟩ (w.scene.handlersFor n event)).recounts past w hw⟩

theorem recounts_follow (limit : Nat) (a : Action σ) :
    Recounts I (World.Tells I) (follow call limit a) (ofAction call tell limit held a) := by
  induction a with
  | done r => exact .idle hI rfl (.pure _)
  | inspect next ih => exact .idle hI rfl ⟨fun past w hw ↦ (ih w.scene).recounts past w hw⟩
  | modify f next ih => exact .idle_bind hI rfl (fun _ _ _ hrun ↦ by cases hrun; rfl) fun _ ↦ ih
  | observe data next ih =>
    refine .step hI ((Recounts.quiet fun past w x w' hrun hw ↦ ?_).quiet_bind ih)
    cases hrun
    exact hw.2
  | get o key next ih =>
    exact .idle_bind hI rfl (contents_of_onStore fun s ↦ Store.contents_get s o key) ih
  | getPath path root next ih =>
    exact .idle_bind hI rfl (contents_of_onStore fun s ↦ by
      rw [Store.getValue_eq, Store.contents_touch]) ih
  | render template root next ih =>
    refine .idle_bind hI rfl (contents_of_onStore fun s ↦ ?_) ih
    obtain ⟨reads, heq⟩ := s.exists_render_eq template root
    rw [heq, Store.contents_touch]
  | set o key v next ih =>
    exact .step hI (((Notification.recounts_set hI hcall o key v).imp fun _ _ hw ↦ hw.2).bind ih)
  | setPath path root v next ih =>
    exact .step hI
      (((Notification.recounts_setPath hI hcall path root v).imp fun _ _ hw ↦ hw.2).bind ih)
  | watch expr root reaction next _ ih =>
    exact .idle_bind hI rfl (fun _ _ _ h ↦ (Notification.watch_frame h).1) ih
  | probe reaction next _ ih =>
    exact .idle_bind hI rfl (fun w _ _ hrun ↦ by
      cases hrun
      exact Store.contents_newSubscriber _) ih
  | retain id next ih =>
    exact .idle_bind hI rfl (contents_of_onStore fun s ↦ Store.contents_retain s id) fun _ ↦ ih
  | release id next ih =>
    exact .idle_bind hI rfl (contents_of_onStore fun s ↦ Store.contents_release s id) fun _ ↦ ih
  | track id next ih =>
    exact .idle_bind hI rfl (contents_of_onStore fun s ↦ Store.contents_track s id) fun _ ↦ ih
  | untrack next ih =>
    exact .idle_bind hI rfl (contents_of_onStore fun s ↦ Store.contents_untrack s) fun _ ↦ ih
  | notify ids next ih => exact .idle hI rfl ((Notification.recounts_notify hI hcall ids).bind ih)
  | edit e next ih => exact .idle_bind hI rfl (fun _ _ _ hrun ↦ by cases hrun; rfl) fun _ ↦ ih
  | listen n event handler next _ ih =>
    exact .idle_bind hI rfl (fun _ _ _ hrun ↦ by cases hrun; rfl) fun _ ↦ ih
  | unlisten root next ih =>
    exact .idle_bind hI rfl (fun _ _ _ hrun ↦ by cases hrun; rfl) fun _ ↦ ih
  | dispatch n event v next ih =>
    exact .idle hI rfl ((Dispatch.recounts_fire hcall n event v).bind ih)
  | compile | openViewModel | retainViewModel | releaseViewModel | invoke =>
    exact .step hI ⟨fun _ _ hw ↦ nomatch hw.1⟩

omit hcall

/-- **At every moment of a run of plain code, and at its end, the store is related to the past.** -/
theorem recounts_run (depth : Nat) (held : List SubscriberId) (a : Action σ) :
    Recounts I (World.Tells I) (run depth a) (trace depth held a) := by
  induction depth generalizing held a with
  | zero => exact .quiet fun _ _ _ _ hrun _ ↦ nomatch hrun
  | succ depth ih => exact recounts_follow hI ih depth a

end Code

end DataBinding

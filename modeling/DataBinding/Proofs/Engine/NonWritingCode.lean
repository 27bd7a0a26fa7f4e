import DataBinding.Proofs.Engine.CallOrder
import DataBinding.Proofs.Engine.OrderPreservation

/-!
# Code that does not write

A watcher whose code writes state sets off further updates, and what happens then is a long story.
Code that *abstains* does not: it succeeds, and neither writes nor has anybody updated; it may make
objects and watchers of its own, drop watchers, and do what it likes to the document.

A world is *tame* when all its code abstains, the watchers are in order and so are the lists they
are on.  **Code that abstains leaves a tame world tame, and whatever is there already as it was**
(`Action.Abstains.follow`).
-/

set_option autoImplicit false

namespace DataBinding

variable {σ : Type}

/-- The code succeeds and does not write. -/
inductive Action.Abstains : Action σ → Prop
  | done : Abstains (.done (.ok ()))
  | inspect {next : Scene σ → Action σ} (h : ∀ s, Abstains (next s)) : Abstains (.inspect next)
  | modify {f : σ → σ} {next : Action σ} (h : Abstains next) : Abstains (.modify f next)
  | observe {data : Json} {next : Value → Action σ} (h : ∀ v, Abstains (next v)) :
      Abstains (.observe data next)
  | get {o : ObjectId} {key : String} {next : Option Value → Action σ}
      (h : ∀ v, Abstains (next v)) :
      Abstains (.get o key next)
  | getPath {path : String} {root : Value} {next : Except StateError Value → Action σ}
      (h : ∀ r, Abstains (next r)) : Abstains (.getPath path root next)
  | render {template : String} {root : Value} {next : Except StateError String → Action σ}
      (h : ∀ r, Abstains (next r)) : Abstains (.render template root next)
  | watch {expr : String} {root : Value} {reaction : Value → Action σ}
      {next : Except StateError SubscriberId → Action σ} (hreaction : ∀ v, Abstains (reaction v))
      (h : ∀ r, Abstains (next r)) : Abstains (.watch expr root reaction next)
  | retain {id : SubscriberId} {next : Action σ} (h : Abstains next) : Abstains (.retain id next)
  | release {id : SubscriberId} {next : Action σ} (h : Abstains next) : Abstains (.release id next)
  | edit {e : Edit} {next : Action σ} (h : Abstains next) : Abstains (.edit e next)
  | listen {node : NodeId} {event : String} {handler : Event → Action σ} {next : Action σ}
      (h : Abstains next) : Abstains (.listen node event handler next)
  | unlisten {root : NodeId} {next : Action σ} (h : Abstains next) : Abstains (.unlisten root next)

/-- All updates have gone well. -/
def Serene (marks : List Mark) : Prop := ∀ id how, Mark.ended id how ∈ marks → how = .settled

theorem Serene.append {marks more : List Mark} (h : Serene marks) (h' : Serene more) :
    Serene (marks ++ more) := fun id how hmem ↦
  (List.mem_append.1 hmem).elim (h id how) (h' id how)

theorem Serene.lastEnding {marks : List Mark} (h : Serene marks) {id : SubscriberId} {how : Ending}
    (hlast : DataBinding.lastEnding marks id = some how) : how = .settled := by
  obtain ⟨k, hk, hending⟩ := List.mem_filterMap.1 (List.mem_of_getLast? hlast)
  cases k with
  | ended id' how' =>
    rw [Mark.ending?, Option.ite_none_right_eq_some] at hending
    obtain ⟨-, hhow⟩ := hending
    cases hhow
    exact h id' how hk
  | _ => cases hending

/-! ## Worlds of watchers -/

/-- All subscribers are watchers, their code abstains, and the lists they are on are in order. -/
structure World.Tidy (outer : List SubscriberId) (w : World σ) : Prop where
  ranked : w.Ranked outer
  watchers : ∀ id < w.scene.subscribers.size, (w.scene.watcher? id).isSome
  coded : w.code.reactions.size = w.scene.subscribers.size
  code : ∀ (id : SubscriberId) reaction, w.code.reactions[id]? = some reaction →
    ∀ v, (reaction v).Abstains

namespace World.Tidy

variable {outer pending running : List SubscriberId} {w w' : World σ} {marks : List Mark}

/-- A change that leaves the watchers and their code alone. -/
theorem frame (h : w.Tidy outer) (hsubs : w'.scene.subscribers = w.scene.subscribers)
    (hleads : w.Leads w') (hlisted : w.scene.store.Listed w'.scene.store)
    (hcode : w'.code.reactions = w.code.reactions) : w'.Tidy outer where
  ranked := h.ranked.frame hleads hlisted
  watchers id hid := by
    rw [hsubs] at hid
    rw [Scene.watcher?, hsubs]
    exact h.watchers id hid
  coded := by rw [hcode, hsubs, h.coded]
  code id := hcode ▸ h.code id

theorem release (h : w.Tidy outer) (id : SubscriberId) :
    (w.withStore (w.scene.store.release id)).Tidy outer :=
  h.frame rfl (InOrder.leads_release w id) (fun _ _ ↦ .inl rfl) rfl

theorem enrolled (h : w.Tidy outer) (horder : InOrder pending running marks w) (x : Watcher)
    {reaction : Value → Action σ} (hreaction : ∀ v, (reaction v).Abstains) :
    (w.enrolled (.watcher x) reaction).Tidy (outer ++ [w.scene.store.handles.size]) where
  ranked := h.ranked.enrolled horder _ _
  watchers id hid := by
    by_cases hnew : id = w.scene.subscribers.size
    · rw [hnew, World.watcher?_enrolled_self]
      rfl
    · rw [World.watcher?_enrolled _ _ _ hnew]
      have hsize : (w.enrolled (.watcher x) reaction).scene.subscribers.size =
        w.scene.subscribers.size + 1 := Array.size_push _
      exact h.watchers id (by omega)
  coded := by rw [World.enrolled, Array.size_push, Array.size_push, h.coded]
  code id code hcode := by
    replace hcode : (w.code.reactions.push reaction)[id]? = some code := hcode
    rw [Array.getElem?_push] at hcode
    split at hcode
    · cases hcode
      exact hreaction
    · exact h.code id code hcode

theorem evaluated (h : w.Tidy outer) {id : SubscriberId} {x : Watcher}
    (hx : w.scene.watcher? id = some x) (hid : id < w.scene.store.handles.size)
    (helders : ∀ i < id, id ∈ outer → w.scene.store.isLive i = true → w.Twins i id →
      w.Attached i) : (w.evaluated id x).Tidy outer where
  ranked := h.ranked.evaluated hx hid helders
  watchers := h.watchers
  coded := h.coded
  code := h.code

theorem noting (h : w.Tidy outer) (id : SubscriberId) (v : Value) : (w.noting id v).Tidy outer where
  ranked := h.ranked.of_subscribers (InOrder.leads_noting w id v) rfl
  watchers i hi := by
    have hsize : (w.noting id v).scene.subscribers.size = w.scene.subscribers.size :=
      Array.size_modify ..
    have hi' := h.watchers i (hsize ▸ hi)
    rw [World.watcher?_noting]
    split
    · rwa [Option.isSome_map]
    · exact hi'
  coded := h.coded.trans (Array.size_modify ..).symm
  code := h.code

end World.Tidy

/-- A tidy world in which the watchers are in order.  `pending` have not been told yet about what
has happened, and `running` are being told. -/
structure World.Tame (outer pending running : List SubscriberId) (w : World σ) : Prop
    extends w.Tidy outer where
  order : ∃ marks, Serene marks ∧ InOrder pending running marks w

/-- Objects and watchers of `w` are as they were in `w'`. -/
structure World.Undisturbed (w w' : World σ) : Prop where
  kept : w.scene.store.Kept w'.scene.store
  size_le : w.scene.subscribers.size ≤ w'.scene.subscribers.size
  watchers : ∀ id < w.scene.subscribers.size, w'.scene.watcher? id = w.scene.watcher? id

namespace World.Undisturbed

variable {w w₁ w' : World σ}

theorem of_scene (hsubs : w'.scene.subscribers = w.scene.subscribers)
    (hcontents : w'.scene.store.contents = w.scene.store.contents) : w.Undisturbed w' where
  kept := .of_contents hcontents
  size_le := Nat.le_of_eq (by rw [hsubs])
  watchers id _ := by rw [Scene.watcher?, Scene.watcher?, hsubs]

theorem refl (w : World σ) : w.Undisturbed w := of_scene rfl rfl

theorem trans (h : w.Undisturbed w₁) (h' : w₁.Undisturbed w') : w.Undisturbed w' where
  kept := h.kept.trans h'.kept
  size_le := Nat.le_trans h.size_le h'.size_le
  watchers id hid := (h'.watchers id (Nat.lt_of_lt_of_le hid h.size_le)).trans (h.watchers id hid)

theorem enrolled (w : World σ) (s : Subscriber) (reaction : Value → Action σ) :
    w.Undisturbed (w.enrolled s reaction) where
  kept := .of_contents rfl
  size_le := by simp [World.enrolled]
  watchers id hid := World.watcher?_enrolled _ _ _ (Nat.ne_of_lt hid)

theorem evaluated (w : World σ) (id : SubscriberId) (x : Watcher) :
    w.Undisturbed (w.evaluated id x) :=
  of_scene rfl (World.contents_evaluated w id x)

/-- A watcher that was not there before takes note of a value. -/
theorem noting (h : w.Undisturbed w₁) {id : SubscriberId} (hid : w.scene.subscribers.size ≤ id)
    (v : Value) : w.Undisturbed (w₁.noting id v) where
  kept := h.kept
  size_le := Nat.le_trans h.size_le (Nat.le_of_eq (Array.size_modify ..).symm)
  watchers i hi := by
    rw [World.watcher?_noting, if_neg (Nat.ne_of_lt (Nat.lt_of_lt_of_le hi hid))]
    exact h.watchers i hi

end World.Undisturbed

namespace World.Tame

variable {outer pending running : List SubscriberId} {w w' : World σ}

theorem idle (h : w.Tame outer pending running) : w.scene.store.tracking = [] := by
  obtain ⟨marks, -, horder⟩ := h.order
  exact horder.idle

theorem size_subscribers (h : w.Tame outer pending running) :
    w.scene.subscribers.size = w.scene.store.handles.size := by
  obtain ⟨marks, -, horder⟩ := h.order
  exact horder.size_subscribers

/-- A change of the rest of the scene. -/
theorem of_store_eq (h : w.Tame outer pending running)
    (hsubs : w'.scene.subscribers = w.scene.subscribers) (hstore : w'.scene.store = w.scene.store)
    (hcode : w'.code.reactions = w.code.reactions) : w'.Tame outer pending running where
  toTidy := h.toTidy.frame hsubs (.of_handles hsubs (by rw [hstore])) (hstore ▸ .refl _) hcode
  order := by
    obtain ⟨marks, hserene, horder⟩ := h.order
    exact ⟨marks, hserene, horder.of_store_eq hsubs hstore⟩

theorem observe (h : w.Tame outer pending running) (data : Json) :
    (w.withStore (Store.observe data w.scene.store).2).Tame outer pending running ∧
      w.Undisturbed (w.withStore (Store.observe data w.scene.store).2) := by
  obtain ⟨marks, hserene, horder⟩ := h.order
  have hext := Store.extends_observe data w.scene.store
  exact ⟨⟨h.toTidy.frame rfl (.of_handles rfl hext.handles) (Store.listed_observe data _) rfl,
    marks, hserene, horder.observe data⟩, .of_extends hext, Nat.le_refl _, fun _ _ ↦ rfl⟩

theorem retain (h : w.Tame outer pending running) {id : SubscriberId}
    (hlive : w.scene.store.isLive id = true) :
    (w.withStore (w.scene.store.retain id)).Tame outer pending running := by
  have hids : ∀ i ∈ [id], w.scene.store.isLive i = true := by simpa using hlive
  obtain ⟨marks, hserene, horder⟩ := h.order
  exact ⟨h.toTidy.frame rfl (InOrder.leads_retainAll hids) (fun _ _ ↦ .inl rfl) rfl, marks, hserene,
    horder.retainAll hids⟩

theorem release (h : w.Tame outer pending running) (id : SubscriberId) :
    (w.withStore (w.scene.store.release id)).Tame outer pending running := by
  obtain ⟨marks, hserene, horder⟩ := h.order
  exact ⟨h.toTidy.release id, marks, hserene, horder.release id⟩

/-- **A new watcher.**  It is an outer one if nobody waits to be told when it is made. -/
theorem watch (h : w.Tame outer pending running) {expr : String} {root : Value}
    {reaction : Value → Action σ} (hreaction : ∀ v, (reaction v).Abstains)
    (hroot : root.Within w.scene.store.objects.size) {r : Except StateError SubscriberId}
    (hrun : Notification.watch expr root reaction w = some (r, w')) {outer' : List SubscriberId}
    (hout : outer' = outer ∨ pending = [] ∧ outer' = outer ++ [w.scene.store.handles.size]) :
    w'.Tame outer' pending running ∧ w.Undisturbed w' := by
  obtain ⟨marks, hserene, horder⟩ := h.order
  have hmarks : Chronicle.ofWatch root w = [.ended w.scene.store.handles.size .settled] := by
    rw [Chronicle.ofWatch, if_pos hroot]
  have hcarries := Notification.watch_carries horder hrun (by
    rw [hmarks]
    simp [Covered, Mark.isCovered])
  rw [hmarks] at hcarries
  have hmore : Serene [.ended w.scene.store.handles.size .settled] := by
    intro id how hmem
    cases List.mem_singleton.1 hmem
    rfl
  suffices hend : w'.Tidy outer' ∧ w.Undisturbed w' from
    ⟨⟨hend.1, _, hserene.append hmore, hcarries.inOrder⟩, hend.2⟩
  generalize hx : (⟨Text.trim expr, root, .null⟩ : Watcher) = x
  have hwatcher := w.watcher?_enrolled_self x reaction
  rw [h.size_subscribers] at hwatcher
  have henrolled := horder.enrolled (.watcher x) (fun x' hx' ↦ by
    cases hx'
    rw [← hx]
    exact hroot) reaction
  have htidy : (w.enrolled (.watcher x) reaction).Tidy outer' := by
    have henrolled := h.toTidy.enrolled horder x hreaction
    rcases hout with rfl | ⟨-, rfl⟩
    · exact { henrolled with ranked := henrolled.ranked.mono fun _ ↦ List.mem_append_left _ }
    · exact henrolled
  -- its elder twins are on the lists already, unless they wait to be told
  have hevaluated := htidy.evaluated hwatcher (by simp [World.enrolled, Store.newSubscriber])
    fun i hi hmem hlive _ ↦ by
      rcases hout with rfl | ⟨rfl, rfl⟩
      · exact absurd (h.ranked.known _ hmem) (Nat.lt_irrefl _)
      · exact henrolled.attached i hlive (by simpa using Nat.ne_of_lt hi)
  have hundisturbed := (Undisturbed.enrolled w (.watcher x) reaction).trans
    (.evaluated _ w.scene.store.handles.size x)
  have houtcome := Notification.watch_outcome hrun
  rw [hx] at houtcome
  cases houtcome with
  | unresolved _ => exact ⟨hevaluated.release _, hundisturbed.trans (.of_scene rfl rfl)⟩
  | observed _ =>
    exact ⟨hevaluated.noting _ _, hundisturbed.noting (Nat.le_of_eq h.size_subscribers) _⟩

end World.Tame

/-! ## Running code that abstains -/

namespace Action.Abstains

open Chronicle

variable {outer pending running : List SubscriberId} {call : Call σ}
  {tell : Action σ → World σ → List Mark} {limit : Nat} {w w' : World σ} {a : Action σ}

/-- A computation and what follows it. -/
theorem bind {α : Type} {m : Run σ α} {f : α → Run σ (Except BindError Unit)}
    {g : α → World σ → List Mark} {k : List Mark} {r : Except BindError Unit}
    (hrun : (m >>= f) w = some (r, w')) (hcov : Covered (k ++ andThen m w g))
    (hstep : ∀ b w₁, m w = some (b, w₁) → Covered k →
      w₁.Tame outer pending running ∧ w.Undisturbed w₁)
    (hrest : ∀ b w₁, w₁.Tame outer pending running → f b w₁ = some (r, w') → Covered (g b w₁) →
      r = .ok () ∧ w'.Tame outer pending running ∧ w₁.Undisturbed w') :
    r = .ok () ∧ w'.Tame outer pending running ∧ w.Undisturbed w' := by
  obtain ⟨b, w₁, hm, hf⟩ := Run.bind_eq_some_iff.1 hrun
  rw [andThen_of_eq_some hm, covered_append] at hcov
  obtain ⟨htame, hundisturbed⟩ := hstep b w₁ hm hcov.1
  obtain ⟨hr, htame', hundisturbed'⟩ := hrest b w₁ htame hf hcov.2
  exact ⟨hr, htame', hundisturbed.trans hundisturbed'⟩

/-- A computation of which nothing is noted, and what follows it. -/
theorem bind_silent {α : Type} {m : Run σ α} {f : α → Run σ (Except BindError Unit)}
    {g : α → World σ → List Mark} {r : Except BindError Unit} (hrun : (m >>= f) w = some (r, w'))
    (hcov : Covered (andThen m w g))
    (hstep : ∀ b w₁, m w = some (b, w₁) → w₁.Tame outer pending running ∧ w.Undisturbed w₁)
    (hrest : ∀ b w₁, w₁.Tame outer pending running → f b w₁ = some (r, w') → Covered (g b w₁) →
      r = .ok () ∧ w'.Tame outer pending running ∧ w₁.Undisturbed w') :
    r = .ok () ∧ w'.Tame outer pending running ∧ w.Undisturbed w' :=
  bind (k := []) hrun hcov (fun b w₁ hm _ ↦ hstep b w₁ hm) hrest

/-- **Code that abstains succeeds, and leaves a tame world tame and undisturbed.** -/
theorem follow (ha : a.Abstains) (h : w.Tame outer pending running) {r : Except BindError Unit}
    (hrun : DataBinding.follow call limit a w = some (r, w'))
    (hcov : Covered (ofAction call tell a w)) :
    r = .ok () ∧ w'.Tame outer pending running ∧ w.Undisturbed w' := by
  -- what leaves store and subscribers alone is all the same
  have haside : ∀ {w w₁ : World σ}, w.Tame outer pending running →
      w₁.scene.subscribers = w.scene.subscribers → w₁.scene.store = w.scene.store →
      w₁.code.reactions = w.code.reactions →
      w₁.Tame outer pending running ∧ w.Undisturbed w₁ := fun h hsubs hstore hcode ↦
    ⟨h.of_store_eq hsubs hstore hcode, .of_scene hsubs (congrArg Store.contents hstore)⟩
  induction ha generalizing w with
  | done =>
    cases hrun
    exact ⟨rfl, h, .refl _⟩
  | inspect _ ih => exact ih w.scene h hrun hcov
  | modify _ ih =>
    rw [ofAction] at hcov
    refine bind_silent hrun hcov (fun _ w₁ hm ↦ ?_) fun _ _ h₁ hf hg ↦ ih h₁ hf hg
    cases hm
    exact haside h rfl rfl rfl
  | @observe data next _ ih =>
    rw [ofAction] at hcov
    refine bind_silent hrun hcov (fun _ w₁ hm ↦ ?_) fun v _ h₁ hf hg ↦ ih v h₁ hf hg
    obtain ⟨-, rfl⟩ := Run.onStore_eq_some hm
    exact h.observe data
  | @get o key next _ ih =>
    rw [ofAction] at hcov
    refine bind_silent hrun hcov (fun _ w₁ hm ↦ ?_) fun v _ h₁ hf hg ↦ ih v h₁ hf hg
    obtain ⟨-, rfl⟩ := Run.onStore_eq_some hm
    exact haside h rfl (Store.get_snd_of_tracking_nil h.idle o key) rfl
  | getPath _ ih =>
    rw [ofAction] at hcov
    refine bind_silent hrun hcov (fun _ w₁ hm ↦ ?_) fun v _ h₁ hf hg ↦ ih v h₁ hf hg
    obtain ⟨-, rfl⟩ := Run.onStore_eq_some hm
    refine haside h rfl ?_ rfl
    rw [World.store_withStore, Store.getValue_eq, Store.touch_of_tracking_nil h.idle]
  | render _ ih =>
    rw [ofAction] at hcov
    refine bind_silent hrun hcov (fun _ w₁ hm ↦ ?_) fun v _ h₁ hf hg ↦ ih v h₁ hf hg
    obtain ⟨-, rfl⟩ := Run.onStore_eq_some hm
    refine haside h rfl ?_ rfl
    rw [World.store_withStore, Store.render_eq h.idle]
  | watch hreaction _ _ ih =>
    rw [ofAction] at hcov
    exact bind hrun hcov (fun _ w₁ hm hk ↦ h.watch hreaction (by
      rw [ofWatch] at hk
      exact hk.of_check) hm (.inl rfl)) fun v _ h₁ hf hg ↦ ih v h₁ hf hg
  | @retain id next _ ih =>
    rw [ofAction] at hcov
    refine bind hrun hcov (fun _ w₁ hm hk ↦ ?_) fun _ _ h₁ hf hg ↦ ih h₁ hf hg
    obtain ⟨-, rfl⟩ := Run.onStore_eq_some hm
    exact ⟨h.retain hk.of_check, .of_scene rfl rfl⟩
  | @release id next _ ih =>
    rw [ofAction] at hcov
    refine bind_silent hrun hcov (fun _ w₁ hm ↦ ?_) fun _ _ h₁ hf hg ↦ ih h₁ hf hg
    obtain ⟨-, rfl⟩ := Run.onStore_eq_some hm
    exact ⟨h.release id, .of_scene rfl rfl⟩
  | edit _ ih | listen _ ih | unlisten _ ih =>
    rw [ofAction] at hcov
    refine bind_silent hrun hcov (fun _ w₁ hm ↦ ?_) fun _ _ h₁ hf hg ↦ ih h₁ hf hg
    cases hm
    exact haside h rfl rfl rfl

/-- **Code that abstains returns.** -/
theorem exists_follow (ha : a.Abstains) (call : Call σ) (limit : Nat) (w : World σ) :
    ∃ w', DataBinding.follow call limit a w = some (.ok (), w') := by
  induction ha generalizing w with
  | done => exact ⟨w, rfl⟩
  | inspect _ ih => exact ih w.scene w
  | modify _ ih | retain _ ih | release _ ih | edit _ ih | listen _ ih | unlisten _ ih => exact ih _
  | observe _ ih | get _ ih | getPath _ ih | render _ ih => exact ih _ _
  | @watch expr root reaction next _ _ _ ih =>
    obtain ⟨b, hwatch⟩ : ∃ b, Notification.watch expr root reaction w = some b := by
      rw [Notification.watch_eq]
      simp only
      split <;> exact ⟨_, rfl⟩
    obtain ⟨w', hrest⟩ := ih b.1 b.2
    exact ⟨w', Run.bind_eq_some_iff.2 ⟨b.1, b.2, hwatch, hrest⟩⟩

end Action.Abstains

end DataBinding

import DataBinding.Proofs.Engine.NonWritingCode
import DataBinding.Proofs.Engine.Coherence
import DataBinding.Proofs.Engine.Trace

/-!
# Whose code a write calls

A write tells everybody on the list of the property, and each of them looks whether its expression
has a new value.  This file says what comes of it: whose code is called, with which values, and in
which order.

`Notification.Performs` says that a fan-out runs code: it leads from world to world, by evaluating
the expression of each watcher and, for each call that is listed, running the code of that watcher
on that value.  **A fan-out of code that abstains performs the calls of those who had news when it
began**, and no other code of watchers is run (`Fanning.updateAll`).
-/

set_option autoImplicit false

namespace DataBinding

variable {σ : Type}

theorem Run.bind_of_eq_some {α β : Type} {m : Run σ α} {w w₁ : World σ} {a : α}
    (h : m w = some (a, w₁)) (f : α → Run σ β) : (m >>= f) w = f a w₁ := by
  show (m w).bind (fun p ↦ f p.1 p.2) = _
  rw [h, Option.bind_some]

theorem Run.onStore_evaluate (w : World σ) (id : SubscriberId) (x : Watcher) :
    Run.onStore (Store.evaluate id x.expr x.root) w =
      some (w.scene.store.resolve x.expr x.root, w.evaluated id x) := by
  show some ((Store.evaluate id x.expr x.root w.scene.store).1, w.evaluated id x) = _
  rw [Store.evaluate_fst]

/-! ## Calls of code -/

/-- What a watcher has to tell its code when it is its turn: the value of its expression, if that is
new to it. -/
def World.news (w : World σ) (id : SubscriberId) : Option Value :=
  (w.scene.watcher? id).bind fun x ↦
    match w.scene.store.resolve x.expr x.root with
    | .ok v => if x.observed.identical v then none else some v
    | .error _ => none

namespace Notification

/-- The code that is called when watchers are updated in turn: whose it is and with which values, in
the order of the calls. -/
def calls (call : Call σ) : List SubscriberId → World σ → List (SubscriberId × Value)
  | [], _ => []
  | id :: rest, w =>
    ((w.news id).map (id, ·)).toList ++
      match update call id w with
      | none => []
      | some (_, w₁) => calls call rest (w₁.withStore (w₁.scene.store.release id))

/-- The code that is called by a write. -/
def callsOfSet (call : Call σ) (o : ObjectId) (key : String) (v : Value) (w : World σ) :
    List (SubscriberId × Value) :=
  match (w.scene.store.write o key v).1 with
  | .replaced =>
    calls call ((w.scene.store.write o key v).2.liveSubscribers o key) (announced w o key v)
  | _ => []

/-- The turn of a watcher: its expression is evaluated, and if there are news its code is run on
them and succeeds, and the watcher takes note. -/
inductive Turn (call : Call σ) (id : SubscriberId) (w : World σ) : Option Value → World σ → Prop
  | idle {x : Watcher} (hx : w.scene.watcher? id = some x) : Turn call id w none (w.evaluated id x)
  | called {x : Watcher} {reaction : Value → Action σ} {v : Value} {w₁ : World σ}
      (hx : w.scene.watcher? id = some x) (hreaction : w.code.reactions[id]? = some reaction)
      (hcall : call (reaction v) (w.evaluated id x) = some (.ok (), w₁)) :
      Turn call id w (some v) (w₁.noting id v)

/-- Watchers have their turns one after another, and each is let go when its turn is over.  The list
says whose code is run, and on which values. -/
inductive Performs (call : Call σ) :
    List SubscriberId → World σ → List (SubscriberId × Value) → World σ → Prop
  | done (w : World σ) : Performs call [] w [] w
  | turn {id : SubscriberId} {rest : List SubscriberId} {w w₁ w' : World σ} {news : Option Value}
      {others : List (SubscriberId × Value)} (hturn : Turn call id w news w₁)
      (hrest : Performs call rest (w₁.withStore (w₁.scene.store.release id)) others w') :
      Performs call (id :: rest) w ((news.map (id, ·)).toList ++ others) w'

variable {call : Call σ} {w : World σ} {id : SubscriberId} {x : Watcher} {v : Value}

theorem callsOfSet_eq_calls {o : ObjectId} {key : String} :
    callsOfSet call o key v w = calls call (w.told o key v) (w.written o key v) := by
  rw [callsOfSet, World.told, World.written]
  cases (w.scene.store.write o key v).1 <;> rfl

theorem news_eq_some (hx : w.scene.watcher? id = some x) :
    w.news id = some v ↔
      w.scene.store.resolve x.expr x.root = .ok v ∧ x.observed.identical v = false := by
  rw [World.news, hx, Option.bind_some]
  cases w.scene.store.resolve x.expr x.root with
  | error e => simp
  | ok u =>
    by_cases hsame : x.observed.identical u = true
    · simp only [if_pos hsame, reduceCtorEq, Except.ok.injEq, false_iff, not_and]
      rintro rfl
      simp [hsame]
    · simp only [if_neg hsame, Option.some.injEq, Except.ok.injEq, iff_self_and]
      rintro rfl
      simpa using hsame

/-- **A watcher with news has its code called with them**, and takes note of them if that
succeeds. -/
theorem react_of_news {r : Except StateError Unit} {w' : World σ}
    (hx : w.scene.watcher? id = some x) (hnews : w.news id = some v)
    (hrun : update call id w = some (r, w')) :
    ∃ w₁, react call id v (w.evaluated id x) = some (r, w₁) ∧
      (r = .ok () → w' = w₁.noting id v) := by
  obtain ⟨hv, hnew⟩ := (news_eq_some hx).1 hnews
  cases update_outcome hrun with
  | absent h => cases h.symm.trans (Scene.subscribers_of_watcher? hx)
  | probe h => cases h.symm.trans (Scene.subscribers_of_watcher? hx)
  | unresolved h hvalue =>
    cases h.symm.trans hx
    cases hvalue.symm.trans hv
  | unchanged h hvalue hsame =>
    cases h.symm.trans hx
    cases hvalue.symm.trans hv
    cases hsame.symm.trans hnew
  | failed h hvalue _ hreact =>
    cases h.symm.trans hx
    cases hvalue.symm.trans hv
    exact ⟨w', hreact, fun hr ↦ by cases hr⟩
  | reacted h hvalue _ hreact =>
    cases h.symm.trans hx
    cases hvalue.symm.trans hv
    exact ⟨_, hreact, fun _ ↦ rfl⟩

/-- **A watcher without news only looks**, whatever there is to be called. -/
theorem update_of_no_news {r : Except StateError Unit} {w' : World σ}
    (hx : w.scene.watcher? id = some x) (hnews : w.news id = none)
    (hrun : update call id w = some (r, w')) :
    w' = w.evaluated id x ∧ ((∃ v, w.scene.store.resolve x.expr x.root = .ok v) → r = .ok ()) := by
  have hold : ∀ v, w.scene.store.resolve x.expr x.root = .ok v →
      x.observed.identical v ≠ false := by
    intro v hv hnew
    rw [(news_eq_some hx).2 ⟨hv, hnew⟩] at hnews
    cases hnews
  cases update_outcome hrun with
  | absent h => cases h.symm.trans (Scene.subscribers_of_watcher? hx)
  | probe h => cases h.symm.trans (Scene.subscribers_of_watcher? hx)
  | unresolved h hvalue =>
    cases h.symm.trans hx
    refine ⟨rfl, ?_⟩
    rintro ⟨v, hv⟩
    cases hvalue.symm.trans hv
  | unchanged h =>
    cases h.symm.trans hx
    exact ⟨rfl, fun _ ↦ rfl⟩
  | failed h hvalue hnew =>
    cases h.symm.trans hx
    exact absurd hnew (hold _ hvalue)
  | reacted h hvalue hnew =>
    cases h.symm.trans hx
    exact absurd hnew (hold _ hvalue)

/-- Whoever reacts and does not fail has run its code, if it has any. -/
theorem call_of_react_ok {w' : World σ} (hcode : (w.code.reactions[id]?).isSome)
    (hrun : react call id v w = some (.ok (), w')) :
    ∃ reaction, w.code.reactions[id]? = some reaction ∧
      call (reaction v) w = some (.ok (), w') := by
  rcases react_eq_some hrun with ⟨hnone, -⟩ | ⟨reaction, result, hreaction, hcall, hok⟩
  · rw [hnone] at hcode
    cases hcode
  · cases result with
    | error e => cases hok
    | ok _ => exact ⟨reaction, hreaction, hcall⟩

theorem react_of_no_code (h : w.code.reactions[id]? = none) (v : Value) :
    react call id v w = some (.ok (), w) := by
  have hget : (get : Run σ (World σ)) w = some (w, w) := rfl
  rw [react, Run.bind_of_eq_some hget, h]
  rfl

theorem react_of_code {reaction : Value → Action σ} (h : w.code.reactions[id]? = some reaction)
    {result : Except BindError Unit} {w₁ : World σ}
    (hcall : call (reaction v) w = some (result, w₁)) :
    react call id v w = some (result.mapError BindError.toState, w₁) := by
  have hget : (get : Run σ (World σ)) w = some (w, w) := rfl
  rw [react, Run.bind_of_eq_some hget, h]
  exact Run.bind_of_eq_some hcall _

/-- In the trace of the turn of a watcher there is what its code does, if there are news. -/
theorem ofUpdate_eq (tell : Tell σ) (held : List SubscriberId) (hx : w.scene.watcher? id = some x) :
    Trace.ofUpdate tell held id w =
      ((w.news id).map fun v ↦ Trace.ofReact tell held id v (w.evaluated id x)).getD [] := by
  rw [Trace.ofUpdate, Scene.subscribers_of_watcher? hx, World.news, hx, Option.bind_some]
  simp only
  rw [Trace.following, Run.onStore_evaluate]
  cases w.scene.store.resolve x.expr x.root with
  | error e => rfl
  | ok v =>
    by_cases hsame : x.observed.identical v = true
    · simp only [if_pos hsame]
      rfl
    · simp only [if_neg hsame]
      rfl

/-- The update of a watcher whose code returns has a result. -/
theorem exists_update (hx : w.scene.watcher? id = some x)
    (hreact : ∀ v, w.news id = some v → ∃ r w', react call id v (w.evaluated id x) = some (r, w')) :
    ∃ r w', update call id w = some (r, w') := by
  suffices hsome : (update call id w).isSome = true by
    obtain ⟨b, hb⟩ := Option.isSome_iff_exists.1 hsome
    exact ⟨b.1, b.2, hb⟩
  have hscene : Run.scene w = some (w.scene, w) := rfl
  rw [update, Run.bind_of_eq_some hscene, Scene.subscribers_of_watcher? hx]
  simp only
  rw [Run.bind_of_eq_some (Run.onStore_evaluate w id x)]
  cases hv : w.scene.store.resolve x.expr x.root with
  | error e => rfl
  | ok v =>
    by_cases hsame : x.observed.identical v = true
    · simp only [if_pos hsame]
      rfl
    · obtain ⟨r, w', hcalled⟩ := hreact v ((news_eq_some hx).2 ⟨hv, by simpa using hsame⟩)
      simp only [if_neg hsame]
      rw [Run.bind_of_eq_some hcalled]
      cases r <;> rfl

end Notification

/-! ## One turn -/

section Turn

open Notification

variable {outer pending running rest : List SubscriberId} {w₀ w w' : World σ} {id : SubscriberId}
  {depth : Nat}

/-- What a watcher has observed when its turn is over. -/
theorem InOrder.settled {marks : List Mark} (h : InOrder pending (id :: running) marks w)
    (hserene : Serene marks) (halike : ∀ x v, w.scene.watcher? id = some x →
      w.scene.store.resolve x.expr x.root = .ok v → x.observed.Alike v) :
    ∃ marks, Serene marks ∧ InOrder pending running marks w := by
  refine ⟨marks ++ [.ended id .settled], hserene.append ?_, h.settle (fun id' hne ↦
    lastEnding_ended_of_ne hne _) fun _ x v hx hv _ ↦ iff_of_true (halike x v hx hv) ?_⟩
  · intro id' how hmem
    cases List.mem_singleton.1 hmem
    rfl
  · rw [lastEnding_append, lastEnding_ended_self, Option.some_or]
    simp

/-- The code of a watcher succeeds. -/
theorem World.Tame.react (h : w.Tame outer pending running) {v : Value}
    {r : Except StateError Unit} (hrun : Notification.react (run depth) id v w = some (r, w'))
    (hcov : Covered (Chronicle.ofReact (chronicle depth) id v w)) :
    r = .ok () ∧ w'.Tame outer pending running ∧ w.Undisturbed w' := by
  rcases react_eq_some hrun with ⟨-, rfl, rfl⟩ | ⟨reaction, result, hreaction, hcall, rfl⟩
  · exact ⟨rfl, h, .refl _⟩
  · rw [Chronicle.ofReact, hreaction] at hcov
    cases depth with
    | zero => cases hcall
    | succ depth =>
      obtain ⟨rfl, htame, hundisturbed⟩ := (h.code id reaction hreaction v).follow h hcall hcov
      exact ⟨rfl, htame, hundisturbed⟩

/-- Code that abstains returns. -/
theorem World.exists_react (hcode : ∀ (id : SubscriberId) reaction,
      w.code.reactions[id]? = some reaction → ∀ v, (reaction v).Abstains) (id : SubscriberId)
    (v : Value) : ∃ r w', Notification.react (run (depth + 1)) id v w = some (r, w') := by
  cases hreaction : w.code.reactions[id]? with
  | none => exact ⟨_, _, react_of_no_code hreaction v⟩
  | some reaction =>
    obtain ⟨w', hcall⟩ := (hcode id reaction hreaction v).exists_follow (run depth) depth w
    have hrun : run (depth + 1) (reaction v) w = some (.ok (), w') := hcall
    exact ⟨_, w', react_of_code hreaction hrun⟩

/-- **Code that abstains calls nobody.** -/
theorem Action.Abstains.callees_trace {a : Action σ} (ha : a.Abstains) (depth : Nat)
    (held : List SubscriberId) (w : World σ) : callees (trace depth held a w) = [] := by
  cases depth with
  | zero => rfl
  | succ depth =>
    rw [trace]
    induction ha generalizing w with
    | done => rfl
    | inspect _ ih => exact ih w.scene w
    | modify _ ih | retain _ ih | release _ ih | edit _ ih | listen _ ih | unlisten _ ih =>
      rw [Trace.ofAction, callees_step]
      exact callees_following (fun _ ↦ ih) w
    | observe _ ih | get _ ih | getPath _ ih | render _ ih | watch _ _ _ ih =>
      rw [Trace.ofAction, callees_step]
      exact callees_following ih w

/-- A fan-out under way that began in `w₀`. -/
structure Fanning (outer : List SubscriberId) (w₀ : World σ) (pending : List SubscriberId)
    (w : World σ) : Prop where
  tame : w.Tame outer pending []
  kept : w₀.scene.store.Kept w.scene.store
  /-- Whoever waits has not noticed anything yet. -/
  waiting : ∀ id ∈ pending, id < w.scene.subscribers.size ∧
    w.scene.watcher? id = w₀.scene.watcher? id
  /-- Of two twins that wait, the one that was made first has its turn first. -/
  turns : pending.Pairwise fun i j ↦ i ≠ j ∧ (w₀.Twins i j → i < j ∨ i ∉ outer)

/-- The elder twins of whoever has its turn do not wait any more. -/
theorem Fanning.attached (h : Fanning outer w₀ (id :: rest) w) {i : SubscriberId} (hi : i < id)
    (hid : id ∈ outer) (hlive : w.scene.store.isLive i = true) (htwins : w.Twins i id) :
    w.Attached i := by
  obtain ⟨marks, -, horder⟩ := h.tame.order
  refine horder.attached i hlive fun hmem ↦ ?_
  rcases List.mem_cons.1 hmem with rfl | hmem
  · exact absurd hi (Nat.lt_irrefl _)
  · obtain ⟨-, hfirst⟩ := (List.pairwise_cons.1 h.turns).1 i hmem
    have htwins₀ : w₀.Twins id i := (htwins.congr
      (h.waiting i (List.mem_cons_of_mem _ hmem)).2 (h.waiting id (by simp)).2).symm
    rcases hfirst htwins₀ with hlt | hout
    · exact absurd hlt (Nat.lt_asymm hi)
    · exact hout hid

/-- What a turn has to leave behind. -/
theorem Fanning.next (h : Fanning outer w₀ (id :: rest) w) (htame : w'.Tame outer rest [])
    (hkept : w.scene.store.Kept w'.scene.store)
    (hsize : w.scene.subscribers.size ≤ w'.scene.subscribers.size)
    (hwaiting : ∀ i ∈ rest, w'.scene.watcher? i = w.scene.watcher? i) :
    Fanning outer w₀ rest (w'.withStore (w'.scene.store.release id)) where
  tame := htame.release id
  kept := h.kept.trans hkept
  waiting i hi := by
    obtain ⟨hlt, hsame⟩ := h.waiting i (List.mem_cons_of_mem _ hi)
    exact ⟨Nat.lt_of_lt_of_le hlt hsize, (hwaiting i hi).trans hsame⟩
  turns := (List.pairwise_cons.1 h.turns).2

/-- The first thing in a turn is to evaluate the expression. -/
theorem Fanning.evaluated (h : Fanning outer w₀ (id :: rest) w) {x : Watcher}
    (hx : w.scene.watcher? id = some x) : (w.evaluated id x).Tame outer rest [id] := by
  obtain ⟨hsize, -⟩ := h.waiting id (by simp)
  obtain ⟨marks, hserene, horder⟩ := h.tame.order
  exact ⟨h.tame.toTidy.evaluated hx (h.tame.size_subscribers ▸ hsize) fun i hi hid hlive htwins ↦
    h.attached hi hid hlive htwins, marks, hserene, horder.evaluated hx⟩

/-- A turn without news is over then. -/
theorem Fanning.idle (h : Fanning outer w₀ (id :: rest) w) {x : Watcher}
    (hx : w.scene.watcher? id = some x) (hnews : w.news id = none) :
    Fanning outer w₀ rest
      ((w.evaluated id x).withStore ((w.evaluated id x).scene.store.release id)) := by
  have htame := h.evaluated hx
  have hevaluated := World.Undisturbed.evaluated w id x
  obtain ⟨marks, hserene, horder⟩ := htame.order
  refine h.next ⟨htame.toTidy, horder.settled hserene fun y v hy hv ↦ ?_⟩ hevaluated.kept
    hevaluated.size_le fun i hi ↦ rfl
  cases hx.symm.trans hy
  rw [World.resolve_evaluated] at hv
  cases hidentical : x.observed.identical v with
  | true => exact .inl hidentical
  | false =>
    rw [(news_eq_some hx).2 ⟨hv, hidentical⟩] at hnews
    cases hnews

/-- A turn with news is over when the code has returned and the value is noted. -/
theorem Fanning.noting (h : Fanning outer w₀ (id :: rest) w) {x : Watcher} {v : Value}
    {w₁ : World σ} (hx : w.scene.watcher? id = some x) (hnews : w.news id = some v)
    (htame : w₁.Tame outer rest [id]) (hundisturbed : w.Undisturbed w₁) :
    Fanning outer w₀ rest
      ((w₁.noting id v).withStore ((w₁.noting id v).scene.store.release id)) := by
  obtain ⟨_, -, horder⟩ := h.tame.order
  obtain ⟨marks, hserene, horder₁⟩ := htame.order
  refine h.next ⟨htame.toTidy.noting id v, (horder₁.noting v).settled hserene fun y u hy hu ↦ ?_⟩
    hundisturbed.kept
    (Nat.le_trans hundisturbed.size_le (Nat.le_of_eq (Array.size_modify ..).symm)) fun i hi ↦ ?_
  · rw [World.watcher?_noting, if_pos rfl, hundisturbed.watchers id (h.waiting id (by simp)).1,
      hx] at hy
    cases hy
    obtain ⟨hv, -⟩ := (news_eq_some hx).1 hnews
    rw [World.store_noting,
      hundisturbed.kept.resolve_eq horder.closed (horder.rooted id x hx)] at hu
    cases hv.symm.trans hu
    exact .refl v
  · have hne : i ≠ id := ((List.pairwise_cons.1 h.turns).1 i hi).1.symm
    rw [World.watcher?_noting, if_neg hne]
    exact hundisturbed.watchers i (h.waiting i (List.mem_cons_of_mem _ hi)).1

variable (hclosed : w₀.scene.store.Closed)
  (hrooted : ∀ id x, w₀.scene.watcher? id = some x → x.root.Within w₀.scene.store.objects.size)

include hclosed hrooted

/-- Whoever has its turn has the news that it had when the fan-out began. -/
theorem Fanning.news_eq (h : Fanning outer w₀ (id :: rest) w) : w.news id = w₀.news id := by
  obtain ⟨-, hsame⟩ := h.waiting id (by simp)
  rw [World.news, World.news, hsame]
  cases hx : w₀.scene.watcher? id with
  | none => rfl
  | some x => rw [Option.bind_some, Option.bind_some, h.kept.resolve_eq hclosed (hrooted id x hx)]

/-- **One turn.** -/
theorem Fanning.turn (h : Fanning outer w₀ (id :: rest) w) {r : Except StateError Unit}
    (hrun : update (run depth) id w = some (r, w'))
    (hcov : Covered (Chronicle.ofUpdate (run depth) (chronicle depth) id w)) :
    Fanning outer w₀ rest (w'.withStore (w'.scene.store.release id)) ∧
      Turn (run depth) id w (w.news id) w' ∧
      (∀ held, callees (Trace.ofUpdate (trace depth) held id w) =
        ((w.news id).map fun _ ↦ id).toList) ∧
      ∀ x, w₀.scene.watcher? id = some x →
        (∃ v, w₀.scene.store.resolve x.expr x.root = .ok v) → r = .ok () := by
  obtain ⟨hsize, hsame⟩ := h.waiting id (by simp)
  obtain ⟨x, hx⟩ := Option.isSome_iff_exists.1 (h.tame.watchers id hsize)
  have hresolve := h.kept.resolve_eq hclosed (hrooted id x (hsame ▸ hx)) x.expr
  have htrace (held : List SubscriberId) := ofUpdate_eq (trace depth) held hx
  have hevaluated := h.evaluated hx
  cases hnews : w.news id with
  | none =>
    obtain ⟨rfl, hr⟩ := update_of_no_news hx hnews hrun
    rw [hnews] at htrace
    refine ⟨h.idle hx hnews, .idle hx, fun held ↦ by rw [htrace]; rfl, fun y hy hv ↦ hr ?_⟩
    cases (hsame.symm.trans hx).symm.trans hy
    rwa [hresolve]
  | some v =>
    obtain ⟨w₁, hreact, hw'⟩ := react_of_news hx hnews hrun
    obtain ⟨hv, hnew⟩ := (news_eq_some hx).1 hnews
    rw [ofUpdate_of_react hx hv hnew hreact, covered_append] at hcov
    obtain ⟨rfl, htame, hundisturbed⟩ := hevaluated.react hreact hcov.1
    obtain rfl := hw' rfl
    obtain ⟨reaction, hreaction, hcall⟩ := call_of_react_ok (by
      rw [Array.getElem?_eq_getElem (hevaluated.coded.symm ▸ hsize)]
      rfl) hreact
    refine ⟨h.noting hx hnews htame ((World.Undisturbed.evaluated w id x).trans hundisturbed),
      .called hx hreaction hcall, fun held ↦ ?_, fun _ _ _ ↦ rfl⟩
    rw [htrace, hnews, Option.map_some, Option.getD_some, Trace.ofReact, hreaction]
    show callees (.called id :: trace depth held (reaction v) (w.evaluated id x)) = [id]
    rw [callees_called, (h.tame.code id reaction hreaction v).callees_trace]

/-- **A fan-out.**  The code of whoever has news when it begins is run on them, in turn, and no
other code of watchers is run. -/
theorem Fanning.updateAll {ids : List SubscriberId} (h : Fanning outer w₀ ids w)
    {r : Except StateError Unit} (hrun : Notification.updateAll (run depth) ids w = some (r, w'))
    (hcov : Covered (Chronicle.ofUpdateAll (run depth) (chronicle depth) ids w)) :
    Fanning outer w₀ [] w' ∧
      calls (run depth) ids w = ids.filterMap (fun id ↦ (w₀.news id).map (id, ·)) ∧
      Performs (run depth) ids w (calls (run depth) ids w) w' ∧
      (∀ held, callees (Trace.ofUpdateAll (run depth) (trace depth) held ids w) =
        (calls (run depth) ids w).map Prod.fst) ∧
      ((∀ id ∈ ids, ∀ x, w₀.scene.watcher? id = some x →
        ∃ v, w₀.scene.store.resolve x.expr x.root = .ok v) → r = .ok ()) := by
  induction ids generalizing w r with
  | nil =>
    cases hrun
    exact ⟨h, rfl, .done _, fun _ ↦ rfl, fun _ ↦ rfl⟩
  | cons id ids ih =>
    obtain ⟨first, others, w₁, hfirst, hrest, rfl⟩ := updateAll_cons hrun
    rw [Chronicle.ofUpdateAll, Chronicle.andThen_of_eq_some hfirst, covered_append] at hcov
    obtain ⟨h₁, hturn, htrace, hr⟩ := h.turn hclosed hrooted hfirst hcov.1
    obtain ⟨h', hcalls, hperforms, htrace', hr'⟩ := ih h₁ hrest hcov.2
    have hcons : calls (run depth) (id :: ids) w = ((w.news id).map (id, ·)).toList ++
        calls (run depth) ids (w₁.withStore (w₁.scene.store.release id)) := by
      rw [calls, hfirst]
    rw [hcons]
    refine ⟨h', ?_, .turn hturn hperforms, fun held ↦ ?_, fun hvalues ↦ ?_⟩
    · rw [hcalls, h.news_eq hclosed hrooted, List.filterMap_cons]
      cases w₀.news id <;> rfl
    · rw [Trace.ofUpdateAll_cons hfirst, callees_append, htrace, htrace', List.map_append]
      cases w.news id <;> rfl
    · obtain ⟨x, hx⟩ := Option.isSome_iff_exists.1 (h.tame.watchers id (h.waiting id (by simp)).1)
      rw [(h.waiting id (by simp)).2] at hx
      rw [hr x hx (hvalues id (by simp) x hx), firstError]
      exact hr' fun i hi ↦ hvalues i (by simp [hi])

/-- A fan-out comes to its end. -/
theorem Fanning.exists_updateAll {ids : List SubscriberId} (h : Fanning outer w₀ ids w)
    (hcov : Covered (Chronicle.ofUpdateAll (run (depth + 1)) (chronicle (depth + 1)) ids w)) :
    ∃ r w', Notification.updateAll (run (depth + 1)) ids w = some (r, w') := by
  induction ids generalizing w with
  | nil => exact ⟨_, _, rfl⟩
  | cons id ids ih =>
    obtain ⟨x, hx⟩ := Option.isSome_iff_exists.1 (h.tame.watchers id (h.waiting id (by simp)).1)
    obtain ⟨first, w₁, hfirst⟩ : ∃ r w', update (run (depth + 1)) id w = some (r, w') :=
      exists_update hx fun v _ ↦ World.exists_react (w := w.evaluated id x) h.tame.code id v
    rw [Chronicle.ofUpdateAll, Chronicle.andThen_of_eq_some hfirst, covered_append] at hcov
    obtain ⟨h₁, -⟩ := h.turn hclosed hrooted hfirst hcov.1
    obtain ⟨others, w', hrest⟩ := ih h₁ hcov.2
    refine ⟨firstError first others, w', ?_⟩
    have hrelease : Run.editStore (fun s ↦ s.release id) w₁ =
        some ((), w₁.withStore (w₁.scene.store.release id)) := rfl
    rw [Notification.updateAll, Run.bind_of_eq_some hfirst, Run.bind_of_eq_some hrelease,
      Run.bind_of_eq_some hrest]
    rfl

end Turn

end DataBinding

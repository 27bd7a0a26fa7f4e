import DataBinding.Proofs.Engine.CalledCode

/-!
# Fan-outs in which nobody meddles

While a fan-out is under way the code that it calls may do many things, and some of them concern
those who are told: they may be updated out of turn, for instance, or dropped.  Code is
*considerate* if it returns, leaves the objects as they are and bypasses those who are told
(`World.Bypasses`): it may fail, make objects and watchers of its own, drop watchers, and do what it
likes to the rest of the scene.

This file says what a fan-out among the considerate does (`Telling.updateAll`): how every turn ends,
whose code is called, what watchers have observed afterwards and on which lists they are.  **All of
it follows from what every watcher could tell when the fan-out began**, its news and what its
expression reads, and from whose updates have failed.

The lists also change when the dead are pruned, which happens sooner or later.  So what is said
about them concerns those who stay alive.
-/

set_option autoImplicit false

namespace DataBinding

variable {σ : Type}

/-! ## Those who stay on a list -/

/-- A list of subscribers after others have joined it in turn. -/
def joinedBy (list ids : List SubscriberId) : List SubscriberId :=
  ids.foldl (subscribeTo fun _ ↦ true) list

namespace Store

section List

variable {live keep : SubscriberId → Bool} {list : List SubscriberId} {id : SubscriberId}

/-- Pruning the dead takes nobody away who is to be kept. -/
theorem filter_keep_filter_live (h : ∀ i, keep i = true → live i = true) :
    (list.filter live).filter keep = list.filter keep := by
  rw [List.filter_filter]
  refine List.filter_congr fun i _ ↦ ?_
  cases hi : keep i with
  | false => rfl
  | true => rw [h i hi, Bool.and_true]

theorem subscribeTo_of_mem (h : id ∈ list) : subscribeTo (fun _ ↦ true) list id = list := by
  rw [subscribeTo, List.filter_true, if_pos (List.contains_iff_mem.2 h)]

theorem filter_subscribeTo (h : ∀ i, keep i = true → live i = true) :
    (subscribeTo live list id).filter keep =
      if keep id then subscribeTo (fun _ ↦ true) (list.filter keep) id else list.filter keep := by
  have hkept : (list.filter live).filter keep = list.filter keep := filter_keep_filter_live h
  have hmem : keep id = true → (id ∈ list.filter keep ↔ id ∈ list.filter live) := fun hid ↦ by
    simp only [List.mem_filter, hid, h id hid]
  by_cases hlisted : id ∈ list.filter live
  · rw [subscribeTo, if_pos (List.contains_iff_mem.2 hlisted), hkept]
    split
    · rename_i hid
      rw [subscribeTo_of_mem ((hmem hid).2 hlisted)]
    · rfl
  · rw [subscribeTo, if_neg (mt List.contains_iff_mem.1 hlisted), List.filter_append, hkept,
      List.filter_cons, List.filter_nil]
    split
    · rename_i hid
      rw [subscribeTo, List.filter_true, if_neg]
      rwa [List.contains_iff_mem, hmem hid]
    · exact List.append_nil _

end List

/-- Whether the expression looks the property up, and finds it. -/
def finds (s : Store) (path : String) (root : Value) (o : ObjectId) (key : String) : Bool :=
  (s.reads path root).contains (o, key) && (s.property? o key).isSome

variable {s t : Store} {keep : SubscriberId → Bool} {id : SubscriberId}

theorem finds_congr {path : String} {root : Value}
    (h : ∀ r ∈ s.reads path root, t.peek r.1 r.2 = s.peek r.1 r.2) (o : ObjectId) (key : String) :
    t.finds path root o key = s.finds path root o key := by
  rw [finds, finds, reads_congr h]
  by_cases hread : (o, key) ∈ s.reads path root
  · have hpeek := congrArg Option.isSome (h (o, key) hread)
    rw [peek, peek, Option.isSome_map, Option.isSome_map] at hpeek
    rw [hpeek]
  · rw [Bool.eq_false_iff.2 (mt List.contains_iff_mem.1 hread), Bool.false_and, Bool.false_and]

/-- **What an evaluation does to the lists**, seen by those who are alive: the subscriber joins
those of the properties that its expression finds. -/
theorem filter_subscribers_evaluate (hid : id < s.handles.size)
    (hkeep : ∀ i, keep i = true → s.isLive i = true) (path : String) (root : Value) (o : ObjectId)
    (key : String) : ((evaluate id path root s).2.subscribers o key).filter keep =
      joinedBy ((s.subscribers o key).filter keep)
        ([id].filter fun i ↦ keep i && s.finds path root o key) := by
  have hjoined : joinedBy ((s.subscribers o key).filter keep)
      ([id].filter fun i ↦ keep i && s.finds path root o key) =
      if keep id && s.finds path root o key then
        subscribeTo (fun _ ↦ true) ((s.subscribers o key).filter keep) id
      else (s.subscribers o key).filter keep := by
    rw [List.filter_cons, List.filter_nil]
    split <;> rfl
  rw [hjoined]
  rcases subscribers_evaluate hid path root o key with hlist | ⟨hread, hlist⟩
  · rw [hlist]
    split
    · -- who finds the property and is not added is on its list already
      rename_i hfinds
      rw [Bool.and_eq_true, finds, Bool.and_eq_true, List.contains_iff_mem] at hfinds
      obtain ⟨hkept, hread, hkey⟩ := hfinds
      have hmem := (evaluate_subscribes (hkeep id hkept) hread).mem_subscribers (by
        rwa [isSome_property?_congr (contents_evaluate id path root s)])
      rw [hlist] at hmem
      exact (subscribeTo_of_mem (List.mem_filter.2 ⟨hmem, hkept⟩)).symm
    · rfl
  · have hmem : id ∈ (evaluate id path root s).2.subscribers o key := by
      rw [hlist]
      exact mem_subscribeTo.2 (.inr rfl)
    have hfinds : s.finds path root o key = true := by
      rw [finds, Bool.and_eq_true, List.contains_iff_mem,
        ← isSome_property?_congr (contents_evaluate id path root s)]
      exact ⟨hread, isSome_property?_of_mem hmem⟩
    rw [hlist, hfinds, Bool.and_true, filter_subscribeTo fun i hi ↦ isLive_track id s (hkeep i hi)]

end Store

/-! ## Considerate code -/

/-- Nothing between the first world and the second one concerns the objects or the given
subscribers.  Those of them who are alive afterwards have been alive before, and are on the lists
that they were on, in the same order. -/
structure World.Bypasses (told : List SubscriberId) (w w' : World σ) : Prop where
  kept : w.scene.store.Kept w'.scene.store
  size_le : w.scene.store.handles.size ≤ w'.scene.store.handles.size
  live : ∀ id ∈ told, w'.scene.store.isLive id = true → w.scene.store.isLive id = true
  watchers : ∀ id ∈ told, w'.scene.watcher? id = w.scene.watcher? id
  reactions : ∀ id ∈ told, w'.code.reactions[id]? = w.code.reactions[id]?
  subscribers : ∀ keep : SubscriberId → Bool,
    (∀ id, keep id = true → id ∈ told ∧ w'.scene.store.isLive id = true) → ∀ o key,
      (w'.scene.store.subscribers o key).filter keep = (w.scene.store.subscribers o key).filter keep

namespace World.Bypasses

variable {told : List SubscriberId} {w w₁ w' : World σ}

/-- What is not the store, the subscribers or their code does not matter. -/
theorem of_eq (hstore : w'.scene.store = w.scene.store)
    (hsubs : w'.scene.subscribers = w.scene.subscribers)
    (hcode : w'.code.reactions = w.code.reactions) : w.Bypasses told w' where
  kept := .of_contents (by rw [hstore])
  size_le := Nat.le_of_eq (by rw [hstore])
  live id _ hlive := by rwa [hstore] at hlive
  watchers id _ := by rw [Scene.watcher?, Scene.watcher?, hsubs]
  reactions id _ := by rw [hcode]
  subscribers keep _ o key := by rw [hstore]

theorem refl (told : List SubscriberId) (w : World σ) : w.Bypasses told w := of_eq rfl rfl rfl

theorem trans (h : w.Bypasses told w₁) (h' : w₁.Bypasses told w') : w.Bypasses told w' where
  kept := h.kept.trans h'.kept
  size_le := Nat.le_trans h.size_le h'.size_le
  live id hid hlive := h.live id hid (h'.live id hid hlive)
  watchers id hid := (h'.watchers id hid).trans (h.watchers id hid)
  reactions id hid := (h'.reactions id hid).trans (h.reactions id hid)
  subscribers keep hkeep o key := (h'.subscribers keep hkeep o key).trans
    (h.subscribers keep
      (fun id hid ↦ ⟨(hkeep id hid).1, h'.live id (hkeep id hid).1 (hkeep id hid).2⟩) o key)

end World.Bypasses

/-- The code returns, bypasses the given subscribers, and does not have their code called. -/
structure Considerate (call : Call σ) (tell : Tell σ) (held told : List SubscriberId) (a : Action σ)
    (w : World σ) : Prop where
  returns : ∃ r w', call a w = some (r, w') ∧ w.Bypasses told w'
  silent : ∀ id ∈ told, .called id ∉ tell held a w

/-- All code that is called when subscribers are updated in turn is considerate of those who are
told. -/
def ConsiderateAll (call : Call σ) (tell : Tell σ) (held told : List SubscriberId) :
    List SubscriberId → World σ → Prop
  | [], _ => True
  | id :: rest, w =>
    (∀ x v reaction, w.scene.watcher? id = some x → w.news id = some v →
      w.code.reactions[id]? = some reaction →
        Considerate call tell (id :: rest ++ held) told (reaction v) (w.evaluated id x)) ∧
    ∀ r w₁, Notification.update call id w = some (r, w₁) →
      ConsiderateAll call tell held told rest (w₁.withStore (w₁.scene.store.release id))

/-! ## One turn -/

/-- The watcher after a turn that ended in the given way: if it succeeded the news have been
observed. -/
def Watcher.heeding (x : Watcher) (news : Option Value) (r : Except StateError Unit) : Watcher :=
  if r.isOk then { x with observed := news.getD x.observed } else x

/-- The world in which a subscriber has heeded its news. -/
def World.heeding (w : World σ) (id : SubscriberId) (news : Option Value)
    (r : Except StateError Unit) : World σ :=
  if r.isOk then news.elim w (w.noting id) else w

namespace World

variable (w : World σ) (id : SubscriberId) (news : Option Value) (r : Except StateError Unit)

@[simp] theorem store_heeding : (w.heeding id news r).scene.store = w.scene.store := by
  rw [heeding]
  split
  · cases news <;> rfl
  · rfl

@[simp] theorem code_heeding : (w.heeding id news r).code = w.code := by
  rw [heeding]
  split
  · cases news <;> rfl
  · rfl

@[simp] theorem heeding_none : w.heeding id none r = w := by
  rw [heeding]
  split <;> rfl

theorem watcher?_heeding (i : SubscriberId) : (w.heeding id news r).scene.watcher? i =
    if i = id then (w.scene.watcher? i).map (·.heeding news r) else w.scene.watcher? i := by
  have hsame : ∀ w' : World σ, w' = w → (∀ x : Watcher, x.heeding news r = x) →
      w'.scene.watcher? i =
        if i = id then (w.scene.watcher? i).map (·.heeding news r) else w.scene.watcher? i := by
    rintro w' rfl hx
    simp only [hx, Option.map_id', ite_self]
  cases r with
  | error e => exact hsame _ rfl fun _ ↦ rfl
  | ok u =>
    cases news with
    | none => exact hsame _ rfl fun _ ↦ rfl
    | some v => exact w.watcher?_noting id v i

end World

namespace Notification

variable {call : Call σ} {tell : Tell σ} {held told : List SubscriberId} {w : World σ}
  {id : SubscriberId} {x : Watcher}

/-- An update calls code if there are news, and succeeds if the code does. -/
theorem update_of_news {v : Value} (hx : w.scene.watcher? id = some x) (hnews : w.news id = some v)
    {r : Except StateError Unit} {w₁ : World σ}
    (hreact : react call id v (w.evaluated id x) = some (r, w₁)) :
    update call id w = some (r, w₁.heeding id (some v) r) := by
  obtain ⟨hv, hnew⟩ := (news_eq_some hx).1 hnews
  have hscene : Run.scene w = some (w.scene, w) := rfl
  rw [update, Run.bind_of_eq_some hscene, Scene.subscribers_of_watcher? hx]
  simp only
  rw [Run.bind_of_eq_some (Run.onStore_evaluate w id x), hv]
  simp only [hnew, Bool.false_eq_true, if_false]
  rw [Run.bind_of_eq_some hreact]
  cases r <;> rfl

/-- An update without news looks up the value of the expression and fails if there is none. -/
theorem exists_update_of_no_news (call : Call σ) (hx : w.scene.watcher? id = some x)
    (hnews : w.news id = none) : ∃ r, update call id w = some (r, w.evaluated id x) := by
  have hreact : ∀ v, w.news id = some v →
      ∃ r w', react call id v (w.evaluated id x) = some (r, w') := fun v hv ↦ by
    rw [hnews] at hv
    cases hv
  obtain ⟨r, w', hrun⟩ := exists_update hx hreact
  exact ⟨r, (update_of_no_news hx hnews hrun).1 ▸ hrun⟩

/-- **One turn** returns, and until the watcher heeds its news everybody is bypassed. -/
theorem exists_turn (hx : w.scene.watcher? id = some x)
    (hcode : ∀ v reaction, w.news id = some v → w.code.reactions[id]? = some reaction →
      Considerate call tell held told (reaction v) (w.evaluated id x)) :
    ∃ r w₁, (w.evaluated id x).Bypasses told w₁ ∧
      update call id w = some (r, w₁.heeding id (w.news id) r) := by
  cases hnews : w.news id with
  | none =>
    obtain ⟨r, hrun⟩ := exists_update_of_no_news call hx hnews
    exact ⟨r, w.evaluated id x, .refl _ _, by rwa [World.heeding_none]⟩
  | some v =>
    cases hreaction : w.code.reactions[id]? with
    | none =>
      exact ⟨.ok (), w.evaluated id x, .refl _ _,
        update_of_news hx hnews (react_of_no_code (w := w.evaluated id x) hreaction v)⟩
    | some reaction =>
      obtain ⟨result, w₁, hcall, hbypasses⟩ := (hcode v reaction hnews hreaction).returns
      exact ⟨result.mapError BindError.toState, w₁, hbypasses,
        update_of_news hx hnews (react_of_code (w := w.evaluated id x) hreaction hcall)⟩

end Notification

/-! ## How turns end, and whose code is called -/

/-- The result of updates that end in the given ways: the first error, if there is one. -/
def firstFailure (ends : List (SubscriberId × Except StateError Unit)) : Except StateError Unit :=
  ((ends.find? fun p ↦ !p.2.isOk).map Prod.snd).getD (.ok ())

theorem firstFailure_cons (p : SubscriberId × Except StateError Unit)
    (ends : List (SubscriberId × Except StateError Unit)) :
    firstFailure (p :: ends) = firstError p.2 (firstFailure ends) := by
  obtain ⟨id, r⟩ := p
  cases r <;> rfl

namespace Notification

/-- How the updates end when subscribers are updated in turn. -/
def outcomes (call : Call σ) :
    List SubscriberId → World σ → List (SubscriberId × Except StateError Unit)
  | [], _ => []
  | id :: rest, w =>
    match update call id w with
    | none => []
    | some (r, w₁) => (id, r) :: outcomes call rest (w₁.withStore (w₁.scene.store.release id))

variable {call : Call σ} {tell : Tell σ} {held told : List SubscriberId} {w : World σ}
  {id : SubscriberId} {x : Watcher}

/-- In the turn of a watcher its own code is called if there are news, and no other code of those
who are told. -/
theorem callees_ofUpdate (hx : w.scene.watcher? id = some x) (hid : id ∈ told)
    {reaction : Value → Action σ} (hreaction : w.code.reactions[id]? = some reaction)
    (hcode : ∀ v, w.news id = some v →
      Considerate call tell held told (reaction v) (w.evaluated id x)) :
    (callees (Trace.ofUpdate tell held id w)).filter (· ∈ told) =
      ((w.news id).map fun _ ↦ id).toList := by
  rw [ofUpdate_eq tell held hx]
  cases hnews : w.news id with
  | none => rfl
  | some v =>
    have hsilent :
        (callees (tell held (reaction v) (w.evaluated id x))).filter (· ∈ told) = [] := by
      rw [List.filter_eq_nil_iff]
      intro i hi hmem
      exact (hcode v hnews).silent i (of_decide_eq_true hmem) (mem_callees.1 hi)
    have hcode : (w.evaluated id x).code.reactions[id]? = some reaction := hreaction
    rw [Option.map_some, Option.getD_some, Trace.ofReact, hcode]
    show (id :: callees (tell held (reaction v) (w.evaluated id x))).filter (· ∈ told) = [id]
    rw [List.filter_cons_of_pos (by simpa using hid), hsilent]

end Notification

/-! ## A fan-out -/

/-- Whether the expression of a watcher looks the property up, and finds it. -/
def World.finds (w : World σ) (o : ObjectId) (key : String) (id : SubscriberId) : Bool :=
  (w.scene.watcher? id).any fun x ↦ w.scene.store.finds x.expr x.root o key

/-- The subscriber is a watcher with code, and what its expression reads is there. -/
structure World.Watches (w : World σ) (id : SubscriberId) : Prop where
  watcher : ∃ x, w.scene.watcher? id = some x ∧
    ∀ r ∈ w.scene.store.reads x.expr x.root, r.1 < w.scene.store.objects.size
  code : ∃ reaction, w.code.reactions[id]? = some reaction

/-- A fan-out under way that began in `w₀`: those who wait for their turn are as they were. -/
structure Telling (told : List SubscriberId) (w₀ : World σ) (pending : List SubscriberId)
    (w : World σ) : Prop where
  kept : w₀.scene.store.Kept w.scene.store
  known : ∀ id ∈ told, id < w.scene.store.handles.size
  reactions : ∀ id ∈ told, w.code.reactions[id]? = w₀.code.reactions[id]?
  subset : ∀ id ∈ pending, id ∈ told
  waiting : ∀ id ∈ pending, w.scene.watcher? id = w₀.scene.watcher? id
  nodup : pending.Nodup

/-- What becomes of a world when `ids` are updated in turn and their updates end in the given ways,
as part of a fan-out that began in `w₀`. -/
structure Told (told : List SubscriberId) (w₀ : World σ) (ids : List SubscriberId) (w : World σ)
    (ends : List (SubscriberId × Except StateError Unit)) (w' : World σ) : Prop where
  kept : w.scene.store.Kept w'.scene.store
  size_le : w.scene.store.handles.size ≤ w'.scene.store.handles.size
  live : ∀ id ∈ told, w'.scene.store.isLive id = true → w.scene.store.isLive id = true
  reactions : ∀ id ∈ told, w'.code.reactions[id]? = w.code.reactions[id]?
  others : ∀ id ∈ told, id ∉ ids → w'.scene.watcher? id = w.scene.watcher? id
  watchers : ∀ p ∈ ends,
    w'.scene.watcher? p.1 = (w₀.scene.watcher? p.1).map (·.heeding (w₀.news p.1) p.2)
  subscribers : ∀ keep : SubscriberId → Bool,
    (∀ id, keep id = true → id ∈ told ∧ w'.scene.store.isLive id = true) → ∀ o key,
      (w'.scene.store.subscribers o key).filter keep =
        joinedBy ((w.scene.store.subscribers o key).filter keep)
          (ids.filter fun id ↦ keep id && w₀.finds o key id)

namespace Told

variable {told ids ids' : List SubscriberId} {w₀ w w₁ w' : World σ}
  {ends ends' : List (SubscriberId × Except StateError Unit)}

theorem nil (told : List SubscriberId) (w₀ w : World σ) : Told told w₀ [] w [] w where
  kept := .refl _
  size_le := Nat.le_refl _
  live _ _ h := h
  reactions _ _ := rfl
  others _ _ _ := rfl
  watchers p hp := by cases hp
  subscribers _ _ _ _ := rfl

/-- One part of a fan-out after another. -/
theorem append (h : Told told w₀ ids w ends w₁) (h' : Told told w₀ ids' w₁ ends' w')
    (hids : ∀ id ∈ ids, id ∈ told ∧ id ∉ ids') (hends : ends.map Prod.fst = ids) :
    Told told w₀ (ids ++ ids') w (ends ++ ends') w' where
  kept := h.kept.trans h'.kept
  size_le := Nat.le_trans h.size_le h'.size_le
  live id hid hlive := h.live id hid (h'.live id hid hlive)
  reactions id hid := (h'.reactions id hid).trans (h.reactions id hid)
  others id hid hnot := by
    rw [List.mem_append, not_or] at hnot
    exact (h'.others id hid hnot.2).trans (h.others id hid hnot.1)
  watchers p hp := by
    rcases List.mem_append.1 hp with hp | hp
    · obtain ⟨hid, hnot⟩ := hids p.1 (hends ▸ List.mem_map_of_mem hp)
      exact (h'.others p.1 hid hnot).trans (h.watchers p hp)
    · exact h'.watchers p hp
  subscribers keep hkeep o key := by
    rw [h'.subscribers keep hkeep, h.subscribers keep fun id hid ↦
      ⟨(hkeep id hid).1, h'.live id (hkeep id hid).1 (hkeep id hid).2⟩,
        List.filter_append, joinedBy,
      joinedBy, joinedBy, List.foldl_append]

end Told

namespace Telling

open Notification

variable {call : Call σ} {tell : Tell σ} {held told ids rest : List SubscriberId} {w₀ w : World σ}
  {id : SubscriberId}

/-- What the expression of somebody who waits reads is as it was. -/
theorem peek_eq (h : Telling told w₀ ids w) {x : Watcher}
    (hwithin : ∀ r ∈ w₀.scene.store.reads x.expr x.root, r.1 < w₀.scene.store.objects.size) :
    ∀ r ∈ w₀.scene.store.reads x.expr x.root,
      w.scene.store.peek r.1 r.2 = w₀.scene.store.peek r.1 r.2 :=
  fun r hr ↦ h.kept.peek_eq (hwithin r hr) r.2

/-- Whoever waits has the news that it had when the fan-out began. -/
theorem news_eq (h : Telling told w₀ (id :: rest) w) (hwatches : w₀.Watches id) :
    w.news id = w₀.news id := by
  obtain ⟨x, hx, hwithin⟩ := hwatches.watcher
  rw [World.news, World.news, h.waiting id List.mem_cons_self, hx, Option.bind_some,
    Option.bind_some, Store.resolve_congr (h.peek_eq hwithin)]

/-- **One turn.** -/
theorem turn (h : Telling told w₀ (id :: rest) w) (hwatches : w₀.Watches id)
    (hcode : ∀ x v reaction, w.scene.watcher? id = some x → w.news id = some v →
      w.code.reactions[id]? = some reaction →
        Considerate call tell held told (reaction v) (w.evaluated id x)) :
    ∃ r w₁, update call id w = some (r, w₁) ∧
      Told told w₀ [id] w [(id, r)] (w₁.withStore (w₁.scene.store.release id)) := by
  obtain ⟨x, hx₀, hwithin⟩ := hwatches.watcher
  have hx : w.scene.watcher? id = some x := (h.waiting id List.mem_cons_self).trans hx₀
  obtain ⟨r, w₁, hbypasses, hrun⟩ := exists_turn hx fun v reaction ↦ hcode x v reaction hx
  refine ⟨r, _, hrun, ?_⟩
  have hlive : ∀ i ∈ told, (w₁.scene.store.release id).isLive i = true →
      w.scene.store.isLive i = true := fun i hi hl ↦ by
    rw [← Store.isLive_congr (w.handles_evaluated id x)]
    exact hbypasses.live i hi (Store.isLive_of_release hl)
  constructor
  case kept =>
    rw [World.store_withStore, World.store_heeding]
    exact (Store.Kept.of_contents (w.contents_evaluated id x)).trans hbypasses.kept
  case size_le =>
    rw [World.store_withStore, World.store_heeding, Store.size_handles_release,
      ← w.handles_evaluated id x]
    exact hbypasses.size_le
  case live =>
    rw [World.store_withStore, World.store_heeding]
    exact hlive
  case reactions =>
    intro i hi
    rw [World.code_withStore, World.code_heeding]
    exact hbypasses.reactions i hi
  case others =>
    intro i hi hne
    rw [World.watcher?_withStore, World.watcher?_heeding, if_neg (by simpa using hne)]
    exact hbypasses.watchers i hi
  case watchers =>
    intro p hp
    cases List.mem_singleton.1 hp
    rw [World.watcher?_withStore, World.watcher?_heeding, if_pos rfl,
      hbypasses.watchers id (h.subset id List.mem_cons_self), h.news_eq hwatches]
    exact congrArg _ (hx.trans hx₀.symm)
  case subscribers =>
    intro keep hkeep o key
    rw [World.store_withStore, World.store_heeding] at hkeep ⊢
    rw [Store.subscribers_congr (Store.objects_release ..), hbypasses.subscribers keep fun i hi ↦
      ⟨(hkeep i hi).1, Store.isLive_of_release (hkeep i hi).2⟩, World.evaluated,
        World.store_withStore,
      Store.filter_subscribers_evaluate (h.known id (h.subset id List.mem_cons_self)) fun i hi ↦
        hlive i (hkeep i hi).1 (hkeep i hi).2]
    congr 1
    refine List.filter_congr fun i hi ↦ ?_
    rw [List.mem_singleton.1 hi, World.finds, hx₀, Option.any_some,
      Store.finds_congr (h.peek_eq hwithin)]

/-- The others still wait when a turn is over. -/
theorem next (h : Telling told w₀ (id :: rest) w) {r : Except StateError Unit} {w' : World σ}
    (htold : Told told w₀ [id] w [(id, r)] w') : Telling told w₀ rest w' where
  kept := h.kept.trans htold.kept
  known i hi := Nat.lt_of_lt_of_le (h.known i hi) htold.size_le
  reactions i hi := (htold.reactions i hi).trans (h.reactions i hi)
  subset i hi := h.subset i (List.mem_cons_of_mem _ hi)
  waiting i hi := by
    have hne : i ∉ [id] := fun hmem ↦
      (List.nodup_cons.1 h.nodup).1 (List.mem_singleton.1 hmem ▸ hi)
    exact (htold.others i (h.subset i (List.mem_cons_of_mem _ hi)) hne).trans
      (h.waiting i (List.mem_cons_of_mem _ hi))
  nodup := (List.nodup_cons.1 h.nodup).2

/-- **A fan-out among the considerate** comes to its end.  Everybody has a turn, and the first error
is the result.  The code of those who have news is called, in turn and with their news, and no other
code of those who are told. -/
theorem updateAll (h : Telling told w₀ ids w) (hwatches : ∀ id ∈ told, w₀.Watches id)
    (hcode : ConsiderateAll call tell held told ids w) :
    ∃ w', Notification.updateAll call ids w = some (firstFailure (outcomes call ids w), w') ∧
      (outcomes call ids w).map Prod.fst = ids ∧
      calls call ids w = ids.filterMap (fun id ↦ (w₀.news id).map (id, ·)) ∧
      (callees (Trace.ofUpdateAll call tell held ids w)).filter (· ∈ told) =
        (calls call ids w).map Prod.fst ∧
      Told told w₀ ids w (outcomes call ids w) w' := by
  induction ids generalizing w with
  | nil => exact ⟨w, rfl, rfl, rfl, rfl, .nil told w₀ w⟩
  | cons id ids ih =>
    have hid := h.subset id List.mem_cons_self
    have hnews := h.news_eq (hwatches id hid)
    obtain ⟨r, w₁, hrun, hturn⟩ := h.turn (hwatches id hid) hcode.1
    obtain ⟨w', hrest, hfst, hcalls, htrace, htold⟩ := ih (h.next hturn) (hcode.2 r w₁ hrun)
    have houtcomes : outcomes call (id :: ids) w =
        (id, r) :: outcomes call ids (w₁.withStore (w₁.scene.store.release id)) := by
      rw [outcomes, hrun]
    have hcalls' : calls call (id :: ids) w = ((w.news id).map (id, ·)).toList ++
        calls call ids (w₁.withStore (w₁.scene.store.release id)) := by
      rw [calls, hrun]
    refine ⟨w', ?_, ?_, ?_, ?_, ?_⟩
    · have hrelease : Run.editStore (fun s ↦ s.release id) w₁ =
          some ((), w₁.withStore (w₁.scene.store.release id)) := rfl
      rw [Notification.updateAll, Run.bind_of_eq_some hrun, Run.bind_of_eq_some hrelease,
        Run.bind_of_eq_some hrest, houtcomes, firstFailure_cons]
      rfl
    · rw [houtcomes, List.map_cons, hfst]
    · rw [hcalls', hcalls, hnews, List.filterMap_cons]
      cases w₀.news id <;> rfl
    · obtain ⟨x, hx, -⟩ := (hwatches id hid).watcher
      obtain ⟨reaction, hreaction⟩ := (hwatches id hid).code
      rw [← h.waiting id List.mem_cons_self] at hx
      rw [← h.reactions id hid] at hreaction
      rw [Trace.ofUpdateAll_cons hrun, callees_append, List.filter_append, htrace, hcalls',
        List.map_append,
        callees_ofUpdate hx hid hreaction fun v hv ↦ hcode.1 x v reaction hx hv hreaction]
      cases w.news id <;> rfl
    · rw [houtcomes]
      refine hturn.append htold (fun i hi ↦ ?_) rfl
      cases List.mem_singleton.1 hi
      exact ⟨hid, (List.nodup_cons.1 h.nodup).1⟩

end Telling

end DataBinding

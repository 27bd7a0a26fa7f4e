import DataBinding.Proofs.Engine.OrderPreservation

/-!
# What watchers know between operations

A program that uses the library does one thing after another, and each of them is an action that
runs to its end.  `Reached marks w` says that `w` can be reached in this way from a world without
watchers, over a state of any shape, and that `marks` is what happened.  Between two operations
nobody waits and nobody is running, so everybody is in order (`Reached.inOrder`).  Two readings of
this:

* `Reached.coherent` — when the code of watchers succeeds and leaves the state alone, every live
  watcher has observed the value of its expression and is on the list of everything the expression
  reads.  It is no matter that expressions may lose their values and gain them again.
* `Reached.observed_alike_iff` — when the code of watchers writes state itself, **a watcher has
  observed the value of its expression unless it was overtaken**: its code was called with a value,
  the expression took another one while the code ran, and nobody called it about that since.

`update_is_lost` is a run in which a watcher is overtaken and then misses a change.
-/

set_option autoImplicit false

namespace DataBinding

variable {σ : Type}

/-- A world in which nobody watches anything yet.  The objects may be shared and lie inside
themselves. -/
structure World.Unwatched (w : World σ) : Prop where
  idle : w.scene.store.tracking = []
  closed : w.scene.store.Closed
  subscribers : w.scene.subscribers = #[]
  handles : w.scene.store.handles = #[]

/-- Worlds between the operations of a program, and what has happened so far. -/
inductive Reached : List Mark → World σ → Prop
  /-- Before the first operation. -/
  | start {w : World σ} (h : w.Unwatched) : Reached [] w
  /-- An operation that has come to its end. -/
  | act {marks : List Mark} {w w' : World σ} {depth : Nat} {a : Action σ}
      {r : Except BindError Unit} (h : Reached marks w) (hrun : run depth a w = some (r, w'))
      (hcov : Covered (chronicle depth a w)) : Reached (marks ++ chronicle depth a w) w'

/-- The code of watchers has always succeeded and left the objects as they were. -/
def Calm (marks : List Mark) : Prop :=
  ∀ id, Mark.ended id .failed ∉ marks ∧ Mark.meddled id ∉ marks

theorem lastEnding_mem {marks : List Mark} {id : SubscriberId} {how : Ending}
    (h : lastEnding marks id = some how) : Mark.ended id how ∈ marks := by
  obtain ⟨k, hk, hending⟩ := List.mem_filterMap.1 (List.mem_of_getLast? h)
  cases k with
  | ended id' how' =>
    rw [Mark.ending?, Option.ite_none_right_eq_some] at hending
    obtain ⟨rfl, hhow⟩ := hending
    rwa [← Option.some.inj hhow]
  | _ => cases hending

namespace Reached

variable {marks : List Mark} {w : World σ}

/-- Between operations everybody is in order, and nobody was overtaken but by code that meddled. -/
theorem inOrder_and_meddled (h : Reached marks w) :
    InOrder [] [] marks w ∧
      ∀ id, Mark.ended id .overtaken ∈ marks → Mark.meddled id ∈ marks := by
  induction h with
  | start h =>
    have hnobody : ∀ id, (World.scene _).watcher? id = none := fun id ↦ by
      rw [Scene.watcher?, h.subscribers]
      rfl
    refine ⟨⟨h.idle, h.closed, ?_, ?_, ?_, ?_⟩, by simp⟩
    · rw [h.subscribers, h.handles]
      rfl
    · intro id x hx
      rw [hnobody] at hx
      cases hx
    · intro id _ _ x hx
      rw [hnobody] at hx
      cases hx
    · intro id _ _ _ x v hx
      rw [hnobody] at hx
      cases hx
  | act h hrun hcov ih =>
    have hcarries := run_respects _ ih.1 hrun hcov
    refine ⟨hcarries.inOrder, fun id hid ↦ ?_⟩
    rw [List.mem_append] at hid ⊢
    exact hid.imp (ih.2 id) (hcarries.meddled id)

theorem inOrder (h : Reached marks w) : InOrder [] [] marks w := h.inOrder_and_meddled.1

/-- **Watchers are coherent.**  While the code of watchers succeeds and leaves the state alone,
every live watcher is subscribed to every property its expression reads, as far as the expression
resolves, and has observed the value of its expression if there is one. -/
theorem coherent (h : Reached marks w) (hcalm : Calm marks) {id : SubscriberId} {x : Watcher}
    (hlive : w.scene.store.isLive id = true) (hx : w.scene.watcher? id = some x) :
    (∀ r ∈ w.scene.store.reads x.expr x.root, w.scene.store.Subscribes id r.1 r.2) ∧
      ∀ v, (Store.getValue x.expr x.root w.scene.store).1 = .ok v → x.observed.Alike v := by
  obtain ⟨horder, hmeddled⟩ := h.inOrder_and_meddled
  refine ⟨horder.attached id hlive (by simp) x hx, fun v hv ↦ ?_⟩
  rw [Store.getValue_fst] at hv
  have hfailed : lastEnding marks id ≠ some .failed := fun hlast ↦
    (hcalm id).1 (lastEnding_mem hlast)
  have hovertaken : lastEnding marks id ≠ some .overtaken := fun hlast ↦
    (hcalm id).2 (hmeddled id (lastEnding_mem hlast))
  exact (horder.fresh id hlive (by simp) (by simp) x v hx hv hfailed).2 hovertaken

/-- **A watcher is behind exactly when it was overtaken.**  If it is not, then every write that
gives its expression another value finds it among those to be told, and the value is new to it. -/
theorem observed_alike_iff (h : Reached marks w) {id : SubscriberId} {x : Watcher} {v : Value}
    (hlive : w.scene.store.isLive id = true) (hx : w.scene.watcher? id = some x)
    (hv : (Store.getValue x.expr x.root w.scene.store).1 = .ok v)
    (hsuccess : lastEnding marks id ≠ some .failed) :
    (x.observed.Alike v ↔ lastEnding marks id ≠ some .overtaken) ∧
      (lastEnding marks id ≠ some .overtaken → ∀ o key u v',
        (w.scene.store.write o key u).1 = .replaced →
        (Store.getValue x.expr x.root (w.scene.store.write o key u).2).1 = .ok v' →
        ¬v.Alike v' →
        id ∈ (w.scene.store.write o key u).2.liveSubscribers o key ∧
          x.observed.identical v' = false) := by
  have horder := h.inOrder
  rw [Store.getValue_fst] at hv
  have hiff := horder.fresh id hlive (by simp) (by simp) x v hx hv hsuccess
  refine ⟨hiff, fun hlast o key u v' hw hv' hchanged ↦ ?_⟩
  rw [Store.getValue_fst] at hv'
  have halike := hiff.2 hlast
  constructor
  · refine (horder.attached id hlive (by simp)).mem_liveSubscribers hlive hx hw ?_
    -- A write to a property that is not read changes no value.
    by_cases hr : (o, key) ∈ w.scene.store.reads x.expr x.root
    · exact hr
    · have hsame := Store.resolve_write_of_not_read hw hr
      rw [hv, hv'] at hsame
      cases hsame
      exact absurd (.refl _) hchanged
  · cases hidentical : x.observed.identical v' with
    | false => rfl
    | true => exact absurd (halike.of_identical hidentical) hchanged

end Reached

/-! ## A run in which nothing is lost, and one in which something is -/

/-- What happens when actions are run one after another, and the world at the end. -/
def history (depth : Nat) : List (Action σ) → World σ → Option (List Mark × World σ)
  | [], w => some ([], w)
  | a :: rest, w => do
    let (_, w₁) ← run depth a w
    let (marks, w₂) ← history depth rest w₁
    return (chronicle depth a w ++ marks, w₂)

theorem Reached.history {marks more : List Mark} {w w' : World σ} (h : Reached marks w)
    {depth : Nat} {as : List (Action σ)} (hrun : history depth as w = some (more, w'))
    (hcov : Covered more) : Reached (marks ++ more) w' := by
  induction as generalizing marks more w with
  | nil =>
    cases hrun
    rwa [List.append_nil]
  | cons a rest ih =>
    obtain ⟨⟨r, w₁⟩, hfirst, hrun⟩ := Option.bind_eq_some_iff.1 hrun
    obtain ⟨⟨marks₂, w₂⟩, hrest, hrun⟩ := Option.bind_eq_some_iff.1 hrun
    cases hrun
    rw [covered_append] at hcov
    rw [← List.append_assoc]
    exact ih (h.act hfirst hcov.1) hrest hcov.2

theorem World.unwatched_start (document : Document) (data : σ) :
    (World.start document data).Unwatched where
  idle := rfl
  closed o key v h := by
    simp [World.start, Store.peek, Store.property?, Store.object?, Store.empty] at h
  subscribers := rfl
  handles := rfl

/-- Code that keeps count of its calls and leaves the state alone. -/
def counting : Value → Action Nat := fun _ ↦ .modify (· + 1) (.done (.ok ()))

/-- Watches a property of an object in an object. -/
def watchingInside : Action Nat :=
  .observe (.object [("a", .object [("b", .int 1)])]) fun v ↦
    .watch "a.b" v counting fun _ ↦ .done (.ok ())

/-- Takes the inner object away and puts it back with another number in it. -/
def replacingInside : Action Nat :=
  .set 1 "a" (.number (.ofInt 5)) fun _ ↦
    .set 0 "b" (.number (.ofInt 2)) fun _ ↦
      .set 1 "a" (.object 0) fun r ↦ .done (r.mapError .state)

/-- The watcher has found the inner object again. -/
theorem coherent_after_replacing :
    ∃ marks, ∃ w : World Nat, Reached marks w ∧ Calm marks ∧ w.scene.store.isLive 0 = true ∧
      w.scene.watcher? 0 = some ⟨"a.b", .object 1, .number (.ofInt 2)⟩ ∧
      (∀ r ∈ w.scene.store.reads "a.b" (.object 1), w.scene.store.Subscribes 0 r.1 r.2) ∧
      ∀ v, (Store.getValue "a.b" (.object 1) w.scene.store).1 = .ok v →
        (Value.number (.ofInt 2)).Alike v := by
  have hrun : (history 5 [watchingInside, replacingInside] (.start .empty 0)).map
      (fun p ↦ (p.1, p.2.scene.store.isLive 0, p.2.scene.watcher? 0)) =
      some ([.ended 0 .settled, .ended 0 .settled], true,
        some ⟨"a.b", .object 1, .number (.ofInt 2)⟩) := by
    decide +kernel
  obtain ⟨⟨marks, w⟩, hhistory, hfacts⟩ := Option.map_eq_some_iff.1 hrun
  simp only [Prod.mk.injEq] at hfacts
  obtain ⟨rfl, hlive, hx⟩ := hfacts
  have hreached := (Reached.start (World.unwatched_start .empty 0)).history hhistory
    (by simp [Covered, Mark.isCovered])
  have hcalm : Calm [.ended 0 .settled, .ended 0 .settled] := by simp [Calm]
  exact ⟨_, w, hreached, hcalm, hlive, hx, hreached.coherent hcalm hlive hx⟩

/-- Code that sets the number it is told about back to 10, the first time it is called. -/
def resetting : Value → Action Nat := fun _ ↦
  .inspect fun s ↦ .modify (· + 1) <|
    if s.data = 0 then .set 0 "n" (.number (.ofInt 10)) fun r ↦ .done (r.mapError .state)
    else .done (.ok ())

/-- Watches a number with code that sets it back. -/
def watchingReset : Action Nat :=
  .observe (.object [("n", .int 1)]) fun v ↦ .watch "n" v resetting fun _ ↦ .done (.ok ())

/-- Sets the number to 20. -/
def setting : Action Nat := .set 0 "n" (.number (.ofInt 20)) fun r ↦ .done (r.mapError .state)

/-- Whether an operation succeeded, and after it the number, what the watcher has observed, and how
often its code was called. -/
def report (r : Except BindError Unit) (w : World Nat) :
    Bool × Option Value × Option Value × Nat :=
  (r.isOk, w.scene.store.peek 0 "n", (w.scene.watcher? 0).map Watcher.observed, w.scene.data)

/-- **An update is lost.**  Setting the number to 20 calls the code twice, the second time from
within the first and about the 10 that the code has set.  When the write has succeeded the number is
10, but the watcher has observed 20; so when the number is set to 20 once more, which also succeeds,
the code is not called. -/
theorem update_is_lost :
    (do
      let (_, w) ← run 5 watchingReset (.start .empty 0)
      let (first, w₁) ← run 5 setting w
      let (second, w₂) ← run 5 setting w₁
      return [report first w₁, report second w₂]) =
      some [(true, some (.number (.ofInt 10)), some (.number (.ofInt 20)), 2),
        (true, some (.number (.ofInt 20)), some (.number (.ofInt 20)), 2)] := by
  decide +kernel

/-- In that run the watcher is behind because it was overtaken. -/
theorem overtaken_after_setting :
    ∃ marks, ∃ w : World Nat, Reached marks w ∧ w.scene.store.isLive 0 = true ∧
      w.scene.watcher? 0 = some ⟨"n", .object 0, .number (.ofInt 20)⟩ ∧
      (Store.getValue "n" (.object 0) w.scene.store).1 = .ok (.number (.ofInt 10)) ∧
      lastEnding marks 0 = some .overtaken ∧
      ¬(Value.number (.ofInt 20)).Alike (.number (.ofInt 10)) := by
  have hrun : (history 5 [watchingReset, setting] (.start .empty 0)).map
      (fun p ↦ (p.1, p.2.scene.store.isLive 0, p.2.scene.watcher? 0,
        (Store.getValue "n" (.object 0) p.2.scene.store).1.toOption)) =
      some ([.ended 0 .settled, .ended 0 .settled, .meddled 0, .ended 0 .overtaken], true,
        some ⟨"n", .object 0, .number (.ofInt 20)⟩, some (.number (.ofInt 10))) := by
    decide +kernel
  obtain ⟨⟨marks, w⟩, hhistory, hfacts⟩ := Option.map_eq_some_iff.1 hrun
  simp only [Prod.mk.injEq] at hfacts
  obtain ⟨rfl, hlive, hx, hvalue⟩ := hfacts
  have hv : (Store.getValue "n" (.object 0) w.scene.store).1 = .ok (.number (.ofInt 10)) := by
    cases h : (Store.getValue "n" (.object 0) w.scene.store).1 with
    | error e => simp [h, Except.toOption] at hvalue
    | ok v => simpa [h, Except.toOption] using hvalue
  have hreached := (Reached.start (World.unwatched_start .empty 0)).history hhistory
    (by simp [Covered, Mark.isCovered])
  have hlast : lastEnding [.ended 0 .settled, .ended 0 .settled, .meddled 0, .ended 0 .overtaken] 0
      = some .overtaken := by decide
  have hiff := (hreached.observed_alike_iff hlive hx hv (by rw [List.nil_append, hlast]; simp)).1
  refine ⟨_, w, hreached, hlive, hx, hv, hlast, ?_⟩
  rw [hiff, List.nil_append, hlast]
  simp

end DataBinding

import DataBinding.Proofs.Engine.PathLaws
import DataBinding.Proofs.Template.CompiledAnew

/-!
# Defining a key tells nobody

A key that is missing reads as null, and there is no property yet on which a read could be recorded.
A write that defines the key tells nobody, on the grounds that nobody can have read it.  But an
expression can: it may end at the missing key, and then its value is null, or go on beyond it, and
then it has none (`resolveFrom_of_missing`).

So **a watcher that is up to date and whose expression ends at the key is up to date after the write
only if it is null that was written** (`defined_behind_back`).  This holds for every way in which a
program can make the write (`Defining`).  `definition_is_missed` is a run in which a watcher misses
a number.
-/

set_option autoImplicit false

namespace DataBinding

variable {σ : Type}

namespace Store

variable {s t : Store} {o : ObjectId} {key path : String} {root v x : Value}

/-! ## Expressions that read a missing key -/

/-- **A missing key is the last thing that an expression reads.**  The expression ends there, or it
cannot go on. -/
theorem resolveFrom_of_missing (hmissing : s.peek o key = none) {segments : List String}
    (hread : (o, key) ∈ s.readsFrom segments x) :
    s.resolveFrom path segments x = .ok .null ∨
      ∃ segment, s.resolveFrom path segments x =
        .error (.unresolved (Text.trim path) segment .null) := by
  induction segments generalizing x with
  | nil => cases x <;> cases hread
  | cons segment rest ih =>
    cases x with
    | object o' =>
      rw [readsFrom, List.mem_cons, Prod.mk.injEq] at hread
      rcases hread with ⟨rfl, rfl⟩ | hread
      · rw [resolveFrom, hmissing]
        cases rest with
        | nil => exact .inl rfl
        | cons segment' rest => exact .inr ⟨segment', rfl⟩
      · exact ih hread
    | _ => cases hread

/-- Stores that differ in one property are read alike up to that property. -/
theorem mem_readsFrom_of_agree (hagree : ∀ o' k, ¬(o' = o ∧ k = key) → t.peek o' k = s.peek o' k)
    {segments : List String} (hread : (o, key) ∈ s.readsFrom segments x) :
    (o, key) ∈ t.readsFrom segments x := by
  induction segments generalizing x with
  | nil => cases x <;> cases hread
  | cons segment rest ih =>
    cases x with
    | object o' =>
      rw [readsFrom, List.mem_cons] at hread ⊢
      by_cases hhere : o' = o ∧ segment = key
      · exact .inl (Prod.ext hhere.1.symm hhere.2.symm)
      · rw [hagree o' segment hhere]
        rcases hread with heq | hread
        · exact absurd ⟨congrArg Prod.fst heq.symm, congrArg Prod.snd heq.symm⟩ hhere
        · exact .inr (ih hread)
    | _ => cases hread

/-- An expression that ends at a missing key has the value with which the key is defined. -/
theorem resolveFrom_of_defined (hmissing : s.peek o key = none)
    (hagree : ∀ o' k, ¬(o' = o ∧ k = key) → t.peek o' k = s.peek o' k)
    (hdefined : t.peek o key = some v) {segments : List String}
    (hread : (o, key) ∈ s.readsFrom segments x)
    (hvalue : s.resolveFrom path segments x = .ok .null) :
    t.resolveFrom path segments x = .ok v := by
  induction segments generalizing x with
  | nil => cases x <;> cases hread
  | cons segment rest ih =>
    cases x with
    | object o' =>
      rw [readsFrom, List.mem_cons] at hread
      rw [resolveFrom] at hvalue ⊢
      by_cases hhere : o' = o ∧ segment = key
      · obtain ⟨rfl, rfl⟩ := hhere
        rw [hmissing] at hvalue
        cases rest with
        | nil =>
          rw [hdefined]
          rfl
        | cons segment' rest => cases hvalue
      · rw [hagree o' segment hhere]
        rcases hread with heq | hread
        · exact absurd ⟨congrArg Prod.fst heq.symm, congrArg Prod.snd heq.symm⟩ hhere
        · exact ih hread hvalue
    | _ => cases hread

/-- The three facts for a whole expression. -/
theorem getValue_of_defined (hmissing : s.peek o key = none)
    (hagree : ∀ o' k, ¬(o' = o ∧ k = key) → t.peek o' k = s.peek o' k)
    (hdefined : t.peek o key = some v) (hread : (o, key) ∈ s.reads path root) :
    (o, key) ∈ t.reads path root ∧
      ((getValue path root s).1 = .ok .null ∧ (getValue path root t).1 = .ok v ∨
        ∃ segment, (getValue path root s).1 =
          .error (.unresolved (Text.trim path) segment .null)) := by
  rw [getValue_fst, getValue_fst, resolve, resolve, reads]
  rw [reads] at hread
  cases hsegments : Path.segments path with
  | error e =>
    rw [hsegments] at hread
    cases hread
  | ok segments =>
    rw [hsegments] at hread
    exact ⟨mem_readsFrom_of_agree hagree hread, (resolveFrom_of_missing hmissing hread).imp_left
      fun hnull ↦ ⟨hnull, resolveFrom_of_defined hmissing hagree hdefined hread hnull⟩⟩

end Store

/-! ## Writes that define a key -/

/-- A watcher's value is identical to that of its expression, if the expression has one. -/
def World.UpToDate (w : World σ) (id : SubscriberId) : Prop :=
  ∀ x, w.scene.watcher? id = some x → ∀ u,
    (Store.getValue x.expr x.root w.scene.store).1 = .ok u → x.observed.identical u = true

theorem World.upToDate_iff {w : World σ} {id : SubscriberId} {x : Watcher}
    (hx : w.scene.watcher? id = some x) : w.UpToDate id ↔ ∀ u,
      (Store.getValue x.expr x.root w.scene.store).1 = .ok u → x.observed.identical u = true := by
  constructor
  · exact fun h ↦ h x hx
  · intro h y hy
    cases hx.symm.trans hy
    exact h

/-- The ways in which a program gives a property a value, with what comes of it: whether the write
succeeds, and the world after it. -/
inductive Defining (o : ObjectId) (key : String) (v : Value) (w : World σ) :
    Option (Bool × World σ) → Prop
  /-- The property is written. -/
  | set (call : Call σ) :
      Defining o key v w ((Notification.set call o key v w).map fun p ↦ (p.1.isOk, p.2))
  /-- It is written at a path. -/
  | setPath (call : Call σ) {path : String} {root : Value}
      (htarget : (Store.target path root w.scene.store).1 = .ok (o, key)) :
      Defining o key v w ((Notification.setPath call path root v w).map fun p ↦ (p.1.isOk, p.2))
  /-- A control that is bound to it hears of an input. -/
  | input (depth : Nat) {job : CompileJob σ} {path : String} {event : Event}
      (htarget : (Store.target path job.state w.scene.store).1 = .ok (o, key))
      (hvalue : w.scene.controlValue event = v) :
      Defining o key v w ((run (depth + 1) (job.writing path event) w).map fun p ↦ (p.1.isOk, p.2))

section Defined

variable {w : World σ} {o : ObjectId} {key path : String} {v root : Value} {id : SubscriberId}

/-- The store in which a missing key has been defined, after some properties have been read. -/
def Store.defined (s : Store) (reads : List (ObjectId × String)) (o : ObjectId) (key : String)
    (v : Value) : Store :=
  (s.touch reads).modifyObject o fun object ↦ object.define key v

theorem Notification.set_of_missing (call : Call σ) (h : w.scene.store.peek o key = none)
    (v : Value) :
    set call o key v w = some (.ok (), w.withStore (w.scene.store.defined [] o key v)) := by
  rw [set_eq, Store.write_of_missing h]
  rfl

theorem Notification.setPath_of_missing (call : Call σ) (h : w.scene.store.peek o key = none)
    (htarget : (Store.target path root w.scene.store).1 = .ok (o, key)) (v : Value) :
    setPath call path root v w = some (.ok (), w.withStore
      (w.scene.store.defined (w.scene.store.approach path root) o key v)) := by
  rw [Store.target_eq] at htarget
  rw [setPath_eq_touch, show w.scene.store.destination path root = .ok (o, key) from htarget]
  refine set_of_missing (w := w.withStore _) call ?_ v
  rwa [World.store_withStore, Store.peek_congr (Store.contents_touch _ _)]

/-- **Whichever way a missing key is defined, the write succeeds and does nothing else**: no code is
called and no watcher is touched. -/
theorem Defining.eq_some {out : Option (Bool × World σ)} (h : Defining o key v w out)
    (hmissing : w.scene.store.peek o key = none) :
    ∃ reads, out = some (true, w.withStore (w.scene.store.defined reads o key v)) := by
  cases h with
  | set call => exact ⟨[], by rw [Notification.set_of_missing call hmissing]; rfl⟩
  | setPath call htarget =>
    exact ⟨_, by rw [Notification.setPath_of_missing call hmissing htarget]; rfl⟩
  | input depth htarget hvalue =>
    rename_i job path event
    subst hvalue
    have hset := Notification.setPath_of_missing (run depth) hmissing htarget
      (w.scene.controlValue event)
    refine ⟨w.scene.store.approach path job.state, ?_⟩
    show Option.map _ ((Notification.setPath (run depth) path job.state (w.scene.controlValue event)
      >>= fun r ↦ pure (r.mapError BindError.state)) w) = _
    rw [Run.bind_of_eq_some hset]
    rfl

theorem Store.peek_defined (s : Store) (reads : List (ObjectId × String))
    (ho : o < s.objects.size) (hmissing : s.peek o key = none) (v : Value) (o' : ObjectId)
    (k : String) : (s.defined reads o key v).peek o' k =
      if o' = o ∧ k = key then some v else s.peek o' k := by
  have hcontents := contents_touch s reads
  obtain ⟨object, hobject⟩ : ∃ object, (s.touch reads).object? o = some object :=
    ⟨_, Array.getElem?_eq_getElem (by rwa [← size_contents, hcontents, size_contents])⟩
  have hnew : object.property? key = none := by
    rw [← peek_congr hcontents, peek, Option.map_eq_none_iff, property?, hobject] at hmissing
    exact hmissing
  rw [← peek_congr hcontents, defined]
  by_cases hne : o' = o
  · subst hne
    rw [(assigned_define hobject hnew v).value k]
    simp
  · rw [peek_modifyObject_of_ne hne, if_neg fun h ↦ hne h.1]

/-- **Defining a key happens behind the backs of watchers.**  However a missing key is defined, the
write succeeds, calls no code and touches no watcher.  A live watcher whose expression reads the key

* either has an expression that ends there, of value null before the write and of the written value
  after it; if it was up to date, it still is exactly if null was written;
* or has an expression that could not go on there, and keeps what it observed when it last had a
  value, whatever the expression is worth now. -/
theorem defined_behind_back {out : Option (Bool × World σ)} (h : Defining o key v w out)
    (ho : o < w.scene.store.objects.size) (hmissing : w.scene.store.peek o key = none) :
    ∃ s, out = some (true, w.withStore s) ∧ s.peek o key = some v ∧
      ∀ id x, w.scene.watcher? id = some x → w.scene.store.isLive id = true →
        (o, key) ∈ w.scene.store.reads x.expr x.root →
        s.isLive id = true ∧ (o, key) ∈ s.reads x.expr x.root ∧
          ((Store.getValue x.expr x.root w.scene.store).1 = .ok .null ∧
              (Store.getValue x.expr x.root s).1 = .ok v ∧
              (w.UpToDate id → ((w.withStore s).UpToDate id ↔ v = .null)) ∨
            (∃ segment, (Store.getValue x.expr x.root w.scene.store).1 =
              .error (.unresolved (Text.trim x.expr) segment .null)) ∧
              ((w.withStore s).UpToDate id ↔
                ∀ u, (Store.getValue x.expr x.root s).1 = .ok u →
                  x.observed.identical u = true)) := by
  obtain ⟨reads, rfl⟩ := h.eq_some hmissing
  have hpeek := w.scene.store.peek_defined reads ho hmissing v
  have hdefined : (w.scene.store.defined reads o key v).peek o key = some v := by
    rw [hpeek, if_pos ⟨rfl, rfl⟩]
  refine ⟨_, rfl, hdefined, fun id x hx hlive hread ↦ ?_⟩
  have hlive' : (w.scene.store.defined reads o key v).isLive id = true := by
    rwa [Store.isLive_congr (show (w.scene.store.defined reads o key v).handles = _ from
      Store.handles_touch w.scene.store reads)]
  obtain ⟨hread', hvalue⟩ := Store.getValue_of_defined hmissing
    (fun o' k hne ↦ (hpeek o' k).trans (if_neg hne)) hdefined hread
  have hx' : (w.withStore (w.scene.store.defined reads o key v)).scene.watcher? id = some x := hx
  refine ⟨hlive', hread', hvalue.imp (fun hnull ↦ ⟨hnull.1, hnull.2, fun hup ↦ ?_⟩)
    fun hstuck ↦ ⟨hstuck, World.upToDate_iff hx'⟩⟩
  have hobserved : x.observed = .null := by
    have hsame := hup x hx .null hnull.1
    cases hx : x.observed <;> rw [hx] at hsame <;> first | rfl | cases hsame
  rw [World.upToDate_iff hx', World.store_withStore, hnull.2, hobserved]
  constructor
  · intro hsame
    have hv := hsame v rfl
    cases v <;> first | rfl | cases hv
  · rintro rfl u hu
    cases hu
    rfl

end Defined

/-! ## A definition that is missed -/

/-- Watches a key that is missing. -/
def watchingMissing : Action Nat :=
  .observe (.object []) fun v ↦ .watch "n" v counting fun _ ↦ .done (.ok ())

/-- What can be seen of a watcher of a key: whether it is alive and its expression reads the key,
the value of the expression, the watcher itself, and how often its code was called. -/
structure Sight where
  live : Bool
  reads : Bool
  value : Option Value
  watcher : Option Watcher
  calls : Nat
  deriving DecidableEq

/-- What can be seen of the watcher of the missing key. -/
def sight (w : World Nat) : Sight where
  live := w.scene.store.isLive 0
  reads := (w.scene.store.reads "n" (.object 0)).contains (0, "n")
  value := (Store.getValue "n" (.object 0) w.scene.store).1.toOption
  watcher := w.scene.watcher? 0
  calls := w.scene.data

/-- **A watcher misses a number.**  It watches a key that is missing, and is up to date with null.
When the key is defined with a number the write succeeds, but the code of the watcher is not called;
the watcher is alive, its expression reads the key and has the number as its value, and the watcher
has still observed null. -/
theorem definition_is_missed :
    ((run 5 watchingMissing (.start .empty 0)).bind fun p ↦
      (Notification.set (run 5) 0 "n" (.number (.ofInt 5)) p.2).map fun q ↦
        (sight p.2, q.1.isOk, sight q.2)) =
      some (⟨true, true, some .null, some ⟨"n", .object 0, .null⟩, 0⟩, true,
        ⟨true, true, some (.number (.ofInt 5)), some ⟨"n", .object 0, .null⟩, 0⟩) := by
  decide +kernel

/-- In that run the watcher falls behind because it was not null that was written. -/
theorem defined_behind_back_of_watching :
    ∃ (w : World Nat) (s : Store), 0 < w.scene.store.objects.size ∧
      w.scene.store.peek 0 "n" = none ∧ w.scene.store.isLive 0 = true ∧
      w.scene.watcher? 0 = some ⟨"n", .object 0, .null⟩ ∧ w.UpToDate 0 ∧
      Defining 0 "n" (.number (.ofInt 5)) w (some (true, w.withStore s)) ∧
      ¬(w.withStore s).UpToDate 0 := by
  have hrun : (run 5 watchingMissing (.start .empty 0)).map (fun p ↦
      (sight p.2, p.2.scene.store.objects.size, p.2.scene.store.peek 0 "n")) =
      some (⟨true, true, some .null, some ⟨"n", .object 0, .null⟩, 0⟩, 1, none) := by
    decide +kernel
  obtain ⟨⟨r, w⟩, -, hfacts⟩ := Option.map_eq_some_iff.1 hrun
  simp only [Prod.mk.injEq, sight, Sight.mk.injEq, List.contains_eq_mem,
    decide_eq_true_eq] at hfacts
  obtain ⟨⟨hlive, hread, hvalue, hx, -⟩, hsize, hmissing⟩ := hfacts
  have ho : 0 < w.scene.store.objects.size := by
    rw [hsize]
    exact Nat.one_pos
  have hup : w.UpToDate 0 := by
    rw [World.upToDate_iff hx]
    intro u hu
    rw [hu] at hvalue
    cases hvalue
    rfl
  have hdefining : Defining 0 "n" (.number (.ofInt 5)) w _ := .set (run 5)
  obtain ⟨s, hout, -, hwatchers⟩ := defined_behind_back hdefining ho hmissing
  rw [hout] at hdefining
  refine ⟨w, s, ho, hmissing, hlive, hx, hup, hdefining, ?_⟩
  obtain ⟨-, -, ⟨-, -, hiff⟩ | ⟨⟨segment, hstuck⟩, -⟩⟩ := hwatchers 0 _ hx hlive hread
  · rw [hiff hup]
    simp
  · rw [hstuck] at hvalue
    cases hvalue

end DataBinding

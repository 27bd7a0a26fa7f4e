import DataBinding.Proofs.Engine.CalledCode
import DataBinding.Proofs.State.Assignment

/-!
# The laws of reading and writing at paths

Objects are shared and may lie inside themselves, so a write at one path can change where any other
path leads, and even where its own leads.  `setPath_laws` says what can be relied on as long as
nobody who is told about the write fails or writes in turn (`peacefulSetPath`): **reading and
writing fail alike, a write assigns to one property, it is read back, and nothing that does not read
that property notices it.**  Being read back has an exception, which the last example shows: the
property may itself lie on the way that the path takes.

Nothing is said about who is evaluating meanwhile.  The reads on the way to the target are recorded
for whoever that is, and this concerns no property.
-/

set_option autoImplicit false

namespace DataBinding

variable {σ : Type}

namespace Store

variable {s t u : Store} {o : ObjectId} {key : String} {x : Value}

theorem Kept.getElem?_contents (h : s.Kept t) (ho : o < s.objects.size) :
    t.contents[o]? = s.contents[o]? := by
  obtain ⟨rest, hrest⟩ := h
  rw [← Array.getElem?_toList, ← hrest, List.getElem?_append_left (by simpa using ho),
    Array.getElem?_toList]

/-- What has been assigned stays when the objects are kept. -/
theorem Assigned.of_kept (h : s.Assigned t o key x) (ho : o < s.objects.size) (hkept : t.Kept u) :
    s.Assigned u o key x where
  size_le := Nat.le_trans h.size_le hkept.size_le
  elsewhere o' ho' hne :=
    (hkept.getElem?_contents (Nat.lt_of_lt_of_le ho' h.size_le)).trans (h.elsewhere o' ho' hne)
  kind := (kind?_congr (hkept.getElem?_contents (Nat.lt_of_lt_of_le ho h.size_le))).trans h.kind
  keys := (keys?_congr (hkept.getElem?_contents (Nat.lt_of_lt_of_le ho h.size_le))).trans h.keys
  value k := (hkept.peek_eq (Nat.lt_of_lt_of_le ho h.size_le) k).trans (h.value k)

end Store

namespace Notification

/-! ## Writes that disturb nobody -/

/-- Whether everybody in turn succeeds and leaves the objects as they are. -/
def peaceful (call : Call σ) : List SubscriberId → World σ → Bool
  | [], _ => true
  | id :: rest, w =>
    match update call id w with
    | some (.ok (), w₁) =>
      Chronicle.isKept w.scene.store w₁.scene.store &&
        peaceful call rest (w₁.withStore (w₁.scene.store.release id))
    | _ => false

/-- Whether everybody who is told about a write succeeds and leaves the objects as they are. -/
def peacefulSet (call : Call σ) (o : ObjectId) (key : String) (v : Value) (w : World σ) : Bool :=
  match (w.scene.store.write o key v).1 with
  | .replaced =>
    peaceful call ((w.scene.store.write o key v).2.liveSubscribers o key) (announced w o key v)
  | _ => true

/-- The same for a write at a path. -/
def peacefulSetPath (call : Call σ) (path : String) (root v : Value) (w : World σ) : Bool :=
  match Store.target path root w.scene.store with
  | (.error _, _) => true
  | (.ok (o, key), s) => peacefulSet call o key v (w.withStore s)

variable {call : Call σ} {w : World σ} {o : ObjectId} {key path : String} {root v : Value}

/-- **A fan-out among the peaceful** comes to its end, without an error and with the objects
kept. -/
theorem updateAll_of_peaceful {ids : List SubscriberId} (h : peaceful call ids w = true) :
    ∃ w', updateAll call ids w = some (.ok (), w') ∧ w.scene.store.Kept w'.scene.store := by
  induction ids generalizing w with
  | nil => exact ⟨w, rfl, .refl _⟩
  | cons id rest ih =>
    rw [peaceful] at h
    split at h
    · rename_i w₁ hfirst
      rw [Bool.and_eq_true] at h
      obtain ⟨w', hrest, hkept⟩ := ih h.2
      refine ⟨w', ?_, (Store.kept_iff.2 h.1).trans hkept⟩
      show (update call id >>= _) w = _
      rw [Run.bind_of_eq_some hfirst]
      exact (Run.bind_of_eq_some hrest _).trans rfl
    · cases h

theorem set_of_peaceful (h : peacefulSet call o key v w = true) :
    ∃ w', set call o key v w = some (.ok (), w') ∧
      (w.scene.store.write o key v).2.Kept w'.scene.store := by
  rw [peacefulSet] at h
  rw [set_eq]
  cases hw : (w.scene.store.write o key v).1 with
  | defined | unchanged => exact ⟨_, rfl, .refl _⟩
  | replaced =>
    rw [hw] at h
    obtain ⟨w', hrun, hkept⟩ := updateAll_of_peaceful h
    exact ⟨w', hrun, (Store.Kept.of_contents (contents_announced w o key v)).trans hkept⟩

/-- Writing at a path, whoever is evaluating. -/
theorem setPath_eq_touch (path : String) (root v : Value) (w : World σ) :
    let w₁ := w.withStore (w.scene.store.touch (w.scene.store.approach path root))
    setPath call path root v w =
      match w.scene.store.destination path root with
      | .error e => some (.error e, w₁)
      | .ok (o, key) => set call o key v w₁ := by
  rw [setPath, Run.onStore_bind, Store.target_eq]
  cases w.scene.store.destination path root <;> rfl

theorem setPath_eq_error {e : StateError} (h : w.scene.store.destination path root = .error e)
    (v : Value) : setPath call path root v w =
      some (.error e, w.withStore (w.scene.store.touch (w.scene.store.approach path root))) := by
  rw [setPath_eq_touch, h]

/-- A write at a path with a target succeeds and assigns to it. -/
theorem exists_assigned_setPath (h : w.scene.store.destination path root = .ok (o, key))
    (ho : o < w.scene.store.objects.size) (hpeaceful : peacefulSetPath call path root v w = true) :
    ∃ x w', setPath call path root v w = some (.ok (), w') ∧ v.Alike x ∧
      w.scene.store.Assigned w'.scene.store o key x := by
  have hcontents := Store.contents_touch w.scene.store (w.scene.store.approach path root)
  rw [setPath_eq_touch, h]
  rw [peacefulSetPath, Store.target_eq, h] at hpeaceful
  obtain ⟨w', hrun, hkept⟩ := set_of_peaceful hpeaceful
  have ho' : o < (w.scene.store.touch (w.scene.store.approach path root)).objects.size := by
    rwa [← Store.size_contents, hcontents, Store.size_contents]
  obtain ⟨x, halike, hassigned⟩ := Store.exists_assigned_write ho' key v
  exact ⟨x, w', hrun, halike, (hassigned.of_kept ho' hkept).of_contents_eq hcontents⟩

/-! ## The laws -/

/-- **Reading and writing at paths.**  Over a state of any shape, a write at a path that disturbs
nobody

* fails exactly if the path has no value, with the error of reading it, and then no property is
  different afterwards;
* otherwise assigns to the property that the last segment names, of the object that the others lead
  to, and leaves all other properties as they were.  The path then has the value that was written
  (an identical one, or NaN for NaN) unless that property is read by the other segments, and every
  path that does not look the property up has the value, or the error, that it had before. -/
theorem setPath_laws (hclosed : w.scene.store.Closed)
    (hroot : root.Within w.scene.store.objects.size)
    (hpeaceful : peacefulSetPath call path root v w = true) :
    ∃ r w', setPath call path root v w = some (r, w') ∧
      (∀ e, r = .error e ↔ (Store.getValue path root w.scene.store).1 = .error e) ∧
      (∀ e, r = .error e → w'.scene.store.contents = w.scene.store.contents) ∧
      (r = .ok () → ∃ segments o x, Path.segments path = .ok segments ∧
        (Store.follow path segments.dropLast root w.scene.store).1 = .ok (.object o) ∧
        v.Alike x ∧ w.scene.store.Assigned w'.scene.store o (segments.getLastD "") x ∧
        ((o, segments.getLastD "") ∉ w.scene.store.readsFrom segments.dropLast root →
          (Store.getValue path root w'.scene.store).1 = .ok x) ∧
        ∀ (q : String) (root' : Value), root'.Within w.scene.store.objects.size →
          (o, segments.getLastD "") ∉ w.scene.store.reads q root' →
          (Store.getValue q root' w'.scene.store).1 =
          (Store.getValue q root' w.scene.store).1) := by
  cases hd : w.scene.store.destination path root with
  | error e =>
    refine ⟨.error e, _, setPath_eq_error hd v, fun e' ↦ ?_, fun _ _ ↦ Store.contents_touch _ _,
      fun h ↦ by cases h⟩
    rw [Store.getValue_fst, Store.resolve_eq_error_iff, hd]
    simp
  | ok target =>
    obtain ⟨o, key⟩ := target
    obtain ⟨segments, hsegments, hobject, rfl⟩ := Store.destination_eq_ok_iff.1 hd
    have ho := hclosed.destination_lt hroot hd
    obtain ⟨x, w', hrun, halike, hassigned⟩ := exists_assigned_setPath hd ho hpeaceful
    refine ⟨.ok (), w', hrun, fun e ↦ ?_, fun _ he ↦ ?_, fun _ ↦
      ⟨segments, o, x, hsegments, ?_, halike, hassigned, fun hread ↦ ?_,
        fun q root' hroot' hread ↦ ?_⟩⟩
    · rw [Store.getValue_fst, Store.resolve_eq_error_iff, hd]
      simp
    · cases he
    · rw [Store.follow_eq]
      exact hobject
    · rw [Store.getValue_fst]
      refine hassigned.resolve_self hclosed hroot hd ?_
      rwa [Store.approach, hsegments]
    · rw [Store.getValue_fst, Store.getValue_fst]
      exact hassigned.resolve_eq hclosed hroot' hread

/-- Makes an object that holds an object under two keys and itself under a third, and watches the
inner object through all of them. -/
def sharing : Action Nat :=
  .observe (.object [("item", .object [("x", .int 5)]), ("alias", .null), ("self", .null)]) fun v ↦
    .set 1 "alias" (.object 0) fun _ ↦ .set 1 "self" (.object 1) fun _ ↦
      .watch "self.alias.x" v counting fun _ ↦ .done (.ok ())

/-- A number is written under one of the keys, with blanks in the path, and read back. -/
theorem setPath_laws_of_sharing :
    ∃ (w w' : World Nat) (x : Value), w.scene.store.Closed ∧
      peacefulSetPath (run 5) " item . x" (.object 1) (.number (.ofInt 7)) w = true ∧
      setPath (run 5) " item . x" (.object 1) (.number (.ofInt 7)) w = some (.ok (), w') ∧
      (Value.number (.ofInt 7)).Alike x ∧ w.scene.store.Assigned w'.scene.store 0 "x" x ∧
      (Store.getValue " item . x" (.object 1) w'.scene.store).1 = .ok x ∧
      (Store.getValue "self.alias" (.object 1) w'.scene.store).1 =
        (Store.getValue "self.alias" (.object 1) w.scene.store).1 := by
  have hrun : (history 5 [sharing] (.start .empty 0)).map (fun p ↦
      (p.1, p.2.scene.store.objects.size,
        [peacefulSetPath (run 5) " item . x" (.object 1) (.number (.ofInt 7)) p.2,
          (p.2.scene.store.readsFrom ["item"] (.object 1)).contains (0, "x"),
          (p.2.scene.store.reads "self.alias" (.object 1)).contains (0, "x")],
        [(Store.getValue " item . x" (.object 1) p.2.scene.store).1.toOption,
          (Store.follow " item . x" ["item"] (.object 1) p.2.scene.store).1.toOption])) =
      some ([.ended 0 .settled], 2, [true, false, false],
        [some (.number (.ofInt 5)), some (.object 0)]) := by
    decide +kernel
  have hsegments : (Path.segments " item . x").toOption = some ["item", "x"] := by decide +kernel
  obtain ⟨⟨marks, w⟩, hhistory, hfacts⟩ := Option.map_eq_some_iff.1 hrun
  simp only [Prod.mk.injEq, List.cons.injEq, List.contains_eq_mem, decide_eq_false_iff_not]
    at hfacts
  obtain ⟨rfl, hsize, ⟨hpeaceful, hreads, hreads', -⟩, hvalue, hitem, -⟩ := hfacts
  have hclosed := ((Reached.start (World.unwatched_start .empty 0)).history hhistory
    (by simp [Covered, Mark.isCovered])).inOrder.closed
  have hroot : (Value.object 1).Within w.scene.store.objects.size := by
    rw [hsize]
    exact Nat.one_lt_two
  obtain ⟨r, w', hset, herror, -, hok⟩ := setPath_laws hclosed hroot hpeaceful
  cases r with
  | error e =>
    rw [(herror e).1 rfl] at hvalue
    cases hvalue
  | ok u =>
    obtain ⟨segments, o, x, hsegments', hobject, halike, hassigned, hself, hothers⟩ := hok rfl
    rw [hsegments'] at hsegments
    obtain rfl := Option.some.inj hsegments
    rw [show ["item", "x"].dropLast = ["item"] from rfl] at hobject hself
    rw [hobject] at hitem
    cases hitem
    exact ⟨w, w', x, hclosed, hpeaceful, hset, halike, hassigned, hself hreads,
      hothers _ _ hroot hreads'⟩

/-- An object that holds itself takes a number in place of itself.  The property lies on the way
that the path takes, and the path has no value afterwards. -/
example :
    let s : Store := ⟨#[⟨.map, [⟨"self", .object 0, []⟩]⟩], #[], []⟩
    (Store.getValue "self.self" (.object 0) (s.write 0 "self" (.number (.ofInt 3))).2).1.isOk =
      false := by
  decide +kernel

end Notification

end DataBinding

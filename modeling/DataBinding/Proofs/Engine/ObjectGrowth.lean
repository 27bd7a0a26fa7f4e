import DataBinding.Proofs.Engine.ContentHistory
import DataBinding.Proofs.State.Graph

/-!
# Objects only grow

An object is a map to which keys are added and from which nothing is ever taken.  **At every moment
of a run** the keys of every object are distinct, they begin with the keys that there were at any
earlier moment, and a property holds the last value given to it that was not identical to the one
given before (`Store.Recalls`).  Whoever has subscribed to a property stays on its list for life
(`objects_only_grow`).

The values given to a property are told by the trace: the one that it was observed with or defined
with, and then those of all writes, in the order in which the writes began.  A write within a
callback comes after the one that set the callback off.
-/

set_option autoImplicit false

namespace DataBinding

variable {σ : Type}

/-! ## The last change -/

/-- Of the values given to something, the newest first, the newest one that is not identical to the
one given before it.  The oldest one is no repetition of anything. -/
def lastChange : List Value → Option Value
  | [] => none
  | [v] => some v
  | v :: u :: older => if u.identical v then lastChange (u :: older) else some v

theorem lastChange_eq_none_iff {values : List Value} : lastChange values = none ↔ values = [] := by
  induction values with
  | nil => simp [lastChange]
  | cons v older ih =>
    cases older with
    | nil => simp [lastChange]
    | cons u older =>
      rw [lastChange]
      split <;> simp_all

/-- The last change is the newest value, or is identical to it. -/
theorem lastChange_alike {u x : Value} {older : List Value} (h : lastChange (u :: older) = some x) :
    x = u ∨ x.identical u = true := by
  induction older generalizing u with
  | nil =>
    cases h
    exact .inl rfl
  | cons v older ih =>
    rw [lastChange] at h
    split at h
    · rename_i hvu
      rcases ih h with rfl | hx
      · exact .inr hvu
      · exact .inr (Value.identical_trans hx hvu)
    · cases h
      exact .inl rfl

/-- **It makes no difference whether a value is compared with the one given before it or with the
last change.** -/
theorem lastChange_cons {v x : Value} {older : List Value} (h : lastChange older = some x) :
    lastChange (v :: older) = some (if x.identical v then x else v) := by
  cases older with
  | nil => cases h
  | cons u older =>
    have hsame : u.identical v = x.identical v := by
      rcases lastChange_alike h with rfl | hxu
      · rfl
      · have hux : u.identical x = true := by rwa [Value.identical_comm]
        rw [Bool.eq_iff_iff]
        exact ⟨fun huv ↦ Value.identical_trans hxu huv, fun hxv ↦ Value.identical_trans hux hxv⟩
    rw [lastChange, hsame, h]
    split <;> rfl

/-! ## What a write does to a store -/

namespace Store

variable {s t u : Store} {o o' : ObjectId} {key k : String} {v : Value}

/-- A write through a number that no object has changes no object. -/
theorem object?_write_of_none (ho : s.object? o = none) (key : String) (v : Value) (o' : ObjectId) :
    (s.write o key v).2.object? o' = s.object? o' := by
  have hmissing : s.peek o key = none := by rw [peek, property?, ho]; rfl
  rw [write_of_missing hmissing, object?_modifyObject]
  split
  · rename_i heq
    rw [← heq, ho, Option.map_none]
  · rfl

/-- **A property holds what was written**, unless it holds something identical already. -/
theorem peek_write_self (ho : o < s.objects.size) (key : String) (v : Value) :
    (s.write o key v).2.peek o key =
      some ((s.peek o key).elim v fun x ↦ if x.identical v then x else v) := by
  cases hp : s.peek o key with
  | none =>
    have hobject : s.object? o = some s.objects[o] := Array.getElem?_eq_getElem ho
    have hnew := hp
    rw [peek, Option.map_eq_none_iff, property?, hobject, Option.bind_some] at hnew
    rw [write_of_missing hp, (assigned_define hobject hnew v).value, if_pos rfl, Option.elim_none]
  | some x =>
    have hkey : (s.property? o key).isSome := by
      rw [peek, Option.map_eq_some_iff] at hp
      obtain ⟨p, hp, -⟩ := hp
      rw [hp]
      rfl
    cases hw : (s.write o key v).1 with
    | defined => exact absurd hw (write_ne_defined hkey)
    | unchanged =>
      obtain ⟨heq, u, hu, hsame⟩ := write_of_unchanged hw
      cases hp.symm.trans hu
      rw [heq, hp, Option.elim_some, if_pos hsame]
    | replaced =>
      obtain ⟨-, u, hu, hother⟩ := write_of_replaced hw
      cases hp.symm.trans hu
      rw [peek_write_of_replaced hw, if_pos ⟨rfl, rfl⟩, Option.elim_some, hother]
      rfl

/-- Other properties hold what they held. -/
theorem peek_write_of_ne (hne : ¬(o' = o ∧ k = key)) (v : Value) :
    (s.write o key v).2.peek o' k = s.peek o' k := by
  cases ho : s.object? o with
  | none => rw [peek, peek, property?, property?, object?_write_of_none ho]
  | some object =>
    obtain ⟨x, -, hassigned⟩ := exists_assigned_write (lt_of_object? ho) key v
    by_cases ho' : o' < s.objects.size
    · rw [hassigned.peek_eq ho', if_neg hne]
    · have hnone : ∀ t : Store, t.objects.size = s.objects.size →
          t.peek o' k = none := fun t ht ↦ by
        rw [peek, property?, object?, Array.getElem?_eq_none (ht ▸ Nat.le_of_not_lt ho')]
        rfl
      rw [hnone _ (size_write ..), hnone s rfl]

/-! ## The keys of objects -/

/-- Every object has its keys still, at the head of those that it has now. -/
def Grows (s t : Store) : Prop :=
  ∀ o keys, s.keys? o = some keys → ∃ more, t.keys? o = some (keys ++ more)

theorem Grows.refl (s : Store) : s.Grows s := fun _ keys h ↦ ⟨[], by rw [h, List.append_nil]⟩

theorem Grows.trans (hst : s.Grows t) (htu : t.Grows u) : s.Grows u := by
  intro o keys h
  obtain ⟨more, hmore⟩ := hst o keys h
  obtain ⟨others, hothers⟩ := htu o _ hmore
  exact ⟨more ++ others, by rw [hothers, List.append_assoc]⟩

theorem grows_of_contents (h : t.contents = s.contents) : s.Grows t := fun o keys hkeys ↦
  ⟨[], by rw [keys?_congr (by rw [h] : t.contents[o]? = s.contents[o]?), hkeys, List.append_nil]⟩

theorem grows_observe (data : Json) (s : Store) : s.Grows (observe data s).2 := by
  intro o keys h
  obtain ⟨object, hobject, rfl⟩ := Option.map_eq_some_iff.1 h
  refine ⟨[], ?_⟩
  rw [keys?, (extends_observe data s).object?_eq (lt_of_object? hobject), hobject, List.append_nil]
  rfl

/-- A write adds its key at the end, where the key is missing. -/
theorem keys?_write (s : Store) (o : ObjectId) (key : String) (v : Value) (o' : ObjectId) :
    (s.write o key v).2.keys? o' = (s.keys? o').map fun keys ↦
      if o' = o ∧ key ∉ keys then keys ++ [key] else keys := by
  cases ho : s.object? o with
  | none =>
    rw [keys?, object?_write_of_none ho, ← keys?]
    by_cases heq : o' = o
    · rw [heq, keys?, ho]
      rfl
    · simp [heq]
  | some object =>
    obtain ⟨x, -, hassigned⟩ := exists_assigned_write (lt_of_object? ho) key v
    by_cases heq : o' = o
    · subst heq
      rw [hassigned.keys]
      congr 1
      funext keys
      by_cases hkey : key ∈ keys <;> simp [hkey]
    · by_cases ho' : o' < s.objects.size
      · rw [keys?_congr (hassigned.elsewhere o' ho' heq)]
        simp [heq]
      · have hnone : ∀ t : Store, t.objects.size = s.objects.size →
            t.keys? o' = none := fun t ht ↦ by
          rw [keys?, object?, Array.getElem?_eq_none (ht ▸ Nat.le_of_not_lt ho')]
          rfl
        rw [hnone _ (size_write ..), hnone s rfl]
        rfl

theorem grows_write (s : Store) (o : ObjectId) (key : String) (v : Value) :
    s.Grows (s.write o key v).2 := by
  intro o' keys h
  rw [keys?_write, h, Option.map_some]
  split
  · exact ⟨[key], rfl⟩
  · exact ⟨[], by rw [List.append_nil]⟩

/-- The keys of every object are distinct. -/
def KeysApart (s : Store) : Prop := ∀ o keys, s.keys? o = some keys → keys.Nodup

theorem KeysApart.write (h : s.KeysApart) (o : ObjectId) (key : String) (v : Value) :
    (s.write o key v).2.KeysApart := by
  intro o' keys hkeys
  rw [keys?_write] at hkeys
  obtain ⟨old, hold, rfl⟩ := Option.map_eq_some_iff.1 hkeys
  have hnodup := h o' old hold
  split
  · rename_i hnew
    exact List.nodup_append.2 ⟨hnodup, List.nodup_singleton key, fun k hk k' hk' heq ↦
      hnew.2 (List.mem_singleton.1 hk' ▸ heq ▸ hk)⟩
  · exact hnodup

theorem KeysApart.observe (h : s.KeysApart) {data : Json} (hdata : data.Regular fun _ ↦ True) :
    (observe data s).2.KeysApart := by
  intro o keys hkeys
  obtain ⟨object, hobject, rfl⟩ := Option.map_eq_some_iff.1 hkeys
  rcases built_observe hdata hobject with hold | hnew
  · exact h o object.keys (by rw [keys?, hold]; rfl)
  · exact hnew.nodup_keys

end Store

/-! ## What a deed gives to a property -/

namespace Deed

variable {s : Store} {o : ObjectId} {key : String} {d : Deed}

/-- The values that a deed gives to a property of an object: to one that has just been made, the
value that it was observed with. -/
def given (s : Store) (o : ObjectId) (key : String) : Deed → List Value
  | .observe data =>
    if o < s.objects.size then [] else ((Store.observe data s).2.peek o key).toList
  | .set o' k v => if o < s.objects.size ∧ o = o' ∧ key = k then [v] else []
  | .setPath path root v =>
    match s.destination path root with
    | .error _ => []
    | .ok (o', k) => if o < s.objects.size ∧ o = o' ∧ key = k then [v] else []

/-- The members of all objects are in order, so that no two have one name. -/
def Regular : Deed → Prop
  | .observe data => data.Regular fun _ ↦ True
  | _ => True

instance (d : Deed) : Decidable d.Regular :=
  match d with
  | .observe data => inferInstanceAs (Decidable (data.Regular fun _ ↦ True))
  | .set .. | .setPath .. => isTrue trivial

theorem grows (s : Store) (d : Deed) : s.Grows (d.state s) := by
  cases d with
  | observe data => exact Store.grows_observe data s
  | set o key v => exact Store.grows_write s o key v
  | setPath path root v =>
    rw [state]
    split
    · exact Store.Grows.refl s
    · exact Store.grows_write s _ _ _

theorem keysApart (hs : s.KeysApart) (hd : d.Regular) : (d.state s).KeysApart := by
  cases d with
  | observe data => exact hs.observe hd
  | set o key v => exact hs.write o key v
  | setPath path root v =>
    rw [state]
    split
    · exact hs
    · exact hs.write _ _ _

/-- A write gives the property its value. -/
theorem peek_set {values : List Value} (h : s.peek o key = lastChange values) (o' : ObjectId)
    (k : String) (v : Value) : (s.write o' k v).2.peek o key =
      lastChange ((if o < s.objects.size ∧ o = o' ∧ key = k then [v] else []) ++ values) := by
  by_cases hgiven : o < s.objects.size ∧ o = o' ∧ key = k
  · obtain ⟨ho, rfl, rfl⟩ := hgiven
    rw [if_pos ⟨ho, rfl, rfl⟩, List.singleton_append, Store.peek_write_self ho, h]
    cases hlast : lastChange values with
    | none =>
      rw [lastChange_eq_none_iff.1 hlast]
      rfl
    | some x => rw [lastChange_cons hlast, Option.elim_some]
  · rw [if_neg hgiven, List.nil_append, ← h]
    by_cases hsame : o = o' ∧ key = k
    · -- the write goes nowhere
      obtain ⟨rfl, rfl⟩ := hsame
      have ho : s.object? o = none :=
        Array.getElem?_eq_none (Nat.le_of_not_lt fun ho ↦ hgiven ⟨ho, rfl, rfl⟩)
      rw [Store.peek, Store.peek, Store.property?, Store.property?, Store.object?_write_of_none ho]
    · exact Store.peek_write_of_ne hsame v

/-- **After a deed every property holds the last change of the values given to it.** -/
theorem peek_state {values : List Value} (h : s.peek o key = lastChange values) (d : Deed) :
    (d.state s).peek o key = lastChange ((d.given s o key).reverse ++ values) := by
  have hset : ∀ o' k v, (s.write o' k v).2.peek o key = lastChange
      ((if o < s.objects.size ∧ o = o' ∧ key = k then [v] else [] : List Value).reverse ++
        values) := by
    intro o' k v
    rw [peek_set h]
    split <;> rfl
  cases d with
  | set o' k v => exact hset o' k v
  | setPath path root v =>
    rw [state, given]
    cases s.destination path root with
    | error e => exact h
    | ok place => exact hset place.1 place.2 v
  | observe data =>
    rw [state, given]
    by_cases ho : o < s.objects.size
    · rw [if_pos ho, List.reverse_nil, List.nil_append, ← h, Store.peek, Store.peek,
        Store.property?, Store.property?, (Store.extends_observe data s).object?_eq ho]
    · -- the object is new, so nothing has been given to it before
      have hnone : s.peek o key = none := by
        rw [Store.peek, Store.property?, Store.object?, Array.getElem?_eq_none
          (Nat.le_of_not_lt ho)]
        rfl
      rw [hnone, eq_comm, lastChange_eq_none_iff] at h
      rw [if_neg ho, h, List.append_nil]
      cases (Store.observe data s).2.peek o key <;> rfl

end Deed

/-! ## What a store tells of the past -/

/-- The values that a property is given by the step that code takes. -/
def Moment.given (o : ObjectId) (key : String) : Moment σ → List Value
  | .step _ a s => (a.deed?.map (Deed.given s.store o key)).getD []
  | .called _ => []

/-- The data that is observed has its members in order. -/
def Moment.Regular : Moment σ → Prop
  | .step _ a _ => ∀ d ∈ a.deed?, d.Regular
  | .called _ => True

instance : DecidablePred (Moment.Regular (σ := σ))
  | .step _ a _ => inferInstanceAs (Decidable (∀ d ∈ a.deed?, d.Regular))
  | .called _ => isTrue trivial

/-- The values that a property has been given, the newest first. -/
def Trace.values (past : List (Moment σ)) (o : ObjectId) (key : String) : List Value :=
  (past.flatMap (Moment.given o key)).reverse

theorem Trace.values_concat (past : List (Moment σ)) (moment : Moment σ) (o : ObjectId)
    (key : String) :
    values (past ++ [moment]) o key = (moment.given o key).reverse ++ values past o key := by
  rw [values, List.flatMap_append, List.reverse_append, List.flatMap_singleton, values]

/-- The keys of every object are distinct and begin with those of any earlier moment, and every
property holds the last change of the values that it has been given. -/
structure Store.Recalls (s : Store) (past : List (Moment σ)) : Prop where
  keysApart : s.KeysApart
  grown : ∀ t ∈ Trace.stores past, t.Grows s
  peek_eq : ∀ o key, s.peek o key = lastChange (Trace.values past o key)

theorem Store.recalls_empty : Store.empty.Recalls ([] : List (Moment σ)) where
  keysApart o keys h := by simp [keys?, object?, empty] at h
  grown t ht := nomatch ht
  peek_eq o key := by simp [peek, property?, object?, empty, Trace.values, lastChange]

/-- **From moment to moment the store recalls the past.** -/
theorem annals_recalls : Annals (σ := σ) fun past s ↦
    (∀ moment ∈ past, moment.Regular) → s.Recalls past where
  of_contents h hs hpast :=
    { keysApart := fun o keys hkeys ↦ (hs hpast).keysApart o keys (by
        rwa [← Store.keys?_congr (by rw [h])])
      grown := fun t ht ↦ ((hs hpast).grown t ht).trans (Store.grows_of_contents h)
      peek_eq := fun o key ↦ (Store.peek_congr h o key).trans ((hs hpast).peek_eq o key) }
  called id hs hpast := by
    have hrecalls := hs (List.forall_mem_append.1 hpast).1
    refine ⟨hrecalls.keysApart, fun t ht ↦ ?_, fun o key ↦ ?_⟩
    · rw [Trace.stores_append] at ht
      exact hrecalls.grown t (by simpa [Trace.stores] using ht)
    · rw [Trace.values_concat]
      exact hrecalls.peek_eq o key
  step held a s hs hpast := by
    obtain ⟨hpast, hlast⟩ := List.forall_mem_append.1 hpast
    have hrecalls := hs hpast
    have hregular : (Moment.step held a s).Regular := hlast _ (List.mem_singleton_self _)
    have hgrows : s.store.Grows (a.leaves s.store) := by
      rw [Action.leaves]
      cases a.deed? with
      | none => exact Store.Grows.refl _
      | some d => exact d.grows s.store
    refine ⟨?_, fun t ht ↦ ?_, fun o key ↦ ?_⟩
    · rw [Action.leaves]
      cases hdeed : a.deed? with
      | none => exact hrecalls.keysApart
      | some d => exact d.keysApart hrecalls.keysApart (hregular d hdeed)
    · rw [Trace.stores_append] at ht
      rcases List.mem_append.1 ht with ht | ht
      · exact (hrecalls.grown t ht).trans hgrows
      · rw [show t = s.store by simpa [Trace.stores] using ht]
        exact hgrows
    · rw [Trace.values_concat, Moment.given, Action.leaves]
      cases a.deed? with
      | none => exact hrecalls.peek_eq o key
      | some d => exact d.peek_state (hrecalls.peek_eq o key)

/-- Whoever is on the list of a property and still alive later is still on it. -/
def Store.Keeps (s t : Store) : Prop :=
  ∀ o key, ∀ id ∈ s.subscribers o key, t.isLive id = true → id ∈ t.subscribers o key

theorem Store.Ordered.keeps {s t : Store} (h : s.Ordered t) : s.Keeps t := fun o key _ hid hlive ↦
  List.mem_of_mem_filter ((h.kept o key).subset (List.mem_filter.2 ⟨hid, hlive⟩))

/-- **Objects only grow.**  When code takes a step, and at the end, every object has distinct keys,
of which those that it had at an earlier moment are the first, and every property holds the last
change of the values that it has been given; this is so in whatever way code is nested.  If the code
deals fairly with handles, whoever has once been on the list of a property is on it for life. -/
theorem objects_only_grow (document : Document) (data : σ) (depth : Nat) (a : Action σ)
    (hplain : ∀ moment ∈ trace depth [] a (.start document data), moment.plain = true)
    (hregular : ∀ moment ∈ trace depth [] a (.start document data), moment.Regular) :
    (∀ before held b s after,
      trace depth [] a (.start document data) = before ++ .step held b s :: after →
        s.store.Recalls before) ∧
      (∀ r w, run depth a (.start document data) = some (r, w) →
        w.scene.store.Recalls (trace depth [] a (.start document data))) ∧
      ((∀ moment ∈ trace depth [] a (.start document data), moment.fair = true) →
        (Trace.stores (trace depth [] a (.start document data))).Pairwise Store.Keeps ∧
        ∀ r w, run depth a (.start document data) = some (r, w) →
          ∀ s ∈ Trace.stores (trace depth [] a (.start document data)),
            s.Keeps w.scene.store) := by
  obtain ⟨htold, hend⟩ :=
    (recounts_run annals_recalls depth [] a).recounts [] (.start document data)
      (fun _ ↦ Store.recalls_empty) hplain
  refine ⟨fun before held b s after htrace ↦ ?_, fun r w hrun ↦ hend r w hrun hregular,
    fun hfair ↦ ?_⟩
  · rw [htrace] at htold hregular
    exact htold.sees (List.forall_mem_append.1 hregular).1
  · obtain ⟨hpair, -, hlast⟩ := (flows_run Store.orderly_advances depth [] a).flows
      (.start document data) (World.backed_start document data) hfair
    obtain ⟨hstart, hadvances⟩ := List.pairwise_cons.1 hpair
    have htidy : ∀ s ∈ Trace.stores (trace depth [] a (.start document data)), s.Tidy :=
      fun s hs ↦ (hstart s hs Store.tidy_empty).1
    refine ⟨hadvances.imp_of_mem fun hs _ hst ↦ (hst (htidy _ hs)).2.keeps, fun r w hrun s hs ↦ ?_⟩
    have hadvance := (List.pairwise_append.1 (hlast r w hrun).2).2.2 s (List.mem_cons_of_mem _ hs) _
      (List.mem_singleton_self _)
    exact (hadvance (htidy s hs)).2.keeps

/-- Writes what a watcher has seen to a key that the object does not have at first. -/
def copying (v : Value) : Program Nat (Except BindError Unit) := do
  let _ ← Program.set 0 "copy" v
  return .ok ()

/-- A property is watched, and then written three times, the second time with what it holds
already. -/
def copyThrice : Action Nat := Program.action do
  let _ ← Program.observe (.object [("name", .string "a")])
  let _ ← Program.watch "name" (.object 0) copying
  let _ ← Program.set 0 "name" (.string "b")
  let _ ← Program.set 0 "name" (.string "b")
  let _ ← Program.set 0 "name" (.string "c")
  return .ok ()

/-- The callback defines a key, and writes it once more within the last write. -/
theorem objects_only_grow_of_copyThrice :
    (∀ moment ∈ trace 6 [] copyThrice (.start .empty 0), moment.Regular) ∧
    ∃ r w, run 6 copyThrice (.start .empty 0) = some (r, w) ∧
      w.scene.store.Recalls (trace 6 [] copyThrice (.start .empty 0)) ∧
      w.scene.store.keys? 0 = some ["name", "copy"] ∧
      Trace.values (trace 6 [] copyThrice (.start .empty 0)) 0 "name" =
        [.string "c", .string "b", .string "b", .string "a"] ∧
      w.scene.store.peek 0 "copy" = some (.string "c") ∧
      ∃ s ∈ Trace.stores (trace 6 [] copyThrice (.start .empty 0)), s.Keeps w.scene.store ∧
        s.subscribers 0 "name" = [0] := by
  have hfair : ∀ moment ∈ trace 6 [] copyThrice (.start .empty 0), moment.fair = true :=
    List.all_eq_true.1 (by decide +kernel)
  have hregular : ∀ moment ∈ trace 6 [] copyThrice (.start .empty 0), moment.Regular := by
    decide +kernel
  have hrun : (run 6 copyThrice (.start .empty 0)).map (fun p ↦
      (p.2.scene.store.keys? 0, p.2.scene.store.peek 0 "copy")) =
      some (some ["name", "copy"], some (.string "c")) := by
    decide +kernel
  have hlisted : ∃ s ∈ Trace.stores (trace 6 [] copyThrice (.start .empty 0)),
      s.subscribers 0 "name" = [0] := by
    decide +kernel
  obtain ⟨⟨r, w⟩, hran, hfacts⟩ := Option.map_eq_some_iff.1 hrun
  obtain ⟨hkeys, hcopy⟩ := Prod.mk.inj hfacts
  obtain ⟨s, hs, hsubscribed⟩ := hlisted
  obtain ⟨-, hrecalls, hpermanent⟩ := objects_only_grow .empty 0 6 copyThrice
    (fun moment hmoment ↦ Moment.plain_of_fair (hfair moment hmoment)) hregular
  exact ⟨hregular, r, w, hran, hrecalls r w hran, hkeys, by decide +kernel, hcopy, s, hs,
    (hpermanent hfair).2 r w hran s hs, hsubscribed⟩

end DataBinding

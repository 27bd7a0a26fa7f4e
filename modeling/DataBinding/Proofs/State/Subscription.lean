import DataBinding.Proofs.State.Observation
import Mathlib.Data.List.Nodup

/-!
# The lists of subscribers

`Subscribes` says who is on the list of a property; this file says in which order.  Lists only ever
change in two ways: the dead are pruned, and somebody who is evaluating is added at the end.  So
**those who stay alive keep their places** (`sublist_subscribeTo`), and nobody is ever listed twice
(`nodup_subscribeTo`).
-/

set_option autoImplicit false

namespace DataBinding

namespace Store

/-! ## One list -/

section List

variable {live : SubscriberId → Bool} {list : List SubscriberId} {id : SubscriberId}

theorem nodup_subscribeTo (h : list.Nodup) : (subscribeTo live list id).Nodup := by
  rw [subscribeTo]
  split
  · exact h.filter _
  · rename_i hnew
    rw [List.contains_iff_mem] at hnew
    exact List.nodup_append.2 ⟨h.filter _, List.nodup_singleton id, fun x hx y hy ↦ by
      rw [List.mem_singleton] at hy
      rintro rfl
      exact hnew (hy ▸ hx)⟩

/-- The living stay in the order in which they are. -/
theorem sublist_subscribeTo {ids : List SubscriberId} (h : ids.Sublist list)
    (hlive : ∀ i ∈ ids, live i = true) : ids.Sublist (subscribeTo live list id) := by
  have hkept : ids.Sublist (list.filter live) := by
    have hfilter := h.filter live
    rwa [List.filter_eq_self.2 hlive] at hfilter
  rw [subscribeTo]
  split
  · exact hkept
  · exact hkept.trans (List.sublist_append_left _ _)

/-- Whoever joins a list comes after everybody who is alive. -/
theorem sublist_subscribeTo_self {i : SubscriberId} (hi : i ∈ list) (hlive : live i = true)
    (hnew : id ∉ list) : [i, id].Sublist (subscribeTo live list id) := by
  rw [subscribeTo, if_neg (by simp [hnew])]
  exact (List.singleton_sublist.2 (List.mem_filter.2 ⟨hi, hlive⟩)).append (List.Sublist.refl [id])

/-- Joining twice is joining once. -/
theorem subscribeTo_subscribeTo (hlive : live id = true) :
    subscribeTo live (subscribeTo live list id) id = subscribeTo live list id := by
  have hself : (subscribeTo live list id).filter live = subscribeTo live list id :=
    List.filter_eq_self.2 fun x hx ↦ by
      rcases mem_subscribeTo.1 hx with ⟨-, hx⟩ | rfl
      · exact hx
      · exact hlive
  rw [subscribeTo, hself, if_pos (List.contains_iff_mem.2 (mem_subscribeTo.2 (.inr rfl)))]

end List

/-! ## The list of a property -/

/-- The subscribers of a property, in the order of their subscription. -/
def subscribers (s : Store) (o : ObjectId) (key : String) : List SubscriberId :=
  ((s.property? o key).map Property.subscribers).getD []

variable {s t : Store} {o : ObjectId} {key : String} {id : SubscriberId}

theorem subscribers_of_property? {p : Property} (h : s.property? o key = some p) :
    s.subscribers o key = p.subscribers := by
  rw [subscribers, h]
  rfl

theorem Subscribes.mem_subscribers (h : s.Subscribes id o key) (hkey : (s.property? o key).isSome) :
    id ∈ s.subscribers o key := by
  obtain ⟨p, hp⟩ := Option.isSome_iff_exists.1 hkey
  rw [subscribers_of_property? hp]
  exact h p hp

theorem isSome_property?_of_mem (h : id ∈ s.subscribers o key) : (s.property? o key).isSome := by
  rw [subscribers] at h
  cases hp : s.property? o key with
  | none => simp [hp] at h
  | some p => rfl

theorem liveSubscribers_eq (s : Store) (o : ObjectId) (key : String) :
    s.liveSubscribers o key = (s.subscribers o key).filter s.isLive := by
  rw [liveSubscribers, subscribers]
  cases s.property? o key <;> rfl

theorem subscribers_congr (h : t.objects = s.objects) (o : ObjectId) (key : String) :
    t.subscribers o key = s.subscribers o key := by
  rw [subscribers, subscribers, property?, property?, object?, object?, h]

/-- Changing a property changes its list and no other. -/
theorem subscribers_modifyProperty (s : Store) (o : ObjectId) (key : String)
    {f : Property → Property} (hf : ∀ p, (f p).key = p.key)
    {g : List SubscriberId → List SubscriberId} (hg : ∀ p, (f p).subscribers = g p.subscribers)
    (hnil : (s.property? o key).isSome = false → g [] = []) (o' : ObjectId) (k : String) :
    (s.modifyProperty o key f).subscribers o' k =
      if o' = o ∧ k = key then g (s.subscribers o' k) else s.subscribers o' k := by
  rw [subscribers, subscribers, property?_modifyProperty s o key hf]
  split
  · rename_i h
    rw [h.1, h.2]
    cases hp : s.property? o key with
    | none => exact (hnil (by rw [hp]; rfl)).symm
    | some p => exact hg p
  · rfl

theorem subscribers_prune (s : Store) (o : ObjectId) (key : String) (o' : ObjectId) (k : String) :
    (s.prune o key).subscribers o' k =
      if o' = o ∧ k = key then (s.subscribers o' k).filter s.isLive else s.subscribers o' k :=
  subscribers_modifyProperty s o key (by simp) (by simp) (by simp) o' k

theorem subscribers_write {v : Value} (h : (s.write o key v).1 = .replaced) (o' : ObjectId)
    (k : String) : (s.write o key v).2.subscribers o' k = s.subscribers o' k := by
  rw [(write_of_replaced h).1,
    subscribers_modifyProperty s o key (g := fun list ↦ list) (by simp) (by simp) (by simp)]
  split <;> rfl

/-- Whoever is alive and on the list of a property is told when it is written. -/
theorem liveSubscribers_write {v : Value} (h : (s.write o key v).1 = .replaced) :
    (s.write o key v).2.liveSubscribers o key = (s.subscribers o key).filter s.isLive := by
  rw [liveSubscribers_eq, subscribers_write h]
  exact List.filter_congr fun id _ ↦ isLive_congr handles_write id

/-! ## Reading -/

/-- A read adds whoever is evaluating to the list of a property that there is, and leaves every
other list alone. -/
theorem subscribers_get_eq {rest : List SubscriberId} (h : s.tracking = id :: rest) (o' : ObjectId)
    (k : String) :
    (s.get o key).2.subscribers o' k =
      if (o', k) = (o, key) ∧ (s.property? o key).isSome then
        subscribeTo s.isLive (s.subscribers o' k) id
      else s.subscribers o' k := by
  rw [get, h]
  cases hp : s.property? o key with
  | none => exact (if_neg (by simp)).symm
  | some p =>
    have hlist := subscribers_modifyProperty s o key
      (f := fun p ↦ { p with subscribers := subscribeTo s.isLive p.subscribers id })
      (g := fun list ↦ subscribeTo s.isLive list id) (by simp) (by simp) (by simp [hp]) o' k
    simp only [Prod.mk.injEq, Option.isSome_some, and_true]
    exact hlist

theorem mem_subscribers_get {rest : List SubscriberId} (h : s.tracking = id :: rest)
    {q r : ObjectId × String} {i : SubscriberId} :
    i ∈ (s.get q.1 q.2).2.subscribers r.1 r.2 ↔
      (i = id ∧ r = q ∧ (s.property? r.1 r.2).isSome) ∨
        (i ∈ s.subscribers r.1 r.2 ∧ (r = q → s.isLive i = true)) := by
  rw [subscribers_get_eq h]
  by_cases hr : r = q
  · subst hr
    by_cases hkey : (s.property? r.1 r.2).isSome
    · rw [if_pos ⟨rfl, hkey⟩, mem_subscribeTo]
      simp [hkey, or_comm]
    · have hnone : i ∉ s.subscribers r.1 r.2 := fun hi ↦ hkey (isSome_property?_of_mem hi)
      rw [if_neg fun h ↦ hkey h.2]
      simp [hkey, hnone]
  · rw [if_neg fun h ↦ hr h.1]
    simp [hr]

/-- **Reading subscribes whoever is evaluating to the properties that there are**, and nobody else
to anything; only the dead are taken off a list. -/
theorem mem_subscribers_touch {rest : List SubscriberId} (h : s.tracking = id :: rest)
    {reads : List (ObjectId × String)} {r : ObjectId × String} {i : SubscriberId} :
    i ∈ (s.touch reads).subscribers r.1 r.2 ↔
      (i = id ∧ r ∈ reads ∧ (s.property? r.1 r.2).isSome) ∨
        (i ∈ s.subscribers r.1 r.2 ∧ (r ∈ reads → s.isLive i = true)) := by
  induction reads generalizing s with
  | nil => simp
  | cons q reads ih =>
    rw [touch_cons, ih ((tracking_get ..).trans h), mem_subscribers_get h,
      isLive_congr (handles_get ..), isSome_property?_congr (contents_get ..), List.mem_cons]
    tauto

/-- A read leaves a list alone or adds whoever is evaluating. -/
theorem subscribers_get {rest : List SubscriberId} (h : s.tracking = id :: rest) (o' : ObjectId)
    (k : String) :
    (s.get o key).2.subscribers o' k = s.subscribers o' k ∨ (o', k) = (o, key) ∧
      (s.get o key).2.subscribers o' k = subscribeTo s.isLive (s.subscribers o' k) id := by
  rw [subscribers_get_eq h]
  split
  · rename_i hhere
    exact .inr ⟨hhere.1, rfl⟩
  · exact .inl rfl

theorem subscribers_touch {rest : List SubscriberId} (h : s.tracking = id :: rest)
    (hlive : s.isLive id = true) (reads : List (ObjectId × String)) (o : ObjectId) (key : String) :
    (s.touch reads).subscribers o key = s.subscribers o key ∨ (o, key) ∈ reads ∧
      (s.touch reads).subscribers o key = subscribeTo s.isLive (s.subscribers o key) id := by
  induction reads generalizing s with
  | nil => exact .inl rfl
  | cons r reads ih =>
    have hsame : (s.get r.1 r.2).2.isLive = s.isLive :=
      funext fun id' ↦ isLive_congr (handles_get s r.1 r.2) id'
    have hrest := ih ((tracking_get s r.1 r.2).trans h) (by rw [hsame]; exact hlive)
    rw [touch_cons]
    rw [hsame] at hrest
    rcases hrest with hrest | ⟨hmem, hrest⟩
    · rw [hrest]
      rcases subscribers_get h o key with hlist | ⟨heq, hlist⟩
      · exact .inl hlist
      · exact .inr ⟨heq ▸ List.mem_cons_self, hlist⟩
    · rw [hrest]
      have hfirst : (s.get r.1 r.2).2.subscribers o key = s.subscribers o key ∨ _ :=
        subscribers_get h o key
      rcases hfirst with hlist | ⟨-, hlist⟩
      · exact .inr ⟨List.mem_cons_of_mem _ hmem, by rw [hlist]⟩
      · exact .inr ⟨List.mem_cons_of_mem _ hmem, by rw [hlist, subscribeTo_subscribeTo hlive]⟩

/-- **An evaluation leaves a list alone or adds the subscriber**, who is held meanwhile. -/
theorem subscribers_evaluate (hid : id < s.handles.size) (path : String) (root : Value)
    (o : ObjectId) (key : String) :
    (evaluate id path root s).2.subscribers o key = s.subscribers o key ∨
      (o, key) ∈ s.reads path root ∧ (evaluate id path root s).2.subscribers o key =
        subscribeTo (s.track id).isLive (s.subscribers o key) id := by
  rw [subscribers_congr (objects_evaluate id path root s)]
  exact subscribers_touch (s := s.track id) rfl (isLive_retain.2 (.inr ⟨rfl, hid⟩)) _ o key

/-! ## New objects -/

/-- Every list of the second store is the one of the first store, or it is empty. -/
def Listed (s t : Store) : Prop :=
  ∀ o key, t.subscribers o key = s.subscribers o key ∨ t.subscribers o key = []

theorem Listed.refl (s : Store) : s.Listed s := fun _ _ ↦ .inl rfl

theorem Listed.trans {u : Store} (h : s.Listed t) (h' : t.Listed u) : s.Listed u := fun o key ↦
  (h' o key).elim (fun heq ↦ heq ▸ h o key) .inr

theorem listed_push (s : Store) {object : Object}
    (h : ∀ p ∈ object.properties, p.subscribers = []) :
    s.Listed (s.push object).2 := by
  intro o key
  rcases Nat.lt_trichotomy o s.objects.size with ho | ho | ho
  · refine .inl ?_
    rw [subscribers, subscribers, (s.extends_push object).property?_eq ho]
  · refine .inr ?_
    subst ho
    rw [subscribers, property?, object?, push, Array.getElem?_push_size]
    cases hp : object.property? key with
    | none => simp [hp]
    | some p => simpa [hp] using h p (List.mem_of_find?_eq_some hp)
  · refine .inr ?_
    rw [subscribers, property?, object?, push, Array.getElem?_eq_none (by simp; omega)]
    rfl

mutual

theorem listed_observe (j : Json) (s : Store) : s.Listed (observe j s).2 := by
  match j with
  | .null | .bool _ | .int _ | .float _ | .string _ => exact .refl s
  | .array items =>
    obtain ⟨hlisted, hnew⟩ := listed_observeItems 0 items s
    rw [observe]
    exact hlisted.trans (listed_push _ hnew)
  | .object members =>
    obtain ⟨hlisted, hnew⟩ := listed_observeMembers members s
    rw [observe]
    exact hlisted.trans (listed_push _ hnew)

theorem listed_observeItems (index : Nat) (items : List Json) (s : Store) :
    s.Listed (observeItems index items s).2 ∧
      ∀ p ∈ (observeItems index items s).1, p.subscribers = [] := by
  match items with
  | [] => exact ⟨.refl s, by simp [observeItems]⟩
  | item :: rest =>
    obtain ⟨hlisted, hnew⟩ := listed_observeItems (index + 1) rest (observe item s).2
    rw [observeItems]
    exact ⟨(listed_observe item s).trans hlisted, List.forall_mem_cons.2 ⟨rfl, hnew⟩⟩

theorem listed_observeMembers (members : List (String × Json)) (s : Store) :
    s.Listed (observeMembers members s).2 ∧
      ∀ p ∈ (observeMembers members s).1, p.subscribers = [] := by
  match members with
  | [] => exact ⟨.refl s, by simp [observeMembers]⟩
  | (name, item) :: rest =>
    obtain ⟨hlisted, hnew⟩ := listed_observeMembers rest (observe item s).2
    rw [observeMembers]
    exact ⟨(listed_observe item s).trans hlisted, List.forall_mem_cons.2 ⟨rfl, hnew⟩⟩

end

/-- New objects have empty lists. -/
theorem subscribers_observe (data : Json) (s : Store) (o : ObjectId) (key : String) :
    (observe data s).2.subscribers o key = s.subscribers o key := by
  rcases Nat.lt_or_ge o s.objects.size with ho | ho
  · rw [subscribers, subscribers, (extends_observe data s).property?_eq ho]
  · have hnone : s.subscribers o key = [] := by
      rw [subscribers, property?, object?, Array.getElem?_eq_none ho]
      rfl
    rcases listed_observe data s o key with hlist | hlist
    · exact hlist
    · rw [hlist, hnone]

end Store

end DataBinding

import Mathlib.Data.List.Induction
import Mathlib.Data.String.Basic
import DataBinding.Json.Basic

/-!
# Members in order

Plain data keeps the members of an object in ascending order of their names.  `Json.Regular number`
says so of a piece of data and of everything in it, and that its numbers are such as `number`
allows; the data that was read from a text or taken as a snapshot is of this form.

* `Json.ofMembers` brings members into this form (`Regular.ofMembers`) and leaves members alone that
  are in order already (`ofMembers_eq_self`).
* Members whose names differ are found under their names, however they were listed
  (`lookup_sortMembers`).
-/

set_option autoImplicit false

namespace DataBinding.Json

/-- The names ascend, so that no two of them are the same. -/
def Ascending (members : List (String × Json)) : Prop := (members.map Prod.fst).Pairwise (· < ·)

instance (members : List (String × Json)) : Decidable (Ascending members) :=
  inferInstanceAs (Decidable (List.Pairwise ..))

/-- Data all of whose objects have ascending members, and all of whose numbers are allowed. -/
inductive Regular (number : Json → Prop) : Json → Prop
  | null : Regular number .null
  | bool (b : Bool) : Regular number (.bool b)
  | int {n : Int} (h : number (.int n)) : Regular number (.int n)
  | float {x : Binary64} (h : number (.float x)) : Regular number (.float x)
  | string (t : String) : Regular number (.string t)
  | array {items : List Json} (h : ∀ item ∈ items, Regular number item) :
      Regular number (.array items)
  | object {members : List (String × Json)} (hnames : Ascending members)
      (h : ∀ m ∈ members, Regular number m.2) : Regular number (.object members)

variable {number number' : Json → Prop} {name key : String} {item j : Json}
  {members : List (String × Json)}

theorem Regular.mono (hnumber : ∀ j, number j → number' j) (h : Regular number j) :
    Regular number' j := by
  induction h with
  | null => exact .null
  | bool b => exact .bool b
  | int h => exact .int (hnumber _ h)
  | float h => exact .float (hnumber _ h)
  | string t => exact .string t
  | array _ ih => exact .array ih
  | object hnames _ ih => exact .object hnames ih

mutual

/-- Whether data is in order can be found out. -/
def decideRegular (number : Json → Prop) [DecidablePred number] :
    (j : Json) → Decidable (j.Regular number)
  | .null => isTrue .null
  | .bool b => isTrue (.bool b)
  | .int n => decidable_of_iff (number (.int n)) ⟨.int, fun | .int h => h⟩
  | .float x => decidable_of_iff (number (.float x)) ⟨.float, fun | .float h => h⟩
  | .string t => isTrue (.string t)
  | .array items =>
    have := decideItems number items
    decidable_of_iff (∀ item ∈ items, item.Regular number) ⟨.array, fun | .array h => h⟩
  | .object members =>
    have := decideMembers number members
    decidable_of_iff (Ascending members ∧ ∀ m ∈ members, m.2.Regular number)
      ⟨fun h ↦ .object h.1 h.2, fun | .object hnames h => ⟨hnames, h⟩⟩

/-- The same for the items of a list. -/
def decideItems (number : Json → Prop) [DecidablePred number] :
    (items : List Json) → Decidable (∀ item ∈ items, item.Regular number)
  | [] => isTrue fun _ h ↦ nomatch h
  | item :: rest =>
    have := decideRegular number item
    have := decideItems number rest
    decidable_of_iff' _ List.forall_mem_cons

/-- The same for the members of an object. -/
def decideMembers (number : Json → Prop) [DecidablePred number] :
    (members : List (String × Json)) → Decidable (∀ m ∈ members, m.2.Regular number)
  | [] => isTrue fun _ h ↦ nomatch h
  | (_, item) :: rest =>
    have := decideRegular number item
    have := decideMembers number rest
    decidable_of_iff' (item.Regular number ∧ ∀ m ∈ rest, m.2.Regular number) List.forall_mem_cons

end

instance (number : Json → Prop) [DecidablePred number] : DecidablePred (Regular number) :=
  decideRegular number

/-! ## Adding one member -/

theorem mem_insertMember {m : String × Json} (h : m ∈ insertMember name item members) :
    m = (name, item) ∨ m ∈ members := by
  induction members with
  | nil => simpa [insertMember] using h
  | cons first rest ih =>
    obtain ⟨other, old⟩ := first
    rw [insertMember] at h
    split at h
    · rcases List.mem_cons.1 h with h | h
      · exact .inl h
      · exact .inr (List.mem_cons_of_mem _ h)
    · split at h
      · exact List.mem_cons.1 h
      · rcases List.mem_cons.1 h with rfl | h
        · exact .inr List.mem_cons_self
        · exact (ih h).imp_right (List.mem_cons_of_mem _)

theorem lookup_insertMember (name : String) (item : Json) (members : List (String × Json))
    (key : String) : (insertMember name item members).lookup key =
      if key = name then some item else members.lookup key := by
  induction members with
  | nil =>
    by_cases hkey : key = name
    · simp [insertMember, hkey]
    · simp [insertMember, List.lookup_cons, beq_false_of_ne hkey, hkey]
  | cons first rest ih =>
    obtain ⟨other, old⟩ := first
    rw [insertMember]
    by_cases hkey : key = name
    · subst hkey
      by_cases hname : key = other
      · simp [hname]
      · rw [if_neg hname, if_pos rfl]
        split <;> simp [List.lookup_cons, beq_false_of_ne hname, ih]
    · rw [if_neg hkey]
      split
      · rename_i hname
        subst hname
        simp [List.lookup_cons, beq_false_of_ne hkey]
      · rw [if_neg hkey] at ih
        split <;> simp [List.lookup_cons, beq_false_of_ne hkey, ih]

theorem Ascending.insertMember (h : Ascending members) (name : String) (item : Json) :
    Ascending (insertMember name item members) := by
  induction members with
  | nil => simp [Json.insertMember, Ascending]
  | cons first rest ih =>
    obtain ⟨other, old⟩ := first
    obtain ⟨hfirst, hrest⟩ := List.pairwise_cons.1 h
    rw [Json.insertMember]
    split
    · rename_i hname
      subst hname
      exact h
    · rename_i hne
      split
      · rename_i hlt
        refine List.pairwise_cons.2 ⟨fun n hn ↦ ?_, h⟩
        rcases List.mem_cons.1 hn with rfl | hn
        · exact hlt
        · exact lt_trans hlt (hfirst n hn)
      · rename_i hnot
        have hafter : other < name := by
          exact lt_of_le_of_ne (not_lt.1 hnot) (Ne.symm hne)
        refine List.pairwise_cons.2 ⟨fun n hn ↦ ?_, ih hrest⟩
        obtain ⟨m, hm, rfl⟩ := List.mem_map.1 hn
        rcases mem_insertMember hm with rfl | hm
        · exact hafter
        · exact hfirst _ (List.mem_map_of_mem hm)

/-- A name behind all others goes to the end. -/
theorem insertMember_eq_append (h : ∀ m ∈ members, m.1 < name) :
    insertMember name item members = members ++ [(name, item)] := by
  induction members with
  | nil => rfl
  | cons first rest ih =>
    obtain ⟨other, old⟩ := first
    have hlt : other < name := h _ List.mem_cons_self
    rw [insertMember, if_neg (ne_of_gt hlt), if_neg (not_lt_of_gt hlt),
      ih fun m hm ↦ h m (List.mem_cons_of_mem _ hm), List.cons_append]

/-! ## Sorting -/

theorem sortMembers_concat (members : List (String × Json)) (name : String) (item : Json) :
    sortMembers (members ++ [(name, item)]) = insertMember name item (sortMembers members) := by
  rw [sortMembers, List.foldl_append, ← sortMembers]
  rfl

theorem ascending_sortMembers (members : List (String × Json)) :
    Ascending (sortMembers members) := by
  induction members using List.reverseRecOn with
  | nil => exact .nil
  | append_singleton members m ih =>
    rw [sortMembers_concat]
    exact ih.insertMember m.1 m.2

theorem mem_sortMembers {m : String × Json} (h : m ∈ sortMembers members) : m ∈ members := by
  induction members using List.reverseRecOn with
  | nil => cases h
  | append_singleton members m' ih =>
    rw [sortMembers_concat] at h
    rw [List.mem_append, List.mem_singleton]
    exact (mem_insertMember h).symm.imp_left ih

/-- **Members in order stay as they are.** -/
theorem sortMembers_eq_self (h : Ascending members) : sortMembers members = members := by
  induction members using List.reverseRecOn with
  | nil => rfl
  | append_singleton members m ih =>
    rw [Ascending, List.map_append, List.pairwise_append] at h
    obtain ⟨hinit, -, hlast⟩ := h
    rw [sortMembers_concat, ih hinit, insertMember_eq_append fun m' hm' ↦ ?_]
    exact hlast m'.1 (List.mem_map_of_mem hm') m.1 (by simp)

/-- **Members with different names are found under their names.** -/
theorem lookup_sortMembers (h : (members.map Prod.fst).Nodup) (key : String) :
    (sortMembers members).lookup key = members.lookup key := by
  induction members using List.reverseRecOn with
  | nil => rfl
  | append_singleton members m ih =>
    obtain ⟨last, item⟩ := m
    rw [List.map_append, List.nodup_append] at h
    obtain ⟨hinit, -, hlast⟩ := h
    rw [sortMembers_concat, lookup_insertMember, ih hinit, List.lookup_append]
    by_cases hkey : key = last
    · subst hkey
      have hnone : members.lookup key = none := by
        rw [List.lookup_eq_none_iff]
        intro m hm
        have hne := hlast m.1 (List.mem_map_of_mem hm) key (by simp)
        simpa using hne.symm
      rw [if_pos rfl, hnone]
      simp
    · rw [if_neg hkey, List.lookup_cons, beq_false_of_ne hkey]
      simp

theorem Regular.ofMembers (h : ∀ m ∈ members, Regular number m.2) :
    Regular number (ofMembers members) :=
  .object (ascending_sortMembers members) fun m hm ↦ h m (mem_sortMembers hm)

theorem ofMembers_eq_self (h : Ascending members) : ofMembers members = .object members := by
  rw [ofMembers, sortMembers_eq_self h]

end DataBinding.Json

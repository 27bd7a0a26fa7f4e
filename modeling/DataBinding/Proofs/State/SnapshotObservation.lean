import DataBinding.Proofs.Number.Whole
import DataBinding.Proofs.State.Unfolding

/-!
# Observing a snapshot

Observing and taking snapshots are inverse to each other, as far as numbers allow.  A snapshot keeps
whole numbers of large magnitude as doubles and loses NaN and the infinities, and observing turns
all numbers into doubles; but after one snapshot nothing is lost any more.

What makes a number of plain data survive is said by `Json.IsSettled`.  The numbers that a snapshot
writes are of this kind (`regular_snapshot`), and so are whole numbers below the limit and doubles
with a fraction (`IsExact.isSettled`).  On data of this kind the proof goes along the data:
observing it builds objects that nobody else holds, so that **they unfold into the data again**, in
every store that has them and inside whatever other objects (`unfolds_observe`).
-/

set_option autoImplicit false

namespace DataBinding

/-! ## Numbers that survive -/

/-- A whole number below the limit, or a finite double with a fraction. -/
def Json.IsExact : Json → Prop
  | .int n => n.natAbs < wholeLimit
  | .float x => x.HasFraction
  | _ => False

/-- A number that is written as it was read. -/
def Json.IsSettled : Json → Prop
  | .int n => n.natAbs < wholeLimit
  | .float x => x.toJson = .float x
  | _ => False

theorem Json.IsExact.isSettled {j : Json} (h : j.IsExact) : j.IsSettled := by
  cases j with
  | int n => exact h
  | float x => exact x.toJson_of_hasFraction h
  | _ => cases h

theorem Binary64.regular_toJson (x : Binary64) : x.toJson.Regular Json.IsSettled := by
  have hfloat : x.toJson = .float x → x.toJson.Regular Json.IsSettled := by
    intro h
    rw [h]
    exact .float h
  cases hx : x.toInt? with
  | some n =>
    by_cases hn : n.natAbs < wholeLimit
    · have hjson : x.toJson = .int n := by simp only [toJson, hx, if_pos hn]
      rw [hjson]
      exact .int hn
    · exact hfloat (by simp only [toJson, hx, if_neg hn])
  | none =>
    cases x with
    | nan => exact .null
    | infinite s => exact .null
    | finite s m e h => exact hfloat (by simp only [toJson, hx])

namespace Store

/-- **The numbers of a snapshot are settled, and its members are in order.** -/
theorem regular_snapshotWithin (s : Store) (room : Nat) (ancestors : List ObjectId) (v : Value) :
    (s.snapshotWithin room ancestors v).Regular Json.IsSettled := by
  induction room generalizing ancestors v with
  | zero =>
    cases v with
    | number x =>
      rw [snapshotWithin]
      exact x.regular_toJson
    | _ =>
      rw [snapshotWithin]
      constructor
  | succ room ih =>
    cases v with
    | object o =>
      rw [snapshotWithin]
      split
      · exact .null
      · split
        · exact .null
        · dsimp only
          split
          · refine .array fun item hitem ↦ ?_
            obtain ⟨p, -, rfl⟩ := List.mem_map.1 hitem
            exact ih _ _
          · refine .ofMembers fun m hm ↦ ?_
            obtain ⟨p, -, rfl⟩ := List.mem_map.1 hm
            exact ih _ _
    | number x =>
      rw [snapshotWithin]
      exact x.regular_toJson
    | _ =>
      rw [snapshotWithin]
      constructor

theorem regular_snapshot (s : Store) (v : Value) : (s.snapshot v).Regular Json.IsSettled :=
  s.regular_snapshotWithin s.objects.size [] v

/-! ## What is built is what it was built from -/

/-- The objects that were added between two stores are not among these. -/
def Apart (ancestors : List ObjectId) (s t : Store) : Prop :=
  ∀ o ∈ ancestors, o < s.objects.size ∨ t.objects.size ≤ o

theorem Apart.mono {ancestors : List ObjectId} {s s' t t' : Store} (h : Apart ancestors s t)
    (hs : s.objects.size ≤ s'.objects.size) (ht : t'.objects.size ≤ t.objects.size) :
    Apart ancestors s' t' :=
  fun o ho ↦ (h o ho).imp (Nat.lt_of_lt_of_le · hs) (Nat.le_trans ht)

/-- The object that is built last is new, and its parts are built before it. -/
theorem Apart.push {ancestors : List ObjectId} {s t : Store} {object : Object}
    (h : Apart ancestors s (t.push object).2) (hst : s.objects.size ≤ t.objects.size) :
    t.objects.size ∉ ancestors ∧ Apart (t.objects.size :: ancestors) s t := by
  have hsize : (t.push object).2.objects.size = t.objects.size + 1 := by simp [Store.push]
  constructor
  · intro hmem
    rcases h _ hmem with hlt | hle
    · exact Nat.not_lt.2 hst hlt
    · omega
  · intro o ho
    rcases List.mem_cons.1 ho with rfl | ho
    · exact .inr (Nat.le_refl _)
    · exact (h o ho).imp_right fun hle ↦ by omega

theorem object?_of_extends_push {t u : Store} {object : Object} (h : (t.push object).2.Extends u) :
    u.object? t.objects.size = some object := by
  rw [h.object?_eq (by simp [push]), object?_push, if_pos rfl]

mutual

/-- **Observed data unfolds into the data again.** -/
theorem unfolds_observe {j : Json} (hj : j.Regular Json.IsSettled) {s t : Store}
    {ancestors : List ObjectId} (hext : (observe j s).2.Extends t)
    (hapart : Apart ancestors s (observe j s).2) : t.Unfolds ancestors (observe j s).1 j := by
  match j, hj with
  | .null, _ | .bool _, _ | .string _, _ => exact .scalar rfl
  | .int n, .int hn => exact .scalar (congrArg some (Binary64.toJson_ofInt hn))
  | .float x, .float hx => exact .scalar (congrArg some hx)
  | .array items, .array hitems =>
    obtain ⟨hfresh, hinner⟩ := hapart.push (extends_observeItems 0 items s).size_le
    exact .array hfresh (object?_of_extends_push hext)
      (unfoldsEach_observeItems 0 hitems ((extends_push _ _).trans hext) hinner)
  | .object members, .object hnames hmembers =>
    obtain ⟨hfresh, hinner⟩ := hapart.push (extends_observeMembers members s).size_le
    have hmap := Unfolds.map hfresh (object?_of_extends_push hext)
      (unfoldsEach_observeMembers hmembers ((extends_push _ _).trans hext) hinner)
    rwa [keys_observeMembers, ← List.unzip_fst, ← List.unzip_snd, List.zip_unzip,
      Json.ofMembers_eq_self hnames] at hmap

theorem unfoldsEach_observeItems (index : Nat) {items : List Json}
    (hitems : ∀ item ∈ items, item.Regular Json.IsSettled) {s t : Store} {ancestors : List ObjectId}
    (hext : (observeItems index items s).2.Extends t)
    (hapart : Apart ancestors s (observeItems index items s).2) :
    t.UnfoldsEach ancestors (observeItems index items s).1 items := by
  match items with
  | [] => exact .nil
  | item :: rest =>
    have hfirst := extends_observe item s
    have hrest := extends_observeItems (index + 1) rest (observe item s).2
    exact .cons
      (unfolds_observe (hitems item (.head _)) (hrest.trans hext)
        (hapart.mono (Nat.le_refl _) hrest.size_le))
      (unfoldsEach_observeItems (index + 1) (fun item hitem ↦ hitems item (.tail _ hitem)) hext
        (hapart.mono hfirst.size_le (Nat.le_refl _)))

theorem unfoldsEach_observeMembers {members : List (String × Json)}
    (hmembers : ∀ m ∈ members, m.2.Regular Json.IsSettled) {s t : Store}
    {ancestors : List ObjectId} (hext : (observeMembers members s).2.Extends t)
    (hapart : Apart ancestors s (observeMembers members s).2) :
    t.UnfoldsEach ancestors (observeMembers members s).1 (members.map Prod.snd) := by
  match members with
  | [] => exact .nil
  | (name, item) :: rest =>
    have hfirst := extends_observe item s
    have hrest := extends_observeMembers rest (observe item s).2
    exact .cons
      (unfolds_observe (hmembers (name, item) (.head _)) (hrest.trans hext)
        (hapart.mono (Nat.le_refl _) hrest.size_le))
      (unfoldsEach_observeMembers (fun m hm ↦ hmembers m (.tail _ hm)) hext
        (hapart.mono hfirst.size_le (Nat.le_refl _)))

end

theorem snapshot_observe {j : Json} (hj : j.Regular Json.IsSettled) (s : Store) :
    (observe j s).2.snapshot (observe j s).1 = j :=
  (unfolds_observe hj (.refl _) (by simp [Apart])).snapshot_eq

/-- **Observing and taking snapshots are inverse.**  Data whose numbers are whole numbers below the
limit or finite doubles with a fraction is the snapshot of what observing it gives, in any store;
and observing the snapshot of any value whatsoever gives something with the same snapshot. -/
theorem snapshot_observe_laws :
    (∀ (j : Json) (s : Store), j.Regular Json.IsExact →
      (observe j s).2.snapshot (observe j s).1 = j) ∧
    ∀ (s t : Store) (v : Value),
      (observe (s.snapshot v) t).2.snapshot (observe (s.snapshot v) t).1 = s.snapshot v :=
  ⟨fun _ s hj ↦ snapshot_observe (hj.mono fun _ h ↦ h.isSettled) s,
    fun s t v ↦ snapshot_observe (s.regular_snapshot v) t⟩

/-- A list of a whole number, two and a half and null, inside a map. -/
def measurements : Json :=
  .object [("list", .array [.int (-3), .float (.finite false (5 * 2 ^ 50) (-51) (by decide)),
    .null]), ("unit", .string "m")]

theorem snapshot_observe_laws_of_measurements :
    measurements.Regular Json.IsExact ∧
      (observe measurements tangle).2.snapshot (observe measurements tangle).1 = measurements ∧
      (observe (tangle.snapshot (.object 0)) empty).2.snapshot
        (observe (tangle.snapshot (.object 0)) empty).1 = tangle.snapshot (.object 0) := by
  have hfraction : (Binary64.finite false (5 * 2 ^ 50) (-51) (by decide)).HasFraction :=
    ⟨_, rfl, by decide +kernel⟩
  have hregular : measurements.Regular Json.IsExact := by
    refine .object (by decide) ?_
    rintro m (_ | ⟨_, _ | ⟨_, ⟨⟩⟩⟩)
    · refine .array ?_
      rintro item (_ | ⟨_, _ | ⟨_, _ | ⟨_, ⟨⟩⟩⟩⟩)
      · exact .int (by simp [Json.IsExact, wholeLimit])
      · exact .float hfraction
      · exact .null
    · exact .string "m"
  exact ⟨hregular, snapshot_observe_laws.1 measurements tangle hregular,
    snapshot_observe_laws.2 tangle empty (.object 0)⟩

end Store

end DataBinding

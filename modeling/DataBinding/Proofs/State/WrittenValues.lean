import DataBinding.Proofs.State.Rendering

/-!
# Reading back what was written

A write at a path goes to the object that all segments but the last lead to.  It may change where
these lead, when the objects form a cycle; but a scalar leads nowhere.  So **when a scalar has been
written at a path that still resolves, it resolves to what was written** (`resolve_write_alike`), up
to values that are alike, which a write does not tell apart.
-/

set_option autoImplicit false

namespace DataBinding

theorem Path.segments_ne_nil {path : String} {segments : List String}
    (h : Path.segments path = .ok segments) : segments ≠ [] := by
  rw [Path.segments] at h
  split at h
  · cases h
  · cases h
    rw [Ne, List.map_eq_nil_iff]
    exact Text.splitChars_ne_nil _ _

namespace Store

variable {s t : Store} {o : ObjectId} {key path : String} {root v x : Value}

theorem peek_write (hkey : (s.property? o key).isSome) (v : Value) :
    ∃ x, v.Alike x ∧ ∀ o' k, (s.write o key v).2.peek o' k =
      if o' = o ∧ k = key then some x else s.peek o' k := by
  cases hw : (s.write o key v).1 with
  | defined => exact absurd hw (write_ne_defined hkey)
  | replaced => exact ⟨v, .refl v, peek_write_of_replaced hw⟩
  | unchanged =>
    obtain ⟨heq, u, hu, hsame⟩ := write_of_unchanged hw
    refine ⟨u, .inl (by rwa [Value.identical_comm]), fun o' k ↦ ?_⟩
    rw [heq]
    split
    · rename_i h
      rw [h.1, h.2, hu]
    · rfl

theorem resolveFrom_append_singleton (s : Store) (path last : String) (init : List String)
    (v : Value) : s.resolveFrom path (init ++ [last]) v =
      (s.resolveFrom path init v).bind (s.resolveFrom path [last]) := by
  induction init generalizing v with
  | nil => rfl
  | cons segment init ih =>
    cases v with
    | object o => exact ih _
    | _ => rfl

/-- Segments lead where they led if one property has been overwritten with a scalar and there is
something beyond. -/
theorem resolveFrom_of_overwritten (hx : x.isScalar = true)
    (hpeek : ∀ o' k, t.peek o' k = if o' = o ∧ k = key then some x else s.peek o' k)
    {init : List String} {last : String} {u : Value}
    (h : t.resolveFrom path (init ++ [last]) v = .ok u) :
    t.resolveFrom path init v = s.resolveFrom path init v := by
  have hstuck : ∀ segment rest, t.resolveFrom path (segment :: rest) x ≠ .ok u := by
    intro segment rest hok
    cases x with
    | object o => cases hx
    | _ => cases hok
  induction init generalizing v with
  | nil => rfl
  | cons segment init ih =>
    cases v with
    | object o' =>
      rw [List.cons_append, resolveFrom, hpeek] at h
      by_cases hhere : o' = o ∧ segment = key
      · rw [if_pos hhere] at h
        cases hrest : init ++ [last] with
        | nil => simp at hrest
        | cons segment' rest =>
          rw [hrest] at h
          exact absurd h (hstuck segment' rest)
      · rw [if_neg hhere] at h
        rw [resolveFrom, resolveFrom, hpeek, if_neg hhere]
        exact ih h
    | _ => rfl

/-- **A scalar that was written at a path is read back there.** -/
theorem resolve_write_alike (hdestination : s.destination path root = .ok (o, key))
    (hkey : (s.property? o key).isSome) (hv : v.isScalar = true) {u : Value}
    (hu : (s.write o key v).2.resolve path root = .ok u) : v.Alike u := by
  obtain ⟨x, halike, hpeek⟩ := peek_write hkey v
  rw [destination] at hdestination
  rw [resolve] at hu
  cases hsegments : Path.segments path with
  | error e =>
    rw [hsegments] at hu
    cases hu
  | ok segments =>
    rw [hsegments] at hu hdestination
    obtain ⟨init, last, rfl⟩ := List.eq_nil_or_concat segments |>.resolve_left
      (Path.segments_ne_nil hsegments)
    simp only [List.concat_eq_append, List.dropLast_concat, List.getLastD_concat] at hdestination
    rw [List.concat_eq_append] at hu
    replace hu : (s.write o key v).2.resolveFrom path (init ++ [last]) root = .ok u := hu
    have hinit := resolveFrom_of_overwritten (halike.isScalar_eq.symm.trans hv) hpeek hu
    rw [resolveFrom_append_singleton, hinit] at hu
    cases hobject : s.resolveFrom path init root with
    | error e =>
      rw [hobject] at hu
      cases hu
    | ok w =>
      rw [hobject] at hu hdestination
      cases w with
      | object o' =>
        cases hdestination
        rw [Except.bind, resolveFrom, hpeek, if_pos ⟨rfl, rfl⟩] at hu
        cases hu
        exact halike
      | _ => cases hdestination

end Store

end DataBinding

import DataBinding.Proofs.State.Evaluation
import DataBinding.State.Interpolation

/-!
# Rendering a template

`Store.filled` is the text of a template over a store, or the error of the first expression that
does not resolve, and nothing else; `render_eq` says that rendering gives it, and changes nothing
while nobody is evaluating.

**The text of a template depends on what its expressions show** (`filled_congr`).  Change detection
compares values and not what they show, so the other half of the story is that scalars that are
alike show the same text (`Value.Alike.display_eq`).

The expressions of a template are listed without the blanks around them; blanks do not matter for
what an expression resolves to (`resolve_trim`).
-/

set_option autoImplicit false

namespace DataBinding

/-! ## Values that are alike -/

/-- Values that are identical, or both NaN. -/
def Value.Alike (v u : Value) : Prop :=
  v.identical u = true ∨ (v.isNaN = true ∧ u.isNaN = true)

instance (v u : Value) : Decidable (v.Alike u) := inferInstanceAs (Decidable (_ ∨ _))

theorem Value.Alike.refl (v : Value) : v.Alike v := by
  cases h : v.isNaN with
  | true => exact .inr ⟨h, h⟩
  | false => exact .inl ((Value.identical_self_iff v).2 h)

theorem Value.Alike.of_identical {u v v' : Value} (h : u.Alike v) (h' : u.identical v' = true) :
    v.Alike v' := by
  rcases h with h | ⟨hnan, -⟩
  · rw [Value.identical_comm] at h
    exact .inl (Value.identical_trans h h')
  · -- NaN is identical to nothing.
    have hself := Value.identical_trans h' ((Value.identical_comm v' u).trans h')
    rw [Value.identical_self_iff, hnan] at hself
    cases hself

/-- Only a scalar is like a scalar. -/
theorem Value.Alike.isScalar_eq {u v : Value} (h : u.Alike v) : u.isScalar = v.isScalar := by
  rcases h with h | ⟨hu, hv⟩
  · cases u <;> cases v <;> first | rfl | cases h
  · cases u <;> first | cases hu | (cases v <;> first | rfl | cases hv)

/-- Equal numbers are shown alike, zeros of either sign included. -/
theorem Layout.write_shown_congr {x y : Binary64} (h : x.same y = true) :
    Layout.shown.write x = Layout.shown.write y := by
  cases x with
  | nan => cases h
  | infinite s =>
    cases y with
    | infinite t => rw [show s = t by simpa [Binary64.same] using h]
    | _ => cases h
  | finite s m e hm =>
    cases y with
    | finite t n f hn =>
      simp only [Binary64.same, Bool.or_eq_true, Bool.and_eq_true, beq_iff_eq] at h
      rcases h with ⟨rfl, rfl⟩ | ⟨⟨rfl, rfl⟩, rfl⟩
      · simp [Layout.write, Layout.shown, Layout.magnitude]
      · rfl
    | _ => cases h

/-- **Scalars that are alike show the same text.** -/
theorem Value.Alike.display_eq {s t : Store} {v u : Value} (h : v.Alike u)
    (hv : v.isScalar = true) : s.display v = t.display u := by
  cases v with
  | object o => cases hv
  | number x =>
    cases u with
    | number y =>
      rcases h with h | ⟨hx, hy⟩
      · exact Layout.write_shown_congr h
      · cases x <;> cases hx
        cases y <;> cases hy
        rfl
    | _ => rcases h with h | ⟨-, h⟩ <;> cases h
  | bool b =>
    cases u with
    | bool c =>
      rcases h with h | ⟨h, -⟩
      · rw [show b = c by simpa [Value.identical] using h]
        cases c <;> rfl
      · cases h
    | _ => rcases h with h | ⟨h, -⟩ <;> cases h
  | null | string a =>
    cases u <;> rcases h with h | ⟨h, -⟩ <;> simp_all [Value.identical, Value.isNaN, Store.display]

namespace Store

theorem snapshotWithin_congr {s t : Store} (h : s.contents = t.contents) (room : Nat)
    (ancestors : List ObjectId) (v : Value) :
    s.snapshotWithin room ancestors v = t.snapshotWithin room ancestors v := by
  induction room generalizing ancestors v with
  | zero => cases v <;> simp [snapshotWithin]
  | succ room ih =>
    cases v with
    | object o =>
      rw [snapshotWithin, snapshotWithin]
      have hobject : (s.object? o).map Object.contents = (t.object? o).map Object.contents := by
        rw [← getElem?_contents, ← getElem?_contents, h]
      cases hs : s.object? o with
      | none =>
        rw [hs, Option.map_none, eq_comm, Option.map_eq_none_iff] at hobject
        rw [hobject]
      | some a =>
        rw [hs, Option.map_some, eq_comm, Option.map_eq_some_iff] at hobject
        obtain ⟨b, hb, hcontents⟩ := hobject
        have hkind : b.kind = a.kind := congrArg Prod.fst hcontents
        have hpairs : ∀ {β : Type} (f : String × Value → β),
            b.properties.map (fun p ↦ f (p.key, p.value))
              = a.properties.map fun p ↦ f (p.key, p.value) := by
          intro β f
          have hmap := congrArg (List.map f) (congrArg Prod.snd hcontents)
          simpa only [Object.contents, List.map_map, Function.comp_def] using hmap
        have hvalues := hpairs fun p ↦ t.snapshotWithin room (o :: ancestors) p.2
        have hmembers := hpairs fun p ↦ (p.1, t.snapshotWithin room (o :: ancestors) p.2)
        rw [hb]
        simp only [hkind, ih (o :: ancestors), hvalues, hmembers]
    | _ => simp [snapshotWithin]

/-- The text of a value depends on what the objects hold. -/
theorem display_congr {s t : Store} (h : s.contents = t.contents) (v : Value) :
    s.display v = t.display v := by
  have hsize : s.objects.size = t.objects.size := by
    rw [← size_contents, ← size_contents, h]
  cases v with
  | object o => rw [display, display, snapshot, snapshot, hsize, snapshotWithin_congr h]
  | bool b => cases b <;> rfl
  | _ => rfl

end Store

/-! ## Blanks around a path -/

namespace Text

theorem dropWhile_concat {p : Char → Bool} {c : Char} (hc : p c = false) (s : List Char) :
    (s ++ [c]).dropWhile p = s.dropWhile p ++ [c] := by
  induction s with
  | nil => simp [hc]
  | cons d s ih =>
    rw [List.cons_append, List.dropWhile_cons, List.dropWhile_cons, ih]
    split <;> rfl

theorem dropWhile_dropWhile (p : Char → Bool) (s : List Char) :
    (s.dropWhile p).dropWhile p = s.dropWhile p := by
  induction s with
  | nil => rfl
  | cons c s ih =>
    rw [List.dropWhile_cons]
    split
    · exact ih
    · rename_i h
      rw [List.dropWhile_cons, if_neg h]

theorem trimChars_trimChars (s : List Char) : trimChars (trimChars s) = trimChars s := by
  rw [trimChars, trimChars]
  cases h : s.dropWhile isBlank with
  | nil => rfl
  | cons c rest =>
    have hc : isBlank c = false := by
      have hhead := List.head?_dropWhile_not isBlank s
      rw [h] at hhead
      simpa using hhead
    have hrest : ((c :: rest).reverse.dropWhile isBlank).reverse
        = c :: (rest.reverse.dropWhile isBlank).reverse := by
      rw [List.reverse_cons, dropWhile_concat hc, List.reverse_append]
      rfl
    rw [hrest, List.dropWhile_cons, if_neg (by simp [hc]), List.reverse_cons,
      List.reverse_reverse, dropWhile_concat hc, dropWhile_dropWhile, List.reverse_append]
    rfl

end Text

theorem Path.segments_trim (path : String) :
    Path.segments (Text.trim path) = Path.segments path := by
  rw [Path.segments, Path.segments, Text.trim, String.toList_ofList, Text.trimChars_trimChars]

theorem Text.trim_trim (s : String) : Text.trim (Text.trim s) = Text.trim s := by
  rw [Text.trim, Text.trim, String.toList_ofList, Text.trimChars_trimChars]

namespace Store

theorem resolveFrom_congr_path (s : Store) {path path' : String}
    (h : Text.trim path = Text.trim path') (segments : List String) (v : Value) :
    s.resolveFrom path segments v = s.resolveFrom path' segments v := by
  induction segments generalizing v with
  | nil => rfl
  | cons segment rest ih =>
    cases v with
    | object o => exact ih _
    | _ => rw [resolveFrom, resolveFrom, h] <;> simp

/-- **Blanks around an expression do not matter.** -/
theorem resolve_trim (s : Store) (path : String) (root : Value) :
    s.resolve (Text.trim path) root = s.resolve path root := by
  rw [resolve, resolve, Path.segments_trim]
  cases Path.segments path with
  | error e => rfl
  | ok segments => exact s.resolveFrom_congr_path (Text.trim_trim path) segments root

theorem reads_trim (s : Store) (path : String) (root : Value) :
    s.reads (Text.trim path) root = s.reads path root := by
  rw [reads, reads, Path.segments_trim]

theorem destination_trim (s : Store) (path : String) (root : Value) :
    s.destination (Text.trim path) root = s.destination path root := by
  rw [destination, destination, Path.segments_trim]
  cases Path.segments path with
  | error e => rfl
  | ok segments =>
    simp only [s.resolveFrom_congr_path (Text.trim_trim path), Text.trim_trim]

/-! ## The text of a template -/

/-- The text of parts of a template. -/
def fillPieces (s : Store) (root : Value) : List Template.Piece → Except StateError (List Char)
  | [] => .ok []
  | .literal c :: rest => (s.fillPieces root rest).map (c :: ·)
  | .expression expr :: rest =>
    if (Text.trimChars expr).isEmpty then s.fillPieces root rest
    else match s.resolve (String.ofList expr) root with
      | .error e => .error e
      | .ok v => (s.fillPieces root rest).map ((s.display v).toList ++ ·)

/-- The text of a template. -/
def filled (s : Store) (template : String) (root : Value) : Except StateError String :=
  (s.fillPieces root (Template.pieces template.toList)).map String.ofList

theorem fillPieces_of_contents {s t : Store} (h : t.contents = s.contents) (root : Value)
    (pieces : List Template.Piece) : t.fillPieces root pieces = s.fillPieces root pieces := by
  induction pieces with
  | nil => rfl
  | cons piece rest ih =>
    cases piece with
    | literal c => rw [fillPieces, fillPieces, ih]
    | expression expr => simp only [fillPieces, ih, resolve_of_contents h, display_congr h]

/-- The text of a template depends on what the objects hold. -/
theorem filled_of_contents {s t : Store} (h : t.contents = s.contents) (template : String)
    (root : Value) : t.filled template root = s.filled template root := by
  rw [filled, filled, fillPieces_of_contents h]

/-- The expression that a part of a template is, without the blanks around it. -/
def exprOf : Template.Piece → Option String
  | .expression text =>
    if (Text.trimChars text).isEmpty then none else some (String.ofList (Text.trimChars text))
  | .literal _ => none

theorem expressions_eq (template : String) :
    Template.expressions template = (Template.pieces template.toList).filterMap exprOf := by
  rw [Template.expressions]
  refine congrArg (List.filterMap · _) (funext fun piece ↦ ?_)
  cases piece <;> rfl

theorem resolve_ofList (s : Store) (expr : List Char) (root : Value) :
    s.resolve (String.ofList expr) root = s.resolve (String.ofList (Text.trimChars expr)) root := by
  rw [← s.resolve_trim, Text.trim, String.toList_ofList]

theorem reads_ofList (s : Store) (expr : List Char) (root : Value) :
    s.reads (String.ofList expr) root = s.reads (String.ofList (Text.trimChars expr)) root := by
  rw [← s.reads_trim, Text.trim, String.toList_ofList]

/-- The properties that are looked up by evaluating expressions in turn, the first without a value
being the last. -/
def readsAll (s : Store) (root : Value) : List String → List (ObjectId × String)
  | [] => []
  | expr :: rest =>
    s.reads expr root ++
      match s.resolve expr root with
      | .ok _ => s.readsAll root rest
      | .error _ => []

theorem readsAll_of_contents {s t : Store} (h : t.contents = s.contents) (root : Value)
    (exprs : List String) : t.readsAll root exprs = s.readsAll root exprs := by
  induction exprs with
  | nil => rfl
  | cons expr rest ih =>
    rw [readsAll, readsAll, reads_of_contents h, resolve_of_contents h, ih]

/-- Rendering gives the text of the pieces, and looks up what their expressions do. -/
theorem renderPieces_eq (s : Store) (root : Value) (pieces : List Template.Piece) :
    renderPieces root pieces s =
      (s.fillPieces root pieces, s.touch (s.readsAll root (pieces.filterMap exprOf))) := by
  induction pieces generalizing s with
  | nil => rfl
  | cons piece rest ih =>
    cases piece with
    | literal c =>
      rw [renderPieces, ih, fillPieces]
      cases s.fillPieces root rest <;> rfl
    | expression expr =>
      rw [renderPieces, fillPieces, List.filterMap_cons, exprOf]
      split
      · exact ih s
      · rw [getValue_eq, readsAll, reads_ofList, resolve_ofList]
        cases s.resolve (String.ofList (Text.trimChars expr)) root with
        | error e => rw [List.append_nil]
        | ok v =>
          simp only [ih, touch_append, display_congr (contents_touch ..) v,
            fillPieces_of_contents (contents_touch ..), readsAll_of_contents (contents_touch ..)]
          cases s.fillPieces root rest <;> rfl

/-- Rendering gives the text of the template, and looks up what its expressions do. -/
theorem render_eq_touch (s : Store) (template : String) (root : Value) :
    render template root s =
      (s.filled template root, s.touch (s.readsAll root (Template.expressions template))) := by
  rw [render, renderPieces_eq, filled, expressions_eq]

theorem exists_render_eq (s : Store) (template : String) (root : Value) :
    ∃ reads, render template root s = (s.filled template root, s.touch reads) :=
  ⟨_, s.render_eq_touch template root⟩

/-- Rendering changes nothing while nobody is evaluating. -/
theorem render_eq {s : Store} (h : s.tracking = []) (template : String) (root : Value) :
    render template root s = (s.filled template root, s) := by
  rw [render_eq_touch, touch_of_tracking_nil h]

/-- Both stores give the expression a value, and the values show the same text. -/
def ShowsSame (s t : Store) (root : Value) (expr : String) : Prop :=
  ∃ v u, s.resolve expr root = .ok v ∧ t.resolve expr root = .ok u ∧ s.display v = t.display u

theorem fillPieces_congr {s t : Store} {root root' : Value} {pieces : List Template.Piece}
    (h : ∀ e ∈ pieces.filterMap exprOf, ∃ v u, s.resolve e root = .ok v ∧
      t.resolve e root' = .ok u ∧ s.display v = t.display u) :
    s.fillPieces root pieces = t.fillPieces root' pieces := by
  induction pieces with
  | nil => rfl
  | cons piece rest ih =>
    cases piece with
    | literal c => rw [fillPieces, fillPieces, ih h]
    | expression expr =>
      rw [fillPieces, fillPieces]
      by_cases hblank : (Text.trimChars expr).isEmpty = true
      · rw [if_pos hblank, if_pos hblank]
        refine ih fun e he ↦ h e ?_
        simpa [exprOf, hblank] using he
      · have hmem : ∀ e, e = String.ofList (Text.trimChars expr) ∨ e ∈ rest.filterMap exprOf →
            ∃ v u, s.resolve e root = .ok v ∧ t.resolve e root' = .ok u ∧
              s.display v = t.display u := by
          intro e he
          refine h e ?_
          rw [List.filterMap_cons, exprOf, if_neg hblank]
          exact List.mem_cons.2 he
        obtain ⟨v, u, hv, hu, hshow⟩ := hmem _ (.inl rfl)
        rw [if_neg hblank, if_neg hblank, resolve_ofList, resolve_ofList t, hv, hu,
          ih fun e he ↦ hmem e (.inr he)]
        simp only [hshow]

/-- **The text of a template depends on what its expressions show.** -/
theorem filled_congr {s t : Store} {template : String} {root root' : Value}
    (h : ∀ e ∈ Template.expressions template, ∃ v u, s.resolve e root = .ok v ∧
      t.resolve e root' = .ok u ∧ s.display v = t.display u) :
    s.filled template root = t.filled template root' := by
  rw [expressions_eq] at h
  rw [filled, filled, fillPieces_congr h]

theorem fillPieces_isOk_iff (s : Store) (root : Value) (pieces : List Template.Piece) :
    (∃ text, s.fillPieces root pieces = .ok text) ↔
      ∀ e ∈ pieces.filterMap exprOf, ∃ v, s.resolve e root = .ok v := by
  induction pieces with
  | nil => simp [fillPieces]
  | cons piece rest ih =>
    have hmap : ∀ f : List Char → List Char,
        (∃ text, (s.fillPieces root rest).map f = .ok text) ↔
          ∃ text, s.fillPieces root rest = .ok text := by
      intro f
      cases s.fillPieces root rest <;> simp [Except.map]
    cases piece with
    | literal c =>
      rw [fillPieces, hmap, ih]
      simp [exprOf]
    | expression expr =>
      rw [fillPieces]
      by_cases hblank : (Text.trimChars expr).isEmpty = true
      · rw [if_pos hblank, ih, List.filterMap_cons, exprOf, if_pos hblank]
      · rw [if_neg hblank, List.filterMap_cons, exprOf, if_neg hblank, List.forall_mem_cons,
          resolve_ofList, ← ih]
        cases s.resolve (String.ofList (Text.trimChars expr)) root with
        | error e => simp
        | ok v => simp [hmap]

/-- A template has a text when all its expressions resolve, and only then. -/
theorem filled_isOk_iff (s : Store) (template : String) (root : Value) :
    (∃ text, s.filled template root = .ok text) ↔
      ∀ e ∈ Template.expressions template, ∃ v, s.resolve e root = .ok v := by
  rw [expressions_eq, ← fillPieces_isOk_iff, filled]
  cases s.fillPieces root (Template.pieces template.toList) <;> simp [Except.map]

end Store

end DataBinding

import DataBinding.Engine.Run
import DataBinding.Proofs.Markup.Spelling
import DataBinding.Proofs.Template.FilledTemplates

/-!
# Markers that are left in a compiled document

A compilation takes every marker away that it finds.  But the directive `attr` gives its element an
attribute of any name, and nobody looks whether that name is a marker itself.  It is found later on
only if the element has a marker of that name anyhow, further on among its attributes.

So **no marker is left exactly when no directive sets one that does not have its turn yet**
(`no_marker_left_iff`); `marker_is_set` is a template with such a directive.
-/

set_option autoImplicit false

namespace DataBinding

open Document

variable {σ : Type}

/-- An `attr` directive sets a marker that has its turn no more. -/
def Dialect.SetsMarker (dialect : Dialect) (x : Element) : Prop :=
  ∃ pre a post marker, x.attributes = pre ++ a :: post ∧
    dialect.classify a.1 = some (.directive "attr" (some marker)) ∧
    (dialect.classify marker).isSome ∧ marker ∉ post.map Prod.fst

/-- Markers are left on an element if it sets one. -/
theorem Dialect.exists_marker_dressed_iff {dialect : Dialect} {x : Element} :
    (∃ a ∈ dialect.dressed x.attributes, (dialect.classify a.1).isSome) ↔ dialect.SetsMarker x := by
  constructor
  · rintro ⟨a, ha, hmarker⟩
    obtain ⟨pre, b, post, heq, hset, hpost⟩ :=
      (mem_names_dressed hmarker).1 (List.mem_map_of_mem (f := Prod.fst) ha)
    exact ⟨pre, b, post, a.1, heq, hset, hmarker, hpost⟩
  · rintro ⟨pre, b, post, marker, heq, hset, hmarker, hpost⟩
    obtain ⟨a, ha, rfl⟩ :=
      List.mem_map.1 ((mem_names_dressed hmarker).2 ⟨pre, b, post, heq, hset, hpost⟩)
    exact ⟨a, ha, hmarker⟩

/-- **When no marker is left.**  After a compilation no element below the root has a marker exactly
when none of the elements that were visited sets one that has its turn no more. -/
theorem no_marker_left_iff {call : Call σ} {limit : Nat} {job : CompileJob σ}
    {methods : String → Event → Action σ} {w w' : World σ} {compiled : Compiled} {markup : String}
    (htable : job.table = .standard) (hparse : parse markup = .ok w.scene.document)
    (hrun : Compilation.compile call limit job methods w = some (.ok compiled, w')) :
    (∀ n y, w'.scene.document.Above job.root n → w'.scene.document.element? n = some y →
        ∀ a ∈ y.attributes, job.dialect.classify a.1 = none) ↔
      ∀ n x, w.scene.document.Visited job.dialect job.root n →
        w.scene.document.element? n = some x → ¬job.dialect.SetsMarker x := by
  have hd := parse_isForest hparse
  have hfilled := compile_filled htable hd (parse_leafy hparse) hrun
  constructor
  · intro hnone n x hvisited hx hsets
    obtain ⟨y, hy, -, hdressed⟩ := hfilled.dressed n x hvisited (element?_eq_some_iff.1 hx)
    obtain ⟨a, ha, hmarker⟩ := Dialect.exists_marker_dressed_iff.2 hsets
    rw [← hdressed] at ha
    rw [hnone n y (hfilled.above_of_visited hvisited) (element?_eq_some_iff.2 hy) a ha] at hmarker
    cases hmarker
  · intro hnone n y hn hy a ha
    obtain ⟨x, hvisited, hx, -, hdressed⟩ :=
      hfilled.exists_element hd hn (element?_eq_some_iff.1 hy)
    rw [hdressed] at ha
    by_contra hmarker
    exact hnone n x hvisited (element?_eq_some_iff.2 hx)
      (Dialect.exists_marker_dressed_iff.1 ⟨a, ha, Option.isSome_iff_ne_none.2 hmarker⟩)

/-! ## Markers set by a directive -/

/-- Compiles a whole document that needs no state. -/
def statelessJob : CompileJob Unit := ⟨0, .null, .standard, .standard, fun _ data ↦ data⟩

/-- Compiles it. -/
def World.compiled (w : World Unit) : Option (Except BindError Compiled × World Unit) :=
  Compilation.compile (run 1) 4 statelessJob (fun _ _ ↦ .done (.ok ())) w

/-- A directive sets a marker that the element has, too, and that has its turn later. -/
def laterTurn : World Unit := .ofMarkup "<a bind-attr:@click=\"go\" @click=\"stop\"></a>"

theorem no_marker_left_of_laterTurn :
    ∃ compiled w', laterTurn.compiled = some (.ok compiled, w') ∧
      ∀ n y, w'.scene.document.Above 0 n → w'.scene.document.element? n = some y →
        ∀ a ∈ y.attributes, Dialect.standard.classify a.1 = none := by
  have hok : (laterTurn.compiled.map fun r ↦ r.1.isOk) = some true := by decide +kernel
  obtain ⟨⟨result, w'⟩, hrun, hresult⟩ := Option.map_eq_some_iff.1 hok
  cases result with
  | error e => cases hresult
  | ok compiled =>
    refine ⟨compiled, w', hrun, (no_marker_left_iff (rfl : statelessJob.table = .standard)
      (World.parse_ofMarkup (by decide +kernel)) hrun).2 fun n x hn hx ↦ ?_⟩
    have hchildren : laterTurn.scene.document.children 0 = [1] ∧
        laterTurn.scene.document.children 1 = [] := by decide +kernel
    obtain rfl : n = 1 := by
      clear hx
      induction hn with
      | child h => exact List.mem_singleton.1 (hchildren.1 ▸ h)
      | inside _ _ h ih =>
        subst ih
        exact absurd (hchildren.2 ▸ h) List.not_mem_nil
    have helement : laterTurn.scene.document.element? 1 =
        some ⟨"a", [("bind-attr:@click", "go"), ("@click", "stop")], none⟩ := by decide +kernel
    cases helement.symm.trans hx
    rintro ⟨pre, a, post, marker, heq, hset, -, hpost⟩
    have hfirst : Dialect.standard.classify "bind-attr:@click" =
        some (.directive "attr" (some "@click")) := by decide +kernel
    have hsecond : Dialect.standard.classify "@click" = some (.event "click") := by decide +kernel
    cases pre with
    | nil =>
      cases heq
      cases hfirst.symm.trans hset
      exact hpost (by simp)
    | cons _ pre =>
      cases pre with
      | nil =>
        cases heq
        cases hsecond.symm.trans hset
      | cons _ pre => simp at heq

/-- **A marker is left.**  The directive sets it when all markers have been found. -/
theorem marker_is_set :
    ((World.ofMarkup "<a bind-attr:@click=\"go\"></a>").compiled.map fun r ↦
        (r.1.isOk, r.2.scene.document.children 0, r.2.scene.document.attributes 1)) =
      some (true, [1], [("@click", "go")]) ∧
    Dialect.standard.classify "@click" = some (.event "click") := by
  decide +kernel

end DataBinding

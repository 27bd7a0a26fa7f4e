import DataBinding.Proofs.Engine.ShownValues
import DataBinding.Proofs.State.ComposedTemplates
import DataBinding.Proofs.Template.CompiledAnew

/-!
# Bonds that show one expression

The value of an expression is shown as the text of a node in two ways: by an element with a
directive for the expression, and by a text node in which the expression stands between braces.  The
second one is a template like any other, and **braces around an expression make one exactly if it
stands on one line** (`hasExpression_braced`).  Then the two are bonds with the same texts
(`Bond.Reflects`).

The watcher of such a bond shows the value of its expression, and the code of the other bonds of a
compiled template spares what it shows (`Bond.reaction_shows`, `Bond.reaction_spares`), so its world
goes as its follower does.
-/

set_option autoImplicit false

namespace DataBinding

open Document Errand

variable {σ : Type}

/-! ## Expressions between braces -/

namespace Template

/-- An expression between braces. -/
def braced (e : String) : String := write [.expression e]

theorem toList_braced (e : String) :
    (braced e).toList = '{' :: '{' :: (e.toList ++ ['}', '}']) := by
  simp [braced, write, Part.write]

variable {e : String}

theorem ne_empty_of_trim (h : Text.trim e ≠ "") : e ≠ "" := by
  rintro rfl
  exact h rfl

/-- A pair of a character is not part of a text in which it stands once at most. -/
theorem not_pair_infix {q : Char} {s : List Char} (h : s.count q ≤ 1) :
    ¬[q, q] <:+: s := fun hpair ↦ by
  have hcount := hpair.sublist.count_le q
  simp only [List.count_cons_self, List.count_nil] at hcount
  omega

/-- On one line an expression without braces is read as it was written. -/
theorem braced_fits (hblank : Text.trim e ≠ "") (hclosing : '}' ∉ e.toList)
    (hline : '\n' ∉ e.toList) : ∀ p ∈ [Part.expression e], p.Fits := by
  simp only [List.mem_singleton, forall_eq]
  refine ⟨ne_empty_of_trim hblank, hline, not_pair_infix (q := '}') ?_⟩
  rw [String.toList_append, List.count_append, List.count_eq_zero_of_not_mem hclosing]
  decide

/-- What is read as an expression up to the first closing stands on one line. -/
theorem line_of_expression? {s inside after : List Char} (hclosing : '}' ∉ s)
    (h : expression? (s ++ ['}', '}']) = some (inside, after)) : '\n' ∉ s := by
  cases s with
  | nil => exact List.not_mem_nil
  | cons c s =>
    obtain ⟨body, -, hc, hread⟩ := expression?_cons_eq_some_iff.1 h
    obtain ⟨heq, hline, -⟩ := closing?_eq_some_iff.1 hread
    rw [List.mem_cons, not_or] at hclosing
    refine List.not_mem_cons_of_ne_of_not_mem (Ne.symm hc) fun hmem ↦ ?_
    rcases List.append_eq_append_iff.1 heq with ⟨more, rfl, -⟩ | ⟨more, rfl, hmore⟩
    · exact hline (List.mem_append_left _ hmem)
    · cases more with
      | nil => exact hline (by rwa [List.append_nil] at hmem)
      | cons d more =>
        rw [List.cons_append] at hmore
        obtain ⟨rfl, -⟩ := List.cons.inj hmore
        exact hclosing.2 (by simp)

/-- Where two opening braces are nowhere side by side there is no expression. -/
theorem hasExpression_of_not_infix {t : String} (hopening : ¬['{', '{'] <:+: t.toList)
    (hlast : t.toList.getLast? ≠ some '{') : hasExpression t = false := by
  have hpieces := pieces_text hopening hlast []
  rw [List.append_nil, Template.pieces.eq_1, List.append_nil] at hpieces
  simp [hasExpression, hpieces]

/-- An expression without braces is no template. -/
theorem hasExpression_of_not_mem (h : '{' ∉ e.toList) : hasExpression e = false :=
  hasExpression_of_not_infix (fun hpair ↦ h (hpair.subset (by simp)))
    fun hlast ↦ h (List.mem_of_getLast? hlast)

/-- **Braces around an expression make a template exactly if it stands on one line.** -/
theorem hasExpression_braced (hblank : Text.trim e ≠ "") (hopening : '{' ∉ e.toList)
    (hclosing : '}' ∉ e.toList) : hasExpression (braced e) = true ↔ '\n' ∉ e.toList := by
  refine ⟨fun hexpr ↦ ?_, fun hline ↦ ?_⟩
  · rw [hasExpression, toList_braced, Template.pieces.eq_2] at hexpr
    split at hexpr
    · rename_i inside after hread
      exact line_of_expression? hclosing hread
    · -- No opening is left in what follows the first brace.
      have hcount : ('{' :: (e.toList ++ ['}', '}'])).count '{' ≤ 1 := by
        rw [List.count_cons_self, List.count_append, List.count_eq_zero_of_not_mem hopening]
        decide
      have hrest := hasExpression_of_not_infix (t := .ofList ('{' :: (e.toList ++ ['}', '}'])))
        (by rw [String.toList_ofList]; exact not_pair_infix hcount)
        (by simp [List.getLast?_cons, List.getLast?_append])
      rw [hasExpression, String.toList_ofList] at hrest
      simp [hrest] at hexpr
  · rw [braced, hasExpression_write (braced_fits hblank hclosing hline)]
    rfl

theorem expressions_braced (hblank : Text.trim e ≠ "") (hclosing : '}' ∉ e.toList)
    (hline : '\n' ∉ e.toList) : expressions (braced e) = [Text.trim e] := by
  rw [braced, expressions_write (braced_fits hblank hclosing hline)]
  simp [Part.listed, hblank]

/-- The text of such a template is the one of the value. -/
theorem filled_braced (hblank : Text.trim e ≠ "") (hclosing : '}' ∉ e.toList)
    (hline : '\n' ∉ e.toList) (s : Store) (root : Value) :
    s.filled (braced e) root = (s.resolve e root).map s.display := by
  rw [Store.filled, braced, pieces_write (braced_fits hblank hclosing hline),
    List.flatMap_singleton, Store.fillPieces_part, Store.partText, if_neg hblank,
      Store.getValue_fst]
  cases s.resolve e root <;> simp [Except.map]

end Template

/-! ## Texts of nodes -/

/-- A node shows a text: it is that text, or an element that has it as its only child. -/
inductive Document.ShowsText (d : Document) (n : NodeId) (text : String) : Prop
  | own (h : d.content? n = some (.text text))
  | inside {x : Element} {i : NodeId} (hx : d.content? n = some (.element x))
      (hchildren : d.children n = [i]) (hi : d.content? i = some (.text text))

/-- The bond shows the value of one expression as the text of its node. -/
structure Bond.Reflects (b : Bond) (e : String) : Prop where
  slot : b.slot = .text
  exprs : b.exprs.map Text.trim = [Text.trim e]
  text : ∀ (s : Store) (root : Value), b.text s root = (s.resolve e root).map s.display

theorem Bond.reflects_value (n : NodeId) (e : String) : (Bond.value n .text e).Reflects e :=
  ⟨rfl, rfl, fun _ _ ↦ rfl⟩

theorem Bond.reflects_braced (n : NodeId) {e : String} (hblank : Text.trim e ≠ "")
    (hclosing : '}' ∉ e.toList) (hline : '\n' ∉ e.toList) :
    (Bond.template n (Template.braced e)).Reflects e where
  slot := rfl
  exprs := by
    rw [Bond.exprs, Template.expressions_braced hblank hclosing hline, List.map_singleton,
      Text.trim_trim]
  text s root := Template.filled_braced hblank hclosing hline s root

/-- A document that depicts a template in which a bond shows a text. -/
def CompileJob.Shown (job : CompileJob σ) (d : Document) (es : List Errand) (b : Bond)
    (text : String) (e : Document) : Prop :=
  ∃ shown, e = job.depiction d es shown ∧ shown b = text

section Shown

variable {job : CompileJob σ} {d e : Document} {es : List Errand} {err err' : Errand} {b b' : Bond}
  {text : String} (h : Separate job d es) (hl : Laid job.dialect (d.stage job.root).2 es)

include h hl

/-- A bond is shown anew. -/
theorem CompileJob.Shown.apply (hshown : job.Shown d es b text e) (herr : err ∈ es)
    (hb : err.bond? = some b) (text' : String) :
    job.Shown d es b text' (e.apply (b.edit text')) := by
  obtain ⟨shown, rfl, -⟩ := hshown
  exact ⟨_, (h.apply hl herr hb shown text').2, Function.update_self ..⟩

/-- Another bond is shown anew. -/
theorem CompileJob.Shown.apply_other (hshown : job.Shown d es b text e) (herr : err' ∈ es)
    (hb : err'.bond? = some b') (hne : b ≠ b') (text' : String) :
    job.Shown d es b text (e.apply (b'.edit text')) := by
  obtain ⟨shown, rfl, rfl⟩ := hshown
  exact ⟨_, (h.apply hl herr hb shown text').2, Function.update_of_ne hne ..⟩

/-- **The node of a bond shows its text.** -/
theorem CompileJob.Shown.shows (hshown : job.Shown d es b text e) (herr : err ∈ es)
    (hb : err.bond? = some b) (hslot : b.slot = .text) : e.ShowsText b.node text := by
  obtain ⟨shown, rfl, rfl⟩ := hshown
  obtain ⟨⟨i, hplace⟩, happly⟩ := h.apply hl herr hb shown (shown b)
  -- Showing the text once more changes nothing, so it is there.
  rw [Function.update_eq_self, hplace.apply_edit, hslot] at happly
  have hi : (job.depiction d es shown).content? i = some (.text (shown b)) := by
    obtain ⟨c, hc⟩ := exists_content? hplace.lt_size
    rw [← happly, content?_mapContent, if_pos rfl, hc]
    rfl
  cases hplace with
  | control hcontrol => rw [hslot] at hcontrol; cases hcontrol
  | text _ hin => exact .own (hin ▸ hi)
  | inside _ hx hch => exact .inside hx hch hi

end Shown

/-! ## The code of bonds and of bystanders -/

section Code

variable {job : CompileJob σ} {d : Document} {es : List Errand} {err : Errand} {b b' : Bond}

/-- The code of a bond returns.  It shows some text or it does nothing. -/
theorem Bond.exists_run_reaction (b : Bond) (job : CompileJob σ) (v : Value) (depth : Nat)
    {w : World σ} (hidle : w.scene.store.tracking = []) :
    ∃ r w', run (depth + 1) (b.reaction job v) w = some (r, w') ∧
      (w' = w ∨ ∃ text, w' = w.presenting job b.node b.slot text) := by
  cases b with
  | value n slot expr => exact ⟨_, _, rfl, .inr ⟨_, rfl⟩⟩
  | template n template =>
    rw [Bond.reaction, run_showingTemplate_eq hidle]
    cases w.scene.store.filled template job.state with
    | error e => exact ⟨_, _, rfl, .inl rfl⟩
    | ok text => exact ⟨_, _, rfl, .inr ⟨text, rfl⟩⟩

theorem World.repaints_presenting (w : World σ) (job : CompileJob σ) (n : NodeId) (slot : Slot)
    (text : String) : w.Repaints (w.presenting job n slot text) := ⟨rfl, rfl, rfl⟩

variable (h : Separate job d es) (hl : Laid job.dialect (d.stage job.root).2 es)

include h hl

/-- **The code of another bond spares what is shown.** -/
theorem Bond.reaction_spares (herr : err ∈ es) (hb : err.bond? = some b') (hne : b ≠ b')
    (v : Value) :
    (b'.reaction job v).Spares (job.Shown d es b) := by
  intro depth w text hidle hshown
  obtain ⟨r, w', hrun, hw'⟩ := b'.exists_run_reaction job v depth hidle
  refine ⟨r, w', hrun, ?_⟩
  rcases hw' with rfl | ⟨text', rfl⟩
  · exact ⟨⟨rfl, rfl, rfl⟩, hshown⟩
  · exact ⟨w.repaints_presenting .., hshown.apply_other h hl herr hb hne text'⟩

/-- **The code of a bond that reflects an expression shows its value.** -/
theorem Bond.reaction_shows {e : String} (hreflects : b.Reflects e) (herr : err ∈ es)
    (hb : err.bond? = some b) :
    ShowsValue (job.Shown d es b) (Text.trim e) job.state (b.reaction job) := by
  intro depth w text v hidle hshown hv
  obtain ⟨expr, hexprs, htrim⟩ := List.map_eq_singleton_iff.1 hreflects.exprs
  rw [← htrim, Store.resolve_trim] at hv
  have htext : b.text w.scene.store job.state = .ok (w.scene.store.display v) := by
    rw [hreflects.text, ← Store.resolve_trim, ← htrim, Store.resolve_trim, hv]
    rfl
  obtain ⟨r, w', hrun, -⟩ := b.exists_run_reaction job v depth hidle
  rcases run_reaction (by simp [hexprs]) hv hidle hrun with ⟨text', htext', rfl,
    rfl⟩ | ⟨_, htext', -⟩
  · cases htext.symm.trans htext'
    exact ⟨_, hrun, w.repaints_presenting .., hshown.apply h hl herr hb _⟩
  · cases htext.symm.trans htext'

end Code

/-- Code that only looks spares what is shown. -/
theorem Action.Spares.of_onlooks {a : Action σ} (ha : a.Onlooks)
    (shows : String → Document → Prop) :
    a.Spares shows := by
  intro depth w text hidle hshown
  obtain ⟨-, r, data, hrun⟩ := ha.follow_eq (run depth) depth (chronicle depth) hidle
  exact ⟨r, _, hrun, ⟨rfl, rfl, rfl⟩, hshown⟩

end DataBinding

import DataBinding.Proofs.Document.Preorder
import DataBinding.Proofs.Template.DocumentAfterWrites
import DataBinding.Proofs.Template.NoInjectedMarkup

/-!
# Bindings work in place

A compilation shows each bond of its template once, and this may make nodes and drop others.  After
that every bond has a place, the node whose content shows it (`Document.Placed`, `compile_placed`),
and showing it again changes this content and nothing else.  So as long as no other code edits the
document, **nodes, links and attributes stay what they were right after the compilation**
(`rendered_in_place`): what changes is in `Document.MayChange`.

Each element has one directive for its content at most.  Two of them would take the only child from
each other, a text and raw markup in turn, with a new node each time.
-/

set_option autoImplicit false

namespace DataBinding

open Document Errand

variable {σ : Type}

/-! ## What is inside of an element that is shown something -/

section Inside

variable {d : Document} {n : NodeId} {x : Element}

/-- **What is inside of an element that has been shown a text** is what the text is written as. -/
theorem Document.IsForest.innerMarkup_edit (hd : d.IsForest)
    (hx : d.content? n = some (.element x)) {slot : Slot} (hslot : slot.isContent = true)
    (text : String) :
    (d.apply (slot.edit n text)).innerMarkup n = (slot.content text).markupAround "" := by
  have hforest := hd.apply (slot.edit n text)
  rw [apply_edit_of_element hx hslot] at hforest ⊢
  have hreplaced := replaceContent_replaced (lt_size_of_content? hx) (slot.content text)
  rw [innerMarkup_eq_join, hreplaced.children_self, List.map_singleton,
    hforest.outerMarkup_eq hreplaced.content?_spot, String.join_cons, String.join_nil,
    String.append_empty]
  cases slot <;> rfl

/-- A text is written with its special characters escaped. -/
theorem Document.IsForest.innerMarkup_setText (hd : d.IsForest)
    (hx : d.content? n = some (.element x)) (text : String) :
    (d.setText n text).innerMarkup n = String.ofList (Markup.escapeText text) :=
  hd.innerMarkup_edit hx (show Slot.text.isContent = true from rfl) text

/-- Raw markup is written as it is. -/
theorem Document.IsForest.innerMarkup_setMarkup (hd : d.IsForest)
    (hx : d.content? n = some (.element x)) (markup : String) :
    (d.setMarkup n markup).innerMarkup n = markup :=
  hd.innerMarkup_edit hx (show Slot.markup.isContent = true from rfl) markup

end Inside

/-! ## The bonds of a template -/

namespace Document

/-- A text node with expressions, which is bound. -/
def TextBound (d : Document) (dialect : Dialect) (root n : NodeId) : Prop :=
  d.Visited dialect root n ∧ ∃ t, d.content? n = some (.text t) ∧ Template.hasExpression t = true

/-- An element with a directive for its content, which is bound. -/
def ContentBound (d : Document) (dialect : Dialect) (root n : NodeId) : Prop :=
  d.Visited dialect root n ∧ dialect.owns (d.content? n) = true

/-- A bond that compiling a template makes. -/
def HasBond (d : Document) (dialect : Dialect) (root : NodeId) (b : Bond) : Prop :=
  ∃ n, d.Visited dialect root n ∧ ∃ err ∈ ofNode .standard dialect n (d.content? n),
    err.bond? = some b

/-- What shows the content of a node belongs to a bound text or to a bound element. -/
theorem HasBond.content {d : Document} {dialect : Dialect} {root : NodeId} {b : Bond}
    (h : d.HasBond dialect root b) (hslot : b.slot.isContent = true) :
    d.TextBound dialect root b.node ∨ d.ContentBound dialect root b.node := by
  obtain ⟨n, hn, err, herr, hb⟩ := h
  have hnode := node?_of_mem_ofNode DirectiveTable.standard_orderly herr (node?_of_bond hb)
  rw [hnode]
  have hfits := fits_of_mem_ofNode DirectiveTable.standard_orderly herr
  rcases hfits.content (onContent_of_bond hb hslot) with ⟨howns, -⟩ | ⟨t, ht, -⟩
  · exact .inr ⟨hn, howns⟩
  · refine .inl ⟨hn, t, ht, ?_⟩
    rw [ht, ofNode] at herr
    split at herr
    · assumption
    · cases herr

/-- A document in which every bond of a template has a place. -/
structure Placed (d : Document) (dialect : Dialect) (root : NodeId) (e : Document) : Prop where
  sort : ∀ n c, d.Visited dialect root n → d.content? n = some c →
    ∃ c', e.content? n = some c' ∧ c.sameSort c' = true
  single : ∀ n, d.ContentBound dialect root n → ∃ i, e.children n = [i]
  place : ∀ b, d.HasBond dialect root b → ∃ i, b.ShownAt i e

/-- A bound element is an element, and a bound text is a text. -/
theorem Placed.element_iff {d e : Document} {dialect : Dialect} {root n : NodeId}
    (h : d.Placed dialect root e)
    (hn : d.TextBound dialect root n ∨ d.ContentBound dialect root n) :
    d.ContentBound dialect root n ↔ ∃ x, e.content? n = some (.element x) := by
  constructor
  · rintro ⟨hvisited, howns⟩
    obtain ⟨x, hx⟩ := Dialect.exists_element_of_owns howns
    obtain ⟨c, hc, hsort⟩ := h.sort n _ hvisited hx
    cases c <;> first | exact ⟨_, hc⟩ | cases hsort
  · rintro ⟨x, hx⟩
    refine hn.resolve_left ?_
    rintro ⟨hvisited, t, ht, -⟩
    obtain ⟨c, hc, hsort⟩ := h.sort n _ hvisited ht
    cases hx.symm.trans hc
    cases hsort

end Document

/-! ## Places after a compilation -/

/-- **When errands have been done each bond has a place**, if no other errand is about the content
it shows.  Errands that come later leave the place where it is. -/
theorem Errand.Painting.exists_shownAt {dialect : Dialect} {d e : Document} {es : List Errand}
    {err : Errand} {b : Bond} (h : Painting es d e) (hl : Laid dialect d es)
    (hcount : ∀ n, (es.filterMap part?).count (n, .content) ≤ 1) (herr : err ∈ es)
    (hb : err.bond? = some b) (hpart : err.part?.isSome) : ∃ i, b.ShownAt i e := by
  have htended : ∀ {es' f e}, (∀ err ∈ es', err ∈ es) → Painting es' f e →
      Tended dialect d es f → Tended dialect d es e := fun hsub hpainting hf ↦
    hpainting.keeps (fun err hmem shown _ he ↦ he.apply hl (hsub err hmem) shown) hf
  by_cases hslot : b.slot.isContent = true
  · have hcontent := part?_of_onContent (node?_of_bond hb) (onContent_of_bond hb hslot)
    obtain ⟨before, after, rfl⟩ := List.append_of_mem herr
    have hothers := part?_ne_of_count (hcount b.node) hcontent
    obtain ⟨f, hbefore, hafter⟩ := h.exists_split
    have hf := htended (fun err' hmem ↦ by simp [hmem]) hbefore (.refl hl)
    cases hafter with
    | cons shown hafter =>
      obtain ⟨i, hplace⟩ := hf.exists_shownAt hl herr hb hpart (shown b)
      rw [← apply_of_bond hb] at hplace
      have hkept := hafter.keeps (P := fun e ↦ Tended dialect d _ e ∧ b.ShownAt i e)
        (fun err' hmem shown e he ↦ by
          have herr' : err' ∈ before ++ err :: after := by simp [hmem]
          exact ⟨he.1.apply hl herr' shown,
            he.2.apply hl herr hb herr' (hothers err' (by simp [hmem])) he.1 shown⟩)
        ⟨hf.apply hl herr shown, hplace⟩
      exact ⟨i, hkept.2⟩
  · -- a control is shown at its element, which stays one
    have he := htended (fun _ ↦ id) h (.refl hl)
    have happly := he.apply hl herr fun _ ↦ ""
    rw [apply_of_bond hb] at happly
    obtain ⟨i, hplace⟩ := he.exists_shownAt hl herr hb hpart ""
    cases hplace with
    | control hcontrol hi hx =>
      rw [hi] at hx
      obtain ⟨y, hy⟩ := happly.element_of_element he hl herr (node?_of_bond hb) hx
      exact ⟨_, .control hcontrol rfl hy⟩
    | text htext _ _ =>
      rw [htext] at hslot
      exact absurd rfl hslot
    | inside hcontent _ _ _ => exact absurd hcontent hslot

section Compile

variable {call : Call σ} {limit : Nat} {job : CompileJob σ} {methods : String → Event → Action σ}
  {w w' : World σ} {compiled : Compiled}

/-- **After a compilation every bond of the template has a place.** -/
theorem compile_placed (htable : job.table = .standard) (hd : w.scene.document.IsForest)
    (hsole : w.scene.document.SoleIn job.dialect .content)
    (hrun : Compilation.compile call limit job methods w = some (.ok compiled, w')) :
    w.scene.document.Placed job.dialect job.root w'.scene.document := by
  obtain ⟨way, w₁, hway, hpainting, rfl⟩ := compile_paints htable hd hrun
  refine ⟨fun n c hn hc ↦ sort_restore hd hway hpainting hn hc, ?_, ?_⟩
  · rintro n ⟨hn, howns⟩
    obtain ⟨i, c, hch, -⟩ := owned_restore hd hway hpainting hn howns
    exact ⟨i, hch⟩
  · rintro b ⟨n, hn, err, herr, hb⟩
    obtain ⟨hmem, hcontent, -⟩ := visited_restore hd hway hpainting hn
    obtain rfl := node?_of_mem_ofNode DirectiveTable.standard_orderly herr (node?_of_bond hb)
    have hroute : err ∈ ofRoute .standard job.dialect (w.scene.document.stage job.root).2 way :=
      List.mem_flatMap.2 ⟨b.node, hmem, hcontent ▸ herr⟩
    have hsingle : ∀ m, ((ofRoute .standard job.dialect (w.scene.document.stage job.root).2
        way).filterMap part?).count (m, .content) ≤ 1 := fun m ↦
      count_parts_ofRoute (isWay_of_staged hd hway).nodup (m, .content) (hsole.stage hd job.root)
    obtain ⟨i, hplace⟩ := hpainting.exists_shownAt
      (laid_of_staged hd DirectiveTable.standard_orderly hway) hsingle hroute hb
      (part?_isSome_of_bond hroute (by rw [hb]; rfl))
    exact ⟨i, hplace.restore (hpainting.isForest (hd.stage job.root))
      (Nat.ne_of_lt ((hn.above hd).lt_size hd).2) (Filled.ne_root_of_visited hd hn)⟩

end Compile

/-! ## What may change -/

/-- How the content of a node may change when the bonds of a template are shown again and controls
are set, in a document in which the template has been compiled. -/
inductive Document.MayChange (d : Document) (dialect : Dialect) (root : NodeId) (e : Document)
    (n : NodeId) : Content → Content → Prop
  /-- Not at all. -/
  | same (c : Content) : MayChange d dialect root e n c c
  /-- What the control of an element holds. -/
  | control (x : Element) (held : Option String) :
      MayChange d dialect root e n (.element x) (.element { x with control := held })
  /-- The text of a bound text node. -/
  | text (hn : d.TextBound dialect root n) (text text' : String) :
      MayChange d dialect root e n (.text text) (.text text')
  /-- The text or raw markup that is the only child of a bound element. -/
  | child {m : NodeId} (hm : d.ContentBound dialect root m) (hch : e.children m = [n])
      {c c' : Content} (hleaf : c.isLeaf = true) (hsort : c.sameSort c' = true) :
      MayChange d dialect root e n c c'

/-- A document in which a template has been compiled, `e`, and what has become of it in place. -/
structure Document.InPlace (d : Document) (dialect : Dialect) (root : NodeId) (e f : Document) :
    Prop where
  size_eq : f.nodes.size = e.nodes.size
  parent?_eq : ∀ n, f.parent? n = e.parent? n
  children_eq : ∀ n, f.children n = e.children n
  content : ∀ n c, e.content? n = some c →
    ∃ c', f.content? n = some c' ∧ d.MayChange dialect root e n c c'

namespace Document

section Changes

variable {d e f : Document} {dialect : Dialect} {root n i : NodeId} {b : Bond}

namespace MayChange

variable {x : Element} {c c' : Content}

/-- An element keeps its tag and its attributes. -/
theorem exists_element (h : d.MayChange dialect root e n (.element x) c) :
    ∃ held, c = .element { x with control := held } := by
  cases h with
  | same => exact ⟨x.control, rfl⟩
  | control _ held => exact ⟨held, rfl⟩
  | child _ _ hleaf _ => cases hleaf

/-- A leaf keeps its sort. -/
theorem exists_content {slot : Slot} {text : String}
    (h : d.MayChange dialect root e n (slot.content text) c) : ∃ text', c = slot.content text' := by
  have hleaf : ∀ {a b : Content}, a.sameSort b = true → a = slot.content text →
      ∃ text', b = slot.content text' := by
    intro a b hsort ha
    subst ha
    cases slot <;> cases b <;> first | exact ⟨_, rfl⟩ | cases hsort
  generalize hc : slot.content text = a at h
  cases h with
  | same => exact ⟨text, hc.symm⟩
  | control x held => cases slot <;> cases hc
  | text _ _ text' => exact hleaf rfl hc.symm
  | child _ _ _ hsort => exact hleaf hsort hc.symm

/-- The control of an element may be set. -/
theorem withControl (h : d.MayChange dialect root e n c c') (text : String) :
    d.MayChange dialect root e n c (c'.onElement (·.withControl text)) := by
  cases h with
  | same =>
    cases c with
    | element x => exact .control x (some text)
    | _ => exact .same _
  | control x held => exact .control x (some text)
  | text hn t t' => exact .text hn t t'
  | child hm hch hleaf hsort =>
    refine .child hm hch hleaf ?_
    cases c <;> cases c' <;> exact hsort

end MayChange

namespace InPlace

theorem refl (d : Document) (dialect : Dialect) (root : NodeId) (e : Document) :
    d.InPlace dialect root e e :=
  ⟨rfl, fun _ ↦ rfl, fun _ ↦ rfl, fun _ c hc ↦ ⟨c, hc, .same c⟩⟩

/-- **All attributes are there**, and no others. -/
theorem attributes_eq (h : d.InPlace dialect root e f) (n : NodeId) :
    f.attributes n = e.attributes n := by
  rw [attributes, attributes, element?, element?]
  rcases Nat.lt_or_ge n e.nodes.size with hn | hn
  · obtain ⟨c, hc⟩ := exists_content? hn
    obtain ⟨c', hc', hchange⟩ := h.content n c hc
    rw [hc, hc']
    cases hchange with
    | same | control | text => rfl
    | child _ _ hleaf hsort =>
      cases c <;> cases c' <;> first | rfl | (cases hsort; done) | cases hleaf
  · rw [content?, content?, node?_eq_none e hn, node?_eq_none f (h.size_eq ▸ hn)]

/-- Changing a content as it may be changed. -/
theorem mapContent (h : d.InPlace dialect root e f) {g : Content → Content}
    (hg : ∀ c c', e.content? i = some c → d.MayChange dialect root e i c c' →
      d.MayChange dialect root e i c (g c')) : d.InPlace dialect root e (f.mapContent i g) where
  size_eq := by rw [size_mapContent, h.size_eq]
  parent?_eq n := by rw [parent?_mapContent, h.parent?_eq]
  children_eq n := by rw [children_mapContent, h.children_eq]
  content n c hc := by
    obtain ⟨c', hc', hchange⟩ := h.content n c hc
    rw [content?_mapContent, hc']
    split
    · rename_i hn
      subst hn
      exact ⟨_, rfl, hg c c' hc hchange⟩
    · exact ⟨c', rfl, hchange⟩

/-- Setting a control. -/
theorem setControl (h : d.InPlace dialect root e f) (n : NodeId) (text : String) :
    d.InPlace dialect root e (f.apply (.setControl n text)) := by
  rw [show f.apply (.setControl n text) = _ from apply_edit_of_control f n text]
  exact h.mapContent fun c c' _ hchange ↦ hchange.withControl text

/-- **A place is where it was.** -/
theorem shownAt (h : d.InPlace dialect root e f) (hplace : b.ShownAt i e) : b.ShownAt i f := by
  cases hplace with
  | control hslot hi hx =>
    obtain ⟨_, hc, hchange⟩ := h.content i _ hx
    obtain ⟨_, rfl⟩ := hchange.exists_element
    exact .control hslot hi hc
  | text hslot hi ht =>
    obtain ⟨c, hc, hchange⟩ := h.content i (Slot.text.content _) ht
    obtain ⟨_, rfl⟩ := hchange.exists_content
    exact .text hslot hi hc
  | inside hslot hx hch ht =>
    obtain ⟨_, hy, hchange⟩ := h.content b.node _ hx
    obtain ⟨_, rfl⟩ := hchange.exists_element
    obtain ⟨_, hc, hchange⟩ := h.content i _ ht
    obtain ⟨_, rfl⟩ := hchange.exists_content
    exact .inside hslot hy ((h.children_eq _).trans hch) hc

/-- **Showing a bond again.** -/
theorem apply_edit (h : d.InPlace dialect root e f) (he : d.Placed dialect root e)
    (hb : d.HasBond dialect root b) (text : String) :
    d.InPlace dialect root e (f.apply (b.edit text)) := by
  obtain ⟨i, hplace⟩ := he.place b hb
  rw [(h.shownAt hplace).apply_edit text]
  refine h.mapContent fun c c' hc hchange ↦ ?_
  cases hplace with
  | control hslot hi hx =>
    rw [hslot]
    exact hchange.withControl text
  | text hslot hi ht =>
    cases ht.symm.trans hc
    rw [hi] at ht hc ⊢
    have hbound := hb.content (by rw [hslot]; rfl)
    rcases hbound with hbound | hbound
    · rw [hslot]
      exact .text hbound _ text
    · obtain ⟨x, hx⟩ := (he.element_iff (.inr hbound)).1 hbound
      cases ht.symm.trans hx
  | inside hslot hx hch ht =>
    cases ht.symm.trans hc
    have hbound := (he.element_iff (hb.content hslot)).2 ⟨_, hx⟩
    refine .child hbound hch ?_ ?_
    · cases b.slot <;> rfl
    · cases hs : b.slot with
      | control => rw [hs] at hslot; cases hslot
      | _ => rfl

end InPlace

end Changes

end Document

/-! ## Runs -/

/-- The rules for code that edits the document no more than what has been compiled does: it sets
controls, and shows the bonds of the template. -/
def Rules.inPlace (d : Document) (dialect : Dialect) (root : NodeId) : Rules where
  allows e := (∃ n text, e = .setControl n text) ∨
    ∃ b text, d.HasBond dialect root b ∧ e = b.edit text
  spent _ := False

/-- **Code that keeps to the rules works in place.** -/
theorem Rules.inPlace_keeps {d e : Document} {dialect : Dialect} {root : NodeId}
    (he : d.Placed dialect root e) :
    (Rules.inPlace d dialect root).Keeps (d.InPlace dialect root e) := by
  rintro _ (⟨n, text, rfl⟩ | ⟨b, text, hb, rfl⟩) f hf
  · exact hf.setControl n text
  · exact hf.apply_edit he hb text

/-- **Renders work in place.**  A template in which no element has two directives for its content is
compiled, and code runs after that, with success or without, which edits the document no more than
by setting controls and showing the bonds of the template.  Then each bound element has a single
child right after the compilation, and from then on there are the same nodes with the same links and
the same attributes; the only contents that change are those of bound texts and of the single
children of bound elements, and what controls hold.  Inside of an element that is given a text there
is the text, escaped, and inside of one that is given raw markup there is this markup. -/
theorem rendered_in_place {call : Call σ} {limit : Nat} {job : CompileJob σ}
    {methods : String → Event → Action σ} {w w₁ w₂ : World σ} {compiled : Compiled}
    (htable : job.table = .standard) (hd : w.scene.document.IsForest)
    (hsole : w.scene.document.SoleIn job.dialect .content) (haligned : w.Aligned)
    (hcode : w.code.Obeys (.inPlace w.scene.document job.dialect job.root))
    (hmethods : ∀ name e, (methods name e).Obeys (.inPlace w.scene.document job.dialect job.root))
    (hcompile : Compilation.compile call limit job methods w = some (.ok compiled, w₁))
    (hlater : w₁.LeadsTo (.inPlace w.scene.document job.dialect job.root) w₂) :
    (∀ n, w.scene.document.ContentBound job.dialect job.root n →
      ∃ i, w₁.scene.document.children n = [i]) ∧
    w₂.scene.document.nodes.size = w₁.scene.document.nodes.size ∧
    (∀ n, w₂.scene.document.parent? n = w₁.scene.document.parent? n ∧
      w₂.scene.document.children n = w₁.scene.document.children n ∧
      w₂.scene.document.attributes n = w₁.scene.document.attributes n) ∧
    (∀ n c, w₁.scene.document.content? n = some c →
      ∃ c', w₂.scene.document.content? n = some c' ∧
        w.scene.document.MayChange job.dialect job.root w₁.scene.document n c c') ∧
    ∀ e : Document, e.IsForest → ∀ n x, e.content? n = some (.element x) → ∀ text,
      (e.setText n text).innerMarkup n = String.ofList (Markup.escapeText text) ∧
        (e.setMarkup n text).innerMarkup n = text := by
  have hplaced := compile_placed htable hd hsole hcompile
  obtain ⟨haligned₁, hcode₁⟩ := compile_obeys_of_allowed htable hd (fun _ ↦ id)
    (fun n hn err herr b hb text ↦ Or.inr ⟨b, text, ⟨n, hn, err, herr, hb⟩, rfl⟩) hmethods haligned
    hcode hcompile
  have hplace := (hlater.alike (Rules.inPlace_keeps hplaced)
    (.refl haligned₁ (.refl ..) (fun _ hspent ↦ hspent.elim) hcode₁)).document
  exact ⟨hplaced.single, hplace.size_eq,
    fun n ↦ ⟨hplace.parent?_eq n, hplace.children_eq n, hplace.attributes_eq n⟩, hplace.content,
    fun e he n x hx text ↦ ⟨he.innerMarkup_setText hx text, he.innerMarkup_setMarkup hx text⟩⟩

/-! ## Editing a page -/

/-- A page with everything that can be shown. -/
def notesMarkup : String :=
  "<p bind-text=\"t\"></p><div bind-markup=\"m\">x</div><b>{{t}}!</b><input bind-value=\"t\">"

/-- A world with that page. -/
def notes : World Unit :=
  .ofTemplate notesMarkup (.object [("t", .string "a"), ("m", .string "<i>")])

/-- The page is compiled. -/
def notesCompiled : Option (Except BindError Compiled × World Unit) :=
  Compilation.compile (run 1) 8 ⟨0, .object 0, .standard, .standard, fun _ data ↦ data⟩
    (fun _ _ ↦ .done (.ok ())) notes

/-- Other markup is written. -/
def writeMarkup : Action Unit := .setPath "m" (.object 0) (.string "<u>") fun _ ↦ .done (.ok ())

/-- The user types. -/
def typeNote : Action Unit := (Program.input 6 (.string "<")).action

theorem rendered_in_place_of_notes :
    ∃ d₁ d₂ : Document, d₁.innerMarkup 0 = "<p>a</p><div><i></div><b>a!</b><input>" ∧
      d₂.innerMarkup 0 = "<p>&lt;</p><div><u></div><b>&lt;!</b><input>" ∧
      d₂.nodes.size = d₁.nodes.size ∧ ∀ n, d₂.parent? n = d₁.parent? n ∧
        d₂.children n = d₁.children n ∧ d₂.attributes n = d₁.attributes n := by
  have hruns : (notesCompiled.bind fun r ↦ (run 4 writeMarkup r.2).bind fun q ↦
      (run 4 typeNote q.2).map fun q' ↦ (r.1.isOk, r.2.scene.document.innerMarkup 0,
        q'.2.scene.document.innerMarkup 0)) =
      some (true, "<p>a</p><div><i></div><b>a!</b><input>",
        "<p>&lt;</p><div><u></div><b>&lt;!</b><input>") := by decide +kernel
  obtain ⟨⟨_ | compiled, w₁⟩, hcompile, hlater⟩ := Option.bind_eq_some_iff.1 hruns
  · obtain ⟨_, _, hlater⟩ := Option.bind_eq_some_iff.1 hlater
    obtain ⟨_, _, heq⟩ := Option.map_eq_some_iff.1 hlater
    cases heq
  obtain ⟨⟨_, w₂⟩, hwrite, hlater⟩ := Option.bind_eq_some_iff.1 hlater
  obtain ⟨⟨_, w₃⟩, htype, hshown⟩ := Option.map_eq_some_iff.1 hlater
  obtain ⟨hbefore, hafter⟩ := Prod.mk.inj (Prod.mk.inj hshown).2
  have hparse : parse notesMarkup = .ok notes.scene.document :=
    World.parse_ofMarkup (by decide +kernel)
  obtain ⟨-, hsize, hlinks, -⟩ := rendered_in_place rfl (parse_isForest hparse)
    (by decide +kernel) (World.aligned_ofTemplate ..) (Code.obeys_ofTemplate ..) (fun _ _ ↦ .done _)
    hcompile
    (.step (.step (.refl w₁) (.setPath _ _ _ fun _ ↦ .done _) hwrite)
      (Program.obeys_input (fun n text ↦ Or.inl ⟨n, text, rfl⟩) 6 _ fun _ ↦ .done _) htype)
  exact ⟨_, _, hbefore, hafter, hsize, hlinks⟩

end DataBinding

import DataBinding.Proofs.Engine.Soundness
import DataBinding.Proofs.Template.DocumentOrderWork

/-!
# The document at the top

Node 0 is the document, and it should be nobody's child: `Document.RootOnTop`.  Edits treat it like
any other node, so what keeps it at the top is that they have no cause to link it.  A node that an
edit makes is another one, and a node that is moved along has been somebody's child.

The exception is an edit that asks for it: appending node 0 to a node that is not below it is no
circle and is done.  So after any sequence of edits and compilations **node 0 is the document, and
it has never had a parent exactly if no step has uprooted it** in this way (`rootOnTop_iff`).
-/

set_option autoImplicit false

namespace DataBinding

namespace Document

variable {d e : Document} {id x : NodeId}

/-- Node 0 is the document and has no parent. -/
structure RootOnTop (d : Document) : Prop where
  content : d.content? root = some .document
  parent : d.parent? root = none

theorem RootOnTop.empty : Document.empty.RootOnTop := ⟨rfl, rfl⟩

/-! ## Node 0 is the document -/

section Content

variable (h : d.content? root = some .document)

include h

theorem content?_root_setContent (hid : d.content? id ≠ some .document) (c : Content) :
    (d.setContent id c).content? root = some .document := by
  rw [content?_setContent, if_neg, h]
  rintro rfl
  exact hid h

theorem content?_root_modifyElement (id : NodeId) (f : Element → Element) :
    (d.modifyElement id f).content? root = some .document := by
  rw [modifyElement_eq]
  split
  · rename_i x hx
    exact content?_root_setContent h (by simp [element?_eq_some_iff.1 hx]) _
  · exact h

/-- The document is no text, so it is not the node in whose place another text is shown. -/
theorem content?_root_replaceContent (hid : id < d.nodes.size) {c : Content}
    (hc : Content.document.sameSort c = false) :
    (d.replaceContent id c).content? root = some .document := by
  have hsize : root < d.nodes.size := lt_size_of_content? h
  have hspot : root ≠ d.spot id c := by
    intro heq
    rcases d.spot_cases id c with hnew | ⟨-, old, hold, hsort⟩
    · exact Nat.ne_of_lt hsize (heq.trans hnew)
    · rw [← heq, h] at hold
      cases hold
      rw [hc] at hsort
      cases hsort
  rw [(replaceContent_replaced hid c).content?_of_ne root hsize hspot, h]

/-- **Node 0 stays the document**, whatever is done. -/
theorem content?_root_apply (edit : Edit) : (d.apply edit).content? root = some .document := by
  have hpush : ∀ c, (d.push c).2.content? root = some .document := fun c ↦
    (content?_push_of_lt d c (lt_size_of_content? h)).trans h
  cases edit with
  | createElement | createText | createFragment => exact hpush _
  | append parent child => exact (content?_append ..).trans h
  | detach id => exact (content?_detach ..).trans h
  | setText id text =>
    rw [Document.apply, setText]
    split
    · rename_i hid
      exact content?_root_setContent h (by simp [hid]) _
    all_goals
      first
        | exact h
        | rename_i hid
          exact content?_root_replaceContent h (lt_size_of_content? hid) rfl
  | setMarkup id markup =>
    rw [Document.apply, setMarkup]
    split
    · rename_i hid
      exact content?_root_setContent h (by simp [hid]) _
    · rename_i hid
      exact content?_root_setContent h (by simp [hid]) _
    · rename_i hid
      exact content?_root_replaceContent h (lt_size_of_content? hid) rfl
    · exact h
  | setControl id | setAttribute id | removeAttribute id => exact content?_root_modifyElement h id _
  | stage id => exact (content?_appendAll ..).trans (hpush .fragment)
  | restore staged id => exact (content?_appendAll ..).trans h

end Content

/-! ## Node 0 has no parent -/

theorem parent?_append_of_ne (d : Document) (parent : NodeId) {child : NodeId} (hx : x ≠ child) :
    (d.append parent child).parent? x = d.parent? x := by
  have hlink : ∀ (e : Document) (p : Option NodeId),
      (e.modify child fun node ↦ { node with parent := p }).parent? x = e.parent? x := by
    intro e p
    rw [parent?, parent?, node?_modify, if_neg hx]
  rw [append]
  split
  · rfl
  · rw [parent?_modify (by simp), hlink, parent?_detach, if_neg hx]

theorem parent?_appendAll_of_not_mem {cs : List NodeId} (d : Document) (parent : NodeId)
    (hx : x ∉ cs) : (d.appendAll parent cs).parent? x = d.parent? x := by
  rw [appendAll]
  induction cs generalizing d with
  | nil => rfl
  | cons c cs ih =>
    rw [List.mem_cons, not_or] at hx
    rw [List.foldl_cons, ih _ hx.2, parent?_append_of_ne d parent hx.1]

/-- What has no parent is nobody's child. -/
theorem IsForest.not_mem_children (hd : d.IsForest) (hx : d.parent? x = none) (n : NodeId) :
    x ∉ d.children n := by
  intro hmem
  cases hx.symm.trans ((hd.linked n x).2 hmem)

theorem parent?_replaceContent_of_none (hd : d.IsForest) (hx : d.parent? x = none)
    (hsize : x < d.nodes.size) (hid : id < d.nodes.size) (c : Content) :
    (d.replaceContent id c).parent? x = none := by
  rw [(replaceContent_replaced hid c).parent?_of_ne x hsize (hd.not_mem_children hx id), hx]

/-- Appending node 0 is the only way to link it. -/
theorem parent?_root_apply (hd : d.IsForest) (hroot : d.RootOnTop) {edit : Edit}
    (hedit : ∀ p, edit ≠ .append p root) : (d.apply edit).parent? root = none := by
  have hsize : root < d.nodes.size := lt_size_of_content? hroot.content
  cases edit with
  | createElement | createText | createFragment => exact (parent?_push ..).trans hroot.parent
  | append parent child =>
    have hchild : root ≠ child := by
      rintro rfl
      exact hedit parent rfl
    exact (parent?_append_of_ne d parent hchild).trans hroot.parent
  | detach id =>
    rw [Document.apply, parent?_detach, hroot.parent]
    split <;> rfl
  | setText id text =>
    rw [Document.apply, setText]
    split
    · exact (parent?_setContent ..).trans hroot.parent
    all_goals
      first
        | exact hroot.parent
        | rename_i hid
          exact parent?_replaceContent_of_none hd hroot.parent hsize (lt_size_of_content? hid) _
  | setMarkup id markup =>
    rw [Document.apply, setMarkup]
    split
    · exact (parent?_setContent ..).trans hroot.parent
    · exact (parent?_setContent ..).trans hroot.parent
    · rename_i hid
      exact parent?_replaceContent_of_none hd hroot.parent hsize (lt_size_of_content? hid) _
    · exact hroot.parent
  | setControl id | setAttribute id | removeAttribute id =>
    exact (parent?_modifyElement ..).trans hroot.parent
  | stage id =>
    have hmem : root ∉ (d.push .fragment).2.children id := by
      rw [children_push]
      exact hd.not_mem_children hroot.parent id
    exact (parent?_appendAll_of_not_mem _ _ hmem).trans ((parent?_push ..).trans hroot.parent)
  | restore staged id =>
    exact (parent?_appendAll_of_not_mem d id (hd.not_mem_children hroot.parent staged)).trans
      hroot.parent

/-- **Node 0 is linked** exactly if it is appended to a node that is not at or below it. -/
theorem parent?_append_root_iff (hd : d.IsForest) (hroot : d.RootOnTop) (p : NodeId) :
    (d.append p root).parent? root = none ↔ ¬(p < d.nodes.size ∧ ¬d.AtOrAbove root p) := by
  have hsize : root < d.nodes.size := lt_size_of_content? hroot.content
  by_cases hp : p < d.nodes.size ∧ ¬d.AtOrAbove root p
  · rw [(hd.append_appended hp.1 hsize hp.2).parent?_eq, if_pos rfl]
    simp [hp]
  · refine iff_of_true ?_ hp
    rw [append, if_pos, hroot.parent]
    rw [Bool.or_eq_true, Bool.or_eq_true, hd.makesCycle_iff, Option.isNone_iff_eq_none,
      Option.isNone_iff_eq_none]
    rcases Nat.lt_or_ge p d.nodes.size with hlt | hge
    · exact .inr (by simpa [hlt] using hp)
    · exact .inl (.inr (node?_eq_none d hge))

/-! ## Parsing -/

/-- Every node that the parser links is a new one. -/
theorem RootOnTop.place {total : Nat} {s : List Char} {pending pending' : List (NodeId × String)}
    {token : Markup.Token} (hd : d.RootOnTop)
    (h : Document.place total s d pending token = .ok (e, pending')) : e.RootOnTop := by
  have hgrown : ∀ n c, ((d.push c).2.append n d.nodes.size).RootOnTop := by
    intro n c
    have hsize : root < d.nodes.size := lt_size_of_content? hd.content
    refine ⟨?_, ?_⟩
    · rw [content?_append, content?_push_of_lt d c hsize, hd.content]
    · rw [parent?_append_of_ne _ n (Nat.ne_of_lt hsize), parent?_push, hd.parent]
  cases token with
  | skipped =>
    cases h
    exact hd
  | text | opening =>
    cases h
    exact hgrown _ _
  | closing tag =>
    cases pending with
    | nil => cases h
    | cons innermost rest =>
      rw [Document.place] at h
      split at h
      · cases h
        exact hd
      · cases h

theorem RootOnTop.of_parse {markup : String} (h : parse markup = .ok d) : d.RootOnTop :=
  (readAll_keeps (P := fun d _ ↦ d.RootOnTop) RootOnTop.place .empty h).elim fun _ hd ↦ hd

end Document

/-! ## Sequences of operations -/

variable {σ : Type}

/-- Something that is done to a document from outside. -/
inductive Operation (σ : Type) where
  | edit (e : Edit)
  | compile (job : CompileJob σ) (horderly : job.table.Orderly)
      (methods : String → Event → Action σ)

namespace Operation

/-- An operation takes a world to another one. -/
inductive Does : Operation σ → World σ → World σ → Prop
  | edit (e : Edit) (w : World σ) :
      Does (.edit e) w (w.withDocument (w.scene.document.apply e))
  | compile {job : CompileJob σ} {horderly : job.table.Orderly}
      {methods : String → Event → Action σ} {depth limit : Nat} {w w' : World σ}
      {x : Except BindError Compiled}
      (hrun : Compilation.compile (run depth) limit job methods w = some (x, w')) :
      Does (.compile job horderly methods) w w'

/-- An operation puts the document below a node. -/
def Uproots (d : Document) : Operation σ → Prop
  | .edit (.append parent child) =>
    child = Document.root ∧ parent < d.nodes.size ∧ ¬d.AtOrAbove Document.root parent
  | _ => False

variable {op : Operation σ} {w w' : World σ}

theorem Does.isForest (h : op.Does w w') (hd : w.scene.document.IsForest) :
    w'.scene.document.IsForest := by
  cases h with
  | edit e => exact hd.apply e
  | @compile _ horderly _ _ _ _ _ _ hrun =>
    exact (Compilation.compile_posts horderly hd hrun).forest

/-- **Node 0 stays the document.** -/
theorem Does.content?_root (h : op.Does w w')
    (hw : w.scene.document.content? Document.root = some .document) :
    w'.scene.document.content? Document.root = some .document := by
  have hrobust : World.Robust fun w : World σ ↦
      w.scene.document.content? Document.root = some .document :=
    { store := fun _ hw ↦ hw
      scene := fun _ _ hdocument _ hw ↦ hdocument ▸ hw
      edited := fun e hw ↦ Document.content?_root_apply hw e
      enrolled := fun _ _ hw ↦ hw
      posted := fun _ _ _ hw ↦ hw
      supplied := fun _ hw ↦ hw }
  cases h with
  | edit e => exact Document.content?_root_apply hw e
  | compile hrun =>
    exact (Compilation.keeps_compile hrobust (run_keeps hrobust _) _ _ _).kept _ _ _ hrun hw

/-- **One operation** leaves node 0 without a parent exactly if it does not uproot it. -/
theorem Does.parent?_root_iff (h : op.Does w w') (hd : w.scene.document.IsForest)
    (hw : w.scene.document.RootOnTop) :
    w'.scene.document.parent? Document.root = none ↔ ¬op.Uproots w.scene.document := by
  cases h with
  | edit e =>
    by_cases he : ∃ p, e = .append p Document.root
    · obtain ⟨p, rfl⟩ := he
      exact (Document.parent?_append_root_iff hd hw p).trans (by simp [Uproots])
    · refine iff_of_true (Document.parent?_root_apply hd hw (not_exists.1 he)) fun huproots ↦ ?_
      cases e with
      | append parent child => exact he ⟨parent, by rw [huproots.1]⟩
      | _ => exact huproots
  | @compile _ horderly _ _ _ _ _ _ hrun =>
    refine iff_of_true ?_ id
    have hcut := (Compilation.compile_posts horderly hd hrun).cut
    rw [Option.eq_none_iff_forall_ne_some]
    intro p hp
    cases hw.parent.symm.trans
      (hcut.parent? _ (Document.lt_size_of_content? hw.content) p hp)

end Operation

/-- A world is taken to another one by operations.  Each of them is listed with the world in which
it is done. -/
inductive Operated : World σ → List (World σ × Operation σ) → World σ → Prop
  | nil (w : World σ) : Operated w [] w
  | cons {w w₁ w' : World σ} {op : Operation σ} {steps : List (World σ × Operation σ)}
      (h : op.Does w w₁) (hrest : Operated w₁ steps w') : Operated w ((w, op) :: steps) w'

namespace Operated

variable {w w' : World σ} {steps : List (World σ × Operation σ)}

/-- The worlds before the operations and after the last one. -/
def worlds (steps : List (World σ × Operation σ)) (w' : World σ) : List (World σ) :=
  steps.map Prod.fst ++ [w']

theorem mem_worlds (h : Operated w steps w') : w ∈ worlds steps w' := by
  cases h with
  | nil => exact List.mem_singleton_self _
  | cons => exact List.mem_cons_self

theorem content?_root (h : Operated w steps w')
    (hw : w.scene.document.content? Document.root = some .document) :
    ∀ v ∈ worlds steps w', v.scene.document.content? Document.root = some .document := by
  induction h with
  | nil w =>
    intro v hv
    rwa [List.mem_singleton.1 hv]
  | cons h hrest ih =>
    intro v hv
    rcases List.mem_cons.1 hv with rfl | hv
    · exact hw
    · exact ih (h.content?_root hw) v hv

theorem parent?_root_iff (h : Operated w steps w') (hd : w.scene.document.IsForest)
    (hw : w.scene.document.RootOnTop) :
    (∀ v ∈ worlds steps w', v.scene.document.parent? Document.root = none) ↔
      ∀ step ∈ steps, ¬step.2.Uproots step.1.scene.document := by
  induction h with
  | nil w => simpa [worlds] using hw.parent
  | @cons w w₁ w' op steps h hrest ih =>
    have hstep := h.parent?_root_iff hd hw
    rw [List.forall_mem_cons, ← hstep]
    constructor
    · intro hall
      have hw₁ : w₁.scene.document.parent? Document.root = none :=
        hall _ (List.mem_cons_of_mem w hrest.mem_worlds)
      exact ⟨hw₁, (ih (h.isForest hd) ⟨h.content?_root hw.content, hw₁⟩).1 fun v hv ↦
        hall v (List.mem_cons_of_mem w hv)⟩
    · rintro ⟨hw₁, hnone⟩ v hv
      rcases List.mem_cons.1 hv with rfl | hv
      · exact hw.parent
      · exact (ih (h.isForest hd) ⟨h.content?_root hw.content, hw₁⟩).2 hnone v hv

end Operated

/-- **The document at the top.**  After every operation of a sequence node 0 is the document.  It
has no parent after any of them exactly if none of them appends it to a node that is not at or below
it. -/
theorem rootOnTop_iff {w w' : World σ} {steps : List (World σ × Operation σ)}
    (hd : w.scene.document.IsForest) (hw : w.scene.document.RootOnTop) (h : Operated w steps w') :
    (∀ v ∈ Operated.worlds steps w',
        v.scene.document.content? Document.root = some .document) ∧
      ((∀ v ∈ Operated.worlds steps w', v.scene.document.parent? Document.root = none) ↔
        ∀ step ∈ steps, ¬step.2.Uproots step.1.scene.document) :=
  ⟨h.content?_root hw.content, h.parent?_root_iff hd hw⟩

/-- A paragraph that shows a number. -/
def numberPage : World Unit := .ofTemplate "<p>{{n}}</p>" (.object [("n", .int 1)])

/-- The page is to be compiled. -/
def compilePage : Operation Unit :=
  .compile ⟨0, .object 0, .standard, .standard, fun _ data ↦ data⟩ DirectiveTable.standard_orderly
    fun _ _ ↦ .done (.ok ())

/-- The document is not put below its own paragraph, and stays where it is when it is compiled. -/
theorem rootOnTop_numberPage : ∃ steps w', Operated numberPage steps w' ∧
    steps.map Prod.snd = [.edit (.append 1 Document.root), compilePage] ∧
    ∀ v ∈ Operated.worlds steps w', v.scene.document.parent? Document.root = none := by
  have hparse : Document.parse "<p>{{n}}</p>" = .ok numberPage.scene.document :=
    World.parse_ofMarkup (by decide +kernel)
  have hrun : (Compilation.compile (run 1) 4
      ⟨0, .object 0, .standard, .standard, fun _ data ↦ data⟩ (fun _ _ ↦ .done (.ok ()))
      (numberPage.withDocument (numberPage.scene.document.apply (.append 1 0)))).isSome = true := by
    decide +kernel
  obtain ⟨⟨x, w'⟩, hrun⟩ := Option.isSome_iff_exists.1 hrun
  have hbelow : numberPage.scene.document.AtOrAbove Document.root 1 :=
    .inr (.parent (by decide +kernel))
  have h : Operated numberPage [(_, .edit (.append 1 Document.root)), (_, compilePage)] w' :=
    .cons (.edit _ _) (.cons (.compile hrun) (.nil w'))
  refine ⟨_, w', h, rfl,
    (rootOnTop_iff (Document.parse_isForest hparse) (.of_parse hparse) h).2.2 fun step hstep ↦ ?_⟩
  simp only [List.mem_cons, List.not_mem_nil, or_false] at hstep
  rcases hstep with rfl | rfl
  · exact fun huproots ↦ huproots.2.2 hbelow
  · exact id

/-- **Appending the document to a new element** gives it a parent. -/
theorem document_uprooted : ∃ steps : List (World Unit × Operation Unit), ∃ w',
    Operated (World.start .empty ()) steps w' ∧ steps.map Prod.snd =
      [.edit (.createElement "p"), .edit (.append 1 Document.root)] ∧
      w'.scene.document.parent? Document.root = some 1 :=
  ⟨_, _, .cons (.edit _ _) (.cons (.edit _ _) (.nil _)), rfl, by decide +kernel⟩

end DataBinding

import DataBinding.Engine.Run
import DataBinding.Proofs.Engine.RuleKeepingCode
import DataBinding.Proofs.Template.TextPlaces

/-!
# State injects no markup

A template without `markup` directives shows what is in the state as texts and as values of
controls.  Whatever these are, and whatever is written to the state later on, **the markup of the
compiled document can be read again and has an outline that depends on the template alone**
(`same_outline`).

The code that a compilation makes keeps to `Rules.texts`: it sets controls, and shows texts at
places for texts.  As long as all other code does so too, the document stays its template filled in
with texts.
-/

set_option autoImplicit false

namespace DataBinding

open Document Errand

variable {σ : Type}

/-- The rules for code beside a compiled template: it may set controls, and show texts at places for
texts. -/
def Rules.texts (d : Document) (dialect : Dialect) (root : NodeId) : Rules where
  allows e := (∃ n text, e = .setControl n text) ∨
    ∃ n text, d.TakesText dialect root n ∧ e = .setText n text
  spent _ := False

/-- Code that keeps to the rules leaves the template filled in with texts. -/
theorem Rules.texts_keeps {d : Document} {dialect : Dialect} {root : NodeId} (hd : d.IsForest) :
    (Rules.texts d dialect root).Keeps (d.Texted dialect root) := by
  rintro _ (⟨n, text, rfl⟩ | ⟨n, text, hn, rfl⟩) f hf
  · exact hf.setControl n text
  · exact hf.setText hd hn text

/-- What the user does to a control is within rules that allow to set it. -/
theorem Program.obeys_input {r : Rules} (hcontrol : ∀ n text, r.allows (.setControl n text))
    (n : NodeId) (v : Value) {next : Except BindError Unit → Action σ} (h : ∀ x, (next x).Obeys r) :
    (Program.input n v next).Obeys r :=
  .inspect fun _ _ ↦ .edit (hcontrol n _) (.dispatch n inputEvent v h)

/-- What the user does to a control is within the rules for texts. -/
theorem Rules.obeys_input {d : Document} {dialect : Dialect} {root : NodeId}
    (n : NodeId) (v : Value) {next : Except BindError Unit → Action σ}
    (h : ∀ x, (next x).Obeys (Rules.texts d dialect root)) :
    (Program.input n v next).Obeys (Rules.texts d dialect root) :=
  Program.obeys_input (fun n text ↦ Or.inl ⟨n, text, rfl⟩) n v h

/-- Whether an attribute is a directive for raw markup. -/
def Dialect.givesMarkup (dialect : Dialect) (name : String) : Bool :=
  match dialect.classify name with
  | some (.directive kind _) => kind == "markup"
  | _ => false

/-- No element has a directive for raw markup. -/
def Document.WithoutMarkup (d : Document) (dialect : Dialect) : Prop :=
  ∀ n, ∀ a ∈ d.attributes n, dialect.givesMarkup a.1 = false

namespace Document.WithoutMarkup

variable {d : Document} {dialect : Dialect}

instance (d : Document) (dialect : Dialect) : Decidable (d.WithoutMarkup dialect) :=
  decidable_of_iff (∀ n < d.nodes.size, ∀ a ∈ d.attributes n, dialect.givesMarkup a.1 = false) <| by
    refine ⟨fun h n a ha ↦ ?_, fun h n _ ↦ h n⟩
    rcases Nat.lt_or_ge n d.nodes.size with hn | hn
    · exact h n hn a ha
    · rw [attributes, element?, content?, node?_eq_none d hn] at ha
      cases ha

theorem of_element (h : d.WithoutMarkup dialect) (n : NodeId) (x : Element)
    (hx : d.content? n = some (.element x)) :
    ∀ a ∈ x.attributes, dialect.givesMarkup a.1 = false := by
  intro a ha
  refine h n a ?_
  rwa [attributes, element?_eq_some_iff.2 hx]

end Document.WithoutMarkup

/-! ## What errands show -/

namespace Errand

variable {dialect : Dialect} {n : NodeId} {kind unknown : String} {err : Errand} {d : Document}

/-- An edit that shows no raw markup. -/
def IsMild (n : NodeId) (e : Edit) : Prop :=
  (∃ text, e = .setText n text) ∨ (∃ text, e = .setControl n text) ∨
    (∃ name value, e = .setAttribute n name value) ∨ ∃ name, e = .removeAttribute n name

theorem IsMild.unraw {e : Edit} (h : IsMild n e) (hd : d.Unraw) : (d.apply e).Unraw := by
  rcases h with ⟨text, rfl⟩ | ⟨text, rfl⟩ | ⟨name, value, rfl⟩ | ⟨name, rfl⟩
  · exact hd.setText text
  · exact hd.modifyElement _
  · exact hd.modifyElement _
  · exact hd.modifyElement _

/-- **The standard directives show no raw markup**, except `markup`. -/
theorem isMild_of_mem_ofDirective {directive : Directive} (hkind : kind ≠ "markup")
    (h : err ∈ ofDirective .standard n unknown kind directive) (shown : Bond → String) {e : Edit}
    (he : err.edit? shown = some e) : IsMild n e := by
  rw [ofDirective] at h
  cases hl : DirectiveTable.standard.lookup kind with
  | none =>
    rw [hl, List.mem_singleton] at h
    subst h
    cases he
  | some handler =>
    rw [hl, List.mem_map] at h
    obtain ⟨b, hb, rfl⟩ := h
    rcases DirectiveTable.standard_cases hl with
      ⟨-, rfl⟩ | ⟨rfl, -⟩ | ⟨-, rfl⟩ | ⟨-, rfl⟩ | ⟨-, rfl⟩
    · rw [DirectiveHandler.text] at hb
      split at hb <;>
      · cases List.mem_singleton.1 hb
        cases he
        exact .inl ⟨_, rfl⟩
    · exact absurd rfl hkind
    · rcases List.mem_cons.1 hb with rfl | hb
      · cases he
        exact .inr (.inl ⟨_, rfl⟩)
      · cases List.mem_singleton.1 hb
        cases he
    · rw [DirectiveHandler.attr] at hb
      split at hb <;> cases List.mem_singleton.1 hb
      · cases he
        exact .inr (.inr (.inl ⟨_, _, rfl⟩))
      · cases he
    · rw [DirectiveHandler.on] at hb
      split at hb <;> cases List.mem_singleton.1 hb <;> cases he

/-- **Neither do the errands of a node without a directive for it.** -/
theorem isMild_of_mem_ofNode {c : Option Content}
    (hmarkup : ∀ x, c = some (.element x) → ∀ a ∈ x.attributes, dialect.givesMarkup a.1 = false)
    (h : err ∈ ofNode .standard dialect n c) (shown : Bond → String) {e : Edit}
    (he : err.edit? shown = some e) : IsMild n e := by
  have hrest : ∀ name f, err ∈ [Errand.count f, .strip n name] → IsMild n e := by
    intro name f hmem
    simp only [List.mem_cons, List.not_mem_nil, or_false] at hmem
    rcases hmem with rfl | rfl
    · cases he
    · cases he
      exact .inr (.inr (.inr ⟨_, rfl⟩))
  cases c with
  | none => cases h
  | some c =>
    cases c with
    | document | fragment | raw _ => cases h
    | text t =>
      rw [ofNode] at h
      split at h
      · rcases List.mem_cons.1 h with rfl | h
        · cases he
        · exact isMild_of_mem_ofDirective (by decide) h shown he
      · cases h
    | element x =>
      rcases List.mem_cons.1 h with rfl | h
      · cases he
      · obtain ⟨a, ha, h⟩ := List.mem_flatMap.1 h
        have hnone := hmarkup x rfl a ha
        rw [ofAttribute] at h
        rw [Dialect.givesMarkup] at hnone
        split at h
        · cases h
        · rename_i hclassify
          rw [hclassify] at hnone
          rcases List.mem_append.1 h with h | h
          · exact isMild_of_mem_ofDirective (by simpa using hnone) h shown he
          · exact hrest _ _ h
        · rcases List.mem_append.1 h with h | h
          · exact isMild_of_mem_ofDirective (by decide) h shown he
          · exact hrest _ _ h

theorem edit?_of_bond {b : Bond} (hb : err.bond? = some b) (text : String) :
    err.edit? (fun _ ↦ text) = some (b.edit text) := by
  cases err with
  | bind n binding => cases binding <;> first | (cases hb; rfl) | cases hb
  | _ => cases hb

/-- An errand whose bond shows what the rules allow. -/
def Allowed (r : Rules) (err : Errand) : Prop :=
  ∀ b, err.bond? = some b → ∀ text, r.allows (b.edit text)

/-- **The bonds of a template show texts at places for texts, and values of controls.** -/
theorem allowed_of_mem_ofNode {root : NodeId}
    (hmarkup : ∀ x, d.content? n = some (.element x) →
      ∀ a ∈ x.attributes, dialect.givesMarkup a.1 = false)
    (hn : d.Visited dialect root n) (h : err ∈ ofNode .standard dialect n (d.content? n)) :
    err.Allowed (.texts d dialect root) := by
  intro b hb text
  have hfits := fits_of_mem_ofNode DirectiveTable.standard_orderly h
  have hmild := isMild_of_mem_ofNode hmarkup h _ (edit?_of_bond hb text)
  have hnode : b.node = n := by
    have hnode := node?_of_bond hb
    rcases hfits.node with hnone | hself
    · cases hnone.symm.trans hnode
    · exact Option.some.inj (hnode.symm.trans hself)
  have htext : err.onContent = true → d.TakesText dialect root n := fun hcontent ↦
    ⟨hn, (hfits.content hcontent).symm.imp (fun ⟨t, ht, _⟩ ↦ ⟨t, ht⟩) And.left⟩
  cases err with
  | bind m binding =>
    cases binding with
    | live slot expr =>
      cases hb
      cases hnode
      cases slot with
      | text => exact .inr ⟨m, text, htext rfl, rfl⟩
      | control => exact .inl ⟨m, text, rfl⟩
      | markup => simp [IsMild, Bond.edit, Bond.slot, Slot.edit] at hmild
      | «attribute» name => cases isSteady_of_mem_ofNode h
    | template t =>
      cases hb
      cases hnode
      exact .inr ⟨m, text, htext rfl, rfl⟩
    | _ => cases hb
  | _ => cases hb

end Errand

/-! ## What a compilation leaves behind -/

section Compile

variable {call : Call σ} {limit : Nat} {job : CompileJob σ} {methods : String → Event → Action σ}
  {w w' : World σ} {compiled : Compiled}

open Compilation

/-- The errands of a staged template are those of its nodes. -/
theorem exists_mem_ofNode {d : Document} (hd : d.IsForest) {dialect : Dialect} {root : NodeId}
    {fuel : Nat} {way : List NodeId}
    (hway : (d.stage root).2.route dialect fuel [d.nodes.size] = some way) {err : Errand}
    (herr : err ∈ ofRoute .standard dialect (d.stage root).2 way) :
    ∃ n, d.Visited dialect root n ∧ err ∈ ofNode .standard dialect n (d.content? n) := by
  have hstaged := hd.staged root
  obtain ⟨n, hn, hmem⟩ := List.mem_flatMap.1 herr
  rcases visited_of_mem_route hd hstaged (by simp) hway hn with rfl | hvisited
  · rw [hstaged.fragment] at hmem
    cases hmem
  · rw [hstaged.content?_eq n ((hvisited.above hd).lt_size hd).2] at hmem
    exact ⟨n, hvisited, hmem⟩

/-- **A template without directives for raw markup is filled in with texts.** -/
theorem compile_texted (htable : job.table = .standard) (hd : w.scene.document.IsForest)
    (hleafy : w.scene.document.Leafy) (hunraw : w.scene.document.Unraw)
    (hmarkup : w.scene.document.WithoutMarkup job.dialect)
    (hrun : compile call limit job methods w = some (.ok compiled, w')) :
    w.scene.document.Texted job.dialect job.root w'.scene.document := by
  refine ⟨compile_filled htable hd hleafy hrun, ?_⟩
  obtain ⟨way, w₁, hway, hpainting, rfl⟩ := compile_paints htable hd hrun
  have hstaged := hd.staged job.root
  have hpainted : w₁.scene.document.Unraw := hpainting.keeps (fun err herr shown e he ↦ by
    obtain ⟨n, -, hmem⟩ := exists_mem_ofNode hd hway herr
    rw [Errand.apply]
    split
    · exact he
    · rename_i edit hedit
      exact (isMild_of_mem_ofNode (hmarkup.of_element n) hmem shown hedit).unraw he) <| by
      intro i markup hraw
      have hlt := lt_size_of_content? hraw
      rw [hstaged.size_eq] at hlt
      rcases Nat.lt_succ_iff_lt_or_eq.1 hlt with hlt | rfl
      · rw [hstaged.content?_eq i hlt] at hraw
        exact hunraw i markup hraw
      · cases hstaged.fragment.symm.trans hraw
  exact hpainted.of_content? fun i ↦ .inl (content?_appendAll ..)

/-- Errands whose bonds show what is allowed leave obedient code behind. -/
theorem upholds_performAll {r : Rules} (hmethods : ∀ name e, (methods name e).Obeys r)
    {es : List Errand} (hsilent : ∀ err ∈ es, err.isCall = false)
    (hallowed : ∀ err ∈ es, err.Allowed r) :
    Compilation.Upholds r (fun _ ↦ True) (performAll call job methods es) := by
  induction es with
  | nil => exact .pure ()
  | cons err es ih =>
    refine .bind ?_ fun _ ↦ ih (fun e he ↦ hsilent e (List.mem_cons_of_mem _ he)) fun e he ↦
      hallowed e (List.mem_cons_of_mem _ he)
    have hquiet := hsilent err List.mem_cons_self
    have hshows := hallowed err List.mem_cons_self
    cases err with
    | count f => exact .count f
    | strip n name => exact .lift (upholds_onDocument fun _ _ ↦ trivial)
    | bind n binding =>
      exact upholds_bind (fun _ _ _ _ ↦ trivial) hmethods
        (fun hcall ↦ by rw [show binding.isCall = false from hquiet] at hcall; cases hcall)
        (fun _ _ _ _ _ ↦ trivial) hshows

/-- **Code that is made by a compilation keeps to rules** that allow what the bonds of the template
show. -/
theorem compile_obeys_of_allowed {r : Rules} (htable : job.table = .standard)
    (hd : w.scene.document.IsForest) (hspent : ∀ id, ¬r.spent id)
    (hallowed : ∀ n, w.scene.document.Visited job.dialect job.root n →
      ∀ err ∈ ofNode .standard job.dialect n (w.scene.document.content? n), err.Allowed r)
    (hmethods : ∀ name e, (methods name e).Obeys r) (haligned : w.Aligned) (hcode : w.code.Obeys r)
    (hrun : compile call limit job methods w = some (.ok compiled, w')) :
    w'.Aligned ∧ w'.code.Obeys r := by
  have hstart : World.Alike r (fun _ ↦ True) (w.withDocument (w.scene.document.stage job.root).2)
      (w.withDocument (w.scene.document.stage job.root).2) :=
    .refl ⟨haligned.subscribers, haligned.reactions⟩ trivial
      (fun id hid ↦ absurd hid (hspent id)) hcode
  obtain ⟨way, p, w₁, hway, -, hend, -, rfl⟩ := compile_follows
    (U := fun done _ w ↦ (∀ err ∈ done, err.Allowed r) → World.Alike r (fun _ ↦ True) w w)
    (htable ▸ DirectiveTable.standard_orderly) hd
    (fun n done p w₁ p' w₂ _ _ hdone hperform hallowed ↦ by
      rw [List.forall_mem_append] at hallowed
      rw [htable] at hperform hallowed
      exact (((upholds_performAll hmethods
        (fun err herr ↦ (fits_of_mem_ofNode DirectiveTable.standard_orderly herr).silent)
        hallowed.2).run p).kept hperform (hdone hallowed.1)).2)
    (fun _ ↦ hstart) hrun
  have halike := hend fun err herr ↦ by
    rw [CompileJob.errands, htable] at herr
    obtain ⟨n, hn, hmem⟩ := exists_mem_ofNode hd hway herr
    exact hallowed n hn err hmem
  exact ⟨⟨halike.aligned.subscribers, halike.aligned.reactions⟩, halike.obeys⟩

/-- **Code that is made by a compilation keeps to the rules for texts.** -/
theorem compile_obeys {r : Rules} (htable : job.table = .standard) (hd : w.scene.document.IsForest)
    (hmarkup : w.scene.document.WithoutMarkup job.dialect)
    (hr : r = .texts w.scene.document job.dialect job.root)
    (hmethods : ∀ name e, (methods name e).Obeys r) (haligned : w.Aligned) (hcode : w.code.Obeys r)
    (hrun : compile call limit job methods w = some (.ok compiled, w')) :
    w'.Aligned ∧ w'.code.Obeys r := by
  subst hr
  exact compile_obeys_of_allowed htable hd (fun _ ↦ id)
    (fun n hn _ herr ↦ allowed_of_mem_ofNode (hmarkup.of_element n) hn herr) hmethods haligned hcode
    hrun

end Compile

/-! ## Two runs -/

/-- One world comes from another one by running obedient code, once or more often or not at all. -/
inductive World.LeadsTo (r : Rules) : World σ → World σ → Prop
  | refl (w : World σ) : LeadsTo r w w
  | step {w w₁ w₂ : World σ} (h : LeadsTo r w w₁) {depth : Nat} {a : Action σ} (ha : a.Obeys r)
      {x : Except BindError Unit} (hrun : run depth a w₁ = some (x, w₂)) : LeadsTo r w w₂

theorem World.LeadsTo.alike {r : Rules} {P : Document → Prop} (hkeeps : r.Keeps P) {w w' : World σ}
    (h : w.LeadsTo r w') (hw : World.Alike r P w w) : World.Alike r P w' w' := by
  induction h with
  | refl => exact hw
  | step _ ha hrun ih => exact ((run_upholds hkeeps _ ha).kept hrun ih).2

/-- The document that is shown after a template has been compiled, with whatever state, and code has
run that keeps to the rules for texts. -/
inductive Document.Shown (d : Document) (dialect : Dialect) (root : NodeId) : Document → Prop
  | intro {σ : Type} {call : Call σ} {limit : Nat} {state : Value} {note : HostCall → σ → σ}
      {methods : String → Event → Action σ} {w w₁ w₂ : World σ} {compiled : Compiled}
      (hdocument : w.scene.document = d) (haligned : w.Aligned)
      (hcode : w.code.Obeys (.texts d dialect root))
      (hmethods : ∀ name e, (methods name e).Obeys (.texts d dialect root))
      (hcompile : Compilation.compile call limit ⟨root, state, dialect, .standard, note⟩ methods w =
        some (.ok compiled, w₁))
      (hlater : w₁.LeadsTo (.texts d dialect root) w₂) : Shown d dialect root w₂.scene.document

/-- **Such a document is its template filled in with texts.** -/
theorem Document.Shown.texted {d f : Document} {dialect : Dialect} {root : NodeId} {markup : String}
    (h : d.Shown dialect root f) (hparse : parse markup = .ok d)
    (hmarkup : d.WithoutMarkup dialect) :
    d.Texted dialect root f := by
  cases h with
  | intro hdocument haligned hcode hmethods hcompile hlater =>
    subst hdocument
    have hd := parse_isForest hparse
    obtain ⟨haligned₁, hcode₁⟩ := compile_obeys rfl hd hmarkup rfl hmethods haligned hcode hcompile
    have htexted := compile_texted rfl hd (parse_leafy hparse) (.of_parse hparse) hmarkup hcompile
    exact (hlater.alike (Rules.texts_keeps hd)
      (.refl haligned₁ htexted (fun _ hspent ↦ hspent.elim) hcode₁)).document

/-- **State injects no markup.**  A template without directives for raw markup is compiled with two
states, and each time code runs after that which edits the document no more than by setting controls
and showing texts at places for texts.  Then the inner markup of the root can be read again both
times, and the outline that is found is the same. -/
theorem same_outline {markup : String} {d f₁ f₂ : Document} {dialect : Dialect} {root : NodeId}
    (hparse : parse markup = .ok d) (hmarkup : d.WithoutMarkup dialect)
    (h₁ : d.Shown dialect root f₁) (h₂ : d.Shown dialect root f₂) :
    ∃ e₁ e₂ s, parse (f₁.innerMarkup root) = .ok e₁ ∧ parse (f₂.innerMarkup root) = .ok e₂ ∧
      e₁.HasOutline s ∧ e₂.HasOutline s :=
  (h₁.texted hparse hmarkup).exists_parse (h₂.texted hparse hmarkup) hparse

/-! ## Typing markup -/

/-- A paragraph that shows what is typed into a field. -/
def typingMarkup : String := "<p bind-text=\"t\"></p><input bind-value=\"t\">"

/-- A world with that template, in which a text is in the state. -/
def typing (text : String) : World Unit := .ofTemplate typingMarkup (.object [("t", .string text)])

/-- The template is compiled. -/
def typingCompiled (text : String) : Option (Except BindError Compiled × World Unit) :=
  Compilation.compile (run 1) 4 ⟨0, .object 0, .standard, .standard, fun _ data ↦ data⟩
    (fun _ _ ↦ .done (.ok ())) (typing text)

/-- The user types markup. -/
def typeMarkup : Action Unit := (Program.input 2 (.string "<i>")).action

theorem shown_typing {text : String} {compiled : Compiled} {w₁ w₂ : World Unit}
    (hcompile : typingCompiled text = some (.ok compiled, w₁))
    (hlater : w₁.LeadsTo (.texts (World.ofMarkup typingMarkup).scene.document .standard 0) w₂) :
    (World.ofMarkup typingMarkup).scene.document.Shown .standard 0 w₂.scene.document :=
  .intro (w := typing text) rfl
    (World.aligned_ofTemplate ..)
    (Code.obeys_ofTemplate ..)
    (fun _ _ ↦ .done _) hcompile hlater

/-- Markup in the state and nothing in the state. -/
theorem same_outline_of_typing :
    ∃ f₁ f₂ : Document, f₁.innerMarkup 0 = "<p>&lt;i&gt;</p><input>" ∧
      f₂.innerMarkup 0 = "<p></p><input>" ∧
      ∃ e₁ e₂ s, parse (f₁.innerMarkup 0) = .ok e₁ ∧ parse (f₂.innerMarkup 0) = .ok e₂ ∧
        e₁.HasOutline s ∧ e₂.HasOutline s := by
  have htyped : ((typingCompiled "<b>").bind fun r ↦ (run 4 typeMarkup r.2).map fun r' ↦
      (r.1.isOk, r'.2.scene.document.innerMarkup 0)) = some (true, "<p>&lt;i&gt;</p><input>") := by
    decide +kernel
  have hempty : ((typingCompiled "").map fun r ↦ (r.1.isOk, r.2.scene.document.innerMarkup 0)) =
      some (true, "<p></p><input>") := by decide +kernel
  obtain ⟨⟨_ | compiled, w₁⟩, hcompile, hlater⟩ := Option.bind_eq_some_iff.1 htyped
  · obtain ⟨_, _, heq⟩ := Option.map_eq_some_iff.1 hlater
    cases heq
  obtain ⟨⟨x, w₂⟩, hrun, hshown⟩ := Option.map_eq_some_iff.1 hlater
  obtain ⟨⟨_ | compiled', v₁⟩, hcompile', hshown'⟩ := Option.map_eq_some_iff.1 hempty
  · cases hshown'
  obtain ⟨-, hshown⟩ := Prod.mk.inj hshown
  obtain ⟨-, hshown'⟩ := Prod.mk.inj hshown'
  exact ⟨_, _, hshown, hshown', same_outline (World.parse_ofMarkup (by decide +kernel))
    (by decide +kernel)
    (shown_typing hcompile (.step (.refl w₁) (Rules.obeys_input 2 _ fun _ ↦ .done _) hrun))
    (shown_typing hcompile' (.refl v₁))⟩

end DataBinding

import DataBinding.Proofs.Template.FailedCompilations
import DataBinding.Proofs.Template.StateErrors
import DataBinding.Proofs.Template.NewWatchers
import DataBinding.Proofs.Template.OneExpressionBonds

/-!
# Directives and braces read expressions alike

An expression is shown as a text by an element with a directive for it, or by a text node that has
it between braces.  Two pages of which one does the former and the other the latter, or both the
same, may be as different as one likes in everything else.  If their states hold the same then
**both compilations end with the same error, or both show the same text; and from then on both show
the same text again, whatever is done to their states in the same way** (`read_alike`).

This takes that the expression stands on one line.  With a line break in it the braces are shown as
they are (`line_break_is_literal`).
-/

set_option autoImplicit false

namespace DataBinding

open Document Errand

variable {σ : Type}

/-! ## Bonds that are on their own -/

namespace Errand

/-- A bond with a part of its own and one expression has one duty at most. -/
theorem pairwise_duties {es : List Errand} (hparts : (es.filterMap Errand.part?).Nodup) {b : Bond}
    (hpart : b.slot.part?.isSome) {expr : String} (hexprs : b.exprs = [expr]) :
    (es.flatMap duties).Pairwise fun x y ↦ ¬(x.1 = b ∧ y.1 = b) := by
  rw [List.pairwise_flatMap]
  refine ⟨fun err _ ↦ ?_, (List.pairwise_filterMap.1 hparts).imp fun hne x hx y hy hsame ↦ ?_⟩
  · by_cases hb : err.bond? = some b
    · have hduty : err.duties = [(b, expr)] := by
        rw [← List.map_singleton (f := fun expr ↦ (b, expr)), ← hexprs, duties, hb]
      rw [hduty]
      exact List.pairwise_singleton ..
    · refine List.pairwise_of_forall_mem_list fun x hx y _ hsame ↦ hb ?_
      rw [(mem_duties.1 hx).1, hsame.1]
  · obtain ⟨part, hslot⟩ := Option.isSome_iff_exists.1 hpart
    have hparts : ∀ {err : Errand} {x : Bond × String}, x ∈ err.duties → x.1 = b →
        err.part? = some (b.node, part) := fun hx hxb ↦ by
      rw [part?_of_bond (hxb ▸ (mem_duties.1 hx).1), hslot, Option.map_some]
    exact hne _ (hparts hx hsame.1) _ (hparts hy hsame.2) rfl

end Errand

/-- **A bond with a part of its own and one expression has one watcher.** -/
theorem Finished.eq_of_bond {job : CompileJob σ} {foreign : Action σ → Prop} {limit : Nat}
    {d : Document} {s : Store} {way : List NodeId} {roster : List Post} {w : World σ}
    (h : Finished job foreign limit d s way roster w)
    (hparts : ((job.errands d way).filterMap Errand.part?).Nodup) {q q' : Post} (hq : q ∈ roster)
    (hq' : q' ∈ roster) (hsame : q'.bond = q.bond) (hpart : q.bond.slot.part?.isSome)
    {expr : String} (hexprs : q.bond.exprs = [expr]) : q' = q := by
  have hpairs := pairwise_duties hparts hpart hexprs
  rw [← h.duties, List.pairwise_map] at hpairs
  have hsymm : Std.Symm fun x y : Post ↦ ¬(x.bond = q.bond ∧ y.bond = q.bond) :=
    ⟨fun _ _ hnot hboth ↦ hnot hboth.symm⟩
  by_contra hne
  exact hpairs.forall hq' hq hne ⟨hsame, rfl⟩

/-! ## Two ways of showing an expression -/

/-- A node shows the value of an expression, by a directive or between braces. -/
inductive Document.Binds (d : Document) (dialect : Dialect) (e : String) : Bond → Prop
  | directive {n : NodeId} {x : Element} {name : String} {detail : Option String}
      (hx : d.content? n = some (.element x)) (hattribute : (name, e) ∈ x.attributes)
      (htext : dialect.classify name = some (.directive "text" detail)) :
      Binds d dialect e (.value n .text e)
  | braces {n : NodeId} (hn : d.content? n = some (.text (Template.braced e))) :
      Binds d dialect e (.template n (Template.braced e))

namespace Document.Binds

variable {d : Document} {dialect : Dialect} {e : String} {b : Bond} {table : DirectiveTable}

theorem reflects (h : d.Binds dialect e b) (hblank : Text.trim e ≠ "") (hclosing : '}' ∉ e.toList)
    (hline : '\n' ∉ e.toList) : b.Reflects e := by
  cases h with
  | directive => exact Bond.reflects_value ..
  | braces => exact Bond.reflects_braced _ hblank hclosing hline

/-- The errands of the node make the bond. -/
theorem exists_errand (h : d.Binds dialect e b) (ht : table.Orderly) (hblank : Text.trim e ≠ "")
    (hopening : '{' ∉ e.toList) (hclosing : '}' ∉ e.toList) (hline : '\n' ∉ e.toList) :
    ∃ err ∈ ofNode table dialect b.node (d.content? b.node), err.bond? = some b := by
  cases h with
  | @directive n x name detail hx hattribute htext =>
    refine ⟨.bind n (.live .text e), ?_, rfl⟩
    have hhandler : DirectiveHandler.text ⟨e, detail⟩ = [.live .text e] :=
      if_neg (Bool.eq_false_iff.1 (Template.hasExpression_of_not_mem hopening))
    rw [Bond.node, hx, ofNode]
    refine List.mem_cons_of_mem _ (List.mem_flatMap.2 ⟨_, hattribute, ?_⟩)
    simp only [ofAttribute, htext, ofDirective, ht.text, hhandler]
    exact List.mem_cons_self
  | @braces n hn =>
    refine ⟨.bind n (.template (Template.braced e)), ?_, rfl⟩
    rw [Bond.node, hn, ofNode_of_hasExpression ht n
      ((Template.hasExpression_braced hblank hopening hclosing).2 hline)]
    exact List.mem_cons_of_mem _ List.mem_cons_self

end Document.Binds

/-! ## Pages -/

/-- A template that is to be compiled, and all that this is done with. -/
structure Page (σ : Type) where
  world : World σ
  job : CompileJob σ
  methods : String → Event → Action σ
  call : Call σ
  limit : Nat

namespace Page

/-- The page is compiled. -/
def compile (p : Page σ) : Option (Except BindError Compiled × World σ) :=
  Compilation.compile p.call p.limit p.job p.methods p.world

/-- The page has standard directives, no two for one thing, and one bond of it shows an expression.
Nothing else about it is in error, and other code only looks. -/
structure Reads (p : Page σ) (e : String) (b : Bond) : Prop where
  table : p.job.table = .standard
  ready : p.world.Ready fun _ ↦ True
  onlookers : ∀ (id : SubscriberId) reaction, p.world.code.reactions[id]? = some reaction →
    ∀ v, (reaction v).Onlooks
  tidy : p.world.scene.store.Tidy
  rooted : p.job.state.Within p.world.scene.store.objects.size
  forest : p.world.scene.document.IsForest
  sole : p.world.scene.document.Sole p.job.dialect
  visited : p.world.scene.document.Visited p.job.dialect p.job.root b.node
  binds : p.world.scene.document.Binds p.job.dialect e b
  others : ∃ way, (p.world.scene.document.stage p.job.root).2.route p.job.dialect p.limit
      [p.world.scene.document.nodes.size] = some way ∧
    ∀ err ∈ p.job.errands p.world.scene.document way, err.isRefused = false ∧
      ∀ b', err.bond? = some b' → (∃ text, b'.text p.world.scene.store p.job.state = .ok text) ∨
        b'.text p.world.scene.store p.job.state = b.text p.world.scene.store p.job.state

/-- The page is compiled, and a watcher in its scope runs the code of the bond; then, after any
deeds, this watcher has observed a value and the node of the bond shows a text, both of which are
given. -/
def Presents (p : Page σ) (e : String) (b : Bond) (outcome : List Deed → Value × String) : Prop :=
  ∃ compiled w id, p.compile = some (.ok compiled, w) ∧ id ∈ compiled.scope ∧
    w.code.reactions[id]? = some (b.reaction p.job) ∧
    ∀ ds depth, ∃ rs w', Deed.performAll (run (depth + 1)) ds w = some (rs, w') ∧
      w'.scene.watcher? id = some ⟨Text.trim e, p.job.state, (outcome ds).1⟩ ∧
      w'.scene.document.ShowsText b.node (outcome ds).2

/-- What becomes of an expression that has a value. -/
def outcome (s : Store) (e : String) (root v : Value) (ds : List Deed) : Value × String :=
  let f := Follower.after (Text.trim e) root ⟨v, s.display v, s.found (Text.trim e) root⟩ s ds
  (f.observed, f.text)

theorem outcome_congr {s t : Store} (h : t.contents = s.contents) (e : String) (root v : Value) :
    outcome t e root v = outcome s e root v := by
  funext ds
  rw [outcome, outcome, Store.display_congr h, Store.found_congr h, Follower.after_congr h]

namespace Reads

variable {p : Page σ} {e : String} {b : Bond}

section

variable (h : p.Reads e b)

include h

theorem orderly : p.job.table.Orderly := h.table ▸ DirectiveTable.standard_orderly

theorem idle : p.world.scene.store.tracking = [] := by
  obtain ⟨marks, horder⟩ := h.ready.order
  exact horder.idle

theorem aligned : p.world.Aligned := by
  obtain ⟨marks, horder⟩ := h.ready.order
  exact ⟨horder.size_subscribers, h.ready.aligned⟩

/-- **A page whose expression has a value** is compiled. -/
theorem succeeds (hblank : Text.trim e ≠ "") (hclosing : '}' ∉ e.toList) (hline : '\n' ∉ e.toList)
    {v : Value} (hv : p.world.scene.store.resolve e p.job.state = .ok v) :
    ∃ compiled w, p.compile = some (.ok compiled, w) := by
  obtain ⟨way, hway, hothers⟩ := h.others
  have htext : b.text p.world.scene.store p.job.state = .ok (p.world.scene.store.display v) := by
    rw [(h.binds.reflects hblank hclosing hline).text, hv]
    rfl
  refine exists_compile h.orderly (fun _ _ ↦ trivial) h.ready h.rooted h.forest hway
    (fun err herr ↦ (hothers err herr).1) fun err herr b' hb' ↦ ?_
  rcases (hothers err herr).2 b' hb' with hgood | hsame
  · exact hgood
  · exact ⟨_, hsame.trans htext⟩

/-- **The code of everybody else spares what the bond shows.**  Who was there before only looks, and
who is new works for a bond of the page, and for another one. -/
theorem others_spare {way : List NodeId} {roster : List Post} {w : World σ}
    {scope : List SubscriberId}
    (hfinished : Finished p.job (fun _ ↦ True) p.limit p.world.scene.document
        p.world.scene.store way
      roster w) (hscope : scope = roster.map Post.id)
    (hrecorded : w.Recorded p.world.scene.store p.world.scene.store.handles.size scope)
    (hold : ∀ id < p.world.scene.subscribers.size,
      w.code.reactions[id]? = p.world.code.reactions[id]?) {q : Post} (hq : q ∈ roster)
    {expr : String} (hexprs : q.bond.exprs = [expr]) (hslot : q.bond.slot = .text)
    {id : SubscriberId} (hne : id ≠ q.id) {reaction : Value → Action σ}
    (hcode : w.code.reactions[id]? = some reaction) (v : Value) :
    (reaction v).Spares (p.job.Shown p.world.scene.document
      (p.job.errands p.world.scene.document way) q.bond) := by
  have hseparate := hfinished.separate h.forest h.table h.sole
  by_cases hnew : p.world.scene.store.handles.size ≤ id
  · have hlt : id < w.scene.store.handles.size := by
      rw [← hrecorded.subscribers, ← hrecorded.reactions]
      exact (Array.getElem?_eq_some_iff.1 hcode).1
    obtain ⟨q', hq', rfl⟩ := List.mem_map.1 (hscope ▸ (hrecorded.mem_scope id).2 ⟨hnew, hlt⟩)
    obtain ⟨err', herr', hb', -⟩ := hfinished.exists_errand hq'
    have hother : q.bond ≠ q'.bond := fun hsame ↦ hne <| congrArg Post.id <|
      hfinished.eq_of_bond hseparate.parts hq hq' hsame.symm (by rw [hslot]; rfl) hexprs
    obtain rfl := Option.some.inj
      ((hfinished.manned.staffed.held q' hq').reaction.symm.trans hcode)
    exact Bond.reaction_spares hseparate (hfinished.laid h.forest h.orderly) herr' hb' hother v
  · rw [hold id (by rw [h.aligned.subscribers]; exact Nat.lt_of_not_le hnew)] at hcode
    exact .of_onlooks (h.onlookers id reaction hcode v) _

variable (hblank : Text.trim e ≠ "") (hopening : '{' ∉ e.toList) (hclosing : '}' ∉ e.toList)
  (hline : '\n' ∉ e.toList)

include hblank hopening hclosing hline

/-- The bond is made on the way. -/
theorem exists_errand {way : List NodeId}
    (hway : (p.world.scene.document.stage p.job.root).2.route p.job.dialect p.limit
      [p.world.scene.document.nodes.size] = some way) :
    ∃ err ∈ p.job.errands p.world.scene.document way, err.bond? = some b := by
  obtain ⟨err, herr, hb⟩ := h.binds.exists_errand h.orderly hblank hopening hclosing hline
  have hstaged := h.forest.staged p.job.root
  refine ⟨err, List.mem_flatMap.2 ⟨b.node, h.visited.mem_route h.forest hstaged hway, ?_⟩, hb⟩
  rwa [hstaged.content?_eq _ ((h.visited.above h.forest).lt_size h.forest).2]

/-- **A page whose expression has no value** is not compiled. -/
theorem fails {x : StateError} (hx : p.world.scene.store.resolve e p.job.state = .error x) :
    ∃ w, p.compile = some (.error (.state x), w) := by
  obtain ⟨way, hway, hothers⟩ := h.others
  obtain ⟨err, herr, hb⟩ := h.exists_errand hblank hopening hclosing hline hway
  have htext : b.text p.world.scene.store p.job.state = .error x := by
    rw [(h.binds.reflects hblank hclosing hline).text, hx]
    rfl
  refine exists_failed_compile h.orderly (fun _ _ ↦ trivial) h.ready h.rooted h.forest hway
    (fun err herr ↦ (hothers err herr).1) (fun err herr b' hb' ↦ ?_) ⟨err, herr, b, hb, htext⟩
  rw [← htext]
  exact (hothers err herr).2 b' hb'

/-- **A compiled page goes as the follower of its bond does.** -/
theorem follows {v : Value} (hv : p.world.scene.store.resolve e p.job.state = .ok v)
    {compiled : Compiled} {w : World σ} (hcompile : p.compile = some (.ok compiled, w)) :
    ∃ shows id, id ∈ compiled.scope ∧ w.code.reactions[id]? = some (b.reaction p.job) ∧
      (∀ text d, shows text d → d.ShowsText b.node text) ∧
      w.scene.store.contents = p.world.scene.store.contents ∧
      w.Follows shows id (Text.trim e) p.job.state [] ⟨v, p.world.scene.store.display v,
        p.world.scene.store.found (Text.trim e) p.job.state⟩ := by
  have hreflects := h.binds.reflects hblank hclosing hline
  obtain ⟨way, roster, hfinished, hscope⟩ := compile_finished h.orderly
    (fun _ _ ↦ trivial) h.ready h.rooted h.forest hcompile
  have hrecorded := recorded_of_compile h.orderly h.aligned h.idle h.tidy h.forest hcompile
  have hadded := added_of_compile h.orderly h.aligned hcompile
  have hseparate := hfinished.separate h.forest h.table h.sole
  have hlaid := hfinished.laid h.forest h.orderly
  obtain ⟨err, herr, hb⟩ := h.exists_errand hblank hopening hclosing hline hfinished.route
  obtain ⟨expr, hexprs, htrim⟩ := List.map_eq_singleton_iff.1 hreflects.exprs
  obtain ⟨q, hq, rfl, rfl⟩ := hfinished.exists_post herr hb
    (by rw [hexprs]; exact List.mem_singleton_self _)
  have hheld := hfinished.manned.staffed.held q hq
  have hid : q.id ∈ compiled.scope := hscope ▸ List.mem_map_of_mem hq
  obtain ⟨u, hu⟩ := hheld.watcher
  rw [htrim] at hu
  obtain ⟨hvalue, hlisted⟩ :=
    hrecorded.records q.id ((hrecorded.mem_scope _).1 hid).1 hheld.live _ hu
  obtain rfl : v = u := Except.ok.inj <| hv.symm.trans <| by
    rwa [Store.resolve_of_contents hrecorded.contents, Store.resolve_trim] at hvalue
  refine ⟨p.job.Shown p.world.scene.document (p.job.errands p.world.scene.document way)
    q.bond, q.id, hid, hheld.reaction, fun text d hshown ↦ hshown.shows hseparate hlaid herr hb
      hreflects.slot,
    hrecorded.contents, ?_⟩
  exact {
    idle := hrecorded.idle
    holding := .singleton hrecorded.idle hheld.live
    watcher := hu
    code := ⟨_, hheld.reaction, Bond.reaction_shows hseparate hlaid hreflects herr hb⟩
    others := fun id reaction hne hcode v ↦
      h.others_spare hfinished hscope hrecorded hadded.reactions_eq hq hexprs
        hreflects.slot hne hcode v
    listed := fun o key ↦ by rw [hlisted, Store.found_congr hrecorded.contents]
    shown := by
      refine ⟨Bond.shown p.world.scene.store p.job.state, hfinished.document, Bond.shown_of_text ?_⟩
      rw [hreflects.text, hv]
      rfl }

/-- **A page whose expression has a value** presents what becomes of it. -/
theorem presents {v : Value} (hv : p.world.scene.store.resolve e p.job.state = .ok v) :
    p.Presents e b (outcome p.world.scene.store e p.job.state v) := by
  obtain ⟨compiled, w, hcompile⟩ := h.succeeds hblank hclosing hline hv
  obtain ⟨shows, id, hid, hcode, hshows, hcontents, hfollows⟩ :=
    h.follows hblank hopening hclosing hline hv hcompile
  refine ⟨compiled, w, id, hcompile, hid, hcode, fun ds depth ↦ ?_⟩
  obtain ⟨rs, w', hrun, h'⟩ := hfollows.performAll depth ds
  rw [Follower.after_congr hcontents] at h'
  exact ⟨rs, w', hrun, h'.watcher, hshows _ _ h'.shown⟩

end

end Reads

end Page

/-- **Read alike.**  An expression without braces that is not blank makes a template between braces
exactly if it stands on one line.  If it does, take two pages that show it by a directive or between
braces, each as it likes, and whose states hold the same.  If the expression has no value, both
compilations end with the error that it has.  If it has one, there is one way for what is observed
and shown to go on from that value, and both pages go it, whatever is done to their states. -/
theorem read_alike {τ : Type} {e : String} (hblank : Text.trim e ≠ "") (hopening : '{' ∉ e.toList)
    (hclosing : '}' ∉ e.toList) :
    (Template.hasExpression (Template.braced e) = true ↔ '\n' ∉ e.toList) ∧
    ('\n' ∉ e.toList → ∀ (p : Page σ) (q : Page τ) (b c : Bond), p.Reads e b → q.Reads e c →
      q.world.scene.store.contents = p.world.scene.store.contents → q.job.state = p.job.state →
      (∀ x, (Store.getValue e p.job.state p.world.scene.store).1 = .error x →
        (∃ w, p.compile = some (.error (.state x), w)) ∧
          ∃ w, q.compile = some (.error (.state x), w)) ∧
      ∀ v, (Store.getValue e p.job.state p.world.scene.store).1 = .ok v →
        ∃ outcome : List Deed → Value × String,
          outcome [] = (v, p.world.scene.store.display v) ∧
            p.Presents e b outcome ∧ q.Presents e c outcome) := by
  refine ⟨Template.hasExpression_braced hblank hopening hclosing,
    fun hline p q b c hp hq hcontents hstate ↦ ?_⟩
  have hresolve : q.world.scene.store.resolve e q.job.state =
      p.world.scene.store.resolve e p.job.state := by
    rw [hstate, Store.resolve_of_contents hcontents]
  simp only [Store.getValue_fst]
  refine ⟨fun x hx ↦ ⟨hp.fails hblank hopening hclosing hline hx,
    hq.fails hblank hopening hclosing hline (hresolve.trans hx)⟩, fun v hv ↦ ?_⟩
  have hpresents := hq.presents hblank hopening hclosing hline (hresolve.trans hv)
  rw [hstate, Page.outcome_congr hcontents] at hpresents
  exact ⟨_, rfl, hp.presents hblank hopening hclosing hline hv, hpresents⟩

/-! ## Two paragraphs for one number -/

theorem World.unwatched_ofTemplate (markup : String) (state : Json) :
    (World.ofTemplate markup state).Unwatched where
  idle := (Store.extends_observe state .empty).tracking
  closed := (Store.observe_observed state (World.unwatched_start .empty ()).closed).1.closed
  subscribers := rfl
  handles := (Store.extends_observe state .empty).handles

/-- A page with a number inside an object as its state. -/
def Page.ofMarkup (markup : String) : Page Unit where
  world := .ofTemplate markup (.object [("a", .object [("x", .int 1)])])
  job := ⟨0, .object 1, .standard, .standard, fun _ d ↦ d⟩
  methods := fun _ _ ↦ .done (.ok ())
  call := run 20
  limit := 20

theorem Page.reads_ofMarkup {markup e : String} {b : Bond} (way : List NodeId)
    (hsole : (ofMarkup markup).world.scene.document.Sole .standard)
    (hvisited : (ofMarkup markup).world.scene.document.Visited .standard 0 b.node)
    (hbinds : (ofMarkup markup).world.scene.document.Binds .standard e b)
    (hway : ((ofMarkup markup).world.scene.document.stage 0).2.route .standard 20
      [(ofMarkup markup).world.scene.document.nodes.size] = some way)
    (haccepted : ∀ err ∈ (ofMarkup markup).job.errands (ofMarkup markup).world.scene.document way,
      err.isRefused = false)
    (hbonds : ((ofMarkup markup).job.errands (ofMarkup markup).world.scene.document way).filterMap
      Errand.bond? = [b]) : (ofMarkup markup).Reads e b where
  table := rfl
  ready := (World.unwatched_ofTemplate markup _).ready rfl rfl
  onlookers id reaction h := by cases h
  tidy := (Store.orderly_advances.observe _ _ Store.tidy_empty).1
  rooted := (by decide +kernel : Value.Within
    (Store.observe (.object [("a", .object [("x", .int 1)])]) .empty).2.objects.size (.object 1))
  forest := (World.sound_ofMarkup markup).forest
  sole := hsole
  visited := hvisited
  binds := hbinds
  others := ⟨way, hway, fun err herr ↦ ⟨haccepted err herr, fun b' hb' ↦ .inr <| by
    have hmem := List.mem_filterMap.2 ⟨err, herr, hb'⟩
    rw [hbonds, List.mem_singleton] at hmem
    rw [hmem]⟩⟩

/-- With blanks inside and around it, the path of the number is read by the directive as it is
between braces. -/
theorem read_alike_of_blanks : ∃ outcome : List Deed → Value × String,
    outcome [] = (.number (.ofInt 1), "1") ∧
      (Page.ofMarkup "<p bind-text=\" a . x \"></p>").Presents " a . x " (.value 1 .text " a . x ")
        outcome ∧
      (Page.ofMarkup "<p>{{ a . x }}</p>").Presents " a . x "
        (.template 2 "{{ a . x }}") outcome := by
  have hdirective : (Page.ofMarkup "<p bind-text=\" a . x \"></p>").Reads " a . x "
      (.value 1 .text " a . x ") :=
    Page.reads_ofMarkup [2, 1] (by decide +kernel) (.child (by decide +kernel))
      (.directive (x := ⟨"p", [("bind-text", " a . x ")], none⟩) (by decide +kernel)
        List.mem_cons_self
        (by decide +kernel : Dialect.standard.classify "bind-text" = some (.directive "text" none)))
      (by decide +kernel) (by decide +kernel) (by decide +kernel)
  have hbraces : (Page.ofMarkup "<p>{{ a . x }}</p>").Reads " a . x "
      (.template 2 "{{ a . x }}") :=
    Page.reads_ofMarkup [3, 1, 2] (by decide +kernel)
      (.inside (n := 1) (.child (by decide +kernel)) (by decide +kernel) (by decide +kernel))
      (.braces (by decide +kernel)) (by decide +kernel) (by decide +kernel) (by decide +kernel)
  obtain ⟨-, hpages⟩ := read_alike (σ := Unit) (τ := Unit) (e := " a . x ") (by decide +kernel)
    (by decide) (by decide)
  exact (hpages (by decide) _ _ _ _ hdirective hbraces rfl rfl).2 _ (by decide +kernel)

/-- How many watchers there are for a page that has been compiled, and the text that it shows. -/
def Page.view (p : Page Unit) : Option (Nat × String) := do
  let (result, w) ← p.compile
  let compiled ← result.toOption
  return (compiled.scope.length, w.scene.document.textContent 0)

/-- **A line break is literal.**  The directive reads the path of the number, and watches it;
between braces the same path is no expression, so the text stays as it is and nothing is watched. -/
theorem line_break_is_literal :
    Text.trim "a.x\n" = "a.x" ∧
      (Page.ofMarkup "<p bind-text=\"a.x\n\"></p>").view = some (1, "1") ∧
      (Page.ofMarkup "<p>\x7b\x7ba.x\n\x7d\x7d</p>").view = some (0, "\x7b\x7ba.x\n\x7d\x7d") := by
  decide +kernel

end DataBinding

import DataBinding.Proofs.State.Subscription
import DataBinding.Proofs.Template.StepsByRecursion

/-!
# What a template shows is watched

Rendering a template evaluates its expressions in turn, up to the first that has no value, and so it
looks properties up (`Store.LooksUp`).  **Whoever renders a template is subscribed to exactly the
properties there are among these** (`mem_subscribers_render`), and the text is a matter of what they
hold (`filled_of_peek`).

The watchers of a template are made from the list of its expressions, each of which is evaluated on
its own.  `exists_watchers` says that they are made, and who is subscribed to what after that.  Both
lists are the same, so **the watchers cover all that rendering looks up** (`rendered_is_watched`).

An object is shown by a snapshot of its contents, for which nothing is looked up.  So nobody watches
what is inside, and the text stays as it is when that changes (`shown_object_is_not_watched`).
-/

set_option autoImplicit false

namespace DataBinding

variable {σ : Type}

namespace Store

/-! ## Lookups -/

/-- Rendering a template looks a property up: one of its expressions reads it, and all those before
have values. -/
def LooksUp (s : Store) (template : String) (root : Value) (r : ObjectId × String) : Prop :=
  ∃ before expr after, Template.expressions template = before ++ expr :: after ∧
    (∀ e ∈ before, ∃ v, s.resolve e root = .ok v) ∧ r ∈ s.reads expr root

theorem mem_readsAll_iff {s : Store} {root : Value} {exprs : List String}
    {r : ObjectId × String} :
    r ∈ s.readsAll root exprs ↔ ∃ before expr after, exprs = before ++ expr :: after ∧
      (∀ e ∈ before, ∃ v, s.resolve e root = .ok v) ∧ r ∈ s.reads expr root := by
  induction exprs with
  | nil => simp [readsAll]
  | cons expr rest ih =>
    rw [readsAll, List.mem_append]
    constructor
    · rintro (hr | hr)
      · exact ⟨[], expr, rest, rfl, by simp, hr⟩
      · cases hv : s.resolve expr root with
        | error e => simp [hv] at hr
        | ok v =>
          rw [hv] at hr
          obtain ⟨before, e, after, rfl, hbefore, hr⟩ := ih.1 hr
          exact ⟨expr :: before, e, after, rfl, List.forall_mem_cons.2 ⟨⟨v, hv⟩, hbefore⟩, hr⟩
    · rintro ⟨before, e, after, heq, hbefore, hr⟩
      cases before with
      | nil =>
        obtain ⟨rfl, rfl⟩ := List.cons.inj heq
        exact .inl hr
      | cons e' before =>
        obtain ⟨rfl, rfl⟩ := List.cons.inj heq
        obtain ⟨⟨v, hv⟩, hbefore⟩ := List.forall_mem_cons.1 hbefore
        rw [hv]
        exact .inr (ih.2 ⟨before, e, after, rfl, hbefore, hr⟩)

theorem looksUp_iff {s : Store} {template : String} {root : Value} {r : ObjectId × String} :
    s.LooksUp template root r ↔ r ∈ s.readsAll root (Template.expressions template) :=
  mem_readsAll_iff.symm

/-- What is looked up is read by one of the expressions. -/
theorem LooksUp.exists_expr {s : Store} {template : String} {root : Value} {r : ObjectId × String}
    (h : s.LooksUp template root r) :
    ∃ expr ∈ Template.expressions template, r ∈ s.reads expr root := by
  obtain ⟨before, expr, after, heq, -, hr⟩ := h
  exact ⟨expr, by simp [heq], hr⟩

/-! ## Who is subscribed -/

section Subscribers

variable {s : Store} {id : SubscriberId} {rest : List SubscriberId}

/-- **Rendering subscribes whoever is evaluating to what is looked up.** -/
theorem mem_subscribers_render (h : s.tracking = id :: rest) (template : String) (root : Value)
    (o : ObjectId) (key : String) (i : SubscriberId) :
    i ∈ (s.render template root).2.subscribers o key ↔
      (i = id ∧ s.LooksUp template root (o, key) ∧ (s.property? o key).isSome) ∨
        (i ∈ s.subscribers o key ∧ (s.LooksUp template root (o, key) → s.isLive i = true)) := by
  rw [render_eq_touch, looksUp_iff]
  exact mem_subscribers_touch h (r := (o, key))

end Subscribers

/-! ## What the text depends on -/

theorem fillPieces_of_peek {s t : Store} {root : Value} {pieces : List Template.Piece}
    (h : ∀ r ∈ s.readsAll root (pieces.filterMap exprOf), t.peek r.1 r.2 = s.peek r.1 r.2)
    (hshown : ∀ e ∈ pieces.filterMap exprOf, ∀ v, s.resolve e root = .ok v →
      t.display v = s.display v) :
    t.fillPieces root pieces = s.fillPieces root pieces := by
  induction pieces with
  | nil => rfl
  | cons piece rest ih =>
    cases piece with
    | literal c => rw [fillPieces, fillPieces, ih h hshown]
    | expression expr =>
      rw [fillPieces, fillPieces]
      rw [List.filterMap_cons, exprOf] at h hshown
      by_cases hblank : (Text.trimChars expr).isEmpty = true
      · rw [if_pos hblank] at h hshown
        rw [if_pos hblank, if_pos hblank, ih h hshown]
      · rw [if_neg hblank] at h hshown
        rw [if_neg hblank, if_neg hblank, resolve_ofList t, resolve_ofList s,
          resolve_congr fun r hr ↦ h r (List.mem_append_left _ hr)]
        rw [readsAll] at h
        cases hv : s.resolve (String.ofList (Text.trimChars expr)) root with
        | error e => rfl
        | ok v =>
          rw [hv] at h
          simp only [hshown _ List.mem_cons_self v hv]
          rw [ih (fun r hr ↦ h r (List.mem_append_right _ hr))
            fun e he ↦ hshown e (List.mem_cons_of_mem _ he)]

/-- **A text changes only through a property that is looked up**, or inside an object that is
shown. -/
theorem filled_of_peek {s t : Store} {template : String} {root : Value}
    (h : ∀ r, s.LooksUp template root r → t.peek r.1 r.2 = s.peek r.1 r.2)
    (hscalar : ∀ e ∈ Template.expressions template, ∀ v, s.resolve e root = .ok v →
      v.isScalar = true) :
    t.filled template root = s.filled template root := by
  simp only [looksUp_iff, expressions_eq] at h hscalar
  rw [filled, filled, fillPieces_of_peek h fun e he v hv ↦ ?_]
  exact (Value.Alike.refl v).display_eq (hscalar e he v hv)

end Store

/-! ## The watchers -/

/-- Nobody alive dies or is taken off a list. -/
def Store.KeepsSubscribers (s t : Store) : Prop :=
  ∀ id, s.isLive id = true →
    t.isLive id = true ∧ ∀ o key, s.Subscribes id o key → t.Subscribes id o key

theorem Store.KeepsSubscribers.trans {s t u : Store} (h : s.KeepsSubscribers t)
    (h' : t.KeepsSubscribers u) : s.KeepsSubscribers u := fun id hid ↦
  ⟨(h' id (h id hid).1).1, fun o key hs ↦ (h' id (h id hid).1).2 o key ((h id hid).2 o key hs)⟩

namespace World

/-- The subscriber is alive, watches an expression for a bond, and is subscribed to all that the
expression reads. -/
structure Monitors (w : World σ) (job : CompileJob σ) (id : SubscriberId) (q : Bond × String) :
    Prop extends w.Serves job id q where
  live : w.scene.store.isLive id = true
  subscribed : ∀ r ∈ w.scene.store.reads q.2 job.state, w.scene.store.Subscribes id r.1 r.2

section Monitors

variable {w w' : World σ} {job : CompileJob σ}

theorem Monitors.widen {id : SubscriberId} {q : Bond × String} (h : w.Monitors job id q)
    (hw : w.Widens w') (hkeeps : w.scene.store.KeepsSubscribers w'.scene.store) :
    w'.Monitors job id q where
  toServes := h.toServes.widen hw
  live := (hkeeps id h.live).1
  subscribed r hr := by
    rw [Store.reads_of_contents hw.contents] at hr
    exact (hkeeps id h.live).2 _ _ (h.subscribed r hr)

theorem keepsSubscribers_joined (expr : String) (root : Value) (reaction : Value → Action σ)
    (v : Value) :
    w.scene.store.KeepsSubscribers (w.joined expr root reaction v).scene.store := by
  refine fun id hid ↦ ⟨(w.isLive_joined ..).2 (.inl hid), fun o key h ↦ ?_⟩
  have hnew : w.scene.store.newSubscriber.2.Subscribes id o key := h
  rw [store_joined]
  exact hnew.evaluate ((w.scene.store.isLive_newSubscriber id).2 (.inl hid))

theorem monitors_joined (hw : w.Aligned) (b : Bond) {expr : String} {v : Value}
    (hv : w.scene.store.resolve expr job.state = .ok v) :
    (w.joined expr job.state (b.reaction job) v).Monitors job w.scene.store.handles.size
      (b, expr) where
  toServes := serves_joined hw b hv
  live := (w.isLive_joined ..).2 (.inr rfl)
  subscribed r hr := by
    rw [Store.reads_of_contents (w.enlists_joined ..).contents] at hr
    rw [store_joined]
    refine Store.evaluate_subscribes ((w.scene.store.isLive_newSubscriber _).2 (.inr rfl)) ?_
    rwa [Store.reads_trim, Store.reads_of_contents (Store.contents_newSubscriber _)]

end Monitors

end World

namespace Compilation

variable {call : Call σ} {job : CompileJob σ} {methods : String → Event → Action σ}

/-- **When all expressions have values, there is a watcher for each of them**, and it is subscribed
to all that its expression reads. -/
theorem exists_watchers (b : Bond) {exprs : List String} {w : World σ} (hw : w.Aligned)
    (hvalues : ∀ expr ∈ exprs, ∃ v, w.scene.store.resolve expr job.state = .ok v) (p : Progress) :
    ∃ ids w', (exprs.forM fun expr ↦ watch job expr (b.reaction job)).Succeeds p w ()
        { p with scope := p.scope ++ ids } w' ∧
      w.Widens w' ∧ w.scene.store.KeepsSubscribers w'.scene.store ∧
      List.Forall₂ (w'.Monitors job) ids (exprs.map fun expr ↦ (b, expr)) := by
  induction exprs generalizing w p with
  | nil =>
    refine ⟨[], w, succeeds_pure.2 ⟨rfl, by rw [List.append_nil], rfl⟩,
      World.widens_of_eq hw rfl rfl rfl rfl, fun id hid ↦ ⟨hid, fun _ _ h ↦ h⟩, .nil⟩
  | cons expr rest ih =>
    obtain ⟨v, hv⟩ := hvalues expr (by simp)
    have hwide := World.widens_joined hw expr job.state (b.reaction job) v
    obtain ⟨ids, w', hrun, hwide', hkeeps, hids⟩ := ih hwide.aligned
      (fun e he ↦ by
        rw [Store.resolve_of_contents hwide.contents]
        exact hvalues e (by simp [he]))
      { p with scope := p.scope ++ [w.scene.store.handles.size] }
    have hfirst : (watch job expr (b.reaction job)).Succeeds p w ()
        { p with scope := p.scope ++ [w.scene.store.handles.size] } _ :=
      watch_succeeds.2 ⟨v, hv, rfl, rfl⟩
    refine ⟨w.scene.store.handles.size :: ids, w', ?_, ?_, ?_, ?_⟩
    · rw [List.append_assoc] at hrun
      exact forM_cons_succeeds.2 ⟨_, _, hfirst, hrun⟩
    · exact hwide.trans hwide'
    · exact (World.keepsSubscribers_joined expr job.state (b.reaction job) v).trans hkeeps
    · exact .cons ((World.monitors_joined hw b hv).widen hwide' hkeeps) hids

end Compilation

theorem exists_mem_of_forall₂ {α β : Type} {R : α → β → Prop} {xs : List α} {ys : List β}
    (h : List.Forall₂ R xs ys) {y : β} (hy : y ∈ ys) : ∃ x ∈ xs, R x y := by
  induction h with
  | nil => cases hy
  | cons hxy _ ih =>
    rcases List.mem_cons.1 hy with rfl | hy
    · exact ⟨_, List.mem_cons_self, hxy⟩
    · obtain ⟨x, hx, hR⟩ := ih hy
      exact ⟨x, List.mem_cons_of_mem _ hx, hR⟩

/-- **What a template shows is watched.**  If its listed expressions have values that are shown
alike over two states, the template has one text over both.  It has a text exactly if all of them
have values.  Whoever renders it is subscribed to exactly those properties there are that the listed
expressions look up, as far as the first without a value; and unless an object is shown, nothing
else influences the result.  The watchers that a binding makes, one for each listed expression,
render the whole template, and each such property has one of them among its subscribers. -/
theorem rendered_is_watched (template : String) :
    (∀ (s t : Store) (root root' : Value),
      (∀ e ∈ Template.expressions template, ∃ v u, s.resolve e root = .ok v ∧
        t.resolve e root' = .ok u ∧ s.display v = t.display u) →
      ∃ text, (s.render template root).1 = .ok text ∧ (t.render template root').1 = .ok text) ∧
    (∀ (s : Store) (root : Value), (∃ text, (s.render template root).1 = .ok text) ↔
      ∀ e ∈ Template.expressions template, ∃ v, s.resolve e root = .ok v) ∧
    (∀ (s : Store) (root : Value) (id : SubscriberId) (rest : List SubscriberId),
      s.tracking = id :: rest → ∀ o key i,
        i ∈ (s.render template root).2.subscribers o key ↔
          (i = id ∧ s.LooksUp template root (o, key) ∧ (s.property? o key).isSome) ∨
            (i ∈ s.subscribers o key ∧
              (s.LooksUp template root (o, key) → s.isLive i = true))) ∧
    (∀ (s t : Store) (root : Value),
      (∀ r, s.LooksUp template root r → t.peek r.1 r.2 = s.peek r.1 r.2) →
      (∀ e ∈ Template.expressions template, ∀ v, s.resolve e root = .ok v → v.isScalar = true) →
      (t.render template root).1 = (s.render template root).1) ∧
    ∀ (call : Call σ) (job : CompileJob σ) (methods : String → Event → Action σ) (n : NodeId)
      (p : Progress) (w : World σ), w.Aligned → w.scene.store.tracking = [] →
      ∀ text, (w.scene.store.render template job.state).1 = .ok text →
        ∃ ids w', (Compilation.bind call job methods n (.template template)).Succeeds p w ()
            { p with scope := p.scope ++ ids } w' ∧
          List.Forall₂ (w'.Serves job) ids
            ((Template.expressions template).map fun e ↦ (.template n template, e)) ∧
          ∀ o key, w.scene.store.LooksUp template job.state (o, key) →
            (w.scene.store.property? o key).isSome →
            ∃ id ∈ ids, id ∈ w'.scene.store.subscribers o key := by
  have hrender : ∀ (s : Store) root, (s.render template root).1 = s.filled template root :=
    fun s root ↦ congrArg Prod.fst (s.render_eq_touch template root)
  simp only [hrender]
  refine ⟨fun s t root root' h ↦ ?_, fun s root ↦ s.filled_isOk_iff template root,
    fun s root id rest h ↦ Store.mem_subscribers_render h template root,
    fun s t root ↦ Store.filled_of_peek, ?_⟩
  · obtain ⟨text, htext⟩ := (s.filled_isOk_iff template root).2 fun e he ↦
      (h e he).imp fun v hv ↦ hv.choose_spec.1
    exact ⟨text, htext, (Store.filled_congr h).symm.trans htext⟩
  · intro call job methods n p w hw hidle text htext
    have hpresent : w.Widens (w.presenting job n .text text) :=
      World.widens_of_eq hw rfl rfl rfl rfl
    obtain ⟨ids, w', hrun, hwide, -, hids⟩ :=
      Compilation.exists_watchers (.template n template) hpresent.aligned
        ((w.scene.store.filled_isOk_iff template job.state).1 ⟨text, htext⟩) p
    refine ⟨ids, w', (Compilation.bind_succeeds (b := .template n template) rfl hidle).2
      ⟨text, htext, hrun⟩, hids.imp fun _ _ h ↦ h.toServes, fun o key hlooks hkey ↦ ?_⟩
    obtain ⟨expr, hexpr, hr⟩ := hlooks.exists_expr
    obtain ⟨id, hid, hmonitors⟩ := exists_mem_of_forall₂ hids (List.mem_map_of_mem hexpr)
    have hcontents := hwide.contents.trans hpresent.contents
    refine ⟨id, hid, (hmonitors.subscribed (o, key) ?_).mem_subscribers ?_⟩
    · rwa [Store.reads_of_contents hcontents]
    · rwa [Store.isSome_property?_congr hcontents]

/-- Three numbers. -/
def threeNumbers : Json := .object [("a", .int 1), ("b", .int 2), ("c", .int 3)]

/-- Somebody is about to render a template over three numbers. -/
def rendering : Store := (Store.observe threeNumbers .empty).2.newSubscriber.2.track 0

/-- Compiles a page with three numbers as its state. -/
def threeNumbersJob : CompileJob Unit := ⟨0, .object 0, .standard, .standard, fun _ d ↦ d⟩

/-- Rendering gets stuck at the second expression, up to which there are subscriptions; the watchers
of a template that has a text cover all of it. -/
theorem rendered_is_watched_of_threeNumbers :
    (rendering.tracking = [0] ∧
      (¬∃ text, (rendering.render "{{ a }}{{b.x}}{{c}}" (.object 0)).1 = .ok text) ∧
      ∀ key, 0 ∈ (rendering.render "{{ a }}{{b.x}}{{c}}" (.object 0)).2.subscribers 0 key ↔
        key = "a" ∨ key = "b") ∧
    ∃ ids w', (Compilation.bind (run 5) threeNumbersJob (fun _ _ ↦ .done (.ok ())) 1
        (.template "{{ c }}{{a}}")).Succeeds .start (World.ofTemplate "<p></p>" threeNumbers) ()
          ⟨ids, .zero⟩ w' ∧
      ids.length = 2 ∧ ∃ id ∈ ids, id ∈ w'.scene.store.subscribers 0 "a" := by
  obtain ⟨-, htext, hsubscribers, -, -⟩ :=
    rendered_is_watched (σ := Unit) "{{ a }}{{b.x}}{{c}}"
  obtain ⟨-, -, -, -, hwatchers⟩ := rendered_is_watched (σ := Unit) "{{ c }}{{a}}"
  refine ⟨⟨rfl, ?_, fun key ↦ ?_⟩, ?_⟩
  · rw [htext]
    intro h
    obtain ⟨v, hv⟩ := h "b.x" (by decide +kernel)
    have hnone : (rendering.resolve "b.x" (.object 0)).toOption = none := by decide +kernel
    rw [hv] at hnone
    cases hnone
  · have hnobody : rendering.subscribers 0 key = [] :=
      Store.subscribers_observe threeNumbers .empty 0 key
    have hreads : rendering.readsAll (.object 0) (Template.expressions "{{ a }}{{b.x}}{{c}}") =
        [(0, "a"), (0, "b")] := by decide +kernel
    rw [hsubscribers _ _ 0 [] rfl, Store.looksUp_iff, hreads, hnobody]
    constructor
    · rintro (⟨-, hkey, -⟩ | ⟨hmem, -⟩)
      · simpa using hkey
      · cases hmem
    · rintro (rfl | rfl)
      · exact .inl ⟨rfl, by decide, by decide +kernel⟩
      · exact .inl ⟨rfl, by decide, by decide +kernel⟩
  · obtain ⟨ids, w', hrun, hserves, hcovers⟩ := hwatchers (run 5) threeNumbersJob
      (fun _ _ ↦ .done (.ok ())) 1 .start (World.ofTemplate "<p></p>" threeNumbers)
      (World.aligned_ofTemplate ..) (by decide +kernel) "31" (by decide +kernel)
    refine ⟨ids, w', hrun, ?_, hcovers 0 "a" ?_ (by decide +kernel)⟩
    · rw [hserves.length_eq]
      decide +kernel
    · rw [Store.looksUp_iff]
      decide +kernel

/-! ## An object that is shown -/

/-- A paragraph that shows an object, and the state with that object. -/
def showingObject : World Unit :=
  .ofTemplate "<p>{{a}}</p>" (.object [("a", .object [("x", .int 1)])])

/-- Compiles the paragraph against that state. -/
def showingObjectJob : CompileJob Unit := ⟨0, .object 1, .standard, .standard, fun _ d ↦ d⟩

/-- What rendering gives, and what the text of the paragraph is. -/
def World.renderedAndShown (w : World Unit) : Option String × String :=
  ((w.scene.store.render "{{a}}" (.object 1)).1.toOption, w.scene.document.textOf 2)

/-- **An object that is shown is not watched inside.**  The number in it is written: no property
that rendering looks up is another one, nobody is subscribed to the one that is, and while rendering
gives another text, the paragraph keeps the one it has. -/
theorem shown_object_is_not_watched : ∃ compiled w₁ w₂,
    Compilation.compile (run 20) 20 showingObjectJob (fun _ _ ↦ .done (.ok ())) showingObject =
      some (.ok compiled, w₁) ∧
    Notification.set (run 20) 0 "x" (.number (.ofInt 2)) w₁ = some (.ok (), w₂) ∧
    (∀ r, w₁.scene.store.LooksUp "{{a}}" (.object 1) r →
      w₂.scene.store.peek r.1 r.2 = w₁.scene.store.peek r.1 r.2) ∧
    w₁.scene.store.subscribers 0 "x" = [] ∧
    w₁.renderedAndShown = (some "\x7b\"x\":1\x7d", "\x7b\"x\":1\x7d") ∧
    w₂.renderedAndShown = (some "\x7b\"x\":2\x7d", "\x7b\"x\":1\x7d") := by
  have hrun : (do
      let (result, w₁) ←
        Compilation.compile (run 20) 20 showingObjectJob (fun _ _ ↦ .done (.ok ())) showingObject
      let (r, w₂) ← Notification.set (run 20) 0 "x" (.number (.ofInt 2)) w₁
      return ([result.isOk, r.isOk, decide (∀ r ∈ w₁.scene.store.readsAll (.object 1) ["a"],
          w₂.scene.store.peek r.1 r.2 = w₁.scene.store.peek r.1 r.2)],
        w₁.scene.store.subscribers 0 "x", w₁.renderedAndShown, w₂.renderedAndShown)) =
      some ([true, true, true], [], (some "\x7b\"x\":1\x7d", "\x7b\"x\":1\x7d"),
        some "\x7b\"x\":2\x7d", "\x7b\"x\":1\x7d") := by
    decide +kernel
  obtain ⟨⟨result, w₁⟩, hcompile, hrun⟩ := Option.bind_eq_some_iff.1 hrun
  obtain ⟨⟨r, w₂⟩, hset, hrun⟩ := Option.bind_eq_some_iff.1 hrun
  simp only [Option.pure_def, Option.some.injEq, Prod.mk.injEq, List.cons.injEq, and_true,
    decide_eq_true_eq] at hrun
  obtain ⟨⟨hresult, hr, hpeek⟩, hnobody, hbefore, hafter⟩ := hrun
  obtain ⟨compiled, rfl⟩ := Except.exists_eq_ok hresult
  obtain ⟨_, rfl⟩ := Except.exists_eq_ok hr
  refine ⟨compiled, w₁, w₂, hcompile, hset, fun r hlooks ↦ ?_, hnobody, hbefore, hafter⟩
  have hexprs : Template.expressions "{{a}}" = ["a"] := by decide +kernel
  rw [Store.looksUp_iff, hexprs] at hlooks
  exact hpeek r hlooks

end DataBinding

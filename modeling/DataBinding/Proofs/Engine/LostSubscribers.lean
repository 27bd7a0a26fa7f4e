import DataBinding.Proofs.Engine.RuleKeepingCode
import DataBinding.Proofs.Engine.Trace

/-!
# Subscribers that are gone

A scope is a list of watchers, each of which is held as often as it is in the list; clearing it
gives all these handles back (`Action.clearing`).  When no other handle is left on a watcher, and no
running fan-out holds it, the watcher is *gone* (`World.Gone`).  Then nobody but who has a handle
already can take a new one, and nobody has.

`Silent` says of a trace that a subscriber is not called in it once it is gone, and `Run.Hushes`
says of a computation that its trace is silent and that who is gone stays gone.  Sequences of
computations inherit this (`Run.Hushes.bind`).
-/

set_option autoImplicit false

namespace DataBinding

variable {σ : Type}

namespace Action

/-- Code that clears a scope and goes on. -/
def clearing (scope : List SubscriberId) (next : Action σ) : Action σ := scope.foldr .release next

/-- Whom the code gives back before it does anything else. -/
def yields : Action σ → List SubscriberId
  | .release id next => id :: next.yields
  | _ => []

theorem yields_clearing (scope : List SubscriberId) (next : Action σ) :
    (clearing scope next).yields = scope ++ next.yields := by
  induction scope with
  | nil => rfl
  | cons id scope ih => exact congrArg (id :: ·) ih

/-- Whom the code uses a handle on, other than to give it back; who does that has one. -/
def seizes : Action σ → List SubscriberId
  | .retain id _ | .track id _ => [id]
  | .notify ids _ => ids
  | _ => []

end Action

/-! ## Subscribers that are gone -/

/-- Neither a fan-out nor anybody else holds the subscriber. -/
structure World.Gone (id : SubscriberId) (held : List SubscriberId) (w : World σ) : Prop where
  not_held : id ∉ held
  lt_size : id < w.scene.store.handles.size
  dead : w.scene.store.isLive id = false

/-- Code that is about to act gives everything back first that anybody holds of the subscriber. -/
structure Scene.Loses (id : SubscriberId) (held : List SubscriberId) (a : Action σ) (s : Scene σ) :
    Prop where
  not_held : id ∉ held
  lt_size : id < s.store.handles.size
  holders_le : s.store.holders id ≤ a.yields.count id

namespace World.Gone

variable {id : SubscriberId} {held : List SubscriberId} {w w' : World σ}

theorem of_handles (h : w.Gone id held)
    (hhandles : w'.scene.store.handles = w.scene.store.handles) :
    w'.Gone id held :=
  ⟨h.not_held, hhandles ▸ h.lt_size, (Store.isLive_congr hhandles id).trans h.dead⟩

theorem spared {α : Type} {f : Store → α × Store} (h : w.Gone id held)
    (hf : Store.Spares (· = id) f) :
    (w.withStore (f w.scene.store).2).Gone id held :=
  ⟨h.not_held, lt_of_lt_of_eq h.lt_size (hf.size_eq _).symm, hf.dead _ id rfl h.dead⟩

theorem mono (h : w.Gone id held) {held' : List SubscriberId} (hsub : held' ⊆ held) :
    w.Gone id held' :=
  ⟨fun hid ↦ h.not_held (hsub hid), h.lt_size, h.dead⟩

theorem append (h : w.Gone id held) {ids : List SubscriberId} (hids : id ∉ ids) :
    w.Gone id (ids ++ held) :=
  ⟨fun hid ↦ (List.mem_append.1 hid).elim hids h.not_held, h.lt_size, h.dead⟩

theorem loses (h : w.Gone id held) (a : Action σ) : w.scene.Loses id held a := by
  refine ⟨h.not_held, h.lt_size, ?_⟩
  have hdead := h.dead
  rw [Bool.eq_false_iff, Ne, Store.isLive_iff_holders, Nat.not_lt, Nat.le_zero] at hdead
  rw [hdead]
  exact Nat.zero_le _

end World.Gone

theorem Scene.Loses.gone {id : SubscriberId} {held : List SubscriberId} {a : Action σ} {w : World σ}
    (h : w.scene.Loses id held a) (ha : a.yields = []) : w.Gone id held := by
  refine ⟨h.not_held, h.lt_size, ?_⟩
  rw [Bool.eq_false_iff, Ne, Store.isLive_iff_holders, Nat.not_lt]
  simpa [ha] using h.holders_le

/-- Code goes on giving back what it began to. -/
theorem Scene.Loses.release {id id' : SubscriberId} {held : List SubscriberId} {next : Action σ}
    {w : World σ} (h : w.scene.Loses id held (.release id' next)) :
    (w.withStore (w.scene.store.release id')).scene.Loses id held next where
  not_held := h.not_held
  lt_size := lt_of_lt_of_eq h.lt_size (Store.size_handles_release ..).symm
  holders_le := by
    have hle := h.holders_le
    rw [Action.yields, List.count_cons] at hle
    simp only [beq_iff_eq] at hle
    rw [World.store_withStore, Store.holders_release]
    omega

/-! ## Silent traces -/

/-- If the subscriber is gone at first, or from a step on, it is not called any more until code uses
a handle on it. -/
def Silent (id : SubscriberId) : Prop → List (Moment σ) → Prop
  | _, [] => True
  | gone, .called id' :: rest => (gone → id' ≠ id) ∧ Silent id gone rest
  | gone, .step held a s :: rest => Silent id ((gone ∨ s.Loses id held a) ∧ id ∉ a.seizes) rest

/-- Whether the subscriber is gone in the end. -/
def GoneAfter (id : SubscriberId) : Prop → List (Moment σ) → Prop
  | gone, [] => gone
  | gone, .called _ :: rest => GoneAfter id gone rest
  | gone, .step held a s :: rest => GoneAfter id ((gone ∨ s.Loses id held a) ∧ id ∉ a.seizes) rest

theorem silent_append {id : SubscriberId} {gone : Prop} {trace more : List (Moment σ)} :
    Silent id gone (trace ++ more) ↔
      Silent id gone trace ∧ Silent id (GoneAfter id gone trace) more := by
  induction trace generalizing gone with
  | nil => simp [Silent, GoneAfter]
  | cons moment trace ih =>
    cases moment with
    | step held a s => exact ih
    | called id' => simp only [List.cons_append, Silent, GoneAfter, ih, and_assoc]

theorem goneAfter_append {id : SubscriberId} {gone : Prop} {trace more : List (Moment σ)} :
    GoneAfter id gone (trace ++ more) = GoneAfter id (GoneAfter id gone trace) more := by
  induction trace generalizing gone with
  | nil => rfl
  | cons moment trace ih => cases moment <;> exact ih

/-- In a silent trace a subscriber that is gone stays silent, as long as no code uses a handle on
it. -/
theorem Silent.not_called {id : SubscriberId} {gone : Prop} {trace : List (Moment σ)}
    (h : Silent id gone trace) (hgone : gone)
    (hleft : ∀ held a s, .step held a s ∈ trace → id ∉ a.seizes) : .called id ∉ trace := by
  induction trace generalizing gone with
  | nil => exact List.not_mem_nil
  | cons moment trace ih =>
    have hrest : ∀ held a s, .step held a s ∈ trace → id ∉ a.seizes :=
      fun held a s hs ↦ hleft held a s (List.mem_cons_of_mem _ hs)
    cases moment with
    | step held a s =>
      rw [List.mem_cons]
      rintro (heq | hmem)
      · cases heq
      · exact ih h ⟨.inl hgone, hleft held a s List.mem_cons_self⟩ hrest hmem
    | called id' =>
      rw [List.mem_cons]
      rintro (heq | hmem)
      · cases heq
        exact h.1 hgone rfl
      · exact ih h.2 hgone hrest hmem

/-! ## Computations with a silent trace -/

/-- If the subscriber is gone before a computation in the sense of `P`, its trace is silent, and if
the subscriber is gone after it, then in the sense of `Q`. -/
structure Run.Hushes {α : Type} (id : SubscriberId) (P : World σ → Prop) (m : Run σ α)
    (t : World σ → List (Moment σ)) (Q : World σ → Prop) : Prop where
  hushed : ∀ (gone : Prop) (w : World σ), (gone → P w) → Silent id gone (t w) ∧
    ∀ a w', m w = some (a, w') → GoneAfter id gone (t w) → Q w'

namespace Run.Hushes

open Trace

variable {α β : Type} {id : SubscriberId} {P P' Q R : World σ → Prop} {m : Run σ α}
  {t : World σ → List (Moment σ)}

/-- A computation in which no code is run. -/
theorem quiet (h : ∀ w a w', m w = some (a, w') → P w → Q w') : Hushes id P m nothing Q :=
  ⟨fun _ w hw ↦ ⟨trivial, fun a w' hrun hgone ↦ h w a w' hrun (hw hgone)⟩⟩

protected theorem pure (a : α) : Hushes id P (pure a : Run σ α) nothing P :=
  quiet fun _ _ _ hrun hw ↦ by
    cases hrun
    exact hw

theorem bind {f : α → Run σ β} {u : α → World σ → List (Moment σ)} (hm : Hushes id P m t Q)
    (hf : ∀ a, Hushes id Q (f a) (u a) R) :
    Hushes id P (m >>= f) (fun w ↦ t w ++ following m u w) R := by
  refine ⟨fun gone w hw ↦ ?_⟩
  obtain ⟨hsilent, hgone⟩ := hm.hushed gone w hw
  rw [silent_append]
  cases hrun : m w with
  | none =>
    rw [following, hrun]
    refine ⟨⟨hsilent, trivial⟩, fun b w' hrun' ↦ ?_⟩
    obtain ⟨a, w₁, hrun₁, -⟩ := Run.bind_eq_some_iff.1 hrun'
    cases hrun.symm.trans hrun₁
  | some x =>
    obtain ⟨hsilent', hgone'⟩ := (hf x.1).hushed _ x.2 (hgone x.1 x.2 hrun)
    rw [following, hrun]
    refine ⟨⟨hsilent, hsilent'⟩, fun b w' hrun' ↦ ?_⟩
    obtain ⟨a, w₁, hrun₁, hrun₂⟩ := Run.bind_eq_some_iff.1 hrun'
    cases hrun.symm.trans hrun₁
    rw [goneAfter_append]
    exact hgone' b w' hrun₂

/-- No code is run at first. -/
theorem quiet_bind {f : α → Run σ β} {u : α → World σ → List (Moment σ)}
    (hm : ∀ w a w', m w = some (a, w') → P w → Q w') (hf : ∀ a, Hushes id Q (f a) (u a) R) :
    Hushes id P (m >>= f) (following m u) R :=
  (quiet hm).bind hf

/-- No code is run afterwards. -/
theorem bind_quiet {f : α → Run σ β} (hm : Hushes id P m t Q)
    (hf : ∀ a w b w', f a w = some (b, w') → Q w → R w') : Hushes id P (m >>= f) t R := by
  refine ⟨fun gone w hw ↦ ?_⟩
  obtain ⟨hsilent, hgone⟩ := hm.hushed gone w hw
  refine ⟨hsilent, fun b w' hrun hlater ↦ ?_⟩
  obtain ⟨a, w₁, hrun₁, hrun₂⟩ := Run.bind_eq_some_iff.1 hrun
  exact hf a w₁ b w' hrun₂ (hgone a w₁ hrun₁ hlater)

theorem imp (h : Hushes id P m t Q) (hP : ∀ w, P' w → P w) : Hushes id P' m t Q :=
  ⟨fun gone w hw ↦ h.hushed gone w fun hgone ↦ hP w (hw hgone)⟩

/-- A step of code: whom it gives back is on the way out, and whom it uses a handle on is not
gone. -/
theorem step {a : Action σ} {held : List SubscriberId} {m : Run σ (Except BindError Unit)}
    (h : Hushes id (fun w ↦ w.scene.Loses id held a ∧ id ∉ a.seizes) m t Q) :
    Hushes id (fun w ↦ w.scene.Loses id held a) m (fun w ↦ .step held a w.scene :: t w) Q :=
  ⟨fun _ w hw ↦ h.hushed _ w fun hgone ↦ ⟨hgone.1.elim hw fun hloses ↦ hloses, hgone.2⟩⟩

theorem kept {held : List SubscriberId} {c : Prop} (h : Hushes id (World.Gone id held) m t Q) :
    Hushes id (fun w ↦ c ∧ w.Gone id held) m t Q :=
  h.imp fun _ hw ↦ hw.2

/-- A step of code that gives nobody back, and what code does after it. -/
theorem acting {a : Action σ} {held : List SubscriberId} {g : α → Action σ}
    {f : α → Run σ (Except BindError Unit)} {u : α → World σ → List (Moment σ)} (ha : a.yields = [])
    (hm : Hushes id (fun w ↦ id ∉ a.seizes ∧ w.Gone id held) m t (World.Gone id held))
    (hf : ∀ x, Hushes id (fun w ↦ w.scene.Loses id held (g x)) (f x) (u x) Q) :
    Hushes id (fun w ↦ w.scene.Loses id held a) (m >>= f)
      (fun w ↦ .step held a w.scene :: (t w ++ following m u w)) Q :=
  .step ((hm.imp fun _ hw ↦ ⟨hw.2, hw.1.gone ha⟩).bind fun x ↦ (hf x).imp fun _ hw ↦ hw.loses (g x))

/-- A step of code that runs no other code. -/
theorem acting_quietly {a : Action σ} {held : List SubscriberId} {g : α → Action σ}
    {f : α → Run σ (Except BindError Unit)} {u : α → World σ → List (Moment σ)} (ha : a.yields = [])
    (hm : id ∉ a.seizes → ∀ w x w', m w = some (x, w') → w.Gone id held → w'.Gone id held)
    (hf : ∀ x, Hushes id (fun w ↦ w.scene.Loses id held (g x)) (f x) (u x) Q) :
    Hushes id (fun w ↦ w.scene.Loses id held a) (m >>= f)
      (fun w ↦ .step held a w.scene :: following m u w) Q :=
  acting ha (.quiet fun w x w' hrun hw ↦ hm hw.1 w x w' hrun hw.2) hf

end Run.Hushes

end DataBinding

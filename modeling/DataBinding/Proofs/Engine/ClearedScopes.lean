import DataBinding.Proofs.Engine.LostStaySilent

/-!
# Cleared scopes

**A cleared scope is silent** (`silent_once_cleared`): a watcher on which all handles were in the
scope, and which no running fan-out holds, is not called in the rest of the run.  More generally,
that is so for whoever is given back by everybody (`silent_once_lost`).

A fan-out that is running when the scope is cleared still calls those who wait for their turn
(`cleared_while_waiting`).
-/

set_option autoImplicit false

namespace DataBinding

variable {σ : Type}

/-- **Who is lost stays silent.**  Somewhere in a run, code gives back all handles on a watcher that
anybody has, and no running fan-out holds the watcher.  As long as nobody uses a handle on the
watcher all the same, it is not called in the rest of the run. -/
theorem silent_once_lost {depth : Nat} {a : Action σ} {w : World σ} {before after : List (Moment σ)}
    {held : List SubscriberId} {b : Action σ} {s : Scene σ}
    (htrace : trace depth [] a w = before ++ .step held b s :: after) {id : SubscriberId}
    (hloses : s.Loses id held b)
    (hleft : ∀ held' b' s', .step held' b' s' ∈ .step held b s :: after → id ∉ b'.seizes) :
    .called id ∉ after := by
  have hsilent := ((hushes_run id depth [] a).hushed False w False.elim).1
  rw [htrace, silent_append] at hsilent
  have hrest : Silent id _ after := hsilent.2
  exact hrest.not_called ⟨.inr hloses, hleft held b s List.mem_cons_self⟩
    fun held' b' s' hmem ↦ hleft held' b' s' (List.mem_cons_of_mem _ hmem)

/-- **A cleared scope is silent.**  Somewhere in a run, code clears a scope.  A watcher on which all
handles are in the scope, and which no running fan-out holds, is not called in the rest of the run,
as long as nobody uses a handle on it all the same. -/
theorem silent_once_cleared {depth : Nat} {a : Action σ} {w : World σ}
    {before after : List (Moment σ)} {held scope : List SubscriberId} {next : Action σ}
    {s : Scene σ}
    (htrace : trace depth [] a w = before ++ .step held (.clearing scope next) s :: after)
    {id : SubscriberId} (hid : id ∈ scope) (hmade : id < s.store.handles.size)
    (hscope : s.store.holders id ≤ scope.count id) (hheld : id ∉ held)
    (hleft : ∀ held' b s', .step held' b s' ∈ after → id ∉ b.seizes) : .called id ∉ after := by
  have hloses : s.Loses id held (.clearing scope next) := by
    refine ⟨hheld, hmade, ?_⟩
    rw [Action.yields_clearing, List.count_append]
    exact Nat.le_add_right_of_le hscope
  refine silent_once_lost htrace hloses fun held' b s' hmem ↦ ?_
  rcases List.mem_cons.1 hmem with heq | hmem
  · cases heq
    cases scope with
    | nil => cases hid
    | cons id' scope => exact List.not_mem_nil
  · exact hleft held' b s' hmem

/-! ## A scope that is cleared while a fan-out runs -/

/-- What is told about the first clearing of the scope that consists of one watcher: whom the
fan-outs hold then, the scene, and the rest of the trace. -/
def clearingIs (id : SubscriberId) (P : List SubscriberId → Scene σ → List (Moment σ) → Bool) :
    List (Moment σ) → Bool
  | [] => false
  | .step held (.release id' _) s :: rest =>
    if id' = id then P held s rest else clearingIs id P rest
  | _ :: rest => clearingIs id P rest

theorem exists_clearing {id : SubscriberId}
    {P : List SubscriberId → Scene σ → List (Moment σ) → Bool} {trace : List (Moment σ)}
    (h : clearingIs id P trace = true) : ∃ before held next s after,
      trace = before ++ .step held (.clearing [id] next) s :: after ∧ P held s after = true := by
  induction trace using clearingIs.induct id with
  | case1 => cases h
  | case2 held next s rest =>
    rw [clearingIs, if_pos rfl] at h
    exact ⟨[], held, next, s, rest, rfl, h⟩
  | case3 held id' next s rest hne ih =>
    rw [clearingIs, if_neg hne] at h
    obtain ⟨before, held', next', s', after, rfl, hP⟩ := ih h
    exact ⟨_ :: before, held', next', s', after, rfl, hP⟩
  | case4 moment rest hnot ih =>
    rw [clearingIs] at h
    · obtain ⟨before, held', next', s', after, rfl, hP⟩ := ih h
      exact ⟨moment :: before, held', next', s', after, rfl, hP⟩
    · exact hnot

/-- Whether a subscriber is called. -/
def isCalled (id : SubscriberId) (trace : List (Moment σ)) : Bool :=
  trace.any fun
    | .called id' => id' == id
    | .step .. => false

theorem called_mem_of_isCalled {id : SubscriberId} {trace : List (Moment σ)}
    (h : isCalled id trace = true) : .called id ∈ trace := by
  obtain ⟨moment, hmem, hid⟩ := List.any_eq_true.1 h
  cases moment with
  | step held a s => cases hid
  | called id' => exact beq_iff_eq.1 hid ▸ hmem

/-- Whether no code uses a handle on a subscriber. -/
def isLeft (id : SubscriberId) (trace : List (Moment σ)) : Bool :=
  trace.all fun
    | .called _ => true
    | .step _ a _ => decide (id ∉ a.seizes)

theorem not_mem_seizes_of_isLeft {id : SubscriberId} {trace : List (Moment σ)}
    (h : isLeft id trace = true) {held : List SubscriberId} {a : Action σ} {s : Scene σ}
    (hmem : .step held a s ∈ trace) : id ∉ a.seizes :=
  of_decide_eq_true (List.all_eq_true.1 h _ hmem)

/-- Two watchers of one property, each the only one of its scope.  The first one clears one scope
when it is called, the second one another; then the property is written twice. -/
def clearingTwice (first second : SubscriberId) : Action Unit :=
  Program.action do
    let v ← Program.observe (.object [("x", .int 1)])
    let clears (id : SubscriberId) := fun (_ : Value) ↦ do
      Program.release id
      return .ok ()
    let _ ← Program.watch "x" v (clears first)
    let _ ← Program.watch "x" v (clears second)
    let _ ← Program.set 0 "x" (.string "2")
    let _ ← Program.set 0 "x" (.string "3")
    return .ok ()

/-- The second watcher clears the scope of the first one, whose turn is over, and is called itself
when the property is written again. -/
theorem cleared_after_its_turn : ∃ before held next s after,
    trace 4 [] (clearingTwice 7 0) (.start .empty ()) =
      before ++ .step held (.clearing [0] next) s :: after ∧
    held = [1] ∧ .called 1 ∈ after ∧ .called 0 ∉ after := by
  have hclearing : clearingIs 0 (fun held s after ↦ decide (held = [1] ∧ 0 < s.store.handles.size ∧
      s.store.holders 0 ≤ [0].count 0 ∧ isLeft 0 after = true ∧ isCalled 1 after = true))
      (trace 4 [] (clearingTwice 7 0) (.start .empty ())) = true := by decide +kernel
  obtain ⟨before, held, next, s, after, htrace, hP⟩ := exists_clearing hclearing
  obtain ⟨rfl, hmade, hscope, hleft, hcalled⟩ := of_decide_eq_true hP
  exact ⟨before, [1], next, s, after, htrace, rfl, called_mem_of_isCalled hcalled,
    silent_once_cleared htrace (List.mem_singleton_self 0) hmade hscope (by decide)
      fun _ _ _ hmem ↦ not_mem_seizes_of_isLeft hleft hmem⟩

/-- **Who waits for a turn is called all the same**: the first watcher clears the scope that has the
only handle on the second one, but for the fan-out, and then the second one is called. -/
theorem cleared_while_waiting : ∃ before held next s after,
    trace 4 [] (clearingTwice 1 7) (.start .empty ()) =
      before ++ .step held (.clearing [1] next) s :: after ∧
    1 < s.store.handles.size ∧ s.store.holders 1 = [1].count 1 + held.count 1 ∧
    (∀ held' b s', .step held' b s' ∈ after → 1 ∉ b.seizes) ∧ .called 1 ∈ after := by
  have hclearing : clearingIs 1 (fun held s after ↦ decide (1 < s.store.handles.size ∧
      s.store.holders 1 = [1].count 1 + held.count 1 ∧ isLeft 1 after = true ∧
      isCalled 1 after = true)) (trace 4 [] (clearingTwice 1 7) (.start .empty ())) = true := by
    decide +kernel
  obtain ⟨before, held, next, s, after, htrace, hP⟩ := exists_clearing hclearing
  obtain ⟨hmade, hscope, hleft, hcalled⟩ := of_decide_eq_true hP
  exact ⟨before, held, next, s, after, htrace, hmade, hscope,
    fun _ _ _ hmem ↦ not_mem_seizes_of_isLeft hleft hmem, called_mem_of_isCalled hcalled⟩

end DataBinding

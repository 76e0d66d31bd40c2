/-
  Foundation/Steps.lean --- runs of a transition system.

  A step takes a state and an action to the next state, or is not possible there.
  A run is described by its trace: the actions in order, each with the state it was
  taken in.  What every step preserves where some condition holds, a run whose trace
  meets the condition preserves (`Steps.invariant`).

  `traceOf` computes the trace of a list of actions, so that a run can be given by its
  actions alone.
-/
import FlowLogix.Foundation.Run

set_option autoImplicit false

namespace FlowLogix.Foundation

variable {σ α : Type} {step : σ → α → Option σ} {start : σ}

/-- The steps from `start` to a state, each action with the state it was taken in. -/
inductive Steps (step : σ → α → Option σ) (start : σ) : List (σ × α) → σ → Prop where
  | none : Steps step start [] start
  | next {trace : List (σ × α)} {s s' : σ} {a : α} (run : Steps step start trace s)
      (h : step s a = some s') : Steps step start (trace ++ [(s, a)]) s'

/-- A list is split at its last element or before it. -/
theorem concat_eq_split {β : Type} {l before after : List β} {a b : β}
    (h : l ++ [a] = before ++ b :: after) :
    (l = before ∧ a = b) ∨ ∃ rest, l = before ++ b :: rest := by
  rcases after.eq_nil_or_concat with rfl | ⟨rest, last, rfl⟩
  · obtain ⟨hinit, hlast⟩ := List.append_inj' h rfl
    exact Or.inl ⟨hinit, List.singleton_inj.mp hlast⟩
  · rw [List.concat_eq_append, ← List.cons_append, ← List.append_assoc] at h
    exact Or.inr ⟨rest, (List.append_inj' h rfl).1⟩

namespace Steps

variable {trace : List (σ × α)} {s : σ}

/-- Without a step the state is the one a run starts in. -/
theorem eq_start (run : Steps step start [] s) : s = start := by
  generalize htrace : ([] : List (σ × α)) = trace at run
  cases run with
  | none => rfl
  | next run h => simp at htrace

/-- What each step preserves where `ok` holds, every state of a run that meets `ok`
has. -/
theorem everywhere {P : σ → Prop} {ok : σ → α → Prop} (run : Steps step start trace s)
    (hok : ∀ e ∈ trace, ok e.1 e.2) (hstart : P start)
    (hstep : ∀ s a s', ok s a → P s → step s a = some s' → P s') :
    (∀ e ∈ trace, P e.1) ∧ P s := by
  induction run with
  | none => exact ⟨nofun, hstart⟩
  | @next trace s s' a run h ih =>
      obtain ⟨hstates, hs⟩ := ih fun e he => hok e (List.mem_append_left _ he)
      refine ⟨List.forall_mem_append.mpr ⟨hstates, ?_⟩, hstep s a s' (hok (s, a) (by simp)) hs h⟩
      exact List.forall_mem_singleton.mpr hs

/-- What each step preserves where `ok` holds, a run that meets `ok` preserves. -/
theorem invariant_along {P : σ → Prop} {ok : σ → α → Prop} (run : Steps step start trace s)
    (hok : ∀ e ∈ trace, ok e.1 e.2) (hstart : P start)
    (hstep : ∀ s a s', ok s a → P s → step s a = some s' → P s') : P s :=
  (run.everywhere hok hstart hstep).2

/-- What each step preserves, every state of a run has. -/
theorem always {P : σ → Prop} (run : Steps step start trace s) (hstart : P start)
    (hstep : ∀ s a s', P s → step s a = some s' → P s') : (∀ e ∈ trace, P e.1) ∧ P s :=
  @everywhere σ α step start trace s P (fun _ _ => True) run (fun _ _ => trivial) hstart
    fun s a s' _ => hstep s a s'

/-- What each step preserves, a run preserves. -/
theorem invariant {P : σ → Prop} (run : Steps step start trace s) (hstart : P start)
    (hstep : ∀ s a s', P s → step s a = some s' → P s') : P s :=
  (run.always hstart hstep).2

/-- The steps before one of a run lead to the state it was taken in. -/
theorem split {pre post : List (σ × α)} {e : σ × α}
    (run : Steps step start (pre ++ e :: post) s) : Steps step start pre e.1 := by
  generalize htrace : pre ++ e :: post = trace at run
  induction run generalizing post with
  | none => simp at htrace
  | @next trace s s' a run h ih =>
      rcases concat_eq_split htrace.symm with ⟨rfl, rfl⟩ | ⟨rest, hrest⟩
      · exact run
      · exact ih hrest.symm

/-- A state a step of a run was taken in is reached by the steps before. -/
theorem reached (run : Steps step start trace s) {e : σ × α} (he : e ∈ trace) :
    ∃ before, Steps step start before e.1 := by
  obtain ⟨pre, post, rfl⟩ := List.append_of_mem he
  exact ⟨pre, run.split⟩

/-- Where each step keeps a property exactly if it meets `ok`, every state of a run has
the property exactly if the run meets `ok`. -/
theorem everywhere_iff {P : σ → Prop} {assumed ok : σ → α → Prop}
    (run : Steps step start trace s) (hassumed : ∀ e ∈ trace, assumed e.1 e.2) (hstart : P start)
    (hstep : ∀ s a s', assumed s a → P s → step s a = some s' → (P s' ↔ ok s a)) :
    ((∀ e ∈ trace, P e.1) ∧ P s) ↔ ∀ e ∈ trace, ok e.1 e.2 := by
  induction run with
  | none => simp [hstart]
  | @next trace s s' a run h ih =>
      have hbefore := ih fun e he => hassumed e (List.mem_append_left _ he)
      simp only [List.forall_mem_append, List.forall_mem_singleton, hbefore]
      refine and_congr_right fun hall => hstep s a s' (hassumed (s, a) (by simp)) ?_ h
      exact (hbefore.mpr hall).2

/-- What the steps of a run keep stays once it is reached. -/
theorem kept {U : σ → Prop} {ok : σ → α → Prop} (run : Steps step start trace s)
    (hok : ∀ e ∈ trace, ok e.1 e.2)
    (hstep : ∀ s a s', ok s a → U s → step s a = some s' → U s') {e : σ × α} (he : e ∈ trace)
    (hreached : U e.1) : U s := by
  induction run with
  | none => simp at he
  | @next trace s s' a run h ih =>
      have hlast := hok (s, a) (by simp)
      rcases List.mem_append.mp he with he | he
      · exact hstep s a s' hlast (ih (fun e he => hok e (List.mem_append_left _ he)) he) h
      · obtain rfl := List.mem_singleton.mp he
        exact hstep s a s' hlast hreached h

end Steps

/-- The trace of a list of actions. -/
def traceOf (step : σ → α → Option σ) (s : σ) : List α → List (σ × α)
  | [] => []
  | a :: rest =>
      (s, a) :: match step s a with
        | none => []
        | some s' => traceOf step s' rest

theorem mem_of_mem_traceOf {s : σ} {actions : List α} {e : σ × α} (h : e ∈ traceOf step s actions) :
    e.2 ∈ actions := by
  induction actions generalizing s with
  | nil => simp [traceOf] at h
  | cons a rest ih =>
      rw [traceOf, List.mem_cons] at h
      rcases h with rfl | h
      · exact List.mem_cons_self
      · split at h
        · simp at h
        · exact List.mem_cons_of_mem a (ih h)

/-- Actions that are all possible make a run. -/
theorem Steps.of_actions {actions : List α} {s : σ} (h : actions.foldlM step start = some s) :
    Steps step start (traceOf step start actions) s := by
  have hrest : ∀ (actions : List α) (trace : List (σ × α)) (mid : σ),
      Steps step start trace mid → actions.foldlM step mid = some s →
        Steps step start (trace ++ traceOf step mid actions) s := by
    intro actions
    induction actions with
    | nil =>
        intro trace mid hmid h
        obtain rfl : mid = s := Option.some.inj h
        simpa [traceOf] using hmid
    | cons a rest ih =>
        intro trace mid hmid h
        rw [List.foldlM_cons] at h
        obtain ⟨next, hnext, h⟩ := Option.bind_eq_some_iff.mp h
        have hstep := ih (trace ++ [(mid, a)]) next (hmid.next hnext) h
        simpa [traceOf, hnext] using hstep
  exact hrest actions [] start .none h

end FlowLogix.Foundation

/-
  Foundation/Simulation.lean --- forward simulation.

  Two transition systems take the same actions.  `Simulates R ok` says that each step of
  the first that meets `ok` is matched by a step of the second, from any two states that
  `R` relates to two states that it relates again; a whole run is then matched, with `R`
  at every point (`Simulates.run`).
-/
import FlowLogix.Foundation.Steps

set_option autoImplicit false

namespace FlowLogix.Foundation

variable {σ τ α : Type} {step : σ → α → Option σ} {step' : τ → α → Option τ}
  {R : σ → τ → Prop} {ok : α → Prop}

/-- The second system matches the steps of the first that meet `ok`. -/
def Simulates (step : σ → α → Option σ) (step' : τ → α → Option τ) (R : σ → τ → Prop)
    (ok : α → Prop) : Prop :=
  ∀ s t a s', ok a → R s t → step s a = some s' → ∃ t', step' t a = some t' ∧ R s' t'

/-- The states of two runs are related one by one, and the actions are the same. -/
def Matched (R : σ → τ → Prop) : List (σ × α) → List (τ × α) → Prop :=
  List.Forall₂ fun e e' => R e.1 e'.1 ∧ e.2 = e'.2

namespace Simulates

/-- A run that meets `ok` is matched. -/
theorem run (h : Simulates step step' R ok) {start s : σ} {start' : τ} {trace : List (σ × α)}
    (run : Steps step start trace s) (hok : ∀ e ∈ trace, ok e.2) (hstart : R start start') :
    ∃ trace' t, Steps step' start' trace' t ∧ R s t ∧ Matched R trace trace' := by
  induction run with
  | none => exact ⟨[], start', .none, hstart, .nil⟩
  | @next trace s s' a run hstep ih =>
      obtain ⟨trace', t, run', hrel, hmatched⟩ := ih fun e he => hok e (List.mem_append_left _ he)
      have hoka : ok a := hok (s, a) (List.mem_append_right _ (List.mem_singleton.mpr rfl))
      obtain ⟨t', hstep', hrel'⟩ := h s t a s' hoka hrel hstep
      exact ⟨trace' ++ [(t, a)], t', run'.next hstep', hrel',
        List.rel_append hmatched (.cons ⟨hrel, rfl⟩ .nil)⟩

end Simulates

end FlowLogix.Foundation

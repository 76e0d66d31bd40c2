/-
  Foundation/Run.lean --- invariants of computations that may fail.

  A loop over a list in `Except` either fails or threads a state through every
  element.  `foldlM_reached` is its induction rule, for a property of the elements
  that are done and the state they left; `foldlM_invariant` is the case of a
  property of the state: what one step preserves, a whole successful loop
  preserves.
-/
import Mathlib

set_option autoImplicit false

namespace FlowLogix.Foundation

variable {ε α β : Type}

/-- A sequence succeeds when both of its parts do. -/
theorem bind_eq_ok {x : Except ε α} {f : α → Except ε β} {r : β} :
    (x >>= f) = .ok r ↔ ∃ a, x = .ok a ∧ f a = .ok r := by
  cases x with
  | error e =>
      constructor
      · intro h
        cases h
      · rintro ⟨a, h, -⟩
        cases h
  | ok a =>
      constructor
      · exact fun h => ⟨a, rfl, h⟩
      · rintro ⟨b, h, hf⟩
        cases h
        exact hf

/-- Two sequences that start alike go on from the same value. -/
theorem bind_eq_ok_both {γ : Type} {x : Except ε α} {f : α → Except ε β} {g : α → Except ε γ}
    {r : β} {t : γ} (hf : (x >>= f) = .ok r) (hg : (x >>= g) = .ok t) :
    ∃ a, x = .ok a ∧ f a = .ok r ∧ g a = .ok t := by
  obtain ⟨a, hx, hfa⟩ := bind_eq_ok.mp hf
  obtain ⟨b, hx', hgb⟩ := bind_eq_ok.mp hg
  obtain rfl := Except.ok.inj (hx.symm.trans hx')
  exact ⟨a, hx, hfa, hgb⟩

/-- What every step of a loop carries from the elements before it to the next one
holds of all of them after a successful loop. -/
theorem foldlM_reached {step : β → α → Except ε β} (P : List α → β → Prop) {l : List α} {b b' : β}
    (hstep : ∀ pre a post mid mid', l = pre ++ a :: post → P pre mid → step mid a = .ok mid' →
      P (pre ++ [a]) mid')
    (hb : P [] b) (h : l.foldlM step b = .ok b') : P l b' := by
  -- the induction is on what is left of the list
  have hrest : ∀ post pre mid, l = pre ++ post → P pre mid → post.foldlM step mid = .ok b' →
      P l b' := by
    intro post
    induction post with
    | nil =>
        intro pre mid hl hmid hfold
        obtain rfl := Except.ok.inj hfold
        rwa [hl, List.append_nil]
    | cons a post ih =>
        intro pre mid hl hmid hfold
        rw [List.foldlM_cons] at hfold
        obtain ⟨next, hnext, hfold⟩ := bind_eq_ok.mp hfold
        apply ih (pre ++ [a]) next
        · rw [hl, List.append_assoc, List.singleton_append]
        · exact hstep pre a post mid next hl hmid hnext
        · exact hfold
  exact hrest l [] b rfl hb h

/-- A loop goes through when each step does from a state the steps before it can
leave. -/
theorem exists_foldlM {step : β → α → Except ε β} (P : List α → β → Prop) {l : List α} {b : β}
    (hstep : ∀ pre a post mid, l = pre ++ a :: post → P pre mid →
      ∃ mid', step mid a = .ok mid' ∧ P (pre ++ [a]) mid')
    (hb : P [] b) : ∃ b', l.foldlM step b = .ok b' := by
  have hrest : ∀ post pre mid, l = pre ++ post → P pre mid →
      ∃ b', post.foldlM step mid = .ok b' := by
    intro post
    induction post with
    | nil => exact fun pre mid _ _ => ⟨mid, rfl⟩
    | cons a post ih =>
        intro pre mid hl hmid
        obtain ⟨next, hnext, hP⟩ := hstep pre a post mid hl hmid
        obtain ⟨b', hb'⟩ := ih (pre ++ [a]) next
          (by rw [hl, List.append_assoc, List.singleton_append]) hP
        refine ⟨b', ?_⟩
        rw [List.foldlM_cons]
        exact bind_eq_ok.mpr ⟨next, hnext, hb'⟩
  exact hrest l [] b rfl hb

/-- What every step of a loop preserves in the states it reaches, a successful loop
preserves. -/
theorem foldlM_invariant_reached {step : β → α → Except ε β} (P : β → Prop) {l : List α} {b b' : β}
    (hstep : ∀ pre a post mid mid', l = pre ++ a :: post → pre.foldlM step b = .ok mid → P mid →
      step mid a = .ok mid' → P mid')
    (hb : P b) (h : l.foldlM step b = .ok b') : P b' := by
  refine (foldlM_reached (fun pre mid => pre.foldlM step b = .ok mid ∧ P mid) ?_ ⟨rfl, hb⟩ h).2
  rintro pre a post mid mid' hl ⟨hpre, hmid⟩ hnext
  refine ⟨?_, hstep pre a post mid mid' hl hpre hmid hnext⟩
  rw [List.foldlM_append]
  exact bind_eq_ok.mpr ⟨mid, hpre, by rw [List.foldlM_cons, hnext]; rfl⟩

/-- What every step of a loop preserves, a successful loop preserves. -/
theorem foldlM_invariant {step : β → α → Except ε β} (P : β → Prop) {l : List α}
    (hstep : ∀ b a b', a ∈ l → P b → step b a = .ok b' → P b') {b b' : β} (hb : P b)
    (h : l.foldlM step b = .ok b') : P b' := by
  refine foldlM_invariant_reached P (fun pre a post mid mid' hl _ => ?_) hb h
  apply hstep
  rw [hl]
  exact List.mem_append_right pre List.mem_cons_self

/-- What one step of a loop establishes and every step preserves holds after a
successful loop. -/
theorem foldlM_established {step : β → α → Except ε β} (I U : β → Prop) {l : List α} {a₀ : α}
    (ha₀ : a₀ ∈ l) (hI : ∀ b a b', a ∈ l → I b → step b a = .ok b' → I b')
    (hstart : ∀ b b', I b → step b a₀ = .ok b' → U b')
    (hU : ∀ b a b', a ∈ l → I b → U b → step b a = .ok b' → U b') {b b' : β} (hb : I b)
    (h : l.foldlM step b = .ok b') : I b' ∧ U b' := by
  induction l generalizing b with
  | nil => cases ha₀
  | cons a rest ih =>
      rw [List.foldlM_cons] at h
      obtain ⟨mid, hmid, hrest⟩ := bind_eq_ok.mp h
      have hImid := hI b a mid List.mem_cons_self hb hmid
      have hIrest := fun b a b' (ha : a ∈ rest) => hI b a b' (List.mem_cons_of_mem _ ha)
      have hUrest := fun b a b' (ha : a ∈ rest) => hU b a b' (List.mem_cons_of_mem _ ha)
      rcases List.mem_cons.mp ha₀ with rfl | hmem
      · refine foldlM_invariant (fun b => I b ∧ U b) ?_ ⟨hImid, hstart b mid hb hmid⟩ hrest
        rintro b a b' ha ⟨hIb, hUb⟩ hs
        exact ⟨hIrest b a b' ha hIb hs, hUrest b a b' ha hIb hUb hs⟩
      · exact ih hmem hIrest hUrest hImid hrest

/-- A loop of checks, each of which returns what it was given, returns the list when all
of them pass. -/
theorem mapM_check_eq_ok {check : α → Except ε α} {P : α → Prop}
    (hcheck : ∀ a b, check a = .ok b ↔ b = a ∧ P a) {l l' : List α} :
    l.mapM check = .ok l' ↔ l' = l ∧ ∀ a ∈ l, P a := by
  induction l generalizing l' with
  | nil => simp [pure, Except.pure, eq_comm]
  | cons a rest ih =>
      rw [List.mapM_cons]
      constructor
      · intro h
        obtain ⟨b, hb, htail⟩ := bind_eq_ok.mp h
        obtain ⟨bs, hbs, hcons⟩ := bind_eq_ok.mp htail
        obtain ⟨rfl, ha⟩ := (hcheck a b).mp hb
        obtain ⟨rfl, hrest⟩ := ih.mp hbs
        exact ⟨(Except.ok.inj hcons).symm, List.forall_mem_cons.mpr ⟨ha, hrest⟩⟩
      · rintro ⟨rfl, h⟩
        obtain ⟨ha, hrest⟩ := List.forall_mem_cons.mp h
        refine bind_eq_ok.mpr ⟨a, (hcheck a a).mpr ⟨rfl, ha⟩, ?_⟩
        exact bind_eq_ok.mpr ⟨rest, ih.mpr ⟨rfl, hrest⟩, rfl⟩

theorem toOption_eq_some {x : Except ε α} {a : α} : x.toOption = some a ↔ x = .ok a := by
  cases x with
  | error e => simp [Except.toOption]
  | ok b => simp [Except.toOption]

/-- Renaming the errors of a computation leaves its result. -/
theorem mapError_eq_ok {δ : Type} {x : Except ε α} {f : ε → δ} {a : α} :
    x.mapError f = .ok a ↔ x = .ok a := by
  cases x with
  | error e => simp [Except.mapError]
  | ok b => simp [Except.mapError]

/-- A value read out of a successful computation. -/
def okOr (x : Except ε α) (default : α) : α := x.toOption.getD default

theorem eq_ok_okOr {x : Except ε α} {default : α} (h : x.isOk = true) :
    x = .ok (okOr x default) := by
  cases x with
  | error e => cases h
  | ok a => rfl

end FlowLogix.Foundation

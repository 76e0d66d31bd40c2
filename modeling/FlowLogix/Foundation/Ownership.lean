/-
  Foundation/Ownership.lean --- records that refer to each other, and who owns them.

  A `Schema` says which records there can be and what the content of each refers to; no
  record refers to itself, not even through others.  A state holds some of them.  An
  `Ownership` gives each record an owner, from its content and the owners of what it
  refers to.

  A state is coherent when every reference is to a record of the same owner, which is
  therefore there.  Deleting records together with all that refer to them, and writing a
  record that refers to its owner's, keep a state coherent (`Drops.coherent`,
  `Writes.coherent`) and leave the records of other owners as they are
  (`Drops.untouched`, `Writes.untouched`).
-/
import Mathlib

set_option autoImplicit false

namespace FlowLogix.Foundation

/-- Which records there can be, and what each refers to. -/
structure Schema (R : Type) where
  Content : R → Type
  refers : (r : R) → Content r → R → Prop
  rank : R → ℕ
  rank_lt : ∀ r x s, refers r x s → rank s < rank r

namespace Schema

variable {R O : Type}

/-- The records there are. -/
def State (S : Schema R) : Type := (r : R) → Option (S.Content r)

/-- An owner for each record. -/
structure Ownership (S : Schema R) (O : Type) where
  owner : S.State → R → Option O
  exists_content : ∀ b r o, owner b r = some o → ∃ x, b r = some x
  /-- the owner comes from the content and from the owners of what it refers to -/
  owner_congr : ∀ b b' r, b' r = b r →
    (∀ x s, b r = some x → S.refers r x s → owner b' s = owner b s) → owner b' r = owner b r

variable {S : Schema R} {own : S.Ownership O} {b b' b'' : S.State} {o o' : O} {r s : R}

/-- Every record has an owner, and refers to records of its owner only. -/
structure Coherent (own : S.Ownership O) (b : S.State) : Prop where
  owned : ∀ r x, b r = some x → ∃ o, own.owner b r = some o
  refs : ∀ r x s, b r = some x → S.refers r x s → own.owner b s = own.owner b r

/-- What a record refers to is there. -/
theorem Coherent.exists_ref (h : Coherent own b) {x : S.Content r} (hr : b r = some x)
    (hs : S.refers r x s) : ∃ y, b s = some y := by
  obtain ⟨o, ho⟩ := h.owned r x hr
  exact own.exists_content b s o ((h.refs r x s hr hs).trans ho)

/-- The records of an owner are as they were, and still the owner's. -/
def Untouched (own : S.Ownership O) (o : O) (b b' : S.State) : Prop :=
  ∀ r, own.owner b r = some o → b' r = b r ∧ own.owner b' r = some o

theorem Untouched.refl (o : O) (b : S.State) : Untouched own o b b := fun _ h => ⟨rfl, h⟩

theorem Untouched.trans (h : Untouched own o b b') (h' : Untouched own o b' b'') :
    Untouched own o b b'' := by
  intro r hr
  obtain ⟨hsame, howner⟩ := h r hr
  obtain ⟨hsame', howner'⟩ := h' r howner
  exact ⟨hsame'.trans hsame, howner'⟩

/-- Owners do not change on a set of records that is closed under references and on which
each record is as it was, or has its owner for another reason. -/
theorem owner_eq_of_closed {kept : R → Prop}
    (hsame : ∀ r, kept r → b' r = b r ∨ own.owner b' r = own.owner b r)
    (hclosed : ∀ r x s, kept r → b r = some x → S.refers r x s → kept s) {r : R} (hr : kept r) :
    own.owner b' r = own.owner b r := by
  -- references go down in rank
  induction hn : S.rank r using Nat.strong_induction_on generalizing r with
  | _ n ih =>
      rcases hsame r hr with hsame | howner
      · refine own.owner_congr b b' r hsame fun x s hx hs => ?_
        exact ih (S.rank s) (hn ▸ S.rank_lt r x s hs) (hclosed r x s hr hx hs) rfl
      · exact howner

/-! ## Deleting -/

/-- Some records are deleted, with all that refer to them. -/
structure Drops (b b' : S.State) (gone : R → Prop) : Prop where
  kept : ∀ r, ¬ gone r → b' r = b r
  dropped : ∀ r, gone r → b' r = none
  down : ∀ r x s, b r = some x → S.refers r x s → gone s → gone r

namespace Drops

variable {gone : R → Prop}

theorem owner_eq (h : Drops b b' gone) (hr : ¬ gone r) : own.owner b' r = own.owner b r := by
  refine @owner_eq_of_closed R O S own b b' (fun r => ¬ gone r) (fun r hr => ?_) ?_ r hr
  · exact Or.inl (h.kept r hr)
  · intro r x s hr hx hs hgone
    exact hr (h.down r x s hx hs hgone)

theorem not_gone (h : Drops b b' gone) {x : S.Content r} (hr : b' r = some x) : ¬ gone r := by
  intro hgone
  rw [h.dropped r hgone] at hr
  cases hr

theorem coherent (h : Drops b b' gone) (hb : Coherent own b) : Coherent own b' where
  owned r x hr := by
    have hgone := h.not_gone hr
    rw [h.kept r hgone] at hr
    rw [h.owner_eq hgone]
    exact hb.owned r x hr
  refs r x s hr hs := by
    have hgone := h.not_gone hr
    rw [h.kept r hgone] at hr
    rw [h.owner_eq hgone, h.owner_eq fun hgone' => hgone (h.down r x s hr hs hgone')]
    exact hb.refs r x s hr hs

/-- Whoever owns none of the deleted records keeps all of theirs. -/
theorem untouched (h : Drops b b' gone) (hgone : ∀ r, gone r → own.owner b r ≠ some o) :
    Untouched own o b b' := by
  intro r hr
  have hkept : ¬ gone r := fun hr' => hgone r hr' hr
  exact ⟨h.kept r hkept, (h.owner_eq hkept).trans hr⟩

end Drops

/-! ## Writing -/

/-- One record is written, over one of the same owner or a new one, and refers to records
of its owner. -/
structure Writes (own : S.Ownership O) (o : O) (b b' : S.State) (written : R) : Prop where
  others : ∀ r, r ≠ written → b' r = b r
  before : ∀ o', own.owner b written = some o' → o' = o
  after : own.owner b' written = some o
  refs : ∀ x s, b' written = some x → S.refers written x s → own.owner b' s = some o

namespace Writes

variable {written : R}

theorem owner_eq (h : Writes own o b b' written) (hb : Coherent own b) (hr : ∃ x, b r = some x) :
    own.owner b' r = own.owner b r := by
  refine @owner_eq_of_closed R O S own b b' (fun r => ∃ x, b r = some x) (fun r hr => ?_) ?_ r hr
  · by_cases heq : r = written
    · obtain ⟨x, hx⟩ := hr
      obtain ⟨o', ho'⟩ := hb.owned r x hx
      rw [heq] at ho' ⊢
      exact Or.inr (by rw [h.after, ho', h.before o' ho'])
    · exact Or.inl (h.others r heq)
  · intro r x s _ hx hs
    exact hb.exists_ref hx hs

theorem coherent (h : Writes own o b b' written) (hb : Coherent own b) : Coherent own b' where
  owned r x hr := by
    by_cases heq : r = written
    · exact ⟨o, heq ▸ h.after⟩
    · rw [h.others r heq] at hr
      rw [h.owner_eq hb ⟨x, hr⟩]
      exact hb.owned r x hr
  refs r x s hr hs := by
    by_cases heq : r = written
    · subst heq
      rw [h.refs x s hr hs, h.after]
    · rw [h.others r heq] at hr
      rw [h.owner_eq hb ⟨x, hr⟩, h.owner_eq hb (hb.exists_ref hr hs)]
      exact hb.refs r x s hr hs

/-- Every other owner keeps all of theirs. -/
theorem untouched (h : Writes own o b b' written) (hb : Coherent own b) (hother : o' ≠ o) :
    Untouched own o' b b' := by
  intro r hr
  refine ⟨h.others r ?_, (h.owner_eq hb (own.exists_content b r o' hr)).trans hr⟩
  rintro rfl
  exact hother (h.before o' hr)

end Writes

/-! ## Changing contents -/

/-- Records of one owner change, without new references. -/
structure Edits (own : S.Ownership O) (o : O) (b b' : S.State) : Prop where
  owner : ∀ r, own.owner b' r = own.owner b r
  others : ∀ r, own.owner b r ≠ some o → b' r = b r
  refs : ∀ r x', b' r = some x' → ∃ x, b r = some x ∧ ∀ s, S.refers r x' s → S.refers r x s

namespace Edits

theorem coherent (h : Edits own o b b') (hb : Coherent own b) : Coherent own b' where
  owned r x' hr := by
    obtain ⟨x, hx, -⟩ := h.refs r x' hr
    rw [h.owner]
    exact hb.owned r x hx
  refs r x' s hr hs := by
    obtain ⟨x, hx, hsub⟩ := h.refs r x' hr
    rw [h.owner, h.owner]
    exact hb.refs r x s hx (hsub s hs)

theorem untouched (h : Edits own o b b') (hother : o' ≠ o) : Untouched own o' b b' := by
  intro r hr
  refine ⟨h.others r fun heq => hother ?_, (h.owner r).trans hr⟩
  exact Option.some.inj (hr.symm.trans heq)

end Edits

end Schema

end FlowLogix.Foundation

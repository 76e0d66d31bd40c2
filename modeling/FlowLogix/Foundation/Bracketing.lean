/-
  Foundation/Bracketing.lean --- folding a partial operation over every bracketing.

  A fold of a non-empty family with a binary operation is a binary tree whose
  leaves are the members of the family, in some order and with repetitions.  If
  the operation succeeds and is a join, as seen through a relation to a
  semilattice, the fold is related to the least upper bound of its leaves
  (`exists_isLUB_fold`).  So two trees over the same set of leaves come to the
  same point: permutation, duplication and rebracketing are one statement.
-/
import Mathlib

set_option autoImplicit false

namespace FlowLogix.Foundation

/-- A bracketed product of a non-empty family. -/
inductive Bracketing (α : Type) where
  | leaf (a : α)
  | node (left right : Bracketing α)

namespace Bracketing

variable {α β ε S : Type}

/-- The factors, left to right. -/
def leaves : Bracketing α → List α
  | .leaf a => [a]
  | .node left right => left.leaves ++ right.leaves

theorem exists_mem_leaves (t : Bracketing α) : ∃ a, a ∈ t.leaves := by
  induction t with
  | leaf a => exact ⟨a, List.mem_cons_self⟩
  | node left right ih _ =>
      obtain ⟨a, ha⟩ := ih
      exact ⟨a, List.mem_append_left right.leaves ha⟩

/-- The value of the product under an operation that may fail, the factors read
through `f`. -/
def fold (op : β → β → Except ε β) (f : α → β) : Bracketing α → Except ε β
  | .leaf a => .ok (f a)
  | .node left right => do
      let l ← left.fold op f
      let r ← right.fold op f
      op l r

variable [SemilatticeSup S] {op : β → β → Except ε β} {f : α → β} {h : α → S}

/-- A fold of an operation that joins is related to the least upper bound of its
leaves.  The induction is on the bracketing. -/
theorem exists_isLUB_fold {R : β → S → Prop} (t : Bracketing α)
    (hleaf : ∀ a ∈ t.leaves, R (f a) (h a))
    (hop : ∀ b b' s s', R b s → R b' s' → ∃ c, op b b' = .ok c ∧ R c (s ⊔ s')) :
    ∃ b s, t.fold op f = .ok b ∧ R b s ∧ IsLUB (h '' {a | a ∈ t.leaves}) s := by
  induction t with
  | leaf a => exact ⟨f a, h a, rfl, hleaf a List.mem_cons_self, by simp [leaves]⟩
  | node left right ihl ihr =>
      obtain ⟨hl, hr⟩ := List.forall_mem_append.mp hleaf
      obtain ⟨b, s, hfold, hrel, hlub⟩ := ihl hl
      obtain ⟨b', s', hfold', hrel', hlub'⟩ := ihr hr
      obtain ⟨c, hc, hjoin⟩ := hop b b' s s' hrel hrel'
      have hleaves : {a | a ∈ (node left right).leaves} =
          {a | a ∈ left.leaves} ∪ {a | a ∈ right.leaves} := by
        ext a
        simp [leaves]
      refine ⟨c, s ⊔ s', ?_, hjoin, ?_⟩
      · rw [fold, hfold, hfold']
        exact hc
      · rw [hleaves, Set.image_union]
        exact hlub.union hlub'

end Bracketing

end FlowLogix.Foundation

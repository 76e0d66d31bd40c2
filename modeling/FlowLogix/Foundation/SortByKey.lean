/-
  Foundation/SortByKey.lean --- stable sorting by a key.

  `sortByKey` is `Array.prototype.sort` with a comparison of keys.  Elements with
  different keys come out in one order, whatever order they came in; elements that
  share a key stay in the order they came in.
-/
import Mathlib

set_option autoImplicit false

namespace FlowLogix.Foundation

variable {α K : Type} [LinearOrder K] {key : α → K} {l l' : List α}

/-- `a` comes no later than `b`. -/
def KeyLe (key : α → K) (a b : α) : Prop := key a ≤ key b

instance (key : α → K) : DecidableRel (KeyLe key) := fun a b =>
  inferInstanceAs (Decidable (key a ≤ key b))

instance (key : α → K) : Std.Total (KeyLe key) := ⟨fun a b => le_total (key a) (key b)⟩

instance (key : α → K) : IsTrans α (KeyLe key) := ⟨fun _ _ _ => le_trans⟩

/-- The elements in ascending order of their keys. -/
def sortByKey (key : α → K) (l : List α) : List α := l.insertionSort (KeyLe key)

theorem sortByKey_perm (key : α → K) (l : List α) : (sortByKey key l).Perm l :=
  List.perm_insertionSort _ l

@[simp] theorem mem_sortByKey {a : α} : a ∈ sortByKey key l ↔ a ∈ l :=
  (sortByKey_perm key l).mem_iff

theorem pairwise_sortByKey (key : α → K) (l : List α) : (sortByKey key l).Pairwise (KeyLe key) :=
  List.pairwise_insertionSort _ l

/-- With distinct keys there is one ascending order. -/
theorem sortByKey_eq_of_perm (hkeys : (l.map key).Nodup) (hperm : l'.Perm l)
    (hsorted : l'.Pairwise (KeyLe key)) : sortByKey key l = l' := by
  refine List.Perm.eq_of_pairwise (fun a b ha hb hab hba => ?_) (pairwise_sortByKey key l) hsorted
    ((sortByKey_perm key l).trans hperm.symm)
  have ha : a ∈ l := mem_sortByKey.mp ha
  exact List.inj_on_of_nodup_map hkeys ha (hperm.mem_iff.mp hb) (le_antisymm hab hba)

/-- With distinct keys the order the elements come in does not matter. -/
theorem sortByKey_congr (hkeys : (l.map key).Nodup) (hperm : l'.Perm l) :
    sortByKey key l' = sortByKey key l :=
  (sortByKey_eq_of_perm hkeys ((sortByKey_perm key l').trans hperm)
    (pairwise_sortByKey key l')).symm

/-- Elements left out are left out of the order. -/
theorem sortByKey_filter (hkeys : (l.map key).Nodup) (p : α → Bool) :
    sortByKey key (l.filter p) = (sortByKey key l).filter p := by
  refine sortByKey_eq_of_perm ?_ ((sortByKey_perm key l).filter p)
    ((pairwise_sortByKey key l).filter p)
  exact (List.filter_sublist.map key).nodup hkeys

section

variable [DecidableLT K] {rank : α → Option K} {k : K}

/-- The place of a key: before the first element with a greater one. -/
def placeOf (rank : α → Option K) (k : K) (l : List α) : Nat :=
  l.findIdx fun b => (rank b).any fun other => decide (k < other)

/-- What stands before the place of a key has no greater one. -/
theorem le_of_mem_take_placeOf {b : α} (hb : b ∈ l.take (placeOf rank k l)) {other : K}
    (hother : rank b = some other) : other ≤ k := by
  obtain ⟨j, hj, rfl⟩ := List.mem_iff_getElem.mp hb
  rw [List.length_take] at hj
  rw [List.getElem_take] at hother
  have hlt : j < l.findIdx fun b => (rank b).any fun other => decide (k < other) := by
    unfold placeOf at hj
    omega
  have hnot := List.not_of_lt_findIdx hlt
  rw [hother] at hnot
  simpa using hnot

/-- In ascending order, what stands after it has a greater one. -/
theorem lt_of_mem_drop_placeOf (hsorted : (l.filterMap rank).Pairwise (· ≤ ·)) {b : α}
    (hb : b ∈ l.drop (placeOf rank k l)) {other : K} (hother : rank b = some other) :
    k < other := by
  induction l with
  | nil => simp at hb
  | cons a rest ih =>
      rw [placeOf, List.findIdx_cons] at hb
      cases ha : (rank a).any fun other => decide (k < other) with
      | false =>
          rw [ha, cond_false, List.drop_succ_cons] at hb
          exact ih (hsorted.sublist ((List.sublist_cons_self a rest).filterMap rank)) hb
      | true =>
          -- the first greater key: the later ones are not smaller
          rw [ha, cond_true, List.drop_zero] at hb
          obtain ⟨first, hfirst, hlt⟩ := (Option.any_eq_true _ _).mp ha
          have hlt : k < first := of_decide_eq_true hlt
          rw [List.filterMap_cons_some hfirst, List.pairwise_cons] at hsorted
          rcases List.mem_cons.mp hb with rfl | hb
          · rw [hfirst] at hother
            exact Option.some.inj hother ▸ hlt
          · exact hlt.trans_le (hsorted.1 other (List.mem_filterMap.mpr ⟨b, hb, hother⟩))

/-- A key in its place keeps the ascending order. -/
theorem pairwise_insert_placeOf (rank : α → Option K) (k : K)
    (hsorted : (l.filterMap rank).Pairwise (· ≤ ·)) :
    ((l.take (placeOf rank k l)).filterMap rank ++
      k :: (l.drop (placeOf rank k l)).filterMap rank).Pairwise (· ≤ ·) := by
  have hbefore : ∀ other ∈ (l.take (placeOf rank k l)).filterMap rank, other ≤ k := by
    intro other hother
    obtain ⟨b, hb, hrank⟩ := List.mem_filterMap.mp hother
    exact le_of_mem_take_placeOf hb hrank
  have hafter : ∀ other ∈ (l.drop (placeOf rank k l)).filterMap rank, k ≤ other := by
    intro other hother
    obtain ⟨b, hb, hrank⟩ := List.mem_filterMap.mp hother
    exact (lt_of_mem_drop_placeOf hsorted hb hrank).le
  have hsplit : ((l.take (placeOf rank k l)).filterMap rank ++
      (l.drop (placeOf rank k l)).filterMap rank).Pairwise (· ≤ ·) := by
    rw [← List.filterMap_append, List.take_append_drop]
    exact hsorted
  obtain ⟨htake, hdrop, -⟩ := List.pairwise_append.mp hsplit
  refine List.pairwise_append.mpr ⟨htake, List.pairwise_cons.mpr ⟨hafter, hdrop⟩, ?_⟩
  intro other hother other' hother'
  rcases List.mem_cons.mp hother' with rfl | hmem
  · exact hbefore other hother
  · exact (hbefore other hother).trans (hafter other' hmem)

end

/-- An element goes before the first one with a greater key. -/
theorem sortByKey_cons [DecidableLT K] {a : α} (hkeys : ((a :: l).map key).Nodup) :
    sortByKey key (a :: l) =
      (sortByKey key l).take ((sortByKey key l).findIdx fun b => decide (key a < key b)) ++
        a ::
          (sortByKey key l).drop ((sortByKey key l).findIdx fun b => decide (key a < key b)) := by
  have hranked : ∀ {l' : List α}, (l'.filterMap fun b => some (key b)).Pairwise (· ≤ ·) ↔
      l'.Pairwise (KeyLe key) := by
    intro l'
    rw [List.filterMap_eq_map', List.pairwise_map]
    exact Iff.rfl
  refine sortByKey_eq_of_perm hkeys ?_ ?_
  · refine List.perm_middle.trans (List.Perm.cons a ?_)
    rw [List.take_append_drop]
    exact sortByKey_perm key l
  · refine hranked.mp ?_
    rw [List.filterMap_append]
    exact pairwise_insert_placeOf (fun b => some (key b)) (key a)
      (hranked.mpr (pairwise_sortByKey key l))

/-- Two elements in order stay in the order they came in. -/
theorem pair_sublist_sortByKey {a b : α} (hab : key a ≤ key b) (h : [a, b].Sublist l) :
    [a, b].Sublist (sortByKey key l) :=
  List.sublist_insertionSort (List.pairwise_pair.mpr hab) h

/-- A list without duplicates holds two elements in one order only. -/
theorem not_sublist_swap {a b : α} (hnodup : l.Nodup) (h : [a, b].Sublist l) :
    ¬[b, a].Sublist l := by
  induction l with
  | nil => simp at h
  | cons first rest ih =>
      intro hswap
      obtain ⟨hfirst, hrest⟩ := List.nodup_cons.mp hnodup
      cases h with
      | cons _ h =>
          cases hswap with
          | cons _ hswap => exact ih hrest h hswap
          | cons_cons _ hswap => exact hfirst (h.subset (by simp))
      | cons_cons _ h =>
          have hb : b ∈ rest := h.subset (by simp)
          cases hswap with
          | cons _ hswap => exact hfirst (hswap.subset (by simp))
          | cons_cons _ hswap => exact hfirst hb

/-- Where the opposite order comes out the same, the keys are distinct. -/
theorem nodup_key_of_sortByKey_reverse {β : Type} {id : α → β} (hids : (l.map id).Nodup)
    (h : (sortByKey key l.reverse).map id = (sortByKey key l).map id) : (l.map key).Nodup := by
  have hnodup : ((sortByKey key l).map id).Nodup :=
    (((sortByKey_perm key l).map id).nodup_iff).mpr hids
  refine List.pairwise_map.mpr (List.pairwise_iff_forall_sublist.mpr fun {a b} hsub hkey => ?_)
  -- one order of the two in the list, the other one in its reverse, and each is kept
  have hsorted : [a, b].Sublist (sortByKey key l) := pair_sublist_sortByKey hkey.le hsub
  have hreversed : [b, a].Sublist (sortByKey key l.reverse) :=
    pair_sublist_sortByKey hkey.ge hsub.reverse
  exact not_sublist_swap hnodup (hsorted.map id) (h ▸ hreversed.map id)

end FlowLogix.Foundation

/-
  Foundation/SortedSet.lean --- sorted sets with numeric scores.

  A sorted set holds distinct members, each with a score, in ascending order of
  score.  A rank is a position in that order; a negative rank counts from the
  end, -1 being the last member.  The three operations are those of Redis: adding
  a member, removing a range of ranks, and reading the members from a score on.

  Adding a member and then removing the ranks up to `-(k + 1)` leaves the `k`
  members of greatest score.  A set that is only changed so holds, whatever the
  order of the additions, the `k` greatest of all that was added
  (`topScores_insert`).
-/
import Mathlib

set_option autoImplicit false

namespace FlowLogix.Foundation

variable {M : Type}

/-- A member with its score. -/
abbrev Scored (M : Type) : Type := Nat × M

/-- A sorted set. -/
structure SortedSet (M : Type) where
  entries : List (Scored M)
  ascending : entries.Pairwise fun a b => a.1 ≤ b.1
  nodup : (entries.map Prod.snd).Nodup

/-- Insert an entry before the first one of at least its score. -/
def insertScored (entry : Scored M) (entries : List (Scored M)) : List (Scored M) :=
  entries.orderedInsert (fun a b => a.1 ≤ b.1) entry

theorem insertScored_nil (entry : Scored M) : insertScored entry [] = [entry] :=
  rfl

theorem insertScored_cons (entry e : Scored M) (rest : List (Scored M)) :
    insertScored entry (e :: rest) =
      if entry.1 ≤ e.1 then entry :: e :: rest else e :: insertScored entry rest :=
  rfl

theorem perm_insertScored (entry : Scored M) (entries : List (Scored M)) :
    (insertScored entry entries).Perm (entry :: entries) :=
  List.perm_orderedInsert _ entry entries

theorem length_insertScored (entry : Scored M) (entries : List (Scored M)) :
    (insertScored entry entries).length = entries.length + 1 :=
  List.orderedInsert_length _ entries entry

theorem ascending_insertScored (entry : Scored M) {entries : List (Scored M)}
    (h : entries.Pairwise fun a b => a.1 ≤ b.1) :
    (insertScored entry entries).Pairwise fun a b => a.1 ≤ b.1 := by
  induction entries with
  | nil => simp [insertScored_nil]
  | cons e rest ih =>
      rw [List.pairwise_cons] at h
      rw [insertScored_cons]
      split
      · rename_i hle
        refine List.pairwise_cons.mpr ⟨fun a ha => ?_, List.pairwise_cons.mpr h⟩
        rcases List.mem_cons.mp ha with rfl | ha
        · exact hle
        · exact hle.trans (h.1 a ha)
      · rename_i hlt
        refine List.pairwise_cons.mpr ⟨fun a ha => ?_, ih h.2⟩
        rcases List.mem_cons.mp ((perm_insertScored entry rest).mem_iff.mp ha) with rfl | ha
        · omega
        · exact h.1 a ha

namespace SortedSet

/-- The set without members. -/
def empty : SortedSet M where
  entries := []
  ascending := List.Pairwise.nil
  nodup := List.nodup_nil

/-- `ZADD key score member`: the member gets the score, and its place. -/
def zAdd [DecidableEq M] (set : SortedSet M) (score : Nat) (member : M) : SortedSet M where
  entries := insertScored (score, member) (set.entries.filter fun e => e.2 ≠ member)
  ascending := ascending_insertScored _ (set.ascending.filter _)
  nodup := by
    have hperm := (perm_insertScored (score, member)
      (set.entries.filter fun e => e.2 ≠ member)).map Prod.snd
    rw [hperm.nodup_iff, List.map_cons, List.nodup_cons]
    refine ⟨by simp, ?_⟩
    exact (List.filter_sublist.map Prod.snd).nodup set.nodup

/-- A rank, negative ones counted from the end. -/
def rank (set : SortedSet M) (index : Int) : Int :=
  if index < 0 then index + set.entries.length else index

/-- `ZREMRANGEBYRANK key start stop`: both ends included. -/
def zRemRangeByRank (set : SortedSet M) (start stop : Int) : SortedSet M :=
  let first := (set.rank start).toNat
  let past := (set.rank stop + 1).toNat
  { entries := set.entries.take first ++ set.entries.drop (max first past)
    ascending := by
      refine set.ascending.sublist ?_
      conv => rhs; rw [← List.take_append_drop first set.entries]
      exact (List.Sublist.refl _).append (List.drop_sublist_drop_left _ (le_max_left _ _))
    nodup := by
      refine (List.Sublist.map Prod.snd ?_).nodup set.nodup
      conv => rhs; rw [← List.take_append_drop first set.entries]
      exact (List.Sublist.refl _).append (List.drop_sublist_drop_left _ (le_max_left _ _)) }

/-- `ZRANGEBYSCORE key min +inf`. -/
def zRangeByScore (set : SortedSet M) (min : Nat) : List M :=
  (set.entries.filter fun e => min ≤ e.1).map Prod.snd

/-- A new member is inserted among the others. -/
theorem entries_zAdd [DecidableEq M] {set : SortedSet M} {member : M} (score : Nat)
    (h : member ∉ set.entries.map Prod.snd) :
    (set.zAdd score member).entries = insertScored (score, member) set.entries := by
  have hfilter : (set.entries.filter fun e => e.2 ≠ member) = set.entries := by
    rw [List.filter_eq_self]
    intro e he
    have hne : e.2 ≠ member := by
      rintro rfl
      exact h (List.mem_map_of_mem he)
    simpa using hne
  exact congrArg (insertScored (score, member)) hfilter

end SortedSet

/-! ## The greatest scores -/

/-- The last `k` entries. -/
def topScores (k : Nat) (entries : List (Scored M)) : List (Scored M) :=
  entries.drop (entries.length - k)

/-- Removing the ranks `0` to `-(k + 1)` keeps the last `k` entries. -/
theorem SortedSet.entries_zRemRangeByRank (set : SortedSet M) (k : Nat) :
    (set.zRemRangeByRank 0 (-(k + 1))).entries = topScores k set.entries := by
  have hpast : (set.rank (-(k + 1)) + 1).toNat = set.entries.length - k := by
    rw [rank, if_pos (by omega)]
    omega
  have hfirst : (set.rank 0).toNat = 0 := rfl
  simp only [zRemRangeByRank, hfirst, hpast, List.take_zero, List.nil_append, Nat.zero_max,
    topScores]

theorem topScores_of_length_le {k : Nat} {entries : List (Scored M)} (h : entries.length ≤ k) :
    topScores k entries = entries := by
  rw [topScores, Nat.sub_eq_zero_of_le h, List.drop_zero]

/-- An entry in front of `k` others is not among the last `k`. -/
theorem topScores_cons {k : Nat} (entry : Scored M) {entries : List (Scored M)}
    (h : k ≤ entries.length) : topScores k (entry :: entries) = topScores k entries := by
  have hlength : (entry :: entries).length - k = (entries.length - k) + 1 := by
    rw [List.length_cons]
    omega
  rw [topScores, hlength, List.drop_succ_cons, topScores]

/-- What has a greater score than one of the last `k` entries is one of them. -/
theorem mem_topScores_of_lt {k : Nat} {entries : List (Scored M)}
    (h : entries.Pairwise fun a b => a.1 ≤ b.1) {low entry : Scored M}
    (hlow : low ∈ topScores k entries) (hentry : entry ∈ entries) (hlt : low.1 < entry.1) :
    entry ∈ topScores k entries := by
  have hsplit := List.take_append_drop (entries.length - k) entries
  rw [← hsplit, List.pairwise_append] at h
  rw [← hsplit, List.mem_append] at hentry
  rcases hentry with hbefore | hafter
  · have hle := h.2.2 entry hbefore low hlow
    omega
  · exact hafter

/-- Forgetting all but the top `k` before an insertion does not change the top `k`
after it. -/
theorem topScores_insert (k : Nat) (entry : Scored M) {entries : List (Scored M)}
    (h : entries.Pairwise fun a b => a.1 ≤ b.1) :
    topScores k (insertScored entry (topScores k entries)) =
      topScores k (insertScored entry entries) := by
  induction entries with
  | nil => simp [topScores]
  | cons e rest ih =>
      rcases Nat.lt_or_ge rest.length k with hshort | hlong
      · have hall : topScores k (e :: rest) = e :: rest := topScores_of_length_le hshort
        rw [hall]
      · have hrest := h.of_cons
        rw [topScores_cons e hlong, ih hrest, insertScored_cons]
        split
        · rename_i hle
          -- the new entry has the least score, so it is not kept
          have hfirst : insertScored entry rest = entry :: rest := by
            cases rest with
            | nil => rfl
            | cons e' rest =>
                have hle' := hle.trans ((List.pairwise_cons.mp h).1 e' List.mem_cons_self)
                rw [insertScored_cons, if_pos hle']
          rw [hfirst, topScores_cons entry hlong,
            topScores_cons entry (hlong.trans (Nat.le_succ _)), topScores_cons e hlong]
        · rw [topScores_cons e]
          rw [length_insertScored]
          omega

end FlowLogix.Foundation

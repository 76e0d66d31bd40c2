/-
  Server/DeltaPage.lean --- a page of a delta pull is complete up to its limit.

  `pullSinceCheckpoint` reads `limit` rows and one more for each excluded id, and
  drops the excluded ones afterwards.  The ids of the rows are distinct, so the
  dropped rows are at most as many as the excluded ids, and what is left is the
  start of the rows that are due.
-/
import FlowLogix.Server.DeltaPull

set_option autoImplicit false

namespace FlowLogix.Server

open FlowLogix.Foundation
open FlowLogix.Crdt (VersionedRecord)

/-! ## The start of a filtered list -/

/-- The first `n` kept entries of a list are among its first `m` entries, when these
leave out at most `m - n`. -/
theorem take_filter_take {α : Type} {p : α → Bool} {l : List α} {n m : Nat}
    (h : n + ((l.take m).filter fun a => !p a).length ≤ m) :
    ((l.take m).filter p).take n = (l.filter p).take n := by
  by_cases hm : l.length ≤ m
  · rw [List.take_of_length_le hm]
  · obtain ⟨rest, hrest⟩ := (List.take_prefix m l).filter p
    have htake : (l.take m).length = m := List.length_take_of_le (Nat.le_of_not_le hm)
    have hsplit := List.length_eq_length_filter_add p (l := l.take m)
    have hlen : n ≤ ((l.take m).filter p).length := by omega
    rw [← hrest, List.take_append_of_le_length hlen]

variable {pg : Postgres} {orgId : JsString} {c : SyncCollection} {db : Database pg}
  {since limit : Nat} {excludeIds : List JsString}

/-- Rows with distinct ids hold at most one for each excluded id. -/
theorem length_excluded_le {rows : List (JsString × Row pg c)}
    (h : (rows.map Prod.fst).Nodup) :
    (rows.filter fun e => !decide (e.1 ∉ excludeIds)).length ≤ excludeIds.dedup.length := by
  have hnodup : ((rows.filter fun e => !decide (e.1 ∉ excludeIds)).map Prod.fst).Nodup :=
    h.sublist (List.filter_sublist.map _)
  have hsubset : ((rows.filter fun e => !decide (e.1 ∉ excludeIds)).map Prod.fst) ⊆
      excludeIds.dedup := by
    intro id hid
    obtain ⟨e, he, rfl⟩ := List.mem_map.mp hid
    have hexcluded := (List.mem_filter.mp he).2
    rw [Bool.not_eq_true', decide_eq_false_iff_not, not_not] at hexcluded
    exact List.mem_dedup.mpr hexcluded
  have hle := (hnodup.subperm hsubset).length_le
  rwa [List.length_map] at hle

/-! ## The loop over the fetched rows -/

/-- The loop of `pullSinceCheckpoint`: an excluded row is passed over, another one is
pushed, and the loop ends when the output reaches the limit. -/
def pushRows (excludeIds : List JsString) (limit : Nat) (out : List (VersionedRecord Clock)) :
    List (JsString × Row pg c) → List (VersionedRecord Clock)
  | [] => out
  | (id, row) :: rows =>
      if id ∈ excludeIds then pushRows excludeIds limit out rows
      else if limit ≤ (out ++ [(serverState row).sent id]).length then
        out ++ [(serverState row).sent id]
      else pushRows excludeIds limit (out ++ [(serverState row).sent id]) rows

/-- The loop pushes the first rows that are not excluded, up to the limit. -/
theorem pushRows_eq (excludeIds : List JsString) (out : List (VersionedRecord Clock))
    (rows : List (JsString × Row pg c)) (hout : out.length < limit) :
    pushRows excludeIds limit out rows =
      out ++ ((rows.filter fun e => decide (e.1 ∉ excludeIds)).take (limit - out.length)).map
        fun e => (serverState e.2).sent e.1 := by
  induction rows generalizing out with
  | nil => simp [pushRows]
  | cons e rows ih =>
      obtain ⟨id, row⟩ := e
      rw [pushRows]
      by_cases hid : id ∈ excludeIds
      · rw [if_pos hid, ih out hout, List.filter_cons_of_neg (by simpa using hid)]
      · have hroom : limit - out.length = limit - (out.length + 1) + 1 := by omega
        rw [if_neg hid, List.filter_cons_of_pos (by simpa using hid), hroom,
          List.take_succ_cons, List.map_cons, List.length_append, List.length_singleton]
        split
        · rename_i hfull
          rw [Nat.sub_eq_zero_of_le hfull, List.take_zero, List.map_nil]
        · rename_i hmore
          have hlen : (out ++ [(serverState row).sent id]).length = out.length + 1 := by
            rw [List.length_append, List.length_singleton]
          rw [ih _ (by omega), hlen, List.append_assoc, List.singleton_append]

/-- At a positive limit a pull is that loop over the fetched rows. -/
theorem pullSinceCheckpoint_eq_pushRows (hlimit : 0 < limit) :
    pullSinceCheckpoint db c orgId since excludeIds limit =
      if (db.orgRows c orgId).all fun e => castable e.2 then
        .ok (pushRows excludeIds limit []
          (((db.orgRows c orgId).filter fun e => stampedAfter since e.2).take
            (limit + excludeIds.length)))
      else .error .rejectedStatement := by
  rw [pushRows_eq excludeIds [] _ hlimit]
  rfl

/-! ## The page -/

/-- The rows that are due: those of the organization that are stamped after the
checkpoint and not excluded, by id. -/
def dueRows (db : Database pg) (c : SyncCollection) (orgId : JsString) (since : Nat)
    (excludeIds : List JsString) : List (JsString × Row pg c) :=
  ((db.orgRows c orgId).filter fun e => stampedAfter since e.2).filter fun e =>
    decide (e.1 ∉ excludeIds)

theorem stampedAfter_iff {row : Row pg c} :
    stampedAfter since row = true ↔
      (∃ tombstone, row.syncDeletedAt = some tombstone ∧ (since : Clock) < tombstone) ∨
        ∃ field clock, row.syncClocks.lookup field = some clock ∧ (since : Clock) < clock := by
  rw [stampedAfter, Bool.or_eq_true, Option.any_eq_true, List.any_eq_true]
  refine or_congr (exists_congr fun _ => and_congr_right fun _ => decide_eq_true_iff) ?_
  constructor
  · rintro ⟨clock, hmem, hlt⟩
    obtain ⟨field, hfield⟩ := Dict.mem_values_iff.mp hmem
    exact ⟨field, clock, hfield, of_decide_eq_true hlt⟩
  · rintro ⟨field, clock, hfield, hlt⟩
    exact ⟨clock, Dict.mem_values_iff.mpr ⟨field, hfield⟩, decide_eq_true hlt⟩

theorem mem_dueRows {k : JsString} {row : Row pg c} :
    (k, row) ∈ dueRows db c orgId since excludeIds ↔
      db.find c k = some row ∧ db.owner c k = some orgId ∧
        ((∃ tombstone, row.syncDeletedAt = some tombstone ∧ (since : Clock) < tombstone) ∨
          ∃ field clock, row.syncClocks.lookup field = some clock ∧ (since : Clock) < clock) ∧
        k ∉ excludeIds := by
  rw [dueRows, List.mem_filter, List.mem_filter, mem_orgRows, decide_eq_true_iff,
    stampedAfter_iff, and_assoc, and_assoc]

theorem pairwise_dueRows :
    (dueRows db c orgId since excludeIds).Pairwise fun e e' => e.1 < e'.1 :=
  (pairwise_orgRows.filter _).filter _

/-- Any fetch of `limit` rows and one for each excluded id holds the first `limit` rows
that are due. -/
theorem take_fetched {fetched : Nat} (h : limit + excludeIds.dedup.length ≤ fetched) :
    (((((db.orgRows c orgId).filter fun e => stampedAfter since e.2).take fetched).filter
      fun e => decide (e.1 ∉ excludeIds)).take limit) =
        (dueRows db c orgId since excludeIds).take limit := by
  refine take_filter_take ((Nat.add_le_add_left (length_excluded_le ?_) limit).trans h)
  exact nodup_orgRows.sublist (((List.take_sublist _ _).trans List.filter_sublist).map _)

/-- A pull returns the first `limit` of the rows that are due, in the order of their ids
and each once.  Whatever number of rows it fetches, from `limit` and one for each
excluded id on, its loop returns the same. -/
theorem page_complete (hcast : ∀ e ∈ db.orgRows c orgId, castable e.2 = true)
    (hlimit : 0 < limit) :
    ∃ page, pullSinceCheckpoint db c orgId since excludeIds limit = .ok page ∧
      page = ((dueRows db c orgId since excludeIds).take limit).map
        (fun e => (serverState e.2).sent e.1) ∧
      page.length = min limit (dueRows db c orgId since excludeIds).length ∧
      page.Pairwise (fun record record' => record.id < record'.id) ∧
      (dueRows db c orgId since excludeIds).Pairwise (fun e e' => e.1 < e'.1) ∧
      (∀ k row, (k, row) ∈ dueRows db c orgId since excludeIds ↔
        db.find c k = some row ∧ db.owner c k = some orgId ∧
          ((∃ tombstone, row.syncDeletedAt = some tombstone ∧ (since : Clock) < tombstone) ∨
            ∃ field clock,
              row.syncClocks.lookup field = some clock ∧ (since : Clock) < clock) ∧
          k ∉ excludeIds) ∧
      ∀ fetched, limit + excludeIds.dedup.length ≤ fetched →
        pushRows excludeIds limit []
          (((db.orgRows c orgId).filter fun e => stampedAfter since e.2).take fetched) =
            page := by
  have hloop : ∀ fetched, limit + excludeIds.dedup.length ≤ fetched →
      pushRows excludeIds limit []
        (((db.orgRows c orgId).filter fun e => stampedAfter since e.2).take fetched) =
          ((dueRows db c orgId since excludeIds).take limit).map
            fun e => (serverState e.2).sent e.1 := by
    intro fetched hfetched
    have hrun := pushRows_eq excludeIds []
      (((db.orgRows c orgId).filter fun e => stampedAfter since e.2).take fetched) hlimit
    rwa [List.nil_append, List.length_nil, Nat.sub_zero, take_fetched hfetched] at hrun
  have hsize : limit + excludeIds.dedup.length ≤ limit + excludeIds.length :=
    Nat.add_le_add_left (List.dedup_sublist excludeIds).length_le limit
  refine ⟨_, ?_, rfl, ?_, ?_, pairwise_dueRows, fun k row => mem_dueRows, hloop⟩
  · rw [pullSinceCheckpoint_eq_pushRows hlimit, if_pos (List.all_eq_true.mpr hcast),
      hloop _ hsize]
  · rw [List.length_map, List.length_take]
  · exact List.pairwise_map.mpr (pairwise_dueRows.sublist (List.take_sublist _ _))

/-! ### Two stamped cards -/

namespace TwoStamped

def otherId : JsString := js "00000000-0000-4000-8000-00000000000d"

/-- Two cards of the list, both titled at 5. -/
def cards : Dict JsString (Row Postgres.plain .cards) :=
  Dict.ofList [(otherId, LatePush.card), (Sample.cardId, LatePush.card)]

theorem castable_cards :
    ∀ e ∈ (Sample.database cards).orgRows .cards Sample.orgId, castable e.2 = true := by
  rintro ⟨k, row⟩ he
  have hmem : row ∈ cards.values := Dict.mem_values_iff.mpr ⟨k, (mem_orgRows.mp he).1⟩
  have hvalues : cards.values = [LatePush.card, LatePush.card] := rfl
  obtain rfl : row = LatePush.card := by simpa [hvalues] using hmem
  show castable LatePush.card = true
  decide

end TwoStamped

/-- With the first card excluded, a page of one row is the second card. -/
theorem excluded_page_complete :
    ∃ page, pullSinceCheckpoint (Sample.database TwoStamped.cards) .cards Sample.orgId 2
        [Sample.cardId] 1 = .ok page ∧ page.map VersionedRecord.id = [TwoStamped.otherId] := by
  obtain ⟨page, hpage, hrows, -⟩ := page_complete (c := .cards) TwoStamped.castable_cards
    Nat.one_pos
  refine ⟨page, hpage, ?_⟩
  rw [hrows, List.map_map]
  decide

end FlowLogix.Server

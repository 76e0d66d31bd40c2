/-
  Realtime/ReplayLog.lean --- the numbers and the replay log of a board
  (backend/src/realtime/realtime.constants.ts, redis-pubsub.service.ts).

  Everything Redis keeps for the pipeline is kept per board, under keys that
  carry the board's id: a counter, and a sorted set of frames scored by their
  number.  `BoardRedis` is that state for one board.  A frame is stored as its
  JSON text and parsed when it is read; the log here holds the frames themselves.
  No two frames share a number, so the order Redis gives members of equal score
  never shows.  The log's expiry after a day without a write is left out.
-/
import FlowLogix.Foundation.SortedSet
import FlowLogix.Server.SyncService

set_option autoImplicit false

namespace FlowLogix.Realtime

open FlowLogix.Foundation FlowLogix.Server

/-! ## `RedisPubSubService` -/

/-- `REPLAY_LOG_MAX_EVENTS`. -/
def replayLogMaxEvents : Nat := 500

/-- What Redis holds for one board: `board:seq:{id}` and `board:events:{id}`. -/
structure BoardRedis where
  seq : Nat
  events : SortedSet BoardMutationEnvelope

namespace BoardRedis

/-- Nothing was published on the board yet. -/
def empty : BoardRedis where
  seq := 0
  events := .empty

/-- `nextSequence`: the number is the incremented counter. -/
def nextSequence (redis : BoardRedis) : BoardRedis := { redis with seq := redis.seq + 1 }

/-- `appendToReplayLog`: add the frame, then drop the lowest beyond the limit. -/
def appendToReplayLog (redis : BoardRedis) (envelope : BoardMutationEnvelope) : BoardRedis :=
  { redis with
    events := (redis.events.zAdd envelope.seq envelope).zRemRangeByRank 0
      (-(replayLogMaxEvents + 1)) }

/-- `currentSequence`. -/
def currentSequence (redis : BoardRedis) : Nat := redis.seq

/-- `getMissedEvents`: the logged frames from `max(0, afterSeq) + 1` on. -/
def getMissedEvents (redis : BoardRedis) (afterSeq : Nat) : List BoardMutationEnvelope :=
  redis.events.zRangeByScore (max 0 afterSeq + 1)

variable (redis : BoardRedis) (envelope : BoardMutationEnvelope)

@[simp] theorem seq_nextSequence : redis.nextSequence.seq = redis.seq + 1 :=
  rfl

@[simp] theorem events_nextSequence : redis.nextSequence.events = redis.events :=
  rfl

@[simp] theorem seq_appendToReplayLog : (redis.appendToReplayLog envelope).seq = redis.seq :=
  rfl

@[simp] theorem currentSequence_eq : redis.currentSequence = redis.seq :=
  rfl

end BoardRedis

/-! ## What the log holds -/

/-- A frame with its score. -/
def scored (envelope : BoardMutationEnvelope) : Scored BoardMutationEnvelope :=
  (envelope.seq, envelope)

/-- The frames in ascending order of their numbers. -/
def bySeq (appended : List BoardMutationEnvelope) : List (Scored BoardMutationEnvelope) :=
  appended.foldl (fun entries envelope => insertScored (scored envelope) entries) []

theorem bySeq_concat (appended : List BoardMutationEnvelope) (envelope : BoardMutationEnvelope) :
    bySeq (appended ++ [envelope]) = insertScored (scored envelope) (bySeq appended) := by
  simp [bySeq]

theorem perm_bySeq (appended : List BoardMutationEnvelope) :
    (bySeq appended).Perm (appended.map scored) := by
  induction appended using List.reverseRecOn with
  | nil => rfl
  | append_singleton appended envelope ih =>
      rw [bySeq_concat, List.map_append, List.map_singleton]
      exact (perm_insertScored _ _).trans ((ih.cons _).trans (List.perm_append_singleton _ _).symm)

theorem ascending_bySeq (appended : List BoardMutationEnvelope) :
    (bySeq appended).Pairwise fun a b => a.1 ≤ b.1 := by
  induction appended using List.reverseRecOn with
  | nil => exact List.Pairwise.nil
  | append_singleton appended envelope ih =>
      rw [bySeq_concat]
      exact ascending_insertScored _ ih

/-- The log holds the frames of greatest number among those appended. -/
def BoardRedis.Logs (redis : BoardRedis) (appended : List BoardMutationEnvelope) : Prop :=
  redis.events.entries = topScores replayLogMaxEvents (bySeq appended)

theorem BoardRedis.logs_empty : BoardRedis.empty.Logs [] :=
  rfl

namespace BoardRedis.Logs

variable {redis : BoardRedis} {appended : List BoardMutationEnvelope}

/-- A logged frame was appended, and is scored by its number. -/
theorem mem_appended (h : redis.Logs appended) {entry : Scored BoardMutationEnvelope}
    (hmem : entry ∈ redis.events.entries) : entry.2 ∈ appended ∧ entry.1 = entry.2.seq := by
  rw [h] at hmem
  have hmem := (perm_bySeq appended).mem_iff.mp (List.mem_of_mem_drop hmem)
  obtain ⟨envelope, henvelope, rfl⟩ := List.mem_map.mp hmem
  exact ⟨henvelope, rfl⟩

/-- A frame is read when it is logged and its number is above the client's. -/
theorem mem_getMissedEvents (h : redis.Logs appended) {afterSeq : Nat}
    {envelope : BoardMutationEnvelope} :
    envelope ∈ redis.getMissedEvents afterSeq ↔
      afterSeq < envelope.seq ∧ scored envelope ∈ redis.events.entries := by
  simp only [getMissedEvents, SortedSet.zRangeByScore, List.mem_map, List.mem_filter,
    decide_eq_true_eq, Nat.zero_le, sup_of_le_right]
  constructor
  · rintro ⟨entry, ⟨hentry, hscore⟩, rfl⟩
    have hseq := (h.mem_appended hentry).2
    have hscored : scored entry.2 = entry := Prod.ext hseq.symm rfl
    rw [hscored]
    exact ⟨by omega, hentry⟩
  · rintro ⟨hlt, hentry⟩
    exact ⟨scored envelope, ⟨hentry, hlt⟩, rfl⟩

/-- When no number was appended twice, a log read is in strictly ascending order. -/
theorem missed_ascending (h : redis.Logs appended)
    (hnodup : (appended.map BoardMutationEnvelope.seq).Nodup) (afterSeq : Nat) :
    (redis.getMissedEvents afterSeq).Pairwise fun e e' => e.seq < e'.seq := by
  have hscores : (redis.events.entries.map Prod.fst).Nodup := by
    have hall : ((bySeq appended).map Prod.fst).Nodup := by
      rw [((perm_bySeq appended).map Prod.fst).nodup_iff, List.map_map]
      exact hnodup
    rw [h]
    exact ((List.drop_sublist _ _).map _).nodup hall
  have hstrict : redis.events.entries.Pairwise fun a b => a.1 < b.1 :=
    (redis.events.ascending.and (List.pairwise_map.mp hscores)).imp
      fun ⟨hle, hne⟩ => lt_of_le_of_ne hle hne
  rw [getMissedEvents, SortedSet.zRangeByScore, List.pairwise_map]
  refine (hstrict.filter _).imp_of_mem fun ha hb hlt => ?_
  rw [← (h.mem_appended (List.mem_of_mem_filter ha)).2,
    ← (h.mem_appended (List.mem_of_mem_filter hb)).2]
  exact hlt

/-- An appended frame above a logged one is logged. -/
theorem mem_entries_of_lt (h : redis.Logs appended) {low envelope : BoardMutationEnvelope}
    (hlow : scored low ∈ redis.events.entries) (hmem : envelope ∈ appended)
    (hlt : low.seq < envelope.seq) : scored envelope ∈ redis.events.entries := by
  rw [h] at hlow ⊢
  have hentry := (perm_bySeq appended).mem_iff.mpr (List.mem_map_of_mem hmem)
  exact mem_topScores_of_lt (ascending_bySeq appended) hlow hentry hlt

/-- Appending a frame of a new number. -/
theorem appendToReplayLog (h : redis.Logs appended) {envelope : BoardMutationEnvelope}
    (hnew : envelope ∉ appended) :
    (redis.appendToReplayLog envelope).Logs (appended ++ [envelope]) := by
  have hfresh : envelope ∉ redis.events.entries.map Prod.snd := by
    intro hmem
    obtain ⟨entry, hentry, rfl⟩ := List.mem_map.mp hmem
    exact hnew (h.mem_appended hentry).1
  unfold Logs BoardRedis.appendToReplayLog
  rw [SortedSet.entries_zRemRangeByRank, SortedSet.entries_zAdd envelope.seq hfresh, h,
    bySeq_concat]
  exact topScores_insert _ _ (ascending_bySeq appended)

/-- Appending frames of distinct numbers, in any order. -/
theorem foldl (h : redis.Logs appended) {frames : List BoardMutationEnvelope}
    (hnodup : (appended ++ frames).Nodup) :
    (frames.foldl BoardRedis.appendToReplayLog redis).Logs (appended ++ frames) := by
  induction frames generalizing redis appended with
  | nil => simpa using h
  | cons envelope rest ih =>
      rw [List.foldl_cons, ← List.singleton_append, ← List.append_assoc]
      rw [← List.singleton_append, ← List.append_assoc] at hnodup
      apply ih (h.appendToReplayLog ?_) hnodup
      have hfirst := (List.nodup_append.mp hnodup).1
      rw [List.nodup_append] at hfirst
      exact fun hmem => hfirst.2.2 envelope hmem envelope List.mem_cons_self rfl

end BoardRedis.Logs

end FlowLogix.Realtime

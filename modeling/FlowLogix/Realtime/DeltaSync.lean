/-
  Realtime/DeltaSync.lean --- delta-sync while no frame is being published
  (backend/src/realtime/realtime.gateway.ts).

  The frames 1 to n were appended to the replay log in some order, and nothing else
  is going on.  A client joins; the acknowledgement makes it ask for what it
  missed; the answer makes it apply the replay or reload.  The log is the last
  `replayLogMaxEvents` numbers (`seqs_of_logs`), so the answer to `lastSeq` is
  those of them above it, and the client's test for a gap decides between the two.
-/
import FlowLogix.Realtime.BoardSocketManager

set_option autoImplicit false

namespace FlowLogix.Realtime

open FlowLogix.Foundation FlowLogix.Server

/-! ## The gateway -/

/-- `handleSync`, the two reads one after the other. -/
def handleSync (boardId : JsString) (redis : BoardRedis) (lastSeq : Nat) : BoardSyncResult where
  boardId := boardId
  events := redis.getMissedEvents lastSeq
  headSeq := redis.currentSequence

/-- The number a `board:sync` is sent with. -/
def requested : Effect → Option Nat
  | .sync lastSeq => some lastSeq
  | _ => none

/-- The exchange `board:joined`, `board:sync`, `board:sync:result`. -/
def BoardSocketManager.deltaSync (manager : BoardSocketManager) (redis : BoardRedis)
    (store : KeyValueStore) : Handled :=
  let joined := manager.onJoined store redis.currentSequence
  match joined.effects.findSome? requested with
  | none => joined
  | some lastSeq =>
      let answered := manager.onSyncResult joined.store (handleSync manager.boardId redis lastSeq)
      { answered with effects := joined.effects ++ answered.effects }

/-- The frames `frames`, numbered 1 to `n`, were appended in this order. -/
def BoardRedis.quiet (n : Nat) (frames : List BoardMutationEnvelope) : BoardRedis :=
  frames.foldl BoardRedis.appendToReplayLog (BoardRedis.nextSequence^[n] .empty)

theorem BoardRedis.seq_nextSequence_iterate (n : Nat) (redis : BoardRedis) :
    (BoardRedis.nextSequence^[n] redis).seq = redis.seq + n ∧
      (BoardRedis.nextSequence^[n] redis).events = redis.events := by
  induction n generalizing redis with
  | zero => simp
  | succ n ih =>
      rw [Function.iterate_succ_apply]
      obtain ⟨hseq, hevents⟩ := ih redis.nextSequence
      refine ⟨?_, hevents⟩
      rw [hseq, seq_nextSequence]
      omega

theorem BoardRedis.seq_foldl_appendToReplayLog (frames : List BoardMutationEnvelope)
    (redis : BoardRedis) :
    (frames.foldl BoardRedis.appendToReplayLog redis).seq = redis.seq := by
  induction frames generalizing redis with
  | nil => rfl
  | cons envelope rest ih => exact ih _

/-! ## The log of a quiet board -/

section

variable {n : Nat} {frames : List BoardMutationEnvelope}

/-- In ascending order the numbers are 1 to `n`. -/
theorem seqs_bySeq (hframes : (frames.map BoardMutationEnvelope.seq).Perm (List.range' 1 n)) :
    (bySeq frames).map Prod.fst = List.range' 1 n := by
  have hperm : ((bySeq frames).map Prod.fst).Perm (List.range' 1 n) := by
    refine ((perm_bySeq frames).map Prod.fst).trans ?_
    rw [List.map_map]
    exact hframes
  refine hperm.eq_of_pairwise (fun a b _ _ hab hba => Nat.le_antisymm hab hba) ?_ ?_
  · exact List.pairwise_map.mpr (ascending_bySeq frames)
  · exact List.pairwise_le_range'

/-- The log of a quiet board holds the last numbers, each with its frame. -/
theorem BoardRedis.quiet_logs
    (hframes : (frames.map BoardMutationEnvelope.seq).Perm (List.range' 1 n)) :
    (BoardRedis.quiet n frames).Logs frames := by
  have hnodup : frames.Nodup := (hframes.nodup_iff.mpr List.nodup_range').of_map
  have hstart : (BoardRedis.nextSequence^[n] .empty).Logs [] := by
    rw [Logs, (seq_nextSequence_iterate n .empty).2]
    exact logs_empty
  exact hstart.foldl (by simpa using hnodup)

theorem BoardRedis.quiet_seq (n : Nat) (frames : List BoardMutationEnvelope) :
    (BoardRedis.quiet n frames).seq = n := by
  rw [quiet, seq_foldl_appendToReplayLog, (seq_nextSequence_iterate n .empty).1]
  simp [BoardRedis.empty]

end

theorem drop_range' (start n k : Nat) :
    (List.range' start n).drop k = List.range' (start + k) (n - k) := by
  rw [List.drop_range']
  simp

theorem filter_le_range' (bound start n : Nat) :
    (List.range' start n).filter (fun s => decide (bound ≤ s)) =
      List.range' (max bound start) (start + n - max bound start) := by
  induction n generalizing start with
  | zero => simp
  | succ n ih =>
      rw [List.range'_succ, List.filter_cons, ih]
      rcases Nat.lt_or_ge start bound with hlt | hge
      · rw [if_neg (by simpa using hlt)]
        congr 1 <;> omega
      · rw [if_pos (by simpa using hge), Nat.max_eq_right hge, Nat.max_eq_right (by omega),
          show start + (n + 1) - start = n + 1 by omega, List.range'_succ,
          show start + 1 + n - (start + 1) = n by omega]

section

variable {n : Nat} {frames : List BoardMutationEnvelope}

/-- The numbers of the replay: those above `lastSeq` among the last ones. -/
theorem seqs_getMissedEvents {redis : BoardRedis} (hlogs : redis.Logs frames)
    (hframes : (frames.map BoardMutationEnvelope.seq).Perm (List.range' 1 n)) (lastSeq : Nat) :
    (redis.getMissedEvents lastSeq).map BoardMutationEnvelope.seq =
        List.range' (max lastSeq (n - replayLogMaxEvents) + 1)
          (n - max lastSeq (n - replayLogMaxEvents)) ∧
      ∀ envelope ∈ redis.getMissedEvents lastSeq, envelope ∈ frames := by
  have hseqs : redis.events.entries.map Prod.fst =
      List.range' (1 + (n - replayLogMaxEvents)) (n - (n - replayLogMaxEvents)) := by
    have hlength : (bySeq frames).length = n := by
      have hmap := congrArg List.length (seqs_bySeq hframes)
      simpa using hmap
    rw [hlogs, topScores, List.map_drop, seqs_bySeq hframes, hlength, drop_range']
  constructor
  · -- every entry is scored by its number, so filtering the entries filters the numbers
    have hscored : (redis.getMissedEvents lastSeq).map BoardMutationEnvelope.seq =
        (redis.events.entries.map Prod.fst).filter fun s => decide (lastSeq + 1 ≤ s) := by
      rw [BoardRedis.getMissedEvents, SortedSet.zRangeByScore, List.filter_map, List.map_map]
      simp only [Nat.zero_le, sup_of_le_right, Function.comp_def]
      refine List.map_congr_left fun entry hentry => ?_
      exact (hlogs.mem_appended (List.mem_of_mem_filter hentry)).2.symm
    rw [hscored, hseqs, filter_le_range',
      show max (lastSeq + 1) (1 + (n - replayLogMaxEvents)) =
        max lastSeq (n - replayLogMaxEvents) + 1 by omega]
    exact congrArg (List.range' _) (by omega)
  · intro envelope henvelope
    obtain ⟨entry, hentry, rfl⟩ := List.mem_map.mp henvelope
    exact (hlogs.mem_appended (List.mem_of_mem_filter hentry)).1

end

/-! ## The exchange -/

namespace BoardSocketManager

variable (manager : BoardSocketManager) (store : KeyValueStore)

/-- A client behind the head asks for what it missed and handles the answer. -/
theorem deltaSync_of_lt {redis : BoardRedis} (h : manager.getLastSeq store < redis.seq) :
    manager.deltaSync redis store =
      { store := (manager.onSyncResult store
          (handleSync manager.boardId redis (manager.getLastSeq store))).store
        effects := [.status .connected, .sync (manager.getLastSeq store)] ++
          (manager.onSyncResult store
            (handleSync manager.boardId redis (manager.getLastSeq store))).effects } := by
  simp only [deltaSync, BoardRedis.currentSequence_eq, manager.onJoined_of_behind h]
  rfl

/-- A client at the head does without. -/
theorem deltaSync_of_eq {redis : BoardRedis} (h : manager.getLastSeq store = redis.seq) :
    manager.deltaSync redis store =
      { store := store, effects := [.status .connected, .status .synced] } := by
  simp only [deltaSync, BoardRedis.currentSequence_eq, manager.onJoined_of_eq h]
  rfl

variable {manager store}

/-- A replay of consecutive numbers has a gap when its first number skips one. -/
theorem hasGap_of_consecutive {result : BoardSyncResult} {first length : Nat} (lastSeq : Nat)
    (hseq : result.events.map BoardMutationEnvelope.seq = List.range' first (length + 1)) :
    hasGap lastSeq result = decide (first > lastSeq + 1) := by
  rw [List.range'_succ] at hseq
  obtain ⟨envelope, rest, hevents, hfirst, -⟩ := List.map_eq_cons_iff.mp hseq
  simp [hasGap, hevents, hfirst]

end BoardSocketManager

/-- **Delta-sync is exact when the pipeline is quiet.** A client that missed at most
`replayLogMaxEvents` of the frames 1 to `n` is handed exactly the ones it missed, in
order, without a signal to reload; one that missed more is handed none, is
told to reload, and is set to `n`. -/
theorem deltaSync_exact (manager : BoardSocketManager) (store : KeyValueStore) {n : Nat}
    {frames : List BoardMutationEnvelope}
    (hframes : (frames.map BoardMutationEnvelope.seq).Perm (List.range' 1 n))
    (hlast : manager.getLastSeq store ≤ n) :
    let handled := manager.deltaSync (.quiet n frames) store
    let missed := n - manager.getLastSeq store
    (missed ≤ replayLogMaxEvents →
        (handed handled.effects).map BoardMutationEnvelope.seq =
            List.range' (manager.getLastSeq store + 1) missed ∧
          (∀ envelope ∈ handed handled.effects, envelope ∈ frames) ∧
          Effect.needsResync ∉ handled.effects ∧ manager.getLastSeq handled.store = n) ∧
      (replayLogMaxEvents < missed →
        handed handled.effects = [] ∧ Effect.needsResync ∈ handled.effects ∧
          manager.getLastSeq handled.store = n) := by
  intro handled missed
  rcases hlast.eq_or_lt with heq | hlt
  · have hhandled := manager.deltaSync_of_eq store (heq.trans (BoardRedis.quiet_seq n frames).symm)
    have hmissed : missed = 0 := by simp [missed, heq]
    simp only [handled, hhandled, hmissed]
    simp [heq]
  · have hbehind : manager.getLastSeq store < (BoardRedis.quiet n frames).seq := by
      rwa [BoardRedis.quiet_seq]
    have hhandled := manager.deltaSync_of_lt store hbehind
    obtain ⟨hseqs, hmem⟩ := seqs_getMissedEvents (BoardRedis.quiet_logs hframes) hframes
      (manager.getLastSeq store)
    -- the answer holds the numbers `first` to `n`
    obtain ⟨first, hfirst⟩ : ∃ first, first =
        max (manager.getLastSeq store) (n - replayLogMaxEvents) := ⟨_, rfl⟩
    obtain ⟨length, hlength⟩ : ∃ length, n - first = length + 1 :=
      Nat.exists_eq_add_one.mpr (by rw [hfirst, replayLogMaxEvents]; omega)
    rw [← hfirst, hlength] at hseqs
    obtain ⟨result, hresult⟩ : ∃ result, result =
        handleSync manager.boardId (.quiet n frames) (manager.getLastSeq store) := ⟨_, rfl⟩
    have hevents : result.events =
        (BoardRedis.quiet n frames).getMissedEvents (manager.getLastSeq store) := by
      rw [hresult, handleSync]
    have hhead : result.headSeq = n := by
      rw [hresult]
      exact BoardRedis.quiet_seq n frames
    rw [← hresult] at hhandled
    rw [← hevents] at hseqs hmem
    have hgap := BoardSocketManager.hasGap_of_consecutive (manager.getLastSeq store) hseqs
    have hlimit : replayLogMaxEvents = 500 := rfl
    constructor
    · intro hle
      have hstart : first = manager.getLastSeq store := by omega
      have hnogap : BoardSocketManager.hasGap (manager.getLastSeq store) result = false := by
        rw [hgap]
        exact decide_eq_false (by omega)
      have hcount : result.events.length = missed := by
        have hmap := congrArg List.length hseqs
        simp only [List.length_map, List.length_range'] at hmap
        omega
      obtain ⟨hhanded, hsignal, hstore⟩ := manager.onSyncResult_of_consecutive hnogap
        (by rw [hseqs, hcount, hstart, show length + 1 = missed by omega])
      simp only [handled, hhandled]
      refine ⟨?_, ?_, ?_, ?_⟩
      · simp [hhanded, hseqs, hstart, show length + 1 = missed by omega]
      · simpa [hhanded] using hmem
      · simpa using hsignal
      · rw [hstore, hcount]
        omega
    · intro hgt
      have hisgap : BoardSocketManager.hasGap (manager.getLastSeq store) result = true := by
        rw [hgap]
        exact decide_eq_true (by omega)
      simp only [handled, hhandled, manager.onSyncResult_of_gap hisgap, hhead]
      simp

/-- The frames 1 to 3, of which 2 was appended first; the client had applied 1. -/
theorem deltaSync_swapped :
    (handed (Sample.manager.deltaSync (.quiet 3 [Sample.frame 2, Sample.frame 1, Sample.frame 3])
      (Sample.applied 1)).effects).map BoardMutationEnvelope.seq = [2, 3] := by
  have hlast : Sample.manager.getLastSeq (Sample.applied 1) = 1 :=
    Sample.manager.getLastSeq_setLastSeq ∅ 1
  have hexact := (@deltaSync_exact Sample.manager (Sample.applied 1) 3
    [Sample.frame 2, Sample.frame 1, Sample.frame 3] (List.Perm.swap 1 2 [3]) (by omega)).1
  rw [hlast] at hexact
  exact (hexact (by decide)).1

end FlowLogix.Realtime

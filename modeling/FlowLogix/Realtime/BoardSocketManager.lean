/-
  Realtime/BoardSocketManager.lean --- the client of the live board
  (frontend/src/realtime/boardSocketManager.ts).

  A handler reads and writes the number of the last applied frame, which is kept
  in a key-value store under a key of the board, and acts on the outside: it hands
  frames to the mutation listeners, signals that the board has to be reloaded,
  reports its status, and asks the server for the frames it missed.  `Handled` is
  what a handler leaves in the store together with these effects, in order.

  The store keeps the number as decimal text and reads it back with `Number`; here
  it keeps the number.  The queue of the user's own changes, which a join flushes
  and which never touches the applied number, is left out.
-/
import FlowLogix.Realtime.ReplayLog
import FlowLogix.Foundation.Dict

set_option autoImplicit false

namespace FlowLogix.Realtime

open FlowLogix.Foundation FlowLogix.Server

/-- `KeyValueStore`, with the numbers its entries spell. -/
abbrev KeyValueStore : Type := Dict JsString Nat

/-- `BoardConnectionStatus`. -/
inductive BoardConnectionStatus where
  | connecting
  | connected
  | synced
  | disconnected
  deriving DecidableEq, Repr

/-- What a handler does to the outside. -/
inductive Effect where
  /-- every mutation listener is called with the frame -/
  | mutation (envelope : BoardMutationEnvelope)
  /-- `onNeedsResync` -/
  | needsResync
  | status (status : BoardConnectionStatus)
  /-- `board:sync` is sent -/
  | sync (lastSeq : Nat)
  deriving DecidableEq

/-- The store a handler leaves and its effects, in order. -/
structure Handled where
  store : KeyValueStore
  effects : List Effect

/-- `BoardSocketManager`, of one board. -/
structure BoardSocketManager where
  boardId : JsString

namespace BoardSocketManager

variable (manager : BoardSocketManager) (store : KeyValueStore)

def seqKey : JsString := js "logixflow:lastSeq:" ++ manager.boardId

/-- `getLastSeq`: 0 when the store has no number. -/
def getLastSeq : Nat := (store.lookup manager.seqKey).getD 0

def setLastSeq (seq : Nat) : KeyValueStore := store.insert manager.seqKey seq

@[simp] theorem getLastSeq_setLastSeq (seq : Nat) :
    manager.getLastSeq (manager.setLastSeq store seq) = seq := by
  simp [getLastSeq, setLastSeq]

/-- `requestSync`. -/
def requestSync : Effect := .sync (manager.getLastSeq store)

/-- `applyInOrder`: a frame that is not above the last applied one is dropped. -/
def applyInOrder (handled : Handled) (envelope : BoardMutationEnvelope) : Handled :=
  if envelope.seq ≤ manager.getLastSeq handled.store then handled
  else
    { store := manager.setLastSeq handled.store envelope.seq
      effects := handled.effects ++ [.mutation envelope] }

/-- `handleIncoming`: the handler of `board:mutation`. -/
def handleIncoming (envelope : BoardMutationEnvelope) : Handled :=
  let lastSeq := manager.getLastSeq store
  if envelope.seq ≤ lastSeq then { store := store, effects := [] }
  else if envelope.seq > lastSeq + 1 then
    { store := store, effects := [manager.requestSync store] }
  else manager.applyInOrder { store := store, effects := [] } envelope

/-- The handler of `board:joined`. -/
def onJoined (headSeq : Nat) : Handled :=
  let lastSeq := manager.getLastSeq store
  if lastSeq > headSeq then
    { store := manager.setLastSeq store headSeq
      effects := [.status .connected, .needsResync, .status .synced] }
  else if headSeq > lastSeq then
    { store := store, effects := [.status .connected, manager.requestSync store] }
  else { store := store, effects := [.status .connected, .status .synced] }

/-- `hasGap`: the replay skips ahead of the last applied frame, or is empty although
the server is ahead. -/
def hasGap (lastSeq : Nat) (result : BoardSyncResult) : Bool :=
  match result.events with
  | [] => result.headSeq > lastSeq
  | first :: _ => first.seq > lastSeq + 1

/-- The handler of `board:sync:result`. -/
def onSyncResult (result : BoardSyncResult) : Handled :=
  if hasGap (manager.getLastSeq store) result then
    { store := manager.setLastSeq store result.headSeq
      effects := [.needsResync, .status .synced] }
  else
    let handled := result.events.foldl manager.applyInOrder { store := store, effects := [] }
    let status := if result.headSeq > manager.getLastSeq handled.store then .connected else .synced
    { handled with effects := handled.effects ++ [.status status] }

end BoardSocketManager

/-! ## Reading the effects -/

/-- The frames handed to the listeners, in order. -/
def handed (effects : List Effect) : List BoardMutationEnvelope :=
  effects.filterMap fun
    | .mutation envelope => some envelope
    | _ => none

@[simp] theorem handed_nil : handed [] = [] :=
  rfl

@[simp] theorem handed_append (effects effects' : List Effect) :
    handed (effects ++ effects') = handed effects ++ handed effects' :=
  List.filterMap_append

@[simp] theorem handed_mutation (envelope : BoardMutationEnvelope) (effects : List Effect) :
    handed (.mutation envelope :: effects) = envelope :: handed effects :=
  rfl

@[simp] theorem handed_needsResync (effects : List Effect) :
    handed (.needsResync :: effects) = handed effects :=
  rfl

@[simp] theorem handed_status (status : BoardConnectionStatus) (effects : List Effect) :
    handed (.status status :: effects) = handed effects :=
  rfl

@[simp] theorem handed_sync (lastSeq : Nat) (effects : List Effect) :
    handed (.sync lastSeq :: effects) = handed effects :=
  rfl

@[simp] theorem handed_map_mutation (events : List BoardMutationEnvelope) :
    handed (events.map Effect.mutation) = events := by
  induction events with
  | nil => rfl
  | cons envelope rest ih => rw [List.map_cons, handed_mutation, ih]

/-! ## Joining and applying a frame -/

namespace BoardSocketManager

variable (manager : BoardSocketManager)

section

variable {store : KeyValueStore} {headSeq : Nat} {envelope : BoardMutationEnvelope}

/-- The server's numbers were reset. -/
theorem onJoined_of_ahead (h : headSeq < manager.getLastSeq store) :
    manager.onJoined store headSeq =
      { store := manager.setLastSeq store headSeq
        effects := [.status .connected, .needsResync, .status .synced] } := by
  simp [onJoined, h]

/-- A client behind the head asks for what it missed. -/
theorem onJoined_of_behind (h : manager.getLastSeq store < headSeq) :
    manager.onJoined store headSeq =
      { store := store
        effects := [.status .connected, .sync (manager.getLastSeq store)] } := by
  simp [onJoined, requestSync, h, h.not_gt]

/-- A client at the head asks for nothing. -/
theorem onJoined_of_eq (h : manager.getLastSeq store = headSeq) :
    manager.onJoined store headSeq =
      { store := store, effects := [.status .connected, .status .synced] } := by
  simp [onJoined, h]

/-- A live frame that was applied already is dropped. -/
theorem handleIncoming_of_le (h : envelope.seq ≤ manager.getLastSeq store) :
    manager.handleIncoming store envelope = { store := store, effects := [] } := by
  simp [handleIncoming, h]

/-- The next live frame is handed over. -/
theorem handleIncoming_of_next (h : envelope.seq = manager.getLastSeq store + 1) :
    manager.handleIncoming store envelope =
      { store := manager.setLastSeq store envelope.seq, effects := [.mutation envelope] } := by
  simp [handleIncoming, applyInOrder, h]

/-- A live frame further ahead is dropped, and what is missing is asked for. -/
theorem handleIncoming_of_gap (h : manager.getLastSeq store + 1 < envelope.seq) :
    manager.handleIncoming store envelope =
      { store := store, effects := [.sync (manager.getLastSeq store)] } := by
  simp [handleIncoming, requestSync, h, show ¬ envelope.seq ≤ manager.getLastSeq store by omega]

end

/-! ## Applying a replay -/

/-- Frames of consecutive numbers from the last applied one on are all handed over. -/
theorem foldl_applyInOrder (handled : Handled) {events : List BoardMutationEnvelope}
    (hseq : events.map BoardMutationEnvelope.seq =
      List.range' (manager.getLastSeq handled.store + 1) events.length) :
    (events.foldl manager.applyInOrder handled).effects =
        handled.effects ++ events.map Effect.mutation ∧
      manager.getLastSeq (events.foldl manager.applyInOrder handled).store =
        manager.getLastSeq handled.store + events.length := by
  induction events generalizing handled with
  | nil => simp
  | cons envelope rest ih =>
      rw [List.map_cons, List.length_cons, List.range'_succ, List.cons.injEq] at hseq
      obtain ⟨hfirst, hrest⟩ := hseq
      have happly : manager.applyInOrder handled envelope =
          { store := manager.setLastSeq handled.store envelope.seq
            effects := handled.effects ++ [.mutation envelope] } := by
        rw [applyInOrder, if_neg (by omega)]
      obtain ⟨heffects, hlast⟩ := ih (manager.applyInOrder handled envelope) (by
        rw [happly, hrest, getLastSeq_setLastSeq, hfirst])
      rw [List.foldl_cons, heffects, hlast, happly]
      constructor
      · simp
      · rw [getLastSeq_setLastSeq, List.length_cons]
        omega

/-- Of frames in ascending order, those above the last applied one are handed over. -/
theorem foldl_applyInOrder_of_ascending (handled : Handled) {events : List BoardMutationEnvelope}
    (h : events.Pairwise fun e e' => e.seq < e'.seq) :
    (events.foldl manager.applyInOrder handled).effects = handled.effects ++
        (events.filter fun e => manager.getLastSeq handled.store < e.seq).map Effect.mutation ∧
      manager.getLastSeq (events.foldl manager.applyInOrder handled).store =
        ((events.filter fun e => manager.getLastSeq handled.store < e.seq).getLast?.map
          BoardMutationEnvelope.seq).getD (manager.getLastSeq handled.store) := by
  induction events generalizing handled with
  | nil => simp
  | cons envelope rest ih =>
      rw [List.pairwise_cons] at h
      rw [List.foldl_cons, List.filter_cons]
      rcases Nat.lt_or_ge (manager.getLastSeq handled.store) envelope.seq with habove | hbelow
      · have happly : manager.applyInOrder handled envelope =
            { store := manager.setLastSeq handled.store envelope.seq
              effects := handled.effects ++ [.mutation envelope] } := by
          rw [applyInOrder, if_neg (by omega)]
        -- the frames after this one are above both numbers
        have hkeep : ∀ bound, bound ≤ envelope.seq →
            (rest.filter fun e => decide (bound < e.seq)) = rest := by
          intro bound hbound
          rw [List.filter_eq_self]
          intro e he
          have hlt := h.1 e he
          exact decide_eq_true (by omega)
        obtain ⟨heffects, hlast⟩ := ih (manager.applyInOrder handled envelope) h.2
        rw [heffects, hlast, happly, if_pos (decide_eq_true habove), getLastSeq_setLastSeq,
          hkeep _ le_rfl, hkeep _ habove.le]
        refine ⟨by simp, ?_⟩
        cases rest with
        | nil => simp
        | cons e rest => simp [List.getLast?_cons]
      · have happly : manager.applyInOrder handled envelope = handled := by
          rw [applyInOrder, if_pos hbelow]
        rw [happly, if_neg (by simpa using hbelow)]
        exact ih handled h.2

variable {store : KeyValueStore} {result : BoardSyncResult}

theorem onSyncResult_of_gap (h : hasGap (manager.getLastSeq store) result = true) :
    manager.onSyncResult store result =
      { store := manager.setLastSeq store result.headSeq
        effects := [.needsResync, .status .synced] } := by
  rw [onSyncResult, if_pos h]

/-- A replay without a gap ends in a status. -/
theorem onSyncResult_of_noGap (h : hasGap (manager.getLastSeq store) result = false) :
    ∃ status, manager.onSyncResult store result =
      { store := (result.events.foldl manager.applyInOrder { store := store, effects := [] }).store
        effects := (result.events.foldl manager.applyInOrder
          { store := store, effects := [] }).effects ++ [.status status] } := by
  rw [onSyncResult, if_neg (by simp [h])]
  exact ⟨_, rfl⟩

/-- A replay of the consecutive numbers from the last applied one on is handed over as it
is, without a signal to reload. -/
theorem onSyncResult_of_consecutive (h : hasGap (manager.getLastSeq store) result = false)
    (hseq : result.events.map BoardMutationEnvelope.seq =
      List.range' (manager.getLastSeq store + 1) result.events.length) :
    handed (manager.onSyncResult store result).effects = result.events ∧
      Effect.needsResync ∉ (manager.onSyncResult store result).effects ∧
      manager.getLastSeq (manager.onSyncResult store result).store =
        manager.getLastSeq store + result.events.length := by
  obtain ⟨heffects, hlast⟩ := manager.foldl_applyInOrder { store := store, effects := [] } hseq
  obtain ⟨status, hresult⟩ := manager.onSyncResult_of_noGap h
  rw [hresult, heffects]
  refine ⟨?_, ?_, hlast⟩
  · simp
  · simp

end BoardSocketManager

/-! ## A sample board -/

namespace Sample

/-- A frame of the board, by number. -/
def frame (seq : Nat) : BoardMutationEnvelope where
  seq := seq
  boardId := js "b1"
  type := .cardUpdated
  payload := { cardId := some (js "c1"), listId := some (js "l1"), positionIdx := none }
  ts := 0

def manager : BoardSocketManager where
  boardId := js "b1"

/-- The store of a client that applied the frames up to `lastSeq`. -/
def applied (lastSeq : Nat) : KeyValueStore := manager.setLastSeq ∅ lastSeq

end Sample

end FlowLogix.Realtime

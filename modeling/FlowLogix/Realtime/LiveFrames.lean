/-
  Realtime/LiveFrames.lean --- one client of a live board
  (backend/src/realtime/realtime.gateway.ts).

  Emits take numbers, append and publish in any interleaving.  The gateway relays the
  published frames in their order to a client in the board's room, and answers its
  joins and syncs; an answer reads Redis in steps, and between two of them anything
  can happen.  The client handles what reaches it, one message at a time, and loses
  what is on the way when it disconnects.  Its organization owns the board.

  `history` records what the client's listeners see: the frames handed over and the
  signals to reload, each with the number the client goes on from.  A live frame and
  a join never skip a number.  A replay does when a number above the client's is
  missing in it, which takes a log that was read while the frame of that number was
  not appended yet.
-/
import FlowLogix.Realtime.Broadcast
import FlowLogix.Realtime.BoardSocketManager
import FlowLogix.Foundation.Steps

set_option autoImplicit false

namespace FlowLogix.Realtime

open FlowLogix.Foundation FlowLogix.Server

/-! ## The system -/

/-- A message of the client. -/
inductive ClientMessage where
  | join
  | sync (lastSeq : Nat)
  deriving DecidableEq

/-- A message of the gateway. -/
inductive ServerMessage where
  | joined (headSeq : Nat)
  | mutation (envelope : BoardMutationEnvelope)
  | syncResult (result : BoardSyncResult)
  deriving DecidableEq

/-- A message of the client that is being answered, with what was read for it. -/
inductive Request where
  /-- `handleJoin`, up to `client.join` -/
  | joining
  /-- in the room, before `currentSequence` -/
  | inRoom
  | joinHead (headSeq : Nat)
  /-- `handleSync`, up to `getMissedEvents` -/
  | syncing (lastSeq : Nat)
  /-- before `currentSequence` -/
  | syncEvents (events : List BoardMutationEnvelope)
  | syncHead (result : BoardSyncResult)
  deriving DecidableEq

/-- What the client's listeners see, with the number it goes on from. -/
inductive Signal where
  | handed (seq : Nat)
  | needsResync (seq : Nat)
  deriving DecidableEq, Repr

def Signal.seq : Signal → Nat
  | .handed seq => seq
  | .needsResync seq => seq

@[simp] theorem Signal.seq_handed (seq : Nat) : (Signal.handed seq).seq = seq :=
  rfl

@[simp] theorem Signal.seq_needsResync (seq : Nat) : (Signal.needsResync seq).seq = seq :=
  rfl

/-- The board with its gateway and one client. -/
structure LiveBoard where
  broadcast : Broadcast
  /-- how many of the published frames the gateway has relayed -/
  relayed : Nat
  inRoom : Bool
  connected : Bool
  toServer : List ClientMessage
  requests : List Request
  toClient : List ServerMessage
  store : KeyValueStore
  history : List Signal

/-- A step of one of the parties. -/
inductive Action where
  | emit (s : EmitStep)
  /-- the gateway takes the next published frame -/
  | relay
  | connect
  | disconnect
  /-- the gateway takes the client's next message -/
  | receive
  /-- the gateway goes on with one of its answers -/
  | progress (request : Nat)
  /-- the client handles the gateway's next message -/
  | deliver

/-- What the gateway does with a message of the client. -/
def ClientMessage.request : ClientMessage → Request
  | .join => .joining
  | .sync lastSeq => .syncing lastSeq

/-- The client's handler of a message. -/
def BoardSocketManager.handle (manager : BoardSocketManager) (store : KeyValueStore) :
    ServerMessage → Handled
  | .joined headSeq => manager.onJoined store headSeq
  | .mutation envelope => manager.handleIncoming store envelope
  | .syncResult result => manager.onSyncResult store result

/-- The messages a handler sends. -/
def Handled.sent (handled : Handled) : List ClientMessage :=
  handled.effects.filterMap fun
    | .sync lastSeq => some (.sync lastSeq)
    | _ => none

/-- What the listeners see of a handler. -/
def BoardSocketManager.signals (manager : BoardSocketManager) (handled : Handled) : List Signal :=
  handled.effects.filterMap fun
    | .mutation envelope => some (.handed envelope.seq)
    | .needsResync => some (.needsResync (manager.getLastSeq handled.store))
    | _ => none

namespace LiveBoard

/-- A board nothing was emitted on, and a client that is not connected yet, with the
board it last loaded. -/
def opened (manager : BoardSocketManager) (store : KeyValueStore) : LiveBoard where
  broadcast := .empty
  relayed := 0
  inRoom := false
  connected := false
  toServer := []
  requests := []
  toClient := []
  store := store
  history := [.needsResync (manager.getLastSeq store)]

/-- One more step of an answer. -/
def answer (boardId : JsString) (board : LiveBoard) (i : Nat) : Request → LiveBoard
  | .joining => { board with inRoom := true, requests := board.requests.set i .inRoom }
  | .inRoom =>
      { board with
        requests := board.requests.set i (.joinHead board.broadcast.redis.currentSequence) }
  | .joinHead headSeq =>
      { board with
        requests := board.requests.eraseIdx i
        toClient := board.toClient ++ [.joined headSeq] }
  | .syncing lastSeq =>
      { board with
        requests := board.requests.set i
          (.syncEvents (board.broadcast.redis.getMissedEvents lastSeq)) }
  | .syncEvents events =>
      { board with
        requests := board.requests.set i (.syncHead
          { boardId := boardId
            events := events
            headSeq := board.broadcast.redis.currentSequence }) }
  | .syncHead result =>
      { board with
        requests := board.requests.eraseIdx i
        toClient := board.toClient ++ [.syncResult result] }

/-- The client handles a message. -/
def handle (manager : BoardSocketManager) (board : LiveBoard) (message : ServerMessage)
    (rest : List ServerMessage) : LiveBoard :=
  let handled := manager.handle board.store message
  { board with
    toClient := rest
    toServer := board.toServer ++ handled.sent
    store := handled.store
    history := board.history ++ manager.signals handled }

/-- One step. -/
def step (manager : BoardSocketManager) (board : LiveBoard) : Action → Option LiveBoard
  | .emit s =>
      (board.broadcast.step manager.boardId s).map fun broadcast =>
        { board with broadcast := broadcast }
  | .relay =>
      board.broadcast.published[board.relayed]?.map fun envelope =>
        { board with
          relayed := board.relayed + 1
          toClient := if board.inRoom then board.toClient ++ [.mutation envelope]
            else board.toClient }
  | .connect =>
      if board.connected then none
      else some { board with connected := true, toServer := [.join] }
  | .disconnect =>
      some { board with
        inRoom := false
        connected := false
        toServer := []
        requests := []
        toClient := [] }
  | .receive =>
      match board.toServer with
      | [] => none
      | message :: rest =>
          some { board with toServer := rest, requests := board.requests ++ [message.request] }
  | .progress i => board.requests[i]?.map (board.answer manager.boardId i)
  | .deliver =>
      match board.toClient with
      | [] => none
      | message :: rest => some (board.handle manager message rest)

end LiveBoard

/-! ## Skipped numbers -/

/-- A frame is the one after what the client went on from. -/
def Follows (a : Signal) : Signal → Prop
  | .handed seq => seq = a.seq + 1
  | .needsResync _ => True

/-- No number is skipped without a signal to reload: every frame handed over has the number
after the one before it, or after the one a reload goes on from. -/
def Gapless (history : List Signal) : Prop := history.IsChain Follows

/-- Above `lastSeq` the replay jumps over a number. -/
def Skips (result : BoardSyncResult) (lastSeq : Nat) : Prop :=
  ∃ envelope ∈ result.events, ∃ skipped, lastSeq < skipped ∧ skipped < envelope.seq ∧
    skipped ∉ result.events.map BoardMutationEnvelope.seq

/-- The client is about to handle a replay that jumps over a number and that it takes to
have no gap. -/
def LiveBoard.ReplaysOver (manager : BoardSocketManager) (board : LiveBoard) : Action → Prop
  | .deliver => ∃ result, board.toClient.head? = some (.syncResult result) ∧
      BoardSocketManager.hasGap (manager.getLastSeq board.store) result = false ∧
      Skips result (manager.getLastSeq board.store)
  | _ => False

/-- The gateway is about to read the log for a sync while a frame is numbered but not yet
appended, and frames above the client's number are logged on both sides of it. -/
def LiveBoard.ReadsAround (board : LiveBoard) : Action → Prop
  | .progress i => ∃ lastSeq, board.requests[i]? = some (.syncing lastSeq) ∧
      ∃ envelope ∈ board.broadcast.numbered,
        (∃ low ∈ board.broadcast.redis.getMissedEvents lastSeq, low.seq < envelope.seq) ∧
        ∃ high ∈ board.broadcast.redis.getMissedEvents lastSeq, envelope.seq < high.seq
  | _ => False

/-! ## What a handler adds to the history -/

/-- A chain of frames above `a` follows it when no number in between is left out. -/
theorem isChain_handed_iff (a : Signal) {seqs : List Nat}
    (h : (a.seq :: seqs).Pairwise (· < ·)) :
    (a :: seqs.map Signal.handed).IsChain Follows ↔
      ∀ seq ∈ seqs, ∀ skipped, a.seq < skipped → skipped < seq → skipped ∈ seqs := by
  induction seqs generalizing a with
  | nil => simp
  | cons seq rest ih =>
      obtain ⟨hhead, htail⟩ := List.pairwise_cons.mp h
      have hfirst := hhead seq List.mem_cons_self
      have hrest := (List.pairwise_cons.mp htail).1
      rw [List.map_cons, List.isChain_cons_cons, ih (.handed seq) htail]
      simp only [Follows, Signal.seq_handed]
      constructor
      · rintro ⟨hnext, hnone⟩ s hs skipped hlow hhigh
        rcases List.mem_cons.mp hs with rfl | hs
        · omega
        · rcases Nat.eq_or_lt_of_le (show seq ≤ skipped by omega) with heq | hlt
          · rw [heq]
            exact List.mem_cons_self
          · exact List.mem_cons_of_mem _ (hnone s hs skipped hlt hhigh)
      · intro hnone
        constructor
        · by_contra hne
          have hmem := hnone seq List.mem_cons_self (a.seq + 1) (by omega) (by omega)
          rcases List.mem_cons.mp hmem with heq | hmem
          · exact hne heq.symm
          · have hlt := hrest _ hmem
            omega
        · intro s hs skipped hlow hhigh
          have hmem := hnone s (List.mem_cons_of_mem _ hs) skipped (by omega) hhigh
          rcases List.mem_cons.mp hmem with heq | hmem
          · omega
          · exact hmem

section

variable {manager : BoardSocketManager} {store : KeyValueStore}

/-- The history goes on from `a` without a skipped number, and the client goes on from its
last signal. -/
structure GoesOn (manager : BoardSocketManager) (a : Signal) (handled : Handled) : Prop where
  chain : (a :: manager.signals handled).IsChain Follows
  last : ((a :: manager.signals handled).getLast?).map Signal.seq =
    some (manager.getLastSeq handled.store)

/-- An acknowledgement of a join skips nothing. -/
theorem goesOn_onJoined {a : Signal} (ha : a.seq = manager.getLastSeq store) (headSeq : Nat) :
    GoesOn manager a (manager.onJoined store headSeq) := by
  rcases lt_trichotomy (manager.getLastSeq store) headSeq with hlt | heq | hgt
  · rw [manager.onJoined_of_behind hlt]
    constructor
    · simp [BoardSocketManager.signals]
    · simp [BoardSocketManager.signals, ha]
  · rw [manager.onJoined_of_eq heq]
    constructor
    · simp [BoardSocketManager.signals]
    · simp [BoardSocketManager.signals, ha]
  · rw [manager.onJoined_of_ahead hgt]
    constructor
    · simp [BoardSocketManager.signals, Follows]
    · simp [BoardSocketManager.signals]

/-- A live frame skips nothing. -/
theorem goesOn_handleIncoming {a : Signal} (ha : a.seq = manager.getLastSeq store)
    (envelope : BoardMutationEnvelope) :
    GoesOn manager a (manager.handleIncoming store envelope) := by
  rcases Nat.lt_or_ge (manager.getLastSeq store) envelope.seq with habove | hbelow
  · rcases Nat.eq_or_lt_of_le (show manager.getLastSeq store + 1 ≤ envelope.seq from habove)
      with hnext | hgap
    · rw [manager.handleIncoming_of_next hnext.symm]
      constructor
      · simp [BoardSocketManager.signals, Follows, ha, hnext]
      · simp [BoardSocketManager.signals]
    · rw [manager.handleIncoming_of_gap hgap]
      constructor
      · simp [BoardSocketManager.signals]
      · simp [BoardSocketManager.signals, ha]
  · rw [manager.handleIncoming_of_le hbelow]
    constructor
    · simp [BoardSocketManager.signals]
    · simp [BoardSocketManager.signals, ha]

/-- A replay that is seen to have a gap skips nothing. -/
theorem goesOn_onSyncResult_of_gap (a : Signal) {result : BoardSyncResult}
    (h : BoardSocketManager.hasGap (manager.getLastSeq store) result = true) :
    GoesOn manager a (manager.onSyncResult store result) := by
  rw [manager.onSyncResult_of_gap h]
  constructor
  · simp [BoardSocketManager.signals, Follows]
  · simp [BoardSocketManager.signals]

/-- A replay that is taken to have no gap skips a number exactly when it jumps over one. -/
theorem chain_onSyncResult {a : Signal} (ha : a.seq = manager.getLastSeq store)
    {result : BoardSyncResult}
    (h : BoardSocketManager.hasGap (manager.getLastSeq store) result = false)
    (hascending : result.events.Pairwise fun e e' => e.seq < e'.seq) :
    ((a :: manager.signals (manager.onSyncResult store result)).IsChain Follows ↔
        ¬ Skips result (manager.getLastSeq store)) ∧
      ((a :: manager.signals (manager.onSyncResult store result)).getLast?).map Signal.seq =
        some (manager.getLastSeq (manager.onSyncResult store result).store) := by
  obtain ⟨status, hresult⟩ := manager.onSyncResult_of_noGap h
  obtain ⟨heffects, hlast⟩ := manager.foldl_applyInOrder_of_ascending
    { store := store, effects := [] } hascending
  obtain ⟨above, habove⟩ : ∃ above, above =
    result.events.filter fun e => manager.getLastSeq store < e.seq := ⟨_, rfl⟩
  simp only [← habove] at heffects hlast
  have hsignals : manager.signals (manager.onSyncResult store result) =
      (above.map BoardMutationEnvelope.seq).map Signal.handed := by
    rw [hresult, BoardSocketManager.signals, heffects]
    simp [List.filterMap_map, Function.comp_def]
  have hmem : ∀ e, e ∈ above ↔ e ∈ result.events ∧ manager.getLastSeq store < e.seq := by
    intro e
    rw [habove, List.mem_filter, decide_eq_true_eq]
  have hpairwise : (a.seq :: above.map BoardMutationEnvelope.seq).Pairwise (· < ·) := by
    rw [List.pairwise_cons, List.pairwise_map, habove]
    refine ⟨?_, hascending.filter _⟩
    intro seq hseq
    obtain ⟨e, he, rfl⟩ := List.mem_map.mp hseq
    rw [ha]
    exact ((hmem e).mp (habove ▸ he)).2
  rw [hsignals]
  constructor
  · rw [isChain_handed_iff a hpairwise]
    simp only [Skips, List.mem_map, ha]
    constructor
    · rintro hnone ⟨envelope, henvelope, skipped, hlow, hhigh, hskipped⟩
      obtain ⟨e, he, hseq⟩ := hnone envelope.seq
        ⟨envelope, (hmem envelope).mpr ⟨henvelope, by omega⟩, rfl⟩ skipped hlow hhigh
      exact hskipped ⟨e, ((hmem e).mp he).1, hseq⟩
    · rintro hnone seq ⟨envelope, henvelope, rfl⟩ skipped hlow hhigh
      by_contra hskipped
      refine hnone ⟨envelope, ((hmem envelope).mp henvelope).1, skipped, hlow, hhigh, ?_⟩
      rintro ⟨e, he, hseq⟩
      exact hskipped ⟨e, (hmem e).mpr ⟨he, by omega⟩, hseq⟩
  · rw [hresult, hlast]
    cases hgetLast : above.getLast? with
    | none => simp [List.getLast?_cons, List.getLast?_map, hgetLast, ha]
    | some e => simp [List.getLast?_cons, List.getLast?_map, hgetLast]

/-- A message skips a number exactly when it is such a replay. -/
theorem chain_handle {a : Signal} (ha : a.seq = manager.getLastSeq store)
    {message : ServerMessage}
    (hascending : ∀ result, message = .syncResult result →
      result.events.Pairwise fun e e' => e.seq < e'.seq) :
    ((a :: manager.signals (manager.handle store message)).IsChain Follows ↔
        ¬ ∃ result, some message = some (.syncResult result) ∧
          BoardSocketManager.hasGap (manager.getLastSeq store) result = false ∧
          Skips result (manager.getLastSeq store)) ∧
      ((a :: manager.signals (manager.handle store message)).getLast?).map Signal.seq =
        some (manager.getLastSeq (manager.handle store message).store) := by
  cases message with
  | joined headSeq =>
      have hgoes := goesOn_onJoined ha headSeq
      exact ⟨iff_of_true hgoes.chain (by simp), hgoes.last⟩
  | mutation envelope =>
      have hgoes := goesOn_handleIncoming ha envelope
      exact ⟨iff_of_true hgoes.chain (by simp), hgoes.last⟩
  | syncResult result =>
      cases hgap : BoardSocketManager.hasGap (manager.getLastSeq store) result with
      | true =>
          have hgoes := goesOn_onSyncResult_of_gap a hgap
          exact ⟨iff_of_true hgoes.chain (by simp [hgap]), hgoes.last⟩
      | false =>
          obtain ⟨hchain, hlast⟩ := chain_onSyncResult ha hgap (hascending result rfl)
          refine ⟨hchain.trans (not_congr ?_), hlast⟩
          simp [hgap]

end

/-! ## The replays on their way -/

def Request.replay : Request → Option (List BoardMutationEnvelope)
  | .syncEvents events => some events
  | .syncHead result => some result.events
  | _ => none

def ServerMessage.replay : ServerMessage → Option (List BoardMutationEnvelope)
  | .syncResult result => some result.events
  | _ => none

namespace LiveBoard

variable {manager : BoardSocketManager} {board board' : LiveBoard} {action : Action}

/-- A replay is on its way to the client, or being put together for it. -/
def Carries (board : LiveBoard) (events : List BoardMutationEnvelope) : Prop :=
  (∃ request ∈ board.requests, request.replay = some events) ∨
    ∃ message ∈ board.toClient, message.replay = some events

/-- A step of an answer sends a replay on, or reads a new one. -/
theorem Carries.of_answer {boardId : JsString} {i : Nat} {request : Request}
    {events : List BoardMutationEnvelope} (hi : board.requests[i]? = some request)
    (h : (board.answer boardId i request).Carries events) :
    board.Carries events ∨ ∃ lastSeq, request = .syncing lastSeq ∧
      events = board.broadcast.redis.getMissedEvents lastSeq := by
  have hmem := List.mem_of_getElem? hi
  -- what a changed list of requests carries is carried before, or is the changed request's
  have hset : ∀ request', (∃ r ∈ board.requests.set i request', r.replay = some events) →
      board.Carries events ∨ request'.replay = some events := by
    rintro request' ⟨r, hr, hreplay⟩
    rcases List.mem_or_eq_of_mem_set hr with hr | rfl
    · exact Or.inl (Or.inl ⟨r, hr, hreplay⟩)
    · exact Or.inr hreplay
  have hsent : ∀ message, (∃ r ∈ board.requests.eraseIdx i, r.replay = some events) ∨
      (∃ m ∈ board.toClient ++ [message], m.replay = some events) →
        board.Carries events ∨ message.replay = some events := by
    rintro message (⟨r, hr, hreplay⟩ | ⟨m, hm, hreplay⟩)
    · exact Or.inl (Or.inl ⟨r, List.mem_of_mem_eraseIdx hr, hreplay⟩)
    · rcases List.mem_append.mp hm with hm | hm
      · exact Or.inl (Or.inr ⟨m, hm, hreplay⟩)
      · obtain rfl := List.mem_singleton.mp hm
        exact Or.inr hreplay
  cases request with
  | joining =>
      rcases h with h | h
      · exact Or.inl ((hset _ h).resolve_right (by simp [Request.replay]))
      · exact Or.inl (Or.inr h)
  | inRoom =>
      rcases h with h | h
      · exact Or.inl ((hset _ h).resolve_right (by simp [Request.replay]))
      · exact Or.inl (Or.inr h)
  | joinHead headSeq =>
      exact Or.inl ((hsent _ h).resolve_right (by simp [ServerMessage.replay]))
  | syncing lastSeq =>
      rcases h with h | h
      · rcases hset _ h with h | h
        · exact Or.inl h
        · exact Or.inr ⟨lastSeq, rfl, (Option.some.inj h).symm⟩
      · exact Or.inl (Or.inr h)
  | syncEvents events' =>
      rcases h with h | h
      · rcases hset _ h with h | h
        · exact Or.inl h
        · exact Or.inl (Or.inl ⟨_, hmem, h⟩)
      · exact Or.inl (Or.inr h)
  | syncHead result =>
      rcases hsent _ h with h | h
      · exact Or.inl h
      · exact Or.inl (Or.inl ⟨_, hmem, h⟩)

/-- A replay on its way was on its way before, or was just read. -/
theorem Carries.of_step {events : List BoardMutationEnvelope}
    (hs : board.step manager action = some board') (h : board'.Carries events) :
    board.Carries events ∨ ∃ i lastSeq, action = .progress i ∧
      board.requests[i]? = some (.syncing lastSeq) ∧
      events = board.broadcast.redis.getMissedEvents lastSeq := by
  cases action with
  | emit s =>
      obtain ⟨broadcast, -, rfl⟩ := Option.map_eq_some_iff.mp hs
      exact Or.inl h
  | relay =>
      obtain ⟨envelope, -, rfl⟩ := Option.map_eq_some_iff.mp hs
      rcases h with h | ⟨m, hm, hreplay⟩
      · exact Or.inl (Or.inl h)
      · refine Or.inl (Or.inr ?_)
        simp only at hm
        split at hm
        · rcases List.mem_append.mp hm with hm | hm
          · exact ⟨m, hm, hreplay⟩
          · obtain rfl := List.mem_singleton.mp hm
            cases hreplay
        · exact ⟨m, hm, hreplay⟩
  | connect =>
      simp only [step] at hs
      split at hs
      · cases hs
      · obtain rfl := Option.some.inj hs
        exact Or.inl h
  | disconnect =>
      obtain rfl := Option.some.inj hs
      rcases h with ⟨r, hr, -⟩ | ⟨m, hm, -⟩
      · cases hr
      · cases hm
  | receive =>
      simp only [step] at hs
      split at hs
      · cases hs
      · rename_i message rest _
        obtain rfl := Option.some.inj hs
        rcases h with ⟨r, hr, hreplay⟩ | h
        · rcases List.mem_append.mp hr with hr | hr
          · exact Or.inl (Or.inl ⟨r, hr, hreplay⟩)
          · obtain rfl := List.mem_singleton.mp hr
            cases message <;> cases hreplay
        · exact Or.inl (Or.inr h)
  | progress i =>
      obtain ⟨request, hrequest, rfl⟩ := Option.map_eq_some_iff.mp hs
      rcases h.of_answer hrequest with h | ⟨lastSeq, rfl, hevents⟩
      · exact Or.inl h
      · exact Or.inr ⟨i, lastSeq, rfl, hrequest, hevents⟩
  | deliver =>
      simp only [step] at hs
      split at hs
      · cases hs
      · rename_i message rest htoClient
        obtain rfl := Option.some.inj hs
        rcases h with h | ⟨m, hm, hreplay⟩
        · exact Or.inl (Or.inl h)
        · refine Or.inl (Or.inr ⟨m, ?_, hreplay⟩)
          rw [htoClient]
          exact List.mem_cons_of_mem _ hm

/-! ## The invariant -/

/-- The numbers are where `Broadcast.Inv` says, replays are in ascending order, and the
client goes on from the last signal. -/
structure Inv (manager : BoardSocketManager) (board : LiveBoard) : Prop where
  broadcast : board.broadcast.Inv
  ascending : ∀ events, board.Carries events → events.Pairwise fun e e' => e.seq < e'.seq
  last : board.history.getLast?.map Signal.seq = some (manager.getLastSeq board.store)

theorem inv_opened (manager : BoardSocketManager) (store : KeyValueStore) :
    (opened manager store).Inv manager where
  broadcast := Broadcast.inv_empty
  ascending := by
    rintro events (⟨r, hr, -⟩ | ⟨m, hm, -⟩)
    · cases hr
    · cases hm
  last := rfl

/-- A step that is no delivery leaves the client and its history alone, and changes Redis
only by an emit. -/
theorem step_of_ne_deliver (hs : board.step manager action = some board')
    (hne : action ≠ .deliver) :
    board'.history = board.history ∧ board'.store = board.store ∧
      (board'.broadcast = board.broadcast ∨
        ∃ s, board.broadcast.step manager.boardId s = some board'.broadcast) := by
  cases action with
  | emit s =>
      obtain ⟨broadcast, hstep, rfl⟩ := Option.map_eq_some_iff.mp hs
      exact ⟨rfl, rfl, Or.inr ⟨s, hstep⟩⟩
  | relay =>
      obtain ⟨envelope, -, rfl⟩ := Option.map_eq_some_iff.mp hs
      exact ⟨rfl, rfl, Or.inl rfl⟩
  | connect =>
      simp only [step] at hs
      split at hs
      · cases hs
      · obtain rfl := Option.some.inj hs
        exact ⟨rfl, rfl, Or.inl rfl⟩
  | disconnect =>
      obtain rfl := Option.some.inj hs
      exact ⟨rfl, rfl, Or.inl rfl⟩
  | receive =>
      simp only [step] at hs
      split at hs
      · cases hs
      · obtain rfl := Option.some.inj hs
        exact ⟨rfl, rfl, Or.inl rfl⟩
  | progress i =>
      obtain ⟨request, -, rfl⟩ := Option.map_eq_some_iff.mp hs
      cases request <;> exact ⟨rfl, rfl, Or.inl rfl⟩
  | deliver => exact absurd rfl hne

/-- A delivery handles the first message on its way. -/
theorem step_deliver (hs : board.step manager .deliver = some board') :
    ∃ message rest, board.toClient = message :: rest ∧
      board' = board.handle manager message rest := by
  simp only [step] at hs
  split at hs
  · cases hs
  · rename_i message rest htoClient
    exact ⟨message, rest, htoClient, (Option.some.inj hs).symm⟩

/-- A delivery extends the history by what the message makes the listeners see. -/
theorem Inv.deliver (h : board.Inv manager) (hs : board.step manager .deliver = some board') :
    (Gapless board'.history ↔
        Gapless board.history ∧ ¬ board.ReplaysOver manager .deliver) ∧
      board'.history.getLast?.map Signal.seq = some (manager.getLastSeq board'.store) := by
  obtain ⟨message, rest, htoClient, rfl⟩ := step_deliver hs
  obtain ⟨a, ha, hseq⟩ := Option.map_eq_some_iff.mp h.last
  obtain ⟨before, hhistory⟩ := List.getLast?_eq_some_iff.mp ha
  have hascending : ∀ result, message = .syncResult result →
      result.events.Pairwise fun e e' => e.seq < e'.seq := fun result hresult =>
    h.ascending result.events (Or.inr ⟨message, by simp [htoClient], by simp [hresult,
      ServerMessage.replay]⟩)
  obtain ⟨hchain, hlast⟩ := chain_handle hseq hascending
  have hsplit : (board.handle manager message rest).history =
      before ++ a :: manager.signals (manager.handle board.store message) := by
    simp [LiveBoard.handle, hhistory]
  rw [hsplit]
  constructor
  · rw [Gapless, List.isChain_split, hchain, Gapless, hhistory, ReplaysOver, htoClient]
    rfl
  · rw [List.getLast?_append_of_ne_nil _ (List.cons_ne_nil _ _)]
    exact hlast

theorem Inv.step (h : board.Inv manager) (hs : board.step manager action = some board') :
    board'.Inv manager := by
  have hascending : ∀ events, board'.Carries events →
      events.Pairwise fun e e' => e.seq < e'.seq := by
    intro events hevents
    rcases hevents.of_step hs with hbefore | ⟨i, lastSeq, -, -, rfl⟩
    · exact h.ascending events hbefore
    · exact h.broadcast.missed_ascending lastSeq
  rcases eq_or_ne action .deliver with rfl | hne
  · refine ⟨?_, hascending, (h.deliver hs).2⟩
    obtain ⟨message, rest, -, rfl⟩ := step_deliver hs
    exact h.broadcast
  · obtain ⟨hhistory, hstore, hbroadcast⟩ := step_of_ne_deliver hs hne
    refine ⟨?_, hascending, ?_⟩
    · rcases hbroadcast with heq | ⟨s, hstep⟩
      · rw [heq]
        exact h.broadcast
      · exact h.broadcast.step hstep
    · rw [hhistory, hstore]
      exact h.last

/-- One step skips a number exactly when it delivers a replay that jumps over one. -/
theorem Inv.gapless_step (h : board.Inv manager) (hs : board.step manager action = some board') :
    Gapless board'.history ↔ Gapless board.history ∧ ¬ board.ReplaysOver manager action := by
  rcases eq_or_ne action .deliver with rfl | hne
  · exact (h.deliver hs).1
  · rw [(step_of_ne_deliver hs hne).1]
    refine (and_iff_left ?_).symm
    cases action with
    | deliver => exact absurd rfl hne
    | _ => exact id

/-! ## Logs without a hole -/

/-- No number is missing between two frames of a replay. -/
def Solid (events : List BoardMutationEnvelope) : Prop :=
  ∀ low ∈ events, ∀ high ∈ events, ∀ seq, low.seq < seq → seq < high.seq →
    seq ∈ events.map BoardMutationEnvelope.seq

/-- The log is read solid unless a frame in between is still to be appended. -/
theorem Inv.solid_step (h : board.Inv manager) (hs : board.step manager action = some board')
    (hsolid : ∀ events, board.Carries events → Solid events) (haround : ¬ board.ReadsAround action)
    {events : List BoardMutationEnvelope} (hevents : board'.Carries events) : Solid events := by
  rcases hevents.of_step hs with hbefore | ⟨i, lastSeq, rfl, hrequest, rfl⟩
  · exact hsolid events hbefore
  · intro low hlow high hhigh seq hl hh
    by_contra hhole
    obtain ⟨envelope, henvelope, rfl⟩ :=
      h.broadcast.exists_numbered_of_hole hlow hhigh hl hh hhole
    exact haround ⟨lastSeq, hrequest, envelope, henvelope, ⟨low, hlow, hl⟩, high, hhigh, hh⟩

/-- A replay without a hole does not jump over a number unseen. -/
theorem not_replaysOver_of_solid (hsolid : ∀ events, board.Carries events → Solid events) :
    ¬ board.ReplaysOver manager action := by
  cases action with
  | deliver =>
      rintro ⟨result, hhead, hgap, envelope, henvelope, skipped, hlow, hhigh, hskipped⟩
      have hmem := List.mem_of_head? hhead
      have hevents := hsolid result.events (Or.inr ⟨_, hmem, rfl⟩)
      cases hresult : result.events with
      | nil =>
          rw [hresult] at henvelope
          cases henvelope
      | cons first rest =>
          -- the replay starts at the number after the client's or below it
          have hfirst : first.seq ≤ manager.getLastSeq board.store + 1 := by
            simpa [BoardSocketManager.hasGap, hresult] using hgap
          have hfirstMem : first ∈ result.events := by simp [hresult]
          rcases Nat.eq_or_lt_of_le (show first.seq ≤ skipped by omega) with heq | hlt
          · exact hskipped (heq ▸ List.mem_map_of_mem hfirstMem)
          · exact hskipped (hevents first hfirstMem envelope henvelope skipped hlt hhigh)
  | _ => exact id

end LiveBoard

/-! ## Live frames -/

/-- **When live frames are skipped.** Over every run of a live board the client skips no number
without a signal to reload exactly when it never handles, as one without a gap, a
replay that jumps over a number; and it never does when the gateway never reads the
log around a frame that is numbered and not yet appended. -/
theorem liveFrames_gapless_iff (manager : BoardSocketManager) (store : KeyValueStore)
    {trace : List (LiveBoard × Action)} {board : LiveBoard}
    (run : Steps (LiveBoard.step manager) (.opened manager store) trace board) :
    (Gapless board.history ↔ ∀ e ∈ trace, ¬ e.1.ReplaysOver manager e.2) ∧
      ((∀ e ∈ trace, ¬ e.1.ReadsAround e.2) → Gapless board.history) := by
  have hinv : ∀ {trace board}, Steps (LiveBoard.step manager) (.opened manager store) trace board →
      board.Inv manager := fun run =>
    run.invariant (LiveBoard.inv_opened manager store) fun _ _ _ h hs => h.step hs
  have hgapless : Gapless board.history ↔ ∀ e ∈ trace, ¬ e.1.ReplaysOver manager e.2 := by
    induction run with
    | none => simp [Gapless, LiveBoard.opened]
    | @next trace s s' a run hs ih =>
        rw [(hinv run).gapless_step hs, ih]
        simp [or_imp, forall_and]
  refine ⟨hgapless, fun haround => hgapless.mpr ?_⟩
  -- along the run every replay on its way is solid
  suffices hsolid : (∀ e ∈ trace, ¬ e.1.ReplaysOver manager e.2) ∧
      ∀ events, board.Carries events → LiveBoard.Solid events from hsolid.1
  clear hgapless
  induction run with
  | none =>
      refine ⟨by simp, ?_⟩
      rintro events (⟨r, hr, -⟩ | ⟨m, hm, -⟩)
      · cases hr
      · cases hm
  | @next trace s s' a run hs ih =>
      obtain ⟨hbefore, hsolid⟩ := ih fun e he => haround e (List.mem_append_left _ he)
      constructor
      · intro e he
        rcases List.mem_append.mp he with he | he
        · exact hbefore e he
        · obtain rfl := List.mem_singleton.mp he
          exact LiveBoard.not_replaysOver_of_solid hsolid
      · exact fun events => (hinv run).solid_step hs hsolid (haround (s, a) (by simp))

/-! ## A skipped frame -/

namespace Sample

def created : EmitStep :=
  .number .cardUpdated { cardId := some (js "c1"), listId := some (js "l1"), positionIdx := none } 0

/-- The client joins an empty board; frame 2 is numbered and waits while 1 and 3 are logged. -/
def skipping : List Action :=
  [.connect, .receive, .progress 0, .progress 0, .progress 0, .deliver, .disconnect, .emit created,
    .emit created, .emit created, .emit (.append (frame 1)), .emit (.append (frame 3)),
    .emit (.publish (frame 1)), .emit (.publish (frame 3)), .relay, .relay, .connect, .receive,
    .progress 0, .progress 0, .progress 0, .deliver, .receive, .progress 0, .progress 0,
    .progress 0, .deliver, .emit (.append (frame 2)), .emit (.publish (frame 2)), .relay, .deliver]

/-- The client hands over 1 and 3 and drops 2, which is published last, as a duplicate. -/
theorem skipping_run :
    ∃ board, skipping.foldlM (LiveBoard.step manager) (.opened manager (applied 0)) = some board ∧
      board.history = [.needsResync 0, .handed 1, .handed 3] ∧
      board.broadcast.published = [frame 1, frame 3, frame 2] ∧
      board.relayed = 3 ∧ board.toClient = [] := by
  have hrun : (skipping.foldlM (LiveBoard.step manager) (.opened manager (applied 0))).map
      (fun board => (board.history, board.broadcast.published, board.relayed, board.toClient)) =
        some ([.needsResync 0, .handed 1, .handed 3], [frame 1, frame 3, frame 2], 3, []) := by
    decide
  obtain ⟨board, hboard, hfields⟩ := Option.map_eq_some_iff.mp hrun
  simp only [Prod.mk.injEq] at hfields
  exact ⟨board, hboard, hfields⟩

end Sample

/-- In that run a replay jumps over a number. -/
theorem skipping_replaysOver :
    ∃ trace board, Steps (LiveBoard.step Sample.manager)
        (.opened Sample.manager (Sample.applied 0)) trace board ∧
      ∃ e ∈ trace, e.1.ReplaysOver Sample.manager e.2 := by
  obtain ⟨board, hboard, hhistory, -⟩ := Sample.skipping_run
  have hrun := Steps.of_actions hboard
  refine ⟨_, board, hrun, ?_⟩
  by_contra hnone
  push Not at hnone
  have hgapless := (liveFrames_gapless_iff Sample.manager (Sample.applied 0) hrun).1.mpr hnone
  simp [Gapless, hhistory, Follows] at hgapless

/-- A published frame is skipped: the frames 1 and 3 are handed over one after the other, and
2, relayed and delivered last, is not. -/
theorem published_skipped :
    ∃ trace board, Steps (LiveBoard.step Sample.manager)
        (.opened Sample.manager (Sample.applied 0)) trace board ∧
      board.history = [.needsResync 0, .handed 1, .handed 3] ∧ ¬ Gapless board.history ∧
      Sample.frame 2 ∈ board.broadcast.published ∧
      board.relayed = board.broadcast.published.length ∧ board.toClient = [] := by
  obtain ⟨board, hboard, hhistory, hpublished, hrelayed, htoClient⟩ := Sample.skipping_run
  refine ⟨_, board, Steps.of_actions hboard, hhistory, ?_, ?_, ?_, htoClient⟩
  · simp [Gapless, hhistory, Follows]
  · simp [hpublished]
  · simp [hrelayed, hpublished]

end FlowLogix.Realtime

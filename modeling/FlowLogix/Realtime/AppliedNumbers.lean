/-
  Realtime/AppliedNumbers.lean --- the applied number, whatever arrives.

  The counter of a board starts at 1, and `BoardSocketManager` reads the handlers on
  natural numbers.  A client cannot rely on that: an event may repeat a number, come
  late, or name a head below the one it has applied.  Here the numbers are those of any
  linear order, and `next`, the `lastSeq + 1` of the handlers, is any function, since a
  sum of large numbers is rounded.  On natural numbers the handlers are those of
  `BoardSocketManager` (`handle_ofInbound`).

  The log of a run records each effect with the event whose handler had it.  Each frame
  handed over is above the number applied before it (`Ascends`), and the stored number
  is the one the log ends with.
-/
import FlowLogix.Realtime.BoardSocketManager

set_option autoImplicit false

namespace FlowLogix.Realtime.Numbered

open FlowLogix.Foundation FlowLogix.Server

/-! ## The handlers -/

/-- `BoardMutationEnvelope`, with a number of `K`. -/
structure Envelope (K : Type) where
  seq : K
  boardId : JsString
  type : BoardMutationType
  payload : BoardMutationPayload
  ts : Nat

/-- The events of the socket that carry a number. -/
inductive Inbound (K : Type) where
  /-- `board:joined` -/
  | joined (headSeq : K)
  /-- `board:mutation` -/
  | mutation (envelope : Envelope K)
  /-- `board:sync:result` -/
  | syncResult (events : List (Envelope K)) (headSeq : K)

/-- The head of the server that an event names. -/
def Inbound.headSeq {K : Type} : Inbound K → Option K
  | .joined headSeq => some headSeq
  | .mutation _ => none
  | .syncResult _ headSeq => some headSeq

/-- What a handler does to the outside. -/
inductive Effect (K : Type) where
  /-- every mutation listener is called with the frame -/
  | mutation (envelope : Envelope K)
  /-- `onNeedsResync` -/
  | needsResync
  | status (status : BoardConnectionStatus)
  /-- `board:sync` is sent -/
  | sync (lastSeq : K)

/-- The store a handler leaves and its effects, in order. -/
structure Handled (K : Type) where
  store : Dict JsString K
  effects : List (Effect K)

section

variable {K : Type} [Zero K] (next : K → K) (manager : BoardSocketManager)
  (store : Dict JsString K)

/-- `getLastSeq`: 0 when the store has no number. -/
def getLastSeq : K := (store.lookup manager.seqKey).getD 0

def setLastSeq (seq : K) : Dict JsString K := store.insert manager.seqKey seq

@[simp] theorem getLastSeq_setLastSeq (seq : K) :
    getLastSeq manager (setLastSeq manager store seq) = seq := by
  simp [getLastSeq, setLastSeq]

/-- `requestSync`. -/
def requestSync : Effect K := .sync (getLastSeq manager store)

variable [LinearOrder K]

/-- `applyInOrder`: a frame that is not above the last applied one is dropped. -/
def applyInOrder (handled : Handled K) (envelope : Envelope K) : Handled K :=
  if envelope.seq ≤ getLastSeq manager handled.store then handled
  else
    { store := setLastSeq manager handled.store envelope.seq
      effects := handled.effects ++ [.mutation envelope] }

/-- `handleIncoming`: the handler of `board:mutation`. -/
def handleIncoming (envelope : Envelope K) : Handled K :=
  let lastSeq := getLastSeq manager store
  if envelope.seq ≤ lastSeq then { store := store, effects := [] }
  else if envelope.seq > next lastSeq then
    { store := store, effects := [requestSync manager store] }
  else applyInOrder manager { store := store, effects := [] } envelope

/-- The handler of `board:joined`. -/
def onJoined (headSeq : K) : Handled K :=
  let lastSeq := getLastSeq manager store
  if lastSeq > headSeq then
    { store := setLastSeq manager store headSeq
      effects := [.status .connected, .needsResync, .status .synced] }
  else if headSeq > lastSeq then
    { store := store, effects := [.status .connected, requestSync manager store] }
  else { store := store, effects := [.status .connected, .status .synced] }

/-- `hasGap`: the replay skips ahead of the last applied frame, or is empty although the
server is ahead. -/
def hasGap (lastSeq : K) (events : List (Envelope K)) (headSeq : K) : Bool :=
  match events with
  | [] => headSeq > lastSeq
  | first :: _ => first.seq > next lastSeq

/-- The handler of `board:sync:result`. -/
def onSyncResult (events : List (Envelope K)) (headSeq : K) : Handled K :=
  if hasGap next (getLastSeq manager store) events headSeq then
    { store := setLastSeq manager store headSeq
      effects := [.needsResync, .status .synced] }
  else
    let handled := events.foldl (applyInOrder manager) { store := store, effects := [] }
    let status := if headSeq > getLastSeq manager handled.store then .connected else .synced
    { handled with effects := handled.effects ++ [.status status] }

/-- The handler of an event. -/
def handle : Inbound K → Handled K
  | .joined headSeq => onJoined manager store headSeq
  | .mutation envelope => handleIncoming next manager store envelope
  | .syncResult events headSeq => onSyncResult next manager store events headSeq

end

/-! ## Natural numbers -/

def ofEnvelope (envelope : BoardMutationEnvelope) : Envelope Nat where
  seq := envelope.seq
  boardId := envelope.boardId
  type := envelope.type
  payload := envelope.payload
  ts := envelope.ts

def ofEffect : Realtime.Effect → Effect Nat
  | .mutation envelope => .mutation (ofEnvelope envelope)
  | .needsResync => .needsResync
  | .status status => .status status
  | .sync lastSeq => .sync lastSeq

def ofHandled (handled : Realtime.Handled) : Handled Nat where
  store := handled.store
  effects := handled.effects.map ofEffect

section

variable (manager : BoardSocketManager) (store : KeyValueStore)

theorem applyInOrder_ofHandled (handled : Realtime.Handled) (envelope : BoardMutationEnvelope) :
    applyInOrder manager (ofHandled handled) (ofEnvelope envelope) =
      ofHandled (manager.applyInOrder handled envelope) := by
  have hlast : getLastSeq manager (ofHandled handled).store = manager.getLastSeq handled.store :=
    rfl
  rw [applyInOrder, BoardSocketManager.applyInOrder, hlast]
  show (if envelope.seq ≤ manager.getLastSeq handled.store then _ else _) = _
  split
  · rfl
  · rw [ofHandled, ofHandled, List.map_append]
    rfl

theorem foldl_ofHandled (events : List BoardMutationEnvelope) (handled : Realtime.Handled) :
    (events.map ofEnvelope).foldl (applyInOrder manager) (ofHandled handled) =
      ofHandled (events.foldl manager.applyInOrder handled) := by
  induction events generalizing handled with
  | nil => rfl
  | cons envelope rest ih =>
      rw [List.map_cons, List.foldl_cons, applyInOrder_ofHandled, ih, List.foldl_cons]

theorem handleIncoming_ofEnvelope (envelope : BoardMutationEnvelope) :
    handleIncoming (· + 1) manager store (ofEnvelope envelope) =
      ofHandled (manager.handleIncoming store envelope) := by
  have happly := applyInOrder_ofHandled manager { store := store, effects := [] } envelope
  rw [handleIncoming, BoardSocketManager.handleIncoming]
  show (if envelope.seq ≤ manager.getLastSeq store then _
    else if envelope.seq > manager.getLastSeq store + 1 then _ else _) = _
  split
  · rfl
  · split
    · rfl
    · exact happly

theorem onJoined_ofHandled (headSeq : Nat) :
    onJoined manager store headSeq = ofHandled (manager.onJoined store headSeq) := by
  rw [onJoined, BoardSocketManager.onJoined]
  show (if manager.getLastSeq store > headSeq then _
    else if headSeq > manager.getLastSeq store then _ else _) = _
  split
  · rfl
  · split <;> rfl

theorem onSyncResult_ofEnvelope (result : BoardSyncResult) :
    onSyncResult (· + 1) manager store (result.events.map ofEnvelope) result.headSeq =
      ofHandled (manager.onSyncResult store result) := by
  have hgap : hasGap (· + 1) (getLastSeq manager store) (result.events.map ofEnvelope)
      result.headSeq = BoardSocketManager.hasGap (manager.getLastSeq store) result := by
    rcases result with ⟨boardId, _ | ⟨first, rest⟩, headSeq⟩ <;> rfl
  have hfold := foldl_ofHandled manager result.events { store := store, effects := [] }
  rw [onSyncResult, BoardSocketManager.onSyncResult, hgap]
  split
  · rfl
  · rw [show ({ store := store, effects := [] } : Handled Nat) =
      ofHandled { store := store, effects := [] } from rfl, hfold]
    rw [ofHandled, ofHandled, List.map_append]
    rfl

/-- On natural numbers the handlers are those of `BoardSocketManager`. -/
theorem handle_ofInbound :
    (∀ headSeq, handle (· + 1) manager store (.joined headSeq) =
      ofHandled (manager.onJoined store headSeq)) ∧
    (∀ envelope, handle (· + 1) manager store (.mutation (ofEnvelope envelope)) =
      ofHandled (manager.handleIncoming store envelope)) ∧
    ∀ result : BoardSyncResult,
      handle (· + 1) manager store
        (.syncResult (result.events.map ofEnvelope) result.headSeq) =
          ofHandled (manager.onSyncResult store result) :=
  ⟨onJoined_ofHandled manager store, handleIncoming_ofEnvelope manager store,
    onSyncResult_ofEnvelope manager store⟩

end

/-! ## Runs -/

/-- An effect, with the event whose handler had it. -/
structure Entry (K : Type) where
  event : Inbound K
  effect : Effect K

/-- One client: its store, and what its handlers did so far. -/
structure Client (K : Type) where
  store : Dict JsString K
  log : List (Entry K)

/-- A client that no event has reached. -/
def Client.opened {K : Type} (store : Dict JsString K) : Client K where
  store := store
  log := []

section

variable {K : Type} [LinearOrder K] [Zero K] (next : K → K) (manager : BoardSocketManager)

/-- An event arrives. -/
def Client.receive (client : Client K) (event : Inbound K) : Client K :=
  let handled := handle next manager client.store event
  { store := handled.store
    log := client.log ++ handled.effects.map (Entry.mk event) }

/-- The events arrive one after the other. -/
def Client.run (store : Dict JsString K) (events : List (Inbound K)) : Client K :=
  events.foldl (Client.receive next manager) (.opened store)

end

section

variable {K : Type}

/-- The frames handed to the listeners, in order. -/
def handed (log : List (Entry K)) : List (Envelope K) :=
  log.filterMap fun entry =>
    match entry.effect with
    | .mutation envelope => some envelope
    | _ => none

@[simp] theorem handed_nil : handed ([] : List (Entry K)) = [] :=
  rfl

theorem handed_cons_mutation (event : Inbound K) (envelope : Envelope K) (log : List (Entry K)) :
    handed (⟨event, .mutation envelope⟩ :: log) = envelope :: handed log :=
  rfl

/-- The number a client has applied after an effect. -/
def appliedAfter (last : K) (entry : Entry K) : K :=
  match entry.effect with
  | .mutation envelope => envelope.seq
  | .needsResync => entry.event.headSeq.getD last
  | .status _ => last
  | .sync _ => last

/-- Without a signal, the number applied in the end is that of the last frame. -/
theorem foldl_appliedAfter {last : K} {log : List (Entry K)}
    (hquiet : ∀ entry ∈ log, entry.effect ≠ .needsResync) :
    log.foldl appliedAfter last = ((handed log).getLast?.map Envelope.seq).getD last := by
  induction log generalizing last with
  | nil => rfl
  | cons entry log ih =>
      obtain ⟨event, effect⟩ := entry
      obtain ⟨hquiet, hrest⟩ := List.forall_mem_cons.mp hquiet
      rw [List.foldl_cons, ih hrest]
      cases effect with
      | mutation envelope =>
          rw [handed_cons_mutation, List.getLast?_cons]
          cases (handed log).getLast? <;> rfl
      | needsResync => exact absurd rfl hquiet
      | status status => rfl
      | sync lastSeq => rfl

variable [LinearOrder K]

/-- Each frame of a log is above the number applied before it. -/
def Ascends (last : K) : List (Entry K) → Prop
  | [] => True
  | entry :: log =>
      (∀ envelope, entry.effect = .mutation envelope → last < envelope.seq) ∧
        Ascends (appliedAfter last entry) log

theorem ascends_append {last : K} {log log' : List (Entry K)} :
    Ascends last (log ++ log') ↔ Ascends last log ∧ Ascends (log.foldl appliedAfter last) log' := by
  induction log generalizing last with
  | nil => simp [Ascends]
  | cons entry log ih =>
      rw [List.cons_append, Ascends, Ascends, ih, List.foldl_cons, and_assoc]

/-- Without a signal, the frames of an ascending log are in strictly ascending order,
above the number applied before. -/
theorem Ascends.pairwise {last : K} {log : List (Entry K)} (h : Ascends last log)
    (hquiet : ∀ entry ∈ log, entry.effect ≠ .needsResync) :
    (∀ envelope ∈ handed log, last < envelope.seq) ∧
      (handed log).Pairwise fun envelope envelope' => envelope.seq < envelope'.seq := by
  induction log generalizing last with
  | nil => simp
  | cons entry log ih =>
      obtain ⟨event, effect⟩ := entry
      obtain ⟨hquiet, hrest⟩ := List.forall_mem_cons.mp hquiet
      obtain ⟨hfirst, hlog⟩ := h
      obtain ⟨habove, hpairwise⟩ := ih hlog hrest
      cases effect with
      | mutation envelope =>
          have hlast : last < envelope.seq := hfirst envelope rfl
          rw [handed_cons_mutation]
          refine ⟨List.forall_mem_cons.mpr ⟨hlast, ?_⟩, List.pairwise_cons.mpr ⟨habove, hpairwise⟩⟩
          intro later hlater
          exact hlast.trans (habove later hlater)
      | needsResync => exact absurd rfl hquiet
      | status status => exact ⟨habove, hpairwise⟩
      | sync lastSeq => exact ⟨habove, hpairwise⟩

end

/-! ## What a handler adds to the log -/

section

variable {K : Type} [LinearOrder K] [Zero K] {next : K → K} {manager : BoardSocketManager}
  {event : Inbound K} {store : Dict JsString K}

/-- A handler that started at a number hands over frames above it, and stores the number
its effects end with. -/
structure GoesOn (manager : BoardSocketManager) (event : Inbound K) (last : K)
    (handled : Handled K) : Prop where
  ascends : Ascends last (handled.effects.map (Entry.mk event))
  stored : getLastSeq manager handled.store =
    (handled.effects.map (Entry.mk event)).foldl appliedAfter last

theorem GoesOn.start : GoesOn manager event (getLastSeq manager store)
    { store := store, effects := [] } :=
  ⟨trivial, rfl⟩

theorem GoesOn.status {last : K} {handled : Handled K} (h : GoesOn manager event last handled)
    (status : BoardConnectionStatus) :
    GoesOn manager event last { handled with effects := handled.effects ++ [.status status] } := by
  constructor
  · rw [List.map_append, ascends_append]
    exact ⟨h.ascends, by simp [Ascends]⟩
  · rw [List.map_append, List.foldl_append]
    exact h.stored

theorem GoesOn.applyInOrder {last : K} {handled : Handled K}
    (h : GoesOn manager event last handled) (envelope : Envelope K) :
    GoesOn manager event last (applyInOrder manager handled envelope) := by
  rw [Numbered.applyInOrder]
  split
  · exact h
  · rename_i habove
    rw [not_le, h.stored] at habove
    constructor
    · rw [List.map_append, ascends_append]
      exact ⟨h.ascends, by simpa [Ascends] using habove⟩
    · rw [List.map_append, List.foldl_append, getLastSeq_setLastSeq]
      rfl

theorem GoesOn.foldl {last : K} {handled : Handled K} (h : GoesOn manager event last handled)
    (events : List (Envelope K)) :
    GoesOn manager event last (events.foldl (Numbered.applyInOrder manager) handled) := by
  induction events generalizing handled with
  | nil => exact h
  | cons envelope rest ih => exact ih (h.applyInOrder envelope)

theorem goesOn_onJoined (headSeq : K) :
    GoesOn manager (.joined headSeq) (getLastSeq manager store)
      (onJoined manager store headSeq) := by
  rw [onJoined]
  split
  · exact ⟨by simp [Ascends], getLastSeq_setLastSeq manager store headSeq⟩
  · split
    · exact ⟨by simp [Ascends, requestSync], rfl⟩
    · exact ⟨by simp [Ascends], rfl⟩

theorem goesOn_handleIncoming (envelope : Envelope K) :
    GoesOn manager (.mutation envelope) (getLastSeq manager store)
      (handleIncoming next manager store envelope) := by
  rw [handleIncoming]
  split
  · exact .start
  · split
    · exact ⟨by simp [Ascends, requestSync], rfl⟩
    · exact GoesOn.start.applyInOrder envelope

theorem goesOn_onSyncResult (events : List (Envelope K)) (headSeq : K) :
    GoesOn manager (.syncResult events headSeq) (getLastSeq manager store)
      (onSyncResult next manager store events headSeq) := by
  rw [onSyncResult]
  split
  · exact ⟨by simp [Ascends], getLastSeq_setLastSeq manager store headSeq⟩
  · exact (GoesOn.start.foldl events).status _

theorem goesOn_handle (event : Inbound K) :
    GoesOn manager event (getLastSeq manager store) (handle next manager store event) := by
  cases event with
  | joined headSeq => exact goesOn_onJoined headSeq
  | mutation envelope => exact goesOn_handleIncoming envelope
  | syncResult events headSeq => exact goesOn_onSyncResult events headSeq

/-- Only an event that names a head makes a handler signal. -/
theorem exists_headSeq_of_needsResync
    (h : Effect.needsResync ∈ (handle next manager store event).effects) :
    ∃ headSeq, event.headSeq = some headSeq := by
  cases event with
  | joined headSeq => exact ⟨headSeq, rfl⟩
  | syncResult events headSeq => exact ⟨headSeq, rfl⟩
  | mutation envelope =>
      rw [handle, handleIncoming] at h
      split at h
      · simp at h
      · split at h
        · simp [requestSync] at h
        · rw [applyInOrder] at h
          split at h <;> simp at h

/-! ## Any run -/

/-- What every run keeps: its frames ascend, its signals name a head, and the stored
number is the one its log ends with. -/
structure Client.Inv (manager : BoardSocketManager) (last : K) (client : Client K) : Prop where
  ascends : Ascends last client.log
  stored : getLastSeq manager client.store = client.log.foldl appliedAfter last
  named : ∀ entry ∈ client.log, entry.effect = .needsResync →
    ∃ headSeq, entry.event.headSeq = some headSeq

theorem Client.Inv.receive {last : K} {client : Client K} (h : client.Inv manager last)
    (event : Inbound K) : (client.receive next manager event).Inv manager last := by
  have hon : GoesOn manager event (client.log.foldl appliedAfter last)
      (handle next manager client.store event) := h.stored ▸ goesOn_handle event
  refine ⟨ascends_append.mpr ⟨h.ascends, hon.ascends⟩, ?_, ?_⟩
  · rw [Client.receive, List.foldl_append]
    exact hon.stored
  · refine List.forall_mem_append.mpr ⟨h.named, ?_⟩
    intro entry hentry hsignal
    obtain ⟨effect, heffect, rfl⟩ := List.mem_map.mp hentry
    obtain rfl : effect = .needsResync := hsignal
    exact exists_headSeq_of_needsResync heffect

theorem Client.inv_run (store : Dict JsString K) (events : List (Inbound K)) :
    (Client.run next manager store events).Inv manager (getLastSeq manager store) := by
  have hall : ∀ client : Client K, client.Inv manager (getLastSeq manager store) →
      (events.foldl (Client.receive next manager) client).Inv manager
        (getLastSeq manager store) := by
    induction events with
    | nil => exact fun client h => h
    | cons event rest ih => exact fun client h => ih _ (h.receive event)
  exact hall _ ⟨trivial, rfl, by simp [Client.opened]⟩

/-- Whatever events arrive, the frames handed over without a signal between them have
strictly ascending numbers.  The stored number is that of the last frame since the last
signal, or the head that signal's event named if no frame followed it; before the first
signal, it is that of the last frame, or the number stored in the beginning. -/
theorem applied_numbers (next : K → K) (manager : BoardSocketManager)
    (store : Dict JsString K) (events : List (Inbound K)) :
    let client := Client.run next manager store events
    (∀ before between after, client.log = before ++ between ++ after →
      (∀ entry ∈ between, entry.effect ≠ .needsResync) →
        (handed between).Pairwise fun envelope envelope' => envelope.seq < envelope'.seq) ∧
    (∀ before event after, client.log = before ++ ⟨event, .needsResync⟩ :: after →
      (∀ entry ∈ after, entry.effect ≠ .needsResync) →
        ∃ headSeq, event.headSeq = some headSeq ∧
          getLastSeq manager client.store =
            ((handed after).getLast?.map Envelope.seq).getD headSeq) ∧
    ((∀ entry ∈ client.log, entry.effect ≠ .needsResync) →
      getLastSeq manager client.store =
        ((handed client.log).getLast?.map Envelope.seq).getD (getLastSeq manager store)) := by
  intro client
  have hinv : client.Inv manager (getLastSeq manager store) := Client.inv_run store events
  refine ⟨?_, ?_, ?_⟩
  · intro before between after hlog hquiet
    have hascends := hinv.ascends
    rw [hlog, ascends_append, ascends_append] at hascends
    exact (hascends.1.2.pairwise hquiet).2
  · intro before event after hlog hquiet
    obtain ⟨headSeq, hhead⟩ := hinv.named ⟨event, .needsResync⟩ (by rw [hlog]; simp) rfl
    refine ⟨headSeq, hhead, ?_⟩
    have hrealigned : appliedAfter (before.foldl appliedAfter (getLastSeq manager store))
        ⟨event, .needsResync⟩ = headSeq := by
      simp [appliedAfter, hhead]
    rw [hinv.stored, hlog, List.foldl_append, List.foldl_cons, hrealigned,
      foldl_appliedAfter hquiet]
  · intro hquiet
    rw [hinv.stored, foldl_appliedAfter hquiet]

end

end FlowLogix.Realtime.Numbered

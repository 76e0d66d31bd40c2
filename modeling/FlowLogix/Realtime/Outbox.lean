/-
  Realtime/Outbox.lean --- the queue of the user's own changes
  (frontend/src/realtime/boardSocketManager.ts).

  `enqueueOutbound` appends a change to the stored outbox, and `flushOutbox` replays the
  outbox from its first item on, one call of `flushOutbound` at a time.  It is cut at its
  awaits, and where it calls `onOutboundDropped`, which may enqueue or disconnect before
  it returns.  Calls of `flushOutbox` overlap, and only the flag `flushing` keeps a second
  one from starting.

  The log of a run says what the outbox has to hold (`remaining`): the enqueued items in
  order, without those whose flush resolved and those dropped.  `History` is what any log
  of the outbox satisfies, and `Outbox.Inv` connects it to the stored queue.
-/
import FlowLogix.Foundation.Steps
import FlowLogix.Server.SyncService

set_option autoImplicit false

namespace FlowLogix.Realtime

open FlowLogix.Foundation FlowLogix.Server

/-! ## The code -/

/-- `QueuedOutbound`. -/
structure QueuedOutbound where
  id : JsString
  type : BoardMutationType
  payload : BoardMutationPayload
  queuedAt : Nat
  attempts : Option Nat
  deriving DecidableEq

/-- The failed attempts of an item. -/
def QueuedOutbound.tries (item : QueuedOutbound) : Nat := item.attempts.getD 0

/-- `BoardSocketOptions`: whether there is a `flushOutbound`, and the most attempts. -/
structure BoardSocketOptions where
  flushOutbound : Bool
  maxOutboundAttempts : Option Nat

def BoardSocketOptions.maxAttempts (opts : BoardSocketOptions) : Nat :=
  opts.maxOutboundAttempts.getD 5

/-- Where a call of `flushOutbox` is suspended. -/
inductive FlushCall where
  /-- at the await of `flushOutbound` -/
  | awaiting (next : QueuedOutbound)
  /-- in `onOutboundDropped`, with the rest of its queue -/
  | dropping (queue : List QueuedOutbound)

/-- What happened to the outbox. -/
inductive OutboxEvent where
  | enqueued (item : QueuedOutbound)
  /-- `flushOutbound` is called -/
  | flush (item : QueuedOutbound)
  | resolved (item : QueuedOutbound)
  | rejected (item : QueuedOutbound)
  /-- `onOutboundDropped` is called -/
  | dropped (item : QueuedOutbound)

/-- A manager and its storage: the stored outbox, the socket with its `connected`, the
calls of `flushOutbox` that have not returned, and what happened so far. -/
structure Outbox where
  entry : Option (List QueuedOutbound)
  socket : Option Bool
  flushing : Bool
  calls : List FlushCall
  log : List OutboxEvent

namespace Outbox

/-- A new manager. -/
def opened (entry : Option (List QueuedOutbound)) : Outbox where
  entry := entry
  socket := none
  flushing := false
  calls := []
  log := []

/-- `this.socket?.connected`. -/
def connected (s : Outbox) : Bool := s.socket.getD false

def readOutbox (s : Outbox) : List QueuedOutbound := s.entry.getD []

/-- `writeOutbox`: an empty queue removes the entry. -/
def writeOutbox (s : Outbox) (queue : List QueuedOutbound) : Outbox :=
  { s with entry := if queue.length = 0 then none else some queue }

def record (s : Outbox) (event : OutboxEvent) : Outbox := { s with log := s.log ++ [event] }

/-- The head of the loop of `flushOutbox`, down to the await. -/
def drain (s : Outbox) : List QueuedOutbound → Outbox
  | [] => { s with flushing := false }
  | next :: _ =>
      if s.connected then
        { s with calls := s.calls ++ [FlushCall.awaiting next] }.record (.flush next)
      else { s with flushing := false }

def flushOutbox (opts : BoardSocketOptions) (s : Outbox) : Outbox :=
  if s.flushing || !opts.flushOutbound then s
  else if !s.connected then s
  else { s with flushing := true }.drain s.readOutbox

def enqueueOutbound (opts : BoardSocketOptions) (s : Outbox) (item : QueuedOutbound) : Outbox :=
  let s := (s.writeOutbox (s.readOutbox ++ [item])).record (.enqueued item)
  if s.connected then s.flushOutbox opts else s

/-- The outbox without an item. -/
def withoutItem (s : Outbox) (next : QueuedOutbound) : List QueuedOutbound :=
  s.readOutbox.filter fun item => item.id ≠ next.id

/-- The loop goes on after `flushOutbound` resolved. -/
def resolve (s : Outbox) (next : QueuedOutbound) : Outbox :=
  ((s.writeOutbox (s.withoutItem next)).record (.resolved next)).drain (s.withoutItem next)

/-- The loop goes on after `flushOutbound` rejected: it drops the item or stops. -/
def reject (opts : BoardSocketOptions) (s : Outbox) (next : QueuedOutbound) : Outbox :=
  if next.tries + 1 ≥ opts.maxAttempts then
    { ((s.writeOutbox (s.withoutItem next)).record (.rejected next)).record (.dropped next) with
      calls := s.calls ++ [.dropping (s.withoutItem next)] }
  else
    { (s.writeOutbox (s.readOutbox.map fun item =>
        if item.id = next.id then { item with attempts := some (next.tries + 1) } else item)).record
          (.rejected next) with
      flushing := false }

end Outbox

/-- What happens next. -/
inductive OutboxAction where
  | enqueue (id : JsString) (type : BoardMutationType) (payload : BoardMutationPayload)
      (queuedAt : Nat)
  /-- `connect` -/
  | connect
  /-- the socket gets or loses its connection -/
  | socket (connected : Bool)
  /-- `board:joined` arrives -/
  | joined
  /-- `disconnect` -/
  | disconnect
  /-- the `flushOutbound` that a call awaits settles -/
  | settle (call : Nat) (resolved : Bool)
  /-- `onOutboundDropped` returns to a call -/
  | resume (call : Nat)

namespace Outbox

def step (opts : BoardSocketOptions) (s : Outbox) : OutboxAction → Option Outbox
  | .enqueue id type payload queuedAt =>
      some (s.enqueueOutbound opts
        { id := id, type := type, payload := payload, queuedAt := queuedAt, attempts := none })
  | .connect => some { s with socket := some (s.socket.getD false) }
  | .socket connected => s.socket.map fun _ => { s with socket := some connected }
  | .joined => some (s.flushOutbox opts)
  | .disconnect => some { s with socket := none }
  | .settle call resolved =>
      match s.calls[call]? with
      | some (.awaiting next) =>
          let s := { s with calls := s.calls.eraseIdx call }
          some (if resolved then s.resolve next else s.reject opts next)
      | _ => none
  | .resume call =>
      match s.calls[call]? with
      | some (.dropping queue) => some ({ s with calls := s.calls.eraseIdx call }.drain queue)
      | _ => none

/-- The items whose `flushOutbound` runs. -/
def awaited (s : Outbox) : List QueuedOutbound :=
  s.calls.filterMap fun
    | .awaiting next => some next
    | .dropping _ => none

end Outbox

/-! ## What a log says -/

/-- The enqueued items, in order. -/
def enqueued (log : List OutboxEvent) : List QueuedOutbound :=
  log.filterMap fun
    | .enqueued item => some item
    | _ => none

/-- The items that left the outbox: their flush resolved, or they were dropped. -/
def removedIds (log : List OutboxEvent) : List JsString :=
  log.filterMap fun
    | .resolved item => some item.id
    | .dropped item => some item.id
    | _ => none

def droppedIds (log : List OutboxEvent) : List JsString :=
  log.filterMap fun
    | .dropped item => some item.id
    | _ => none

/-- How often the flush of an item was rejected. -/
def rejections (log : List OutboxEvent) (id : JsString) : Nat :=
  log.countP fun
    | .rejected item => item.id = id
    | _ => false

/-- An item with the attempts it has made. -/
def tried (log : List OutboxEvent) (item : QueuedOutbound) : QueuedOutbound :=
  if rejections log item.id = 0 then item
  else { item with attempts := some (item.tries + rejections log item.id) }

/-- The items in the outbox: the initial and the enqueued ones without the removed ones,
in order. -/
def remaining (initial : List QueuedOutbound) (log : List OutboxEvent) : List QueuedOutbound :=
  ((initial ++ enqueued log).filter fun item => item.id ∉ removedIds log).map (tried log)

/-- The calls of `flushOutbound` that have not settled. -/
def running (log : List OutboxEvent) : List QueuedOutbound :=
  log.foldl (fun running event =>
    match event with
    | .flush item => running ++ [item]
    | .resolved item => running.erase item
    | .rejected item => running.erase item
    | _ => running) []

/-- What holds of an event of the outbox when it happens: `flushOutbound` is called on the
first item of the outbox while no other call of it runs, and only the running one
settles; an item is dropped right after a rejection. -/
def Legal (initial : List QueuedOutbound) (log : List OutboxEvent) : OutboxEvent → Prop
  | .enqueued _ => True
  | .flush item => running log = [] ∧ (remaining initial log).head? = some item
  | .resolved item => running log = [item]
  | .rejected item => running log = [item]
  | .dropped item => log.getLast? = some (.rejected item)

section

variable {initial : List QueuedOutbound} {log : List OutboxEvent} {item next : QueuedOutbound}
  {event : OutboxEvent} {maxAttempts : Nat}

@[simp] theorem tried_id : (tried log item).id = item.id := by
  unfold tried
  split <;> rfl

@[simp] theorem tried_tries : (tried log item).tries = item.tries + rejections log item.id := by
  unfold tried
  split
  · rename_i h
    rw [h, Nat.add_zero]
  · rfl

theorem mem_remaining :
    next ∈ remaining initial log ↔
      ∃ item ∈ initial ++ enqueued log, item.id ∉ removedIds log ∧ tried log item = next := by
  simp only [remaining, List.mem_map, List.mem_filter, decide_eq_true_eq, and_assoc]

/-! ### What one event adds -/

theorem enqueued_concat : enqueued (log ++ [event]) = enqueued log ++ enqueued [event] :=
  List.filterMap_append

theorem removedIds_concat : removedIds (log ++ [event]) = removedIds log ++ removedIds [event] :=
  List.filterMap_append

theorem droppedIds_concat : droppedIds (log ++ [event]) = droppedIds log ++ droppedIds [event] :=
  List.filterMap_append

/-- Only an enqueue adds an item. -/
theorem enqueued_kept (h : enqueued [event] = []) : enqueued (log ++ [event]) = enqueued log := by
  rw [enqueued_concat, h, List.append_nil]

/-- Only a resolution and a drop remove one. -/
theorem removedIds_kept (h : removedIds [event] = []) :
    removedIds (log ++ [event]) = removedIds log := by
  rw [removedIds_concat, h, List.append_nil]

theorem droppedIds_kept (h : droppedIds [event] = []) :
    droppedIds (log ++ [event]) = droppedIds log := by
  rw [droppedIds_concat, h, List.append_nil]

/-- Only a rejection counts as one. -/
theorem rejections_kept (h : ∀ id, rejections [event] id = 0) (id : JsString) :
    rejections (log ++ [event]) id = rejections log id := by
  rw [rejections, List.countP_append]
  exact congrArg (rejections log id + ·) (h id)

theorem tried_kept (h : ∀ id, rejections [event] id = 0) : tried (log ++ [event]) = tried log := by
  funext item
  rw [tried, tried, rejections_kept h]

/-! ### The outbox after an event -/

@[simp] theorem remaining_nil : remaining initial [] = initial := by
  have htried : tried [] = id := funext fun item => if_pos rfl
  simp [remaining, enqueued, removedIds, htried]

theorem remaining_enqueued (hremoved : item.id ∉ removedIds log)
    (hrejections : rejections log item.id = 0) :
    remaining initial (log ++ [.enqueued item]) = remaining initial log ++ [item] := by
  have htried : tried (log ++ [.enqueued item]) = tried log :=
    tried_kept fun _ => rfl
  have hitem : tried log item = item := if_pos hrejections
  have henqueued : enqueued (log ++ [.enqueued item]) = enqueued log ++ [item] :=
    enqueued_concat
  have hids : removedIds (log ++ [.enqueued item]) = removedIds log := removedIds_kept rfl
  have hkept : ([item].filter fun item => item.id ∉ removedIds log) = [item] :=
    List.filter_eq_self.mpr (by simpa using hremoved)
  rw [remaining, remaining, henqueued, hids, htried, ← List.append_assoc, List.filter_append,
    List.map_append, hkept, List.map_singleton, hitem]

theorem remaining_flush : remaining initial (log ++ [.flush item]) = remaining initial log := by
  have htried : tried (log ++ [.flush item]) = tried log :=
    tried_kept fun _ => rfl
  simp [remaining, enqueued, removedIds, htried]

/-- Events that remove an item filter it out. -/
theorem remaining_of_removed {log' : List OutboxEvent} (henqueued : enqueued log' = enqueued log)
    (hremoved : removedIds log' = removedIds log ++ [next.id])
    (hcount : ∀ id, id ≠ next.id → rejections log' id = rejections log id) :
    remaining initial log' = (remaining initial log).filter fun item => item.id ≠ next.id := by
  have hfilter : ((initial ++ enqueued log).filter fun item => item.id ∉ removedIds log') =
      ((initial ++ enqueued log).filter fun item => item.id ∉ removedIds log).filter
        fun item => item.id ≠ next.id := by
    rw [List.filter_filter, hremoved]
    congr 1
    funext item
    simp [and_comm]
  rw [remaining, remaining, henqueued, hfilter, List.filter_map]
  have hid : ((fun item : QueuedOutbound => decide (item.id ≠ next.id)) ∘ tried log) =
      fun item => decide (item.id ≠ next.id) := by
    funext item
    rw [Function.comp_apply, tried_id]
  rw [hid]
  refine List.map_congr_left fun item hitem => ?_
  rw [tried, tried, hcount item.id (of_decide_eq_true (List.mem_filter.mp hitem).2)]

theorem rejections_rejected (id : JsString) :
    rejections (log ++ [.rejected next]) id =
      rejections log id + if next.id = id then 1 else 0 := by
  simp [rejections, List.countP_append, List.countP_singleton]

/-- A last rejection and the drop leave the rejections of the other items as they are. -/
theorem rejections_dropped (id : JsString) :
    rejections (log ++ [.rejected next] ++ [.dropped next]) id =
      rejections log id + if next.id = id then 1 else 0 := by
  rw [← rejections_rejected, rejections, List.countP_append]
  rfl

theorem remaining_resolved :
    remaining initial (log ++ [.resolved next]) =
      (remaining initial log).filter fun item => item.id ≠ next.id :=
  remaining_of_removed (enqueued_kept rfl) removedIds_concat fun id _ =>
    rejections_kept (fun _ => rfl) id

theorem remaining_dropped :
    remaining initial (log ++ [.rejected next] ++ [.dropped next]) =
      (remaining initial log).filter fun item => item.id ≠ next.id :=
  remaining_of_removed (by simp [enqueued]) (by simp [removedIds]) fun id hne => by
    rw [rejections_dropped, if_neg hne.symm, Nat.add_zero]

/-- A rejection counts as an attempt. -/
theorem remaining_rejected :
    remaining initial (log ++ [.rejected next]) =
      (remaining initial log).map fun item =>
        if item.id = next.id then { item with attempts := some (item.tries + 1) } else item := by
  have htried : ∀ item, tried (log ++ [.rejected next]) item =
      if (tried log item).id = next.id then
        { tried log item with attempts := some ((tried log item).tries + 1) }
      else tried log item := by
    intro item
    rw [tried_id, tried_tries, tried, rejections_rejected]
    by_cases h : item.id = next.id
    · rw [if_pos h.symm, if_neg (Nat.succ_ne_zero _), if_pos h]
      unfold tried
      split <;> rfl
    · rw [if_neg (Ne.symm h), Nat.add_zero, if_neg h, tried]
  have henqueued : enqueued (log ++ [.rejected next]) = enqueued log := enqueued_kept rfl
  have hremoved : removedIds (log ++ [.rejected next]) = removedIds log := removedIds_kept rfl
  rw [remaining, remaining, List.map_map, henqueued, hremoved]
  exact List.map_congr_left fun item _ => htried item

/-! ### Histories -/

/-- What happens at an event is about the log before it. -/
theorem forall_split_concat {α : Type} {P : List α → α → Prop} {l : List α} {a : α}
    (h : ∀ before b after, l = before ++ b :: after → P before b) (ha : P l a) :
    ∀ before b after, l ++ [a] = before ++ b :: after → P before b := by
  intro before b after hsplit
  rcases concat_eq_split hsplit with ⟨rfl, rfl⟩ | ⟨rest, hrest⟩
  · exact ha
  · exact h before b rest hrest

/-- A log of the outbox: items have distinct ids and are enqueued untried, only known ones
settle, and an item that was not dropped has attempts left. -/
structure History (maxAttempts : Nat) (initial : List QueuedOutbound) (log : List OutboxEvent) :
    Prop where
  ids : ((initial ++ enqueued log).map QueuedOutbound.id).Nodup
  untried : ∀ item ∈ enqueued log, item.tries = 0
  known : ∀ id, id ∉ (initial ++ enqueued log).map QueuedOutbound.id →
    id ∉ removedIds log ∧ rejections log id = 0
  tries : ∀ item ∈ initial ++ enqueued log,
    if item.id ∈ droppedIds log then item.tries + rejections log item.id = maxAttempts
    else item.tries + rejections log item.id < maxAttempts
  once : (removedIds log).Nodup
  legal : ∀ before event after, log = before ++ event :: after → Legal initial before event

theorem mem_removedIds_of_mem_droppedIds {id : JsString} (h : id ∈ droppedIds log) :
    id ∈ removedIds log := by
  obtain ⟨event, hevent, hid⟩ := List.mem_filterMap.mp h
  refine List.mem_filterMap.mpr ⟨event, hevent, ?_⟩
  cases event with
  | dropped item => exact hid
  | enqueued item => cases hid
  | flush item => cases hid
  | resolved item => cases hid
  | rejected item => cases hid

namespace History

theorem start (hids : (initial.map QueuedOutbound.id).Nodup)
    (htries : ∀ item ∈ initial, item.tries < maxAttempts) : History maxAttempts initial [] where
  ids := by simpa [enqueued] using hids
  untried := by simp [enqueued]
  known := by simp [removedIds, rejections]
  tries := by simpa [enqueued, droppedIds, rejections] using htries
  once := by simp [removedIds]
  legal := by simp

/-- The item an outbox entry is of, and what is left of its attempts. -/
theorem exists_item (h : History maxAttempts initial log) (hnext : next ∈ remaining initial log) :
    ∃ item ∈ initial ++ enqueued log, item.id = next.id ∧ next.id ∉ removedIds log ∧
      next.tries = item.tries + rejections log item.id ∧ next.tries < maxAttempts := by
  obtain ⟨item, hitem, hremoved, rfl⟩ := mem_remaining.mp hnext
  have htries := h.tries item hitem
  rw [if_neg (mt mem_removedIds_of_mem_droppedIds hremoved)] at htries
  rw [tried_id, tried_tries]
  exact ⟨item, hitem, rfl, hremoved, rfl, htries⟩

/-- The entries of an outbox have distinct ids. -/
theorem eq_of_id (h : History maxAttempts initial log) (hnext : next ∈ remaining initial log)
    (hitem : item ∈ remaining initial log) (hid : item.id = next.id) : item = next := by
  obtain ⟨next', hnext', -, rfl⟩ := mem_remaining.mp hnext
  obtain ⟨item', hitem', -, rfl⟩ := mem_remaining.mp hitem
  rw [tried_id, tried_id] at hid
  rw [List.inj_on_of_nodup_map h.ids hitem' hnext' hid]

theorem enqueue (h : History maxAttempts initial log)
    (hfresh : item.id ∉ (initial ++ enqueued log).map QueuedOutbound.id)
    (huntried : item.tries = 0) (hmax : 0 < maxAttempts) :
    History maxAttempts initial (log ++ [.enqueued item]) ∧
      remaining initial (log ++ [.enqueued item]) = remaining initial log ++ [item] := by
  obtain ⟨hremoved, hrejections⟩ := h.known item.id hfresh
  have henqueued : enqueued (log ++ [.enqueued item]) = enqueued log ++ [item] :=
    enqueued_concat
  have hids : removedIds (log ++ [.enqueued item]) = removedIds log := removedIds_kept rfl
  have hdropped : droppedIds (log ++ [.enqueued item]) = droppedIds log := droppedIds_kept rfl
  have hcount : ∀ id, rejections (log ++ [.enqueued item]) id = rejections log id :=
    rejections_kept fun _ => rfl
  refine ⟨?_, remaining_enqueued hremoved hrejections⟩
  constructor
  · rw [henqueued, ← List.append_assoc, List.map_append, List.map_singleton,
      List.nodup_append]
    refine ⟨h.ids, List.nodup_singleton _, ?_⟩
    rintro id hid id' hid' rfl
    obtain rfl := List.mem_singleton.mp hid'
    exact hfresh hid
  · rw [henqueued, List.forall_mem_append, List.forall_mem_singleton]
    exact ⟨h.untried, huntried⟩
  · intro id hid
    rw [henqueued, ← List.append_assoc, List.map_append, List.mem_append, not_or] at hid
    rw [hids, hcount]
    exact h.known id hid.1
  · rw [henqueued, ← List.append_assoc, List.forall_mem_append, List.forall_mem_singleton]
    simp only [hdropped, hcount]
    refine ⟨h.tries, ?_⟩
    rw [if_neg (mt mem_removedIds_of_mem_droppedIds hremoved), hrejections, huntried]
    exact hmax
  · rw [hids]
    exact h.once
  · exact forall_split_concat h.legal trivial

theorem flush (h : History maxAttempts initial log) (hquiet : running log = [])
    (hhead : (remaining initial log).head? = some item) :
    History maxAttempts initial (log ++ [.flush item]) := by
  have henqueued : enqueued (log ++ [.flush item]) = enqueued log := enqueued_kept rfl
  have hids : removedIds (log ++ [.flush item]) = removedIds log := removedIds_kept rfl
  have hdropped : droppedIds (log ++ [.flush item]) = droppedIds log := droppedIds_kept rfl
  have hcount : ∀ id, rejections (log ++ [.flush item]) id = rejections log id :=
    rejections_kept fun _ => rfl
  constructor
  · rw [henqueued]
    exact h.ids
  · rw [henqueued]
    exact h.untried
  · rw [henqueued, hids]
    simpa only [hcount] using h.known
  · rw [henqueued, hdropped]
    simpa only [hcount] using h.tries
  · rw [hids]
    exact h.once
  · exact forall_split_concat h.legal ⟨hquiet, hhead⟩

/-- An item of the outbox leaves it. -/
theorem removed (h : History maxAttempts initial log) (hnext : next ∈ remaining initial log)
    {log' : List OutboxEvent} (henqueued : enqueued log' = enqueued log)
    (hids : removedIds log' = removedIds log ++ [next.id])
    (hcount : ∀ id, id ≠ next.id → rejections log' id = rejections log id) :
    (∀ id, id ∉ (initial ++ enqueued log').map QueuedOutbound.id →
      id ∉ removedIds log' ∧ rejections log' id = 0) ∧ (removedIds log').Nodup := by
  obtain ⟨item, hitem, hid, hremoved, -⟩ := h.exists_item hnext
  rw [henqueued, hids]
  constructor
  · intro id hunknown
    have hne : id ≠ next.id := by
      rintro rfl
      exact hunknown (hid ▸ List.mem_map_of_mem hitem)
    rw [hcount id hne, List.mem_append, List.mem_singleton, not_or]
    exact ⟨⟨(h.known id hunknown).1, hne⟩, (h.known id hunknown).2⟩
  · refine List.nodup_append.mpr ⟨h.once, List.nodup_singleton _, ?_⟩
    rintro id hmem id' hid' rfl
    obtain rfl := List.mem_singleton.mp hid'
    exact hremoved hmem

/-- The flush of an item of the outbox resolves. -/
theorem resolve (h : History maxAttempts initial log) (hrun : running log = [next])
    (hnext : next ∈ remaining initial log) :
    History maxAttempts initial (log ++ [.resolved next]) := by
  have henqueued : enqueued (log ++ [.resolved next]) = enqueued log := enqueued_kept rfl
  have hdropped : droppedIds (log ++ [.resolved next]) = droppedIds log := droppedIds_kept rfl
  have hcount : ∀ id, rejections (log ++ [.resolved next]) id = rejections log id :=
    rejections_kept fun _ => rfl
  obtain ⟨hknown, honce⟩ := h.removed hnext henqueued removedIds_concat fun id _ => hcount id
  refine ⟨henqueued ▸ h.ids, henqueued ▸ h.untried, hknown, ?_, honce,
    forall_split_concat h.legal hrun⟩
  rw [henqueued, hdropped]
  simpa only [hcount] using h.tries

/-- The flush of an item is rejected, and the item has attempts left. -/
theorem reject (h : History maxAttempts initial log) (hrun : running log = [next])
    (hnext : next ∈ remaining initial log) (hleft : next.tries + 1 < maxAttempts) :
    History maxAttempts initial (log ++ [.rejected next]) := by
  have henqueued : enqueued (log ++ [.rejected next]) = enqueued log := enqueued_kept rfl
  have hids : removedIds (log ++ [.rejected next]) = removedIds log := removedIds_kept rfl
  have hdropped : droppedIds (log ++ [.rejected next]) = droppedIds log := droppedIds_kept rfl
  obtain ⟨item, hitem, hid, hremoved, htries, -⟩ := h.exists_item hnext
  refine ⟨henqueued ▸ h.ids, henqueued ▸ h.untried, ?_, ?_, hids ▸ h.once,
    forall_split_concat h.legal hrun⟩
  · intro id hunknown
    rw [henqueued] at hunknown
    have hne : next.id ≠ id := by
      rintro rfl
      exact hunknown (hid ▸ List.mem_map_of_mem hitem)
    rw [hids, rejections_rejected, if_neg hne]
    exact h.known id hunknown
  · rw [henqueued, hdropped]
    intro other hother
    rw [rejections_rejected]
    by_cases hsame : next.id = other.id
    · obtain rfl : other = item :=
        List.inj_on_of_nodup_map h.ids hother hitem (hsame.symm.trans hid.symm)
      rw [if_neg (mt mem_removedIds_of_mem_droppedIds (hsame ▸ hremoved)), if_pos hsame]
      omega
    · rw [if_neg hsame]
      exact h.tries other hother

/-- The flush of an item is rejected for the last time, and the item is dropped. -/
theorem drop (h : History maxAttempts initial log) (hrun : running log = [next])
    (hnext : next ∈ remaining initial log) (hlast : maxAttempts ≤ next.tries + 1) :
    History maxAttempts initial (log ++ [.rejected next] ++ [.dropped next]) := by
  have henqueued : enqueued (log ++ [.rejected next] ++ [.dropped next]) = enqueued log := by
    simp [enqueued]
  have hdropped : droppedIds (log ++ [.rejected next] ++ [.dropped next]) =
      droppedIds log ++ [next.id] := by
    simp [droppedIds]
  obtain ⟨item, hitem, hid, hremoved, htries, hbefore⟩ := h.exists_item hnext
  obtain ⟨hknown, honce⟩ := h.removed hnext henqueued (by simp [removedIds]) fun id hne => by
    rw [rejections_dropped, if_neg hne.symm, Nat.add_zero]
  refine ⟨henqueued ▸ h.ids, henqueued ▸ h.untried, hknown, ?_, honce, ?_⟩
  · rw [henqueued, hdropped]
    intro other hother
    rw [rejections_dropped]
    by_cases hsame : next.id = other.id
    · obtain rfl : other = item :=
        List.inj_on_of_nodup_map h.ids hother hitem (hsame.symm.trans hid.symm)
      rw [if_pos (by simp [hsame]), if_pos hsame]
      omega
    · simpa [hsame, Ne.symm hsame] using h.tries other hother
  · refine forall_split_concat (forall_split_concat h.legal hrun) ?_
    exact List.getLast?_concat

end History

end

/-! ## What the code keeps -/

namespace Outbox

variable {opts : BoardSocketOptions} {initial : List QueuedOutbound} {s s' : Outbox}
  {item next : QueuedOutbound} {queue : List QueuedOutbound}

/-- Where `flushOutbox` stands: not running, awaiting the first item of the outbox, or
dropping an item, its queue a start of the outbox. -/
inductive Stands (s : Outbox) : Prop where
  | idle (hflushing : s.flushing = false) (hcalls : s.calls = []) (hrun : running s.log = [])
  | awaiting (next : QueuedOutbound) (hflushing : s.flushing = true)
      (hcalls : s.calls = [.awaiting next]) (hrun : running s.log = [next])
      (hhead : s.readOutbox.head? = some next)
  | dropping (queue : List QueuedOutbound) (hflushing : s.flushing = true)
      (hcalls : s.calls = [.dropping queue]) (hrun : running s.log = [])
      (hqueue : queue <+: s.readOutbox)

/-- The stored outbox is what the log says. -/
structure Holds (opts : BoardSocketOptions) (initial : List QueuedOutbound) (s : Outbox) :
    Prop where
  history : History opts.maxAttempts initial s.log
  stored : s.readOutbox = remaining initial s.log

structure Inv (opts : BoardSocketOptions) (initial : List QueuedOutbound) (s : Outbox) : Prop
    extends Holds opts initial s where
  stands : s.Stands

@[simp] theorem readOutbox_writeOutbox : (s.writeOutbox queue).readOutbox = queue := by
  unfold writeOutbox readOutbox
  cases queue <;> simp

theorem running_concat (log : List OutboxEvent) (event : OutboxEvent) :
    running (log ++ [event]) = match event with
      | .flush item => running log ++ [item]
      | .resolved item => (running log).erase item
      | .rejected item => (running log).erase item
      | _ => running log := by
  rw [running, List.foldl_append]
  rfl

/-- At the head of the loop nothing is running, and the queue is a start of the outbox. -/
theorem inv_drain (h : s.Holds opts initial) (hflushing : s.flushing = true)
    (hcalls : s.calls = []) (hrun : running s.log = []) (hqueue : queue <+: s.readOutbox) :
    (s.drain queue).Inv opts initial := by
  cases queue with
  | nil => exact ⟨⟨h.history, h.stored⟩, .idle rfl hcalls hrun⟩
  | cons next rest =>
      rw [drain]
      split
      · obtain ⟨rest', hrest'⟩ := hqueue
        have hhead : s.readOutbox.head? = some next := by
          rw [← hrest']
          rfl
        refine ⟨⟨h.history.flush hrun (h.stored ▸ hhead), ?_⟩, ?_⟩
        · exact h.stored.trans remaining_flush.symm
        · refine .awaiting next hflushing ?_ ?_ hhead
          · rw [record, hcalls]
            rfl
          · rw [record, running_concat, hrun]
            rfl
      · exact ⟨⟨h.history, h.stored⟩, .idle rfl hcalls hrun⟩

theorem Inv.flushOutbox (h : s.Inv opts initial) : (s.flushOutbox opts).Inv opts initial := by
  rw [Outbox.flushOutbox]
  split
  · exact h
  · rename_i hfree
    rw [Bool.or_eq_true, not_or, Bool.not_eq_true] at hfree
    split
    · exact h
    · cases h.stands with
      | idle hflushing hcalls hrun =>
          exact inv_drain ⟨h.history, h.stored⟩ rfl hcalls hrun (List.prefix_refl _)
      | awaiting next hflushing => exact absurd (hflushing.symm.trans hfree.1) (by decide)
      | dropping queue hflushing => exact absurd (hflushing.symm.trans hfree.1) (by decide)

theorem Inv.enqueueOutbound (h : s.Inv opts initial)
    (hfresh : item.id ∉ (initial ++ enqueued s.log).map QueuedOutbound.id)
    (huntried : item.tries = 0) (hmax : 0 < opts.maxAttempts) :
    (s.enqueueOutbound opts item).Inv opts initial := by
  obtain ⟨hhistory, hremaining⟩ := h.history.enqueue hfresh huntried hmax
  have hstored : (s.writeOutbox (s.readOutbox ++ [item])).readOutbox = s.readOutbox ++ [item] :=
    readOutbox_writeOutbox
  have hrunning : running (s.log ++ [.enqueued item]) = running s.log :=
    running_concat s.log (.enqueued item)
  have hinv : ((s.writeOutbox (s.readOutbox ++ [item])).record (.enqueued item)).Inv opts
      initial := by
    refine ⟨⟨hhistory, ?_⟩, ?_⟩
    · exact hstored.trans ((congrArg (· ++ [item]) h.stored).trans hremaining.symm)
    · cases h.stands with
      | idle hflushing hcalls hrun => exact .idle hflushing hcalls (hrunning.trans hrun)
      | awaiting next hflushing hcalls hrun hhead =>
          refine .awaiting next hflushing hcalls (hrunning.trans hrun) ?_
          show (s.writeOutbox _).readOutbox.head? = some next
          rw [hstored, List.head?_append, hhead]
          rfl
      | dropping queue hflushing hcalls hrun hqueue =>
          refine .dropping queue hflushing hcalls (hrunning.trans hrun) ?_
          show queue <+: (s.writeOutbox _).readOutbox
          rw [hstored]
          exact hqueue.trans (List.prefix_append _ _)
  rw [Outbox.enqueueOutbound]
  split
  · exact hinv.flushOutbox
  · exact hinv

/-- The flush of the first item resolves, and the loop goes on with the stored rest. -/
theorem inv_resolve (h : s.Holds opts initial) (hflushing : s.flushing = true)
    (hcalls : s.calls = []) (hrun : running s.log = [next])
    (hhead : s.readOutbox.head? = some next) : (s.resolve next).Inv opts initial := by
  have hnext : next ∈ remaining initial s.log := h.stored ▸ List.mem_of_head? hhead
  have hstored : (s.writeOutbox (s.withoutItem next)).readOutbox = s.withoutItem next :=
    readOutbox_writeOutbox
  refine inv_drain ⟨h.history.resolve hrun hnext, ?_⟩ hflushing hcalls ?_ ?_
  · refine hstored.trans ?_
    rw [withoutItem, h.stored]
    exact remaining_resolved.symm
  · refine (running_concat s.log (.resolved next)).trans ?_
    simp [hrun]
  · exact hstored.symm ▸ List.prefix_refl _

/-- The flush of the first item is rejected: it stays with one more attempt, or it is
dropped. -/
theorem inv_reject (h : s.Holds opts initial) (hflushing : s.flushing = true)
    (hcalls : s.calls = []) (hrun : running s.log = [next])
    (hhead : s.readOutbox.head? = some next) : (s.reject opts next).Inv opts initial := by
  have hnext : next ∈ remaining initial s.log := h.stored ▸ List.mem_of_head? hhead
  have hrejected : running (s.log ++ [.rejected next]) = [] := by
    refine (running_concat s.log (.rejected next)).trans ?_
    simp [hrun]
  rw [reject]
  split
  · rename_i hlast
    have hstored : (s.writeOutbox (s.withoutItem next)).readOutbox = s.withoutItem next :=
      readOutbox_writeOutbox
    refine ⟨⟨h.history.drop hrun hnext hlast, ?_⟩, ?_⟩
    · refine hstored.trans ?_
      rw [withoutItem, h.stored]
      exact remaining_dropped.symm
    · refine .dropping (s.withoutItem next) hflushing ?_ ?_ (hstored.symm ▸ List.prefix_refl _)
      · show s.calls ++ [FlushCall.dropping _] = _
        rw [hcalls]
        rfl
      · exact (running_concat _ (.dropped next)).trans hrejected
  · rename_i hleft
    have hstored := @readOutbox_writeOutbox s (s.readOutbox.map fun item =>
      if item.id = next.id then { item with attempts := some (next.tries + 1) } else item)
    refine ⟨⟨h.history.reject hrun hnext (Nat.lt_of_not_le hleft), ?_⟩,
      .idle rfl hcalls hrejected⟩
    refine hstored.trans ?_
    rw [h.stored]
    refine Eq.trans ?_ remaining_rejected.symm
    refine List.map_congr_left fun item hitem => ?_
    split
    · rename_i hid
      rw [h.history.eq_of_id hnext hitem hid]
    · rfl

/-- The socket does not matter to what is kept. -/
theorem Inv.withSocket (h : s.Inv opts initial) (socket : Option Bool) :
    { s with socket := socket }.Inv opts initial := by
  refine ⟨⟨h.history, h.stored⟩, ?_⟩
  cases h.stands with
  | idle hflushing hcalls hrun => exact .idle hflushing hcalls hrun
  | awaiting next hflushing hcalls hrun hhead => exact .awaiting next hflushing hcalls hrun hhead
  | dropping queue hflushing hcalls hrun hqueue =>
      exact .dropping queue hflushing hcalls hrun hqueue

/-- The id of an item that is enqueued is new. -/
def EnqueuesFresh (initial : List QueuedOutbound) (s : Outbox) (action : OutboxAction) : Prop :=
  match action with
  | .enqueue id _ _ _ => id ∉ (initial ++ enqueued s.log).map QueuedOutbound.id
  | _ => True

instance (initial : List QueuedOutbound) (s : Outbox) :
    (action : OutboxAction) → Decidable (s.EnqueuesFresh initial action)
  | .enqueue id _ _ _ =>
      inferInstanceAs (Decidable (id ∉ (initial ++ enqueued s.log).map QueuedOutbound.id))
  | .connect | .socket _ | .joined | .disconnect | .settle _ _ | .resume _ =>
      inferInstanceAs (Decidable True)

theorem Inv.settle (h : s.Inv opts initial) {call : Nat} (resolved : Bool)
    (hcall : s.calls[call]? = some (.awaiting next)) :
    (if resolved then { s with calls := s.calls.eraseIdx call }.resolve next
      else { s with calls := s.calls.eraseIdx call }.reject opts next).Inv opts initial := by
  cases h.stands with
  | idle hflushing hcalls => simp [hcalls] at hcall
  | dropping queue hflushing hcalls =>
      rw [hcalls, List.getElem?_singleton] at hcall
      split at hcall <;> simp at hcall
  | awaiting first hflushing hcalls hrun hhead =>
      rw [hcalls, List.getElem?_singleton] at hcall
      split at hcall
      · rename_i hindex
        subst hindex
        obtain rfl : first = next := by simpa using hcall
        have hempty : s.calls.eraseIdx 0 = [] := by rw [hcalls, List.eraseIdx_cons_zero]
        split
        · exact inv_resolve ⟨h.history, h.stored⟩ hflushing hempty hrun hhead
        · exact inv_reject ⟨h.history, h.stored⟩ hflushing hempty hrun hhead
      · simp at hcall

theorem Inv.resume (h : s.Inv opts initial) {call : Nat}
    (hcall : s.calls[call]? = some (.dropping queue)) :
    ({ s with calls := s.calls.eraseIdx call }.drain queue).Inv opts initial := by
  cases h.stands with
  | idle hflushing hcalls => simp [hcalls] at hcall
  | awaiting first hflushing hcalls =>
      rw [hcalls, List.getElem?_singleton] at hcall
      split at hcall <;> simp at hcall
  | dropping rest hflushing hcalls hrun hqueue =>
      rw [hcalls, List.getElem?_singleton] at hcall
      split at hcall
      · rename_i hindex
        subst hindex
        obtain rfl : rest = queue := by simpa using hcall
        have hempty : s.calls.eraseIdx 0 = [] := by rw [hcalls, List.eraseIdx_cons_zero]
        exact inv_drain ⟨h.history, h.stored⟩ hflushing hempty hrun hqueue
      · simp at hcall

theorem Inv.step (hmax : 0 < opts.maxAttempts) {action : OutboxAction}
    (hfresh : s.EnqueuesFresh initial action) (h : s.Inv opts initial)
    (hs : s.step opts action = some s') : s'.Inv opts initial := by
  cases action with
  | enqueue id type payload queuedAt =>
      obtain rfl := Option.some.inj hs
      exact h.enqueueOutbound hfresh rfl hmax
  | connect =>
      obtain rfl := Option.some.inj hs
      exact h.withSocket _
  | socket connected =>
      obtain ⟨-, -, rfl⟩ := Option.map_eq_some_iff.mp hs
      exact h.withSocket _
  | joined =>
      obtain rfl := Option.some.inj hs
      exact h.flushOutbox
  | disconnect =>
      obtain rfl := Option.some.inj hs
      exact h.withSocket _
  | settle call resolved =>
      rw [Outbox.step] at hs
      split at hs
      · rename_i next hcall
        obtain rfl := Option.some.inj hs
        exact h.settle resolved hcall
      · cases hs
  | resume call =>
      rw [Outbox.step] at hs
      split at hs
      · rename_i queue hcall
        obtain rfl := Option.some.inj hs
        exact h.resume hcall
      · cases hs

theorem Stands.awaited_eq (h : s.Stands) : s.awaited = running s.log ∧ s.awaited.length ≤ 1 := by
  cases h with
  | idle hflushing hcalls hrun => simp [awaited, hcalls, hrun]
  | awaiting next hflushing hcalls hrun => simp [awaited, hcalls, hrun]
  | dropping queue hflushing hcalls hrun => simp [awaited, hcalls, hrun]

end Outbox

/-- In every run of a manager, over an outbox an earlier one may have left, the stored
outbox holds the enqueued items in order without the removed ones.  An item is removed
once: its flush resolved, or it was rejected for the last time and dropped, right after
that rejection and exactly then.  At most one `flushOutbound` runs, it was called on the
first item of the outbox, and only it settles. -/
theorem outbox_lossless {opts : BoardSocketOptions} {entry : Option (List QueuedOutbound)}
    {initial : List QueuedOutbound} {trace : List (Outbox × OutboxAction)} {s : Outbox}
    (hmax : 0 < opts.maxAttempts) (hinitial : entry.getD [] = initial)
    (hids : (initial.map QueuedOutbound.id).Nodup)
    (htries : ∀ item ∈ initial, item.tries < opts.maxAttempts)
    (run : Steps (Outbox.step opts) (.opened entry) trace s)
    (hfresh : ∀ e ∈ trace, e.1.EnqueuesFresh initial e.2) :
    s.readOutbox = remaining initial s.log ∧
      s.awaited = running s.log ∧ s.awaited.length ≤ 1 ∧
      (removedIds s.log).Nodup ∧
      (∀ item ∈ enqueued s.log, item.tries = 0) ∧
      (∀ item ∈ initial ++ enqueued s.log,
        item.tries + rejections s.log item.id ≤ opts.maxAttempts ∧
          (item.id ∈ droppedIds s.log ↔
            item.tries + rejections s.log item.id = opts.maxAttempts)) ∧
      (∀ before item after, s.log = before ++ .flush item :: after →
        running before = [] ∧ (remaining initial before).head? = some item) ∧
      (∀ before item after, s.log = before ++ .resolved item :: after →
        running before = [item]) ∧
      (∀ before item after, s.log = before ++ .rejected item :: after →
        running before = [item]) ∧
      ∀ before item after, s.log = before ++ .dropped item :: after →
        before.getLast? = some (.rejected item) := by
  have hstart : (Outbox.opened entry).Inv opts initial :=
    ⟨⟨.start hids htries, hinitial.trans remaining_nil.symm⟩, .idle rfl rfl rfl⟩
  have hinv : s.Inv opts initial :=
    run.invariant_along hfresh hstart fun s action s' hfresh h hs => h.step hmax hfresh hs
  have hlegal := hinv.history.legal
  refine ⟨hinv.stored, hinv.stands.awaited_eq.1, hinv.stands.awaited_eq.2, hinv.history.once,
    hinv.history.untried, ?_, fun before item => hlegal before (.flush item),
    fun before item => hlegal before (.resolved item),
    fun before item => hlegal before (.rejected item),
    fun before item => hlegal before (.dropped item)⟩
  intro item hitem
  have hcounts := hinv.history.tries item hitem
  split at hcounts
  · rename_i hdropped
    exact ⟨hcounts.le, fun _ => hcounts, fun _ => hdropped⟩
  · rename_i hkept
    exact ⟨hcounts.le, fun h => absurd h hkept, fun h => absurd h hcounts.ne⟩

/-! ### A change that fails twice -/

namespace TwiceRejected

/-- Two attempts for each item. -/
def opts : BoardSocketOptions where
  flushOutbound := true
  maxOutboundAttempts := some 2

def payload : BoardMutationPayload where
  cardId := some (js "c1")
  listId := none
  positionIdx := none

/-- The queued change of an id, with the attempts it has made. -/
def item (id : String) (attempts : Option Nat) : QueuedOutbound where
  id := js id
  type := .cardUpdated
  payload := payload
  queuedAt := 0
  attempts := attempts

def enqueue (id : String) : OutboxAction := .enqueue (js id) .cardUpdated payload 0

/-- Two changes are made offline.  After the connection the first one fails, and once more
when a third one is enqueued; it is dropped, and the second one goes through. -/
def actions : List OutboxAction :=
  [enqueue "a", enqueue "b", .connect, .socket true, .joined, .settle 0 false, enqueue "c",
    .settle 0 false, .resume 0, .settle 0 true]

end TwiceRejected

/-- The third change is left, and its flush runs. -/
theorem twiceRejected_lossless :
    ∃ s : Outbox, TwiceRejected.actions.foldlM (Outbox.step TwiceRejected.opts)
        (.opened none) = some s ∧
      s.readOutbox = [TwiceRejected.item "c" none] ∧ s.awaited.length ≤ 1 ∧
      droppedIds s.log = [js "a"] := by
  obtain ⟨s, hs⟩ := Option.isSome_iff_exists.mp
    (show (TwiceRejected.actions.foldlM (Outbox.step TwiceRejected.opts)
      (.opened none)).isSome = true from rfl)
  have hread := Option.some.inj hs
  have hfresh : ∀ e ∈ traceOf (Outbox.step TwiceRejected.opts) (.opened none)
      TwiceRejected.actions, e.1.EnqueuesFresh [] e.2 := by
    decide
  have hinitial : (none : Option (List QueuedOutbound)).getD [] = [] := rfl
  obtain ⟨-, -, hone, -⟩ := outbox_lossless (by decide) hinitial List.nodup_nil (by simp)
    (Steps.of_actions hs) hfresh
  exact ⟨s, hs, by subst hread; rfl, hone, by subst hread; rfl⟩

end FlowLogix.Realtime

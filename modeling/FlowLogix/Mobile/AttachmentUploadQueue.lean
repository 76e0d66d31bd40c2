/-
  Mobile/AttachmentUploadQueue.lean --- the background upload queue
  (mobile/src/attachments/AttachmentUploadQueue.ts, mobile/src/attachments/ports.ts,
  mobile/src/model/watermelonStores.ts, mobile/src/sync/networkMonitor.ts).

  The queue is cut at its awaits.  What survives the process is the store; the in-flight
  set, the backoff timers and the drain are the instance's.  A drain goes over the store
  in passes: it lists the runnable records, starts workers on that list, and awaits them
  with `Promise.all`, which ends at the first worker that rejects while the others go on.
  So the lists of earlier passes stay beside the latest one, and a worker names its pass.

  A store or uploader call settles when the run says so, and a call that rejects has
  written nothing.
-/
import FlowLogix.Foundation.Dict
import FlowLogix.Foundation.JsString
import FlowLogix.Foundation.SortByKey
import FlowLogix.Foundation.Steps

set_option autoImplicit false

namespace FlowLogix.Mobile

open FlowLogix.Foundation

/-! ## The network -/

/-- `ConnectionType`. -/
inductive ConnectionType where
  | wifi
  | cellular
  | ethernet
  | none
  | unknown
deriving DecidableEq

/-- `NetworkMonitor`: what it reports at the moment. -/
structure NetworkMonitor where
  online : Bool
  connectionType : ConnectionType

/-- `isSuitableForLargeUpload`. -/
def isSuitableForLargeUpload (monitor : NetworkMonitor) : Bool :=
  if !monitor.online then false
  else
    monitor.connectionType = .wifi || monitor.connectionType = .ethernet ||
      monitor.connectionType = .cellular

/-! ## Records -/

/-- `UploadStatus`. -/
inductive UploadStatus where
  | queued
  | uploading
  | uploaded
  | failed
deriving DecidableEq

/-- `NewAttachmentUpload`. -/
structure NewAttachmentUpload where
  id : JsString
  cardId : JsString
  localUri : JsString
  filename : JsString
  mimeType : JsString
  sizeBytes : Nat
deriving DecidableEq

/-- `AttachmentUpload`. -/
structure AttachmentUpload extends NewAttachmentUpload where
  status : UploadStatus
  attempts : Nat
  nextAttemptAt : Nat
  remoteUrl : Option JsString
  lastError : Option JsString
deriving DecidableEq

/-- The columns that `put` writes over the row of a record. -/
def AttachmentUpload.update (row record : AttachmentUpload) : AttachmentUpload :=
  { row with
    status := record.status
    attempts := record.attempts
    nextAttemptAt := record.nextAttemptAt
    remoteUrl := record.remoteUrl
    lastError := record.lastError }

/-! ## The store -/

/-- `UploadStore`: each record sits under its id. -/
structure UploadStore where
  rows : Dict JsString AttachmentUpload
  keyed : ∀ id record, rows.lookup id = some record → record.id = id

namespace UploadStore

/-- `get`. -/
def get (store : UploadStore) (id : JsString) : Option AttachmentUpload :=
  store.rows.lookup id

variable {store : UploadStore} {id : JsString} {record : AttachmentUpload}

theorem id_of_get (h : store.get id = some record) : record.id = id := store.keyed id record h

/-- The row that `put` leaves for a record. -/
def written (store : UploadStore) (record : AttachmentUpload) : AttachmentUpload :=
  match store.get record.id with
  | none => record
  | some row => row.update record

@[simp] theorem written_id (store : UploadStore) (record : AttachmentUpload) :
    (store.written record).id = record.id := by
  unfold written
  split
  · rfl
  · rename_i row hrow
    show row.id = record.id
    exact id_of_get hrow

@[simp] theorem written_status (store : UploadStore) (record : AttachmentUpload) :
    (store.written record).status = record.status := by
  unfold written
  split <;> rfl

@[simp] theorem written_attempts (store : UploadStore) (record : AttachmentUpload) :
    (store.written record).attempts = record.attempts := by
  unfold written
  split <;> rfl

@[simp] theorem written_nextAttemptAt (store : UploadStore) (record : AttachmentUpload) :
    (store.written record).nextAttemptAt = record.nextAttemptAt := by
  unfold written
  split <;> rfl

/-- `put`. -/
def put (store : UploadStore) (record : AttachmentUpload) : UploadStore where
  rows := store.rows.insert record.id (store.written record)
  keyed := by
    intro id r hr
    rw [Dict.lookup_insert_eq] at hr
    split at hr
    · rename_i hid
      rw [← Option.some.inj hr, written_id, hid]
    · exact store.keyed id r hr

theorem get_put (store : UploadStore) (record : AttachmentUpload) (id : JsString) :
    (store.put record).get id =
      if id = record.id then some (store.written record) else store.get id :=
  Dict.lookup_insert_eq store.rows record.id id (store.written record)

/-- The stored records. -/
def records (store : UploadStore) : List AttachmentUpload := store.rows.values

theorem mem_records : record ∈ store.records ↔ store.get record.id = some record :=
  Dict.mem_values_iff_of_keyed store.keyed

/-- `listRunnable`: the queued records whose backoff has elapsed. -/
def listRunnable (store : UploadStore) (now : Nat) : List AttachmentUpload :=
  sortByKey (·.nextAttemptAt)
    (store.records.filter fun row => row.status = .queued ∧ row.nextAttemptAt ≤ now)

theorem mem_listRunnable {now : Nat} :
    record ∈ store.listRunnable now ↔
      record ∈ store.records ∧ record.status = .queued ∧ record.nextAttemptAt ≤ now := by
  rw [listRunnable, mem_sortByKey, List.mem_filter, decide_eq_true_iff]

/-- No id is listed twice. -/
theorem nodup_listRunnable (store : UploadStore) (now : Nat) :
    ((store.listRunnable now).map (·.id)).Nodup := by
  have hperm := (sortByKey_perm (·.nextAttemptAt)
    (store.records.filter fun row => row.status = .queued ∧ row.nextAttemptAt ≤ now)).map (·.id)
  apply hperm.nodup_iff.mpr
  exact (List.filter_sublist.map _).nodup (Dict.nodup_values_of_keyed store.keyed)

/-- A record has a status in the store. -/
def HasStatus (store : UploadStore) (id : JsString) (status : UploadStatus) : Prop :=
  ∃ row ∈ store.get id, row.status = status

instance (store : UploadStore) (id : JsString) (status : UploadStatus) :
    Decidable (store.HasStatus id status) :=
  inferInstanceAs (Decidable (∃ row ∈ store.get id, row.status = status))

theorem hasStatus_put {status : UploadStatus} :
    (store.put record).HasStatus id status ↔
      if id = record.id then record.status = status else store.HasStatus id status := by
  unfold HasStatus
  rw [get_put]
  split
  · simp
  · rfl

end UploadStore

/-! ## The queue -/

/-- `AttachmentQueueConfig`: its numbers, with their defaults. -/
structure AttachmentQueueConfig where
  maxConcurrent : Int := 2
  maxAttempts : Nat := 6
  backoffBaseMs : Nat := 2000
  backoffMaxMs : Nat := 5 * 60 * 1000

/-- What a worker awaits in `runClaimed`. -/
inductive WorkerPoint where
  /-- the `put` of the status 'uploading' -/
  | marking
  /-- `uploader.upload` -/
  | uploading
  /-- the `put` of the status 'uploaded' -/
  | storing (remoteUrl : JsString)
  /-- the `put` of `handleFailure`, called at this time -/
  | recording (message : JsString) (now : Nat)
deriving DecidableEq

/-- A worker, with the record it has claimed from the list of its pass. -/
structure Worker where
  pass : Nat
  record : AttachmentUpload
  point : WorkerPoint

/-- What the running `process` call awaits; `idle` is `draining = false`. -/
inductive DrainPoint where
  | idle
  /-- `listRunnable`, called at this time -/
  | listing (now : Nat)
  /-- the same, answered -/
  | listed (rows : List AttachmentUpload)
  /-- the `Promise.all` over the workers of the latest pass -/
  | working
  /-- a `drainOnce` that had nothing to do -/
  | returning
deriving DecidableEq

/-- `AttachmentUploadQueue`: what one instance holds in memory. -/
structure AttachmentUploadQueue where
  inFlight : Finset JsString
  /-- when each pending backoff timer is due -/
  timers : List Nat
  /-- `unsubscribe` is set -/
  started : Bool
  stopped : Bool
  rerun : Bool
  drain : DrainPoint
  /-- the failed record that each open `retry` has read -/
  retries : List AttachmentUpload
  /-- the latest pass -/
  pass : Nat
  /-- of the list of each pass, what is past its cursor -/
  runnable : Nat → List AttachmentUpload
  workers : List Worker
  /-- a worker of the latest pass has rejected -/
  rejected : Bool

/-- A new instance. -/
def AttachmentUploadQueue.create : AttachmentUploadQueue where
  inFlight := ∅
  timers := []
  started := false
  stopped := false
  rerun := false
  drain := .idle
  retries := []
  pass := 0
  runnable _ := []
  workers := []
  rejected := false

/-- An instance with the store, the network and the clock it works on. -/
structure UploadSystem extends AttachmentUploadQueue where
  store : UploadStore
  network : NetworkMonitor
  /-- `now()` -/
  now : Nat

namespace UploadSystem

variable (cfg : AttachmentQueueConfig) (sys : UploadSystem)

/-- `drainOnce` up to its `listRunnable`. -/
def drainOnce : UploadSystem :=
  if sys.stopped || !isSuitableForLargeUpload sys.network then { sys with drain := .returning }
  else { sys with drain := .listing sys.now }

/-- The loop test of `process`, and the next `drainOnce`. -/
def nextPass : UploadSystem :=
  if sys.rerun then { sys with rerun := false }.drainOnce else { sys with drain := .idle }

/-- `process`, called outright or by `kick`. -/
def process : UploadSystem :=
  match sys.drain with
  | .idle => { sys with rerun := true }.nextPass
  | _ => { sys with rerun := true }

/-- The inner loop of a worker: the first candidate that is not in flight, and what is
left of the list then. -/
def claim (inFlight : Finset JsString) :
    List AttachmentUpload → Option AttachmentUpload × List AttachmentUpload
  | [] => (none, [])
  | candidate :: rest =>
      if candidate.id ∈ inFlight then claim inFlight rest else (some candidate, rest)

/-- One turn of a worker's loop, up to the first await of `runClaimed`. -/
def turn (pass : Nat) : UploadSystem :=
  if sys.stopped || !isSuitableForLargeUpload sys.network then sys
  else
    match claim sys.inFlight (sys.runnable pass) with
    | (none, rest) => { sys with runnable := Function.update sys.runnable pass rest }
    | (some next, rest) =>
        { sys with
          runnable := Function.update sys.runnable pass rest
          inFlight := insert next.id sys.inFlight
          workers := sys.workers ++ [{ pass := pass, record := next, point := .marking }] }

/-- `workerCount`. -/
def workerCount (runnable : List AttachmentUpload) : Nat :=
  min runnable.length (max 1 cfg.maxConcurrent).toNat

/-- `drainOnce` after its `listRunnable`. -/
def beginPass (rows : List AttachmentUpload) : UploadSystem :=
  let runnable := rows.filter fun r => r.status = .queued ∧ r.id ∉ sys.inFlight
  if runnable = [] then { sys with drain := .returning }
  else
    let pass := sys.pass + 1
    (turn · pass)^[workerCount cfg runnable]
      { sys with
        drain := .working
        pass := pass
        runnable := Function.update sys.runnable pass runnable
        rejected := false }

/-- A worker is past `runClaimed`: its `finally`, and its next turn. -/
def release (i : Nat) (worker : Worker) : UploadSystem :=
  { sys with
    workers := sys.workers.eraseIdx i
    inFlight := sys.inFlight.erase worker.record.id }.turn worker.pass

/-- `runClaimed` rejects: its `finally`, and the worker is over. -/
def abandon (i : Nat) (worker : Worker) : UploadSystem :=
  { sys with
    workers := sys.workers.eraseIdx i
    inFlight := sys.inFlight.erase worker.record.id
    rejected := sys.rejected || worker.pass = sys.pass }

/-- `handleFailure`: the record that it puts, and the delay of the kick that it schedules
then. -/
def handleFailure (record : AttachmentUpload) (message : JsString) (now : Nat) :
    AttachmentUpload × Option Nat :=
  let attempts := record.attempts + 1
  if attempts ≥ cfg.maxAttempts then
    ({ record with status := .failed, attempts := attempts, lastError := some message }, none)
  else
    let delay := min cfg.backoffMaxMs (cfg.backoffBaseMs * 2 ^ (attempts - 1))
    ({ record with
        status := .queued
        attempts := attempts
        nextAttemptAt := now + delay
        lastError := some message },
      some delay)

/-- `schedule`, unless the queue is stopped. -/
def schedule (delay : Option Nat) : List Nat :=
  match delay with
  | none => sys.timers
  | some delay => if sys.stopped then sys.timers else sys.timers ++ [sys.now + delay]

/-- What a worker awaits settles: a value for `uploader.upload`, nothing for a `put`. -/
def work (i : Nat) (worker : Worker) : Except JsString JsString → UploadSystem
  | .ok value =>
      match worker.point with
      | .marking =>
          { sys with
            store := sys.store.put { worker.record with status := .uploading }
            workers := sys.workers.set i { worker with point := .uploading } }
      | .uploading =>
          { sys with workers := sys.workers.set i { worker with point := .storing value } }
      | .storing remoteUrl =>
          { sys with
            store := sys.store.put
              { worker.record with
                status := .uploaded
                remoteUrl := some remoteUrl
                lastError := none } }.release i worker
      | .recording message now =>
          let failure := handleFailure cfg worker.record message now
          { sys with
            store := sys.store.put failure.1
            timers := sys.schedule failure.2 }.release i worker
  | .error message =>
      match worker.point with
      | .marking | .recording _ _ => sys.abandon i worker
      | .uploading | .storing _ =>
          { sys with
            workers := sys.workers.set i { worker with point := .recording message sys.now } }

/-! ## The run -/

/-- What can happen next.  A call that settles does so with its value or the text of its
error. -/
inductive Event where
  | start
  | stop
  | process
  | enqueue (input : NewAttachmentUpload) (put : Except JsString Unit)
  /-- `retry` up to its `put` -/
  | retry (id : JsString) (get : Except JsString Unit)
  /-- the `put` of the open `retry` at `i` -/
  | requeue (i : Nat) (put : Except JsString Unit)
  | network (monitor : NetworkMonitor)
  /-- time passes -/
  | wait (ms : Nat)
  /-- the timer at `i` -/
  | fire (i : Nat)
  /-- `listRunnable` settles, in whatever order the store returns the records -/
  | list (rows : Except JsString (List AttachmentUpload))
  | begin
  /-- the `await` of `drainOnce` in `process` -/
  | endPass
  /-- what the worker at `i` awaits settles -/
  | work (i : Nat) (outcome : Except JsString JsString)
  /-- the process dies, and a new instance takes over the store -/
  | kill

/-- `start`. -/
def start : UploadSystem :=
  if sys.started then sys else { sys with stopped := false, started := true }.process

/-- `stop`. -/
def stop : UploadSystem := { sys with stopped := true, started := false, timers := [] }

/-- The record that `enqueue` stores. -/
def enqueued (input : NewAttachmentUpload) : AttachmentUpload :=
  { input with
    status := .queued, attempts := 0, nextAttemptAt := 0, remoteUrl := none, lastError := none }

/-- The record that `retry` stores. -/
def requeued (record : AttachmentUpload) : AttachmentUpload :=
  { record with status := .queued, attempts := 0, nextAttemptAt := 0, lastError := none }

/-- One step of the run. -/
def step : Event → Option UploadSystem
  | .start => some sys.start
  | .stop => some sys.stop
  | .process => some sys.process
  | .enqueue input put =>
      match put with
      | .ok _ => some { sys with store := sys.store.put (enqueued input) }.process
      | .error _ => some sys
  | .retry id get =>
      match get, sys.store.get id with
      | .ok _, some record =>
          if record.status ≠ .failed then some sys
          else some { sys with retries := sys.retries ++ [record] }
      | _, _ => some sys
  | .requeue i put =>
      sys.retries[i]?.map fun record =>
        match put with
        | .ok _ =>
            { sys with
              store := sys.store.put (requeued record)
              retries := sys.retries.eraseIdx i }.process
        | .error _ => { sys with retries := sys.retries.eraseIdx i }
  | .network monitor =>
      -- the subscription is in place from `start` to `stop`
      let sys := { sys with network := monitor }
      some (if sys.started then sys.process else sys)
  | .wait ms => some { sys with now := sys.now + ms }
  | .fire i =>
      match sys.timers[i]? with
      | some due =>
          if due ≤ sys.now then some { sys with timers := sys.timers.eraseIdx i }.process else none
      | none => none
  | .list rows =>
      match sys.drain, rows with
      | .listing now, .ok rows =>
          if rows.Perm (sys.store.listRunnable now) then some { sys with drain := .listed rows }
          else none
      | .listing _, .error _ => some { sys with drain := .idle }
      | _, _ => none
  | .begin =>
      match sys.drain with
      | .listed rows => some (sys.beginPass cfg rows)
      | _ => none
  | .endPass =>
      match sys.drain with
      | .returning => some sys.nextPass
      | .working =>
          -- `Promise.all` rejects with the first worker, and resolves with the last
          if sys.rejected then some { sys with drain := .idle }
          else if ∃ worker ∈ sys.workers, worker.pass = sys.pass then none
          else some sys.nextPass
      | _ => none
  | .work i outcome => sys.workers[i]?.map fun worker => sys.work cfg i worker outcome
  | .kill => some { sys with toAttachmentUploadQueue := .create }

/-- A new instance over a store. -/
def create (store : UploadStore) (network : NetworkMonitor) (now : Nat) : UploadSystem where
  toAttachmentUploadQueue := .create
  store := store
  network := network
  now := now

/-! ## The events that may not be possible -/

section Inversion

variable {cfg : AttachmentQueueConfig} {sys sys' : UploadSystem}

/-- A `retry` does nothing, or it has read a failed record. -/
theorem step_retry {id : JsString} {get : Except JsString Unit}
    (h : sys.step cfg (.retry id get) = some sys') :
    sys' = sys ∨ ∃ record, sys.store.get id = some record ∧ record.status = .failed ∧
      sys' = { sys with retries := sys.retries ++ [record] } := by
  simp only [step] at h
  split at h
  · rename_i record hrecord
    split at h
    · exact Or.inl (Option.some.inj h).symm
    · rename_i hfailed
      exact Or.inr ⟨record, hrecord, not_not.mp hfailed, (Option.some.inj h).symm⟩
  · exact Or.inl (Option.some.inj h).symm

/-- A timer fires when it is due. -/
theorem step_fire {i : Nat} (h : sys.step cfg (.fire i) = some sys') :
    ∃ due, sys.timers[i]? = some due ∧ due ≤ sys.now ∧
      sys' = { sys with timers := sys.timers.eraseIdx i }.process := by
  simp only [step] at h
  split at h
  · rename_i due htimer
    split at h
    · rename_i hdue
      exact ⟨due, htimer, hdue, (Option.some.inj h).symm⟩
    · cases h
  · cases h

/-- The drain lists the runnable records of the time it began to, or the read fails. -/
theorem step_list {rows : Except JsString (List AttachmentUpload)}
    (h : sys.step cfg (.list rows) = some sys') :
    (∃ now listed, rows = .ok listed ∧ sys.drain = .listing now ∧
        listed.Perm (sys.store.listRunnable now) ∧ sys' = { sys with drain := .listed listed }) ∨
      ∃ message, rows = .error message ∧ sys' = { sys with drain := .idle } := by
  simp only [step] at h
  split at h
  · rename_i now listed hdrain
    split at h
    · rename_i hperm
      exact Or.inl ⟨now, listed, rfl, hdrain, hperm, (Option.some.inj h).symm⟩
    · cases h
  · rename_i message hdrain
    exact Or.inr ⟨message, rfl, (Option.some.inj h).symm⟩
  · cases h

/-- A pass begins with what is listed. -/
theorem step_begin (h : sys.step cfg .begin = some sys') :
    ∃ rows, sys.drain = .listed rows ∧ sys' = sys.beginPass cfg rows := by
  simp only [step] at h
  split at h
  · rename_i rows hdrain
    exact ⟨rows, hdrain, (Option.some.inj h).symm⟩
  · cases h

/-- A pass ends when it has nothing to wait for, or with a worker that was rejected. -/
theorem step_endPass (h : sys.step cfg .endPass = some sys') :
    sys' = sys.nextPass ∧ (sys.drain = .returning ∨
        ∀ worker ∈ sys.workers, worker.pass ≠ sys.pass) ∨
      sys.rejected = true ∧ sys' = { sys with drain := .idle } := by
  simp only [step] at h
  split at h
  · rename_i hdrain
    exact Or.inl ⟨(Option.some.inj h).symm, Or.inl hdrain⟩
  · split at h
    · rename_i hrejected
      exact Or.inr ⟨hrejected, (Option.some.inj h).symm⟩
    · split at h
      · cases h
      · rename_i hover
        refine Or.inl ⟨(Option.some.inj h).symm, Or.inr fun worker hworker hpass => ?_⟩
        exact hover ⟨worker, hworker, hpass⟩
  · cases h

end Inversion

end UploadSystem

end FlowLogix.Mobile

/-
  Mobile/UploadWorkers.lean --- what a step of the upload queue can do
  (mobile/src/attachments/AttachmentUploadQueue.ts).

  Most events only move the drain, the timers or the network.  The others store a record
  for a caller, begin a pass, settle what a worker awaits, or end the instance
  (`step_cases`); a worker that settles marks its record, waits for something else, is
  done with its item, or rejects (`work_cases`).  In every run the in-flight set holds
  the ids of the claimed records, each claimed once (`Claimed`).
-/
import FlowLogix.Mobile.AttachmentUploadQueue

set_option autoImplicit false

namespace FlowLogix.Mobile

open FlowLogix.Foundation

/-- The records of a listing that its drain has not begun to work on. -/
def DrainPoint.rows : DrainPoint → List AttachmentUpload
  | .listed rows => rows
  | _ => []

/-- The status that a worker at its last `put` stores. -/
def Worker.Stores (worker : Worker) (status : UploadStatus) : Prop :=
  match worker.point with
  | .storing _ => status = .uploaded
  | .recording _ _ => status = .failed ∨ status = .queued
  | _ => False

/-- The worker is over when what it awaits rejects: `runClaimed` does not catch it. -/
def Worker.EndsOnError (worker : Worker) : Prop :=
  match worker.point with
  | .marking | .recording _ _ => True
  | _ => False

namespace UploadSystem

variable {cfg : AttachmentQueueConfig} {sys sys' : UploadSystem}

/-- The event concerns no worker. -/
def Event.SparesWorkers : Event → Prop
  | .begin | .work _ _ | .kill => False
  | _ => True

/-! ## The drain -/

theorem drainOnce_eq (sys : UploadSystem) :
    ∃ drain, drain.rows = [] ∧ sys.drainOnce = { sys with drain := drain } := by
  unfold drainOnce
  split
  · exact ⟨.returning, rfl, rfl⟩
  · exact ⟨.listing sys.now, rfl, rfl⟩

/-- The loop test of `process` moves the drain, and nothing else. -/
theorem nextPass_eq (sys : UploadSystem) :
    ∃ rerun drain, drain.rows = [] ∧
      sys.nextPass = { sys with rerun := rerun, drain := drain } := by
  unfold nextPass
  split
  · obtain ⟨drain, hdrain, h⟩ := drainOnce_eq { sys with rerun := false }
    exact ⟨false, drain, hdrain, h⟩
  · exact ⟨sys.rerun, .idle, rfl, rfl⟩

/-- `process` moves the drain if it is idle, and nothing else. -/
theorem process_eq (sys : UploadSystem) :
    ∃ rerun drain, (drain.rows = [] ∨ drain = sys.drain) ∧
      sys.process = { sys with rerun := rerun, drain := drain } := by
  unfold process
  split
  · obtain ⟨rerun, drain, hdrain, h⟩ := nextPass_eq { sys with rerun := true }
    exact ⟨rerun, drain, Or.inl hdrain, h⟩
  · exact ⟨true, sys.drain, Or.inr rfl, rfl⟩

/-! ## The turn of a worker -/

theorem claim_cases (inFlight : Finset JsString) (runnable : List AttachmentUpload) :
    claim inFlight runnable = (none, []) ∨
      ∃ next rest, claim inFlight runnable = (some next, rest) ∧ next.id ∉ inFlight ∧
        next :: rest <:+ runnable := by
  induction runnable with
  | nil => exact Or.inl rfl
  | cons candidate rest ih =>
      unfold claim
      split
      · refine ih.imp_right ?_
        rintro ⟨next, rest', hclaim, hnext, hsuffix⟩
        exact ⟨next, rest', hclaim, hnext, hsuffix.trans (List.suffix_cons candidate rest)⟩
      · rename_i hnext
        exact Or.inr ⟨candidate, rest, rfl, hnext, List.suffix_rfl⟩

/-- A worker that finds nothing to do is over; another one claims a record that is not in
flight. -/
theorem turn_cases (sys : UploadSystem) (pass : Nat) :
    (∃ rest, rest <:+ sys.runnable pass ∧
        sys.turn pass = { sys with runnable := Function.update sys.runnable pass rest }) ∨
      ∃ next rest, next.id ∉ sys.inFlight ∧ next :: rest <:+ sys.runnable pass ∧
        sys.turn pass =
          { sys with
            runnable := Function.update sys.runnable pass rest
            inFlight := insert next.id sys.inFlight
            workers := sys.workers ++ [{ pass := pass, record := next, point := .marking }] } := by
  unfold turn
  split
  · left
    refine ⟨sys.runnable pass, List.suffix_rfl, ?_⟩
    rw [Function.update_eq_self]
  · rcases claim_cases sys.inFlight (sys.runnable pass) with h | ⟨next, rest, h, hnext, hsuffix⟩
    · left
      rw [h]
      exact ⟨[], List.nil_suffix, rfl⟩
    · right
      rw [h]
      exact ⟨next, rest, hnext, hsuffix, rfl⟩

@[simp] theorem turn_store (sys : UploadSystem) (pass : Nat) :
    (sys.turn pass).store = sys.store := by
  rcases sys.turn_cases pass with ⟨rest, -, heq⟩ | ⟨next, rest, -, -, heq⟩
  · rw [heq]
  · rw [heq]

@[simp] theorem release_store (sys : UploadSystem) (i : Nat) (worker : Worker) :
    (sys.release i worker).store = sys.store := turn_store _ _

/-- What every turn keeps, the turns that begin a pass keep. -/
theorem beginPass_induction {P : UploadSystem → Prop} {rows : List AttachmentUpload}
    (hturn : ∀ sys pass, P sys → P (sys.turn pass)) (hnone : P { sys with drain := .returning })
    (hbegin : ∀ runnable, P
      { sys with
        drain := .working
        pass := sys.pass + 1
        runnable := Function.update sys.runnable (sys.pass + 1) runnable
        rejected := false }) :
    P (sys.beginPass cfg rows) := by
  have hturns : ∀ (pass count : Nat) (sys : UploadSystem), P sys →
      P ((turn · pass)^[count] sys) := by
    intro pass count
    induction count with
    | zero => exact fun _ => id
    | succ count ih => exact fun sys h => ih (sys.turn pass) (hturn sys pass h)
  unfold beginPass
  dsimp only
  split
  · exact hnone
  · exact hturns _ _ _ (hbegin _)

@[simp] theorem beginPass_store (sys : UploadSystem) (rows : List AttachmentUpload) :
    (sys.beginPass cfg rows).store = sys.store :=
  beginPass_induction (P := fun mid => mid.store = sys.store)
    (fun mid pass h => (turn_store mid pass).trans h) rfl fun _ => rfl

/-! ## What a worker awaits -/

/-- The failure that is stored is of the same record, which is no longer being
uploaded. -/
theorem handleFailure_spec (cfg : AttachmentQueueConfig) (record : AttachmentUpload)
    (message : JsString) (now : Nat) :
    (handleFailure cfg record message now).1.id = record.id ∧
      ((handleFailure cfg record message now).1.status = .failed ∨
        (handleFailure cfg record message now).1.status = .queued ∧
          ∃ delay, (handleFailure cfg record message now).2 = some delay ∧
            (handleFailure cfg record message now).1.nextAttemptAt = now + delay) := by
  unfold handleFailure
  dsimp only
  split
  · exact ⟨rfl, Or.inl rfl⟩
  · exact ⟨rfl, Or.inr ⟨rfl, _, rfl, rfl⟩⟩

/-- What settles for a worker, in one of four ways. -/
inductive Settles (sys : UploadSystem) (i : Nat) (worker : Worker) :
    Except JsString JsString → UploadSystem → Prop where
  /-- the record is marked, and its upload begins -/
  | marks (value : JsString) (h : worker.point = .marking) :
      Settles sys i worker (.ok value)
        { sys with
          store := sys.store.put { worker.record with status := .uploading }
          workers := sys.workers.set i { worker with point := .uploading } }
  /-- the next call is a `put` of what came of the upload -/
  | awaits (outcome : Except JsString JsString) (point : WorkerPoint) (h : ¬ worker.EndsOnError)
      (hpoint : point ≠ .uploading ∧
        ∀ message now, point = .recording message now → now = sys.now) :
      Settles sys i worker outcome
        { sys with workers := sys.workers.set i { worker with point := point } }
  /-- what came of the upload is stored, and a failure with the kick for its retry -/
  | releases (value : JsString) (record : AttachmentUpload) (delay : Option Nat)
      (hid : record.id = worker.record.id) (hstores : worker.Stores record.status)
      (hretry : record.status = .queued → ∃ message now ms, worker.point = .recording message now ∧
        record.nextAttemptAt = now + ms ∧ delay = some ms) :
      Settles sys i worker (.ok value)
        ({ sys with
          store := sys.store.put record
          timers := sys.schedule delay }.release i worker)
  | rejects (message : JsString) (h : worker.EndsOnError) :
      Settles sys i worker (.error message) (sys.abandon i worker)

theorem settles_work (cfg : AttachmentQueueConfig) (sys : UploadSystem) (i : Nat) (worker : Worker)
    (outcome : Except JsString JsString) :
    Settles sys i worker outcome (sys.work cfg i worker outcome) := by
  obtain ⟨pass, record, point⟩ := worker
  cases outcome with
  | error message =>
      have hfails : ∀ text now, WorkerPoint.recording message sys.now = .recording text now →
          now = sys.now := by
        rintro text now h
        cases h
        rfl
      cases point with
      | marking => exact .rejects message trivial
      | uploading => exact .awaits _ (.recording message sys.now) id ⟨nofun, hfails⟩
      | storing url => exact .awaits _ (.recording message sys.now) id ⟨nofun, hfails⟩
      | recording text now => exact .rejects message trivial
  | ok value =>
      cases point with
      | marking => exact .marks value rfl
      | uploading => exact .awaits _ (.storing value) id ⟨nofun, nofun⟩
      | storing url => exact .releases value _ none rfl rfl nofun
      | recording text now =>
          obtain ⟨hid, hstatus⟩ := handleFailure_spec cfg record text now
          refine .releases value (handleFailure cfg record text now).1
            (handleFailure cfg record text now).2 hid (hstatus.imp_right And.left) fun hqueued => ?_
          rcases hstatus with hfailed | ⟨-, ms, hdelay, hnext⟩
          · rw [hfailed] at hqueued
            cases hqueued
          · exact ⟨text, now, ms, rfl, hnext, hdelay⟩

/-! ## One step -/

/-- The record that an event puts for a caller. -/
def puts (sys : UploadSystem) : Event → Option AttachmentUpload
  | .enqueue input (.ok _) => some (enqueued input)
  | .requeue i (.ok _) => sys.retries[i]?.map requeued
  | _ => none

theorem queued_of_puts {event : Event} {record : AttachmentUpload}
    (h : sys.puts event = some record) :
    record.status = .queued ∧ record.nextAttemptAt = 0 := by
  unfold puts at h
  split at h
  · obtain rfl := Option.some.inj h
    exact ⟨rfl, rfl⟩
  · obtain ⟨failed, -, rfl⟩ := Option.map_eq_some_iff.mp h
    exact ⟨rfl, rfl⟩
  · cases h

/-- The workers, what they have claimed and what they can claim stay as they are, and a
listing comes from the store. -/
structure Quiet (sys : UploadSystem) (event : Event) (sys' : UploadSystem) : Prop where
  spares : event.SparesWorkers
  workers : sys'.workers = sys.workers
  inFlight : sys'.inFlight = sys.inFlight
  pass : sys'.pass = sys.pass
  runnable : sys'.runnable = sys.runnable
  drain : sys'.drain.rows = [] ∨ sys'.drain.rows = sys.drain.rows ∨
    ∃ now, event = .list (.ok sys'.drain.rows) ∧
      sys'.drain.rows.Perm (sys.store.listRunnable now)

/-- One step, in one of five ways. -/
inductive Takes (cfg : AttachmentQueueConfig) (sys : UploadSystem) (event : Event) :
    UploadSystem → Prop where
  | moves {sys' : UploadSystem} (h : Quiet sys event sys') (hstore : sys'.store = sys.store) :
      Takes cfg sys event sys'
  | puts {sys' : UploadSystem} (record : AttachmentUpload) (hputs : sys.puts event = some record)
      (h : Quiet sys event sys') (hstore : sys'.store = sys.store.put record) :
      Takes cfg sys event sys'
  | begins (rows : List AttachmentUpload) (hevent : event = .begin)
      (hrows : sys.drain = .listed rows) : Takes cfg sys event (sys.beginPass cfg rows)
  | works (i : Nat) (worker : Worker) (outcome : Except JsString JsString)
      (hevent : event = .work i outcome) (hworker : sys.workers[i]? = some worker)
      {sys' : UploadSystem} (h : Settles sys i worker outcome sys') : Takes cfg sys event sys'
  | dies (hevent : event = .kill) :
      Takes cfg sys event { sys with toAttachmentUploadQueue := .create }

/-- Nothing that concerns a worker has changed. -/
theorem Quiet.of_eq {event : Event} (hevent : event.SparesWorkers)
    (hworkers : sys'.workers = sys.workers) (hinFlight : sys'.inFlight = sys.inFlight)
    (hpass : sys'.pass = sys.pass)
    (hrunnable : sys'.runnable = sys.runnable)
    (hdrain : sys'.drain.rows = [] ∨ sys'.drain.rows = sys.drain.rows) : Quiet sys event sys' :=
  ⟨hevent, hworkers, hinFlight, hpass, hrunnable, hdrain.imp_right Or.inl⟩

/-- A `process` after something that is none of the workers' business. -/
theorem Quiet.process {event : Event} (h : Quiet sys event sys') :
    Quiet sys event sys'.process ∧ sys'.process.store = sys'.store := by
  obtain ⟨rerun, drain, hdrain, heq⟩ := process_eq sys'
  rw [heq]
  refine ⟨⟨h.spares, h.workers, h.inFlight, h.pass, h.runnable, ?_⟩, rfl⟩
  rcases hdrain with hnone | rfl
  · exact Or.inl hnone
  · exact h.drain

theorem Takes.moves_process {event : Event} (h : Quiet sys event sys')
    (hstore : sys'.store = sys.store) : Takes cfg sys event sys'.process :=
  .moves h.process.1 (h.process.2.trans hstore)

theorem Takes.puts_process {event : Event} {record : AttachmentUpload}
    (hputs : sys.puts event = some record) (h : Quiet sys event sys')
    (hstore : sys'.store = sys.store.put record) : Takes cfg sys event sys'.process :=
  .puts record hputs h.process.1 (h.process.2.trans hstore)

/-- What a step can do. -/
theorem takes_of_step {event : Event} (h : sys.step cfg event = some sys') :
    Takes cfg sys event sys' := by
  have hsame : ∀ {event : Event}, event.SparesWorkers → Quiet sys event sys :=
    fun h => .of_eq h rfl rfl rfl rfl (Or.inr rfl)
  cases event with
  | start =>
      obtain rfl := Option.some.inj h
      unfold start
      split
      · exact .moves (hsame trivial) rfl
      · exact .moves_process (.of_eq trivial rfl rfl rfl rfl (Or.inr rfl)) rfl
  | stop =>
      obtain rfl := Option.some.inj h
      exact .moves (.of_eq trivial rfl rfl rfl rfl (Or.inr rfl)) rfl
  | process =>
      obtain rfl := Option.some.inj h
      exact .moves_process (hsame trivial) rfl
  | enqueue input put =>
      cases put with
      | error message =>
          obtain rfl := Option.some.inj h
          exact .moves (hsame trivial) rfl
      | ok value =>
          obtain rfl := Option.some.inj h
          exact .puts_process rfl (.of_eq trivial rfl rfl rfl rfl (Or.inr rfl)) rfl
  | retry id get =>
      rcases step_retry h with rfl | ⟨record, -, -, rfl⟩
      · exact .moves (hsame trivial) rfl
      · exact .moves (.of_eq trivial rfl rfl rfl rfl (Or.inr rfl)) rfl
  | requeue i put =>
      obtain ⟨record, hrecord, rfl⟩ := Option.map_eq_some_iff.mp h
      cases put with
      | error message => exact .moves (.of_eq trivial rfl rfl rfl rfl (Or.inr rfl)) rfl
      | ok value =>
          refine .puts_process ?_ (.of_eq trivial rfl rfl rfl rfl (Or.inr rfl)) rfl
          rw [puts, hrecord]
          rfl
  | network monitor =>
      obtain rfl := Option.some.inj h
      dsimp only
      split
      · exact .moves_process (.of_eq trivial rfl rfl rfl rfl (Or.inr rfl)) rfl
      · exact .moves (.of_eq trivial rfl rfl rfl rfl (Or.inr rfl)) rfl
  | wait ms =>
      obtain rfl := Option.some.inj h
      exact .moves (.of_eq trivial rfl rfl rfl rfl (Or.inr rfl)) rfl
  | fire i =>
      obtain ⟨due, -, -, rfl⟩ := step_fire h
      exact .moves_process (.of_eq trivial rfl rfl rfl rfl (Or.inr rfl)) rfl
  | list rows =>
      rcases step_list h with ⟨now, listed, rfl, -, hperm, rfl⟩ | ⟨message, rfl, rfl⟩
      · exact .moves ⟨trivial, rfl, rfl, rfl, rfl, Or.inr (Or.inr ⟨now, rfl, hperm⟩)⟩ rfl
      · exact .moves (.of_eq trivial rfl rfl rfl rfl (Or.inl rfl)) rfl
  | begin =>
      obtain ⟨rows, hrows, rfl⟩ := step_begin h
      exact .begins rows rfl hrows
  | endPass =>
      rcases step_endPass h with ⟨rfl, -⟩ | ⟨-, rfl⟩
      · obtain ⟨rerun, drain, hdrain, heq⟩ := nextPass_eq sys
        rw [heq]
        exact .moves (.of_eq trivial rfl rfl rfl rfl (Or.inl hdrain)) rfl
      · exact .moves (.of_eq trivial rfl rfl rfl rfl (Or.inl rfl)) rfl
  | work i outcome =>
      obtain ⟨worker, hworker, rfl⟩ := Option.map_eq_some_iff.mp h
      exact .works i worker outcome rfl hworker (settles_work cfg sys i worker outcome)
  | kill =>
      obtain rfl := Option.some.inj h
      exact .dies rfl

/-! ## The in-flight set -/

/-- The ids that the workers have claimed. -/
def claimed (sys : UploadSystem) : List JsString := sys.workers.map (·.record.id)

/-- The in-flight set holds the claimed ids, each claimed by one worker. -/
structure Claimed (sys : UploadSystem) : Prop where
  nodup : sys.claimed.Nodup
  mem_inFlight : ∀ id, id ∈ sys.inFlight ↔ id ∈ sys.claimed

/-- What a worker awaits does not change what it has claimed. -/
theorem map_set_point {workers : List Worker} {i : Nat} {worker : Worker}
    (h : workers[i]? = some worker) (point : WorkerPoint) :
    (workers.set i { worker with point := point }).map (·.record.id) =
      workers.map (·.record.id) := by
  have hi : (workers.map (·.record.id))[i]? = some worker.record.id := by simp [h]
  obtain ⟨hlt, heq⟩ := List.getElem?_eq_some_iff.mp hi
  rw [List.map_set, show ({ worker with point := point } : Worker).record.id = _ from heq.symm]
  exact List.set_getElem_self hlt

/-- The claims are one worker's and the others'. -/
theorem claimed_perm {i : Nat} {worker : Worker} (h : sys.workers[i]? = some worker) :
    (worker.record.id :: (sys.workers.eraseIdx i).map (·.record.id)).Perm sys.claimed := by
  obtain ⟨hlt, rfl⟩ := List.getElem?_eq_some_iff.mp h
  exact (List.getElem_cons_eraseIdx_perm hlt).map (·.record.id)

namespace Claimed

theorem create (store : UploadStore) (network : NetworkMonitor) (now : Nat) :
    Claimed (UploadSystem.create store network now) :=
  ⟨List.nodup_nil, fun _ => iff_of_false (Finset.notMem_empty _) List.not_mem_nil⟩

theorem of_claimed (h : Claimed sys) (hclaimed : sys'.claimed = sys.claimed)
    (hinFlight : sys'.inFlight = sys.inFlight) : Claimed sys' := by
  refine ⟨hclaimed ▸ h.nodup, fun id => ?_⟩
  rw [hinFlight, hclaimed]
  exact h.mem_inFlight id

theorem congr (h : Claimed sys) (hworkers : sys'.workers = sys.workers)
    (hinFlight : sys'.inFlight = sys.inFlight) : Claimed sys' :=
  h.of_claimed (by rw [claimed, hworkers, claimed]) hinFlight

theorem turn (h : Claimed sys) (pass : Nat) : Claimed (sys.turn pass) := by
  rcases sys.turn_cases pass with ⟨rest, -, heq⟩ | ⟨next, rest, hnext, -, heq⟩
  · rw [heq]
    exact h.congr rfl rfl
  · rw [heq]
    rw [h.mem_inFlight] at hnext
    refine ⟨?_, fun id => ?_⟩
    · simp only [claimed, List.map_append, List.map_cons, List.map_nil]
      exact List.nodup_append.mpr ⟨h.nodup, by simp, by simpa [claimed] using hnext⟩
    · simp only [claimed, List.map_append, List.map_cons, List.map_nil, List.mem_append,
        List.mem_singleton, Finset.mem_insert, h.mem_inFlight id]
      exact or_comm

/-- A worker gives its record up. -/
theorem drop (h : Claimed sys) {i : Nat} {worker : Worker} (hworker : sys.workers[i]? = some worker)
    (hworkers : sys'.workers = sys.workers.eraseIdx i)
    (hinFlight : sys'.inFlight = sys.inFlight.erase worker.record.id) : Claimed sys' := by
  have hperm := claimed_perm hworker
  rw [← hworkers] at hperm
  obtain ⟨hnot, hnodup⟩ := List.nodup_cons.mp (hperm.nodup_iff.mpr h.nodup)
  refine ⟨hnodup, fun id => ?_⟩
  rw [hinFlight, Finset.mem_erase, h.mem_inFlight, ← hperm.mem_iff, List.mem_cons]
  constructor
  · rintro ⟨hne, hmem⟩
    exact hmem.resolve_left hne
  · exact fun hmem => ⟨fun heq => hnot (heq ▸ hmem), Or.inr hmem⟩

theorem beginPass (h : Claimed sys) (rows : List AttachmentUpload) :
    Claimed (sys.beginPass cfg rows) :=
  beginPass_induction (fun _ pass hmid => hmid.turn pass) (h.congr rfl rfl)
    fun _ => h.congr rfl rfl

theorem settles (h : Claimed sys) {i : Nat} {worker : Worker} {outcome : Except JsString JsString}
    (hworker : sys.workers[i]? = some worker) (hsettles : Settles sys i worker outcome sys') :
    Claimed sys' := by
  cases hsettles with
  | marks value hpoint => exact h.of_claimed (map_set_point hworker _) rfl
  | awaits outcome point => exact h.of_claimed (map_set_point hworker point) rfl
  | releases value record delay =>
      unfold release
      exact turn (h.drop hworker rfl rfl) _
  | rejects message => exact h.drop hworker rfl rfl

theorem step {event : Event} (h : Claimed sys) (hstep : sys.step cfg event = some sys') :
    Claimed sys' := by
  cases takes_of_step hstep with
  | moves hquiet => exact h.congr hquiet.workers hquiet.inFlight
  | puts record hputs hquiet => exact h.congr hquiet.workers hquiet.inFlight
  | begins rows => exact h.beginPass rows
  | works i worker outcome hevent hworker hsettles => exact h.settles hworker hsettles
  | dies => exact create sys.store sys.network sys.now

end Claimed

end UploadSystem

end FlowLogix.Mobile

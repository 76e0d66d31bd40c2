/-
  Mobile/UploadRetries.lean --- how often an upload is tried, and when
  (mobile/src/attachments/AttachmentUploadQueue.ts).

  A worker acts on the record that its pass has listed, and stores what came of the upload
  over it.  While no store operation rejects, a pass ends when its workers have, so that
  nothing but its worker writes a record between the listing and the last `put`: a listed
  record is the stored one until it is claimed (`Inv.fresh`), and an open `retry` holds the
  stored record as well (`Inv.opened`).  The attempts and the backoff are then those of
  the round, which begins when the id is enqueued or requeued (`Round`).
-/
import FlowLogix.Mobile.BackoffTimers

set_option autoImplicit false

namespace FlowLogix.Mobile

open FlowLogix.Foundation

/-! ## Rounds -/

/-- What happened to an id since it was last enqueued or requeued: the calls of
`uploader.upload`, how many of them failed, when the last one did, and whether one
succeeded. -/
structure Round where
  calls : Nat
  failures : Nat
  failedAt : Nat
  succeeded : Bool
deriving DecidableEq

namespace Round

def opened : Round where
  calls := 0
  failures := 0
  failedAt := 0
  succeeded := false

/-- What a worker awaits at a point settles at a time. -/
def after (round : Round) (now : Nat) : WorkerPoint → Except JsString JsString → Round
  | .marking, .ok _ => { round with calls := round.calls + 1 }
  | .uploading, .ok _ => { round with succeeded := true }
  | .uploading, .error _ => { round with failures := round.failures + 1, failedAt := now }
  | _, _ => round

/-- Before this time the upload is not started again. -/
def notBefore (cfg : AttachmentQueueConfig) (round : Round) : Nat :=
  if round.failures = 0 then 0
  else round.failedAt + min cfg.backoffMaxMs (cfg.backoffBaseMs * 2 ^ (round.failures - 1))

/-- The record of a round that no worker has claimed. -/
def Rests (cfg : AttachmentQueueConfig) (round : Round) (row : AttachmentUpload) : Prop :=
  match row.status with
  | .queued => round.succeeded = false ∧ round.failures < cfg.maxAttempts ∧
      round.calls = round.failures ∧ row.attempts = round.failures ∧
      row.nextAttemptAt = round.notBefore cfg
  | .uploading => False
  | .uploaded => round.succeeded = true ∧ round.failures < cfg.maxAttempts ∧
      round.calls = round.failures + 1
  | .failed => round.succeeded = false ∧ round.failures = cfg.maxAttempts ∧
      round.calls = round.failures

/-- The worker that has claimed the record of a round. -/
def Works (cfg : AttachmentQueueConfig) (now : Nat) (round : Round) (worker : Worker) : Prop :=
  match worker.point with
  | .marking => round.succeeded = false ∧ round.failures < cfg.maxAttempts ∧
      round.calls = round.failures ∧ worker.record.attempts = round.failures ∧
      round.notBefore cfg ≤ now
  | .uploading => round.succeeded = false ∧ round.failures < cfg.maxAttempts ∧
      round.calls = round.failures + 1 ∧ worker.record.attempts = round.failures
  | .storing _ => round.succeeded = true ∧ round.failures < cfg.maxAttempts ∧
      round.calls = round.failures + 1
  | .recording _ failedAt => round.succeeded = false ∧ round.failures ≤ cfg.maxAttempts ∧
      round.calls = round.failures ∧ worker.record.attempts + 1 = round.failures ∧
      round.failedAt = failedAt

theorem Works.mono {cfg : AttachmentQueueConfig} {now now' : Nat} {round : Round}
    {worker : Worker} (h : round.Works cfg now worker) (hle : now ≤ now') :
    round.Works cfg now' worker := by
  unfold Works at h ⊢
  split
  · rename_i hpoint
    rw [hpoint] at h
    exact ⟨h.1, h.2.1, h.2.2.1, h.2.2.2.1, h.2.2.2.2.trans hle⟩
  all_goals
    rename_i hpoint
    rw [hpoint] at h
    exact h

/-- A round never exceeds the attempts. -/
theorem Works.le {cfg : AttachmentQueueConfig} {now : Nat} {round : Round} {worker : Worker}
    (h : round.Works cfg now worker) :
    round.calls ≤ cfg.maxAttempts ∧ round.failures ≤ cfg.maxAttempts := by
  obtain ⟨pass, record, point⟩ := worker
  cases point with
  | marking =>
      obtain ⟨-, hleft, hcalls, -⟩ := h
      omega
  | uploading =>
      obtain ⟨-, hleft, hcalls, -⟩ := h
      omega
  | storing url =>
      obtain ⟨-, hleft, hcalls⟩ := h
      omega
  | recording message failedAt =>
      obtain ⟨-, hle, hcalls, -⟩ := h
      omega

theorem rests_written {cfg : AttachmentQueueConfig} {round : Round} {store : UploadStore}
    {record : AttachmentUpload} (h : round.Rests cfg record) :
    round.Rests cfg (store.written record) := by
  unfold Rests at h ⊢
  rw [UploadStore.written_status, UploadStore.written_attempts, UploadStore.written_nextAttemptAt]
  exact h

/-- The record of a new round can be tried at once. -/
theorem opened_rests {cfg : AttachmentQueueConfig} {record : AttachmentUpload}
    (hmax : 0 < cfg.maxAttempts) (hqueued : record.status = .queued)
    (hattempts : record.attempts = 0) (hnext : record.nextAttemptAt = 0) :
    opened.Rests cfg record := by
  unfold Rests
  rw [hqueued]
  exact ⟨rfl, hmax, rfl, hattempts, hnext⟩

/-- What is stored after the failure of a round. -/
theorem rests_handleFailure {cfg : AttachmentQueueConfig} {now : Nat} {round : Round}
    {pass : Nat} {record : AttachmentUpload} {message : JsString} {failedAt : Nat}
    (h : round.Works cfg now
      { pass := pass, record := record, point := .recording message failedAt }) :
    round.Rests cfg (UploadSystem.handleFailure cfg record message failedAt).1 := by
  obtain ⟨hsucceeded, hle, hcalls, hattempts, rfl⟩ := h
  change record.attempts + 1 = round.failures at hattempts
  have hpositive : round.failures ≠ 0 := by omega
  unfold UploadSystem.handleFailure
  rw [hattempts]
  dsimp only
  split
  · rename_i hlast
    exact ⟨hsucceeded, hle.antisymm hlast, hcalls⟩
  · rename_i hleft
    refine ⟨hsucceeded, Nat.lt_of_not_le hleft, hcalls, rfl, ?_⟩
    rw [notBefore, if_neg hpositive]

end Round

/-- The status of the stored record while a worker is at a point. -/
def WorkerPoint.held : WorkerPoint → UploadStatus
  | .marking => .queued
  | _ => .uploading

/-- Of a list without duplicates, the entries beside one differ from it. -/
theorem ne_of_mem_eraseIdx {α β : Type} (f : α → β) {l : List α} {i : Nat} {a b : α}
    (hnodup : (l.map f).Nodup) (ha : l[i]? = some a) (hb : b ∈ l.eraseIdx i) : f b ≠ f a := by
  obtain ⟨hlt, rfl⟩ := List.getElem?_eq_some_iff.mp ha
  have hperm := (List.getElem_cons_eraseIdx_perm hlt).map f
  have hnot := (List.nodup_cons.mp (hperm.nodup_iff.mpr hnodup)).1
  exact fun heq => hnot (heq ▸ List.mem_map_of_mem hb)

theorem WorkerPoint.held_ne_failed (point : WorkerPoint) : point.held ≠ .failed := by
  unfold held
  split
  · simp
  · simp

theorem WorkerPoint.held_ne_uploaded (point : WorkerPoint) : point.held ≠ .uploaded := by
  unfold held
  split
  · simp
  · simp

namespace UploadStore

variable {store : UploadStore} {record : AttachmentUpload} {id : JsString}

theorem get_put_self : (store.put record).get record.id = some (store.written record) :=
  (get_put store record record.id).trans (if_pos rfl)

theorem get_put_of_ne (h : id ≠ record.id) : (store.put record).get id = store.get id :=
  (get_put store record id).trans (if_neg h)

end UploadStore

namespace UploadSystem

variable {cfg : AttachmentQueueConfig} {sys sys' : UploadSystem}
  {rounds : JsString → Option Round}

/-- The rounds after an event. -/
def noted (sys : UploadSystem) (rounds : JsString → Option Round) :
    Event → JsString → Option Round
  | .enqueue input (.ok _) => Function.update rounds input.id (some .opened)
  | .requeue i (.ok _) =>
      match sys.retries[i]? with
      | some record => Function.update rounds record.id (some .opened)
      | none => rounds
  | .work i outcome =>
      match sys.workers[i]? with
      | some worker => Function.update rounds worker.record.id
          ((rounds worker.record.id).map fun round => round.after sys.now worker.point outcome)
      | none => rounds
  | _ => rounds

/-- The rounds of a run, of each id that it has enqueued or requeued. -/
def roundsOf (trace : List (UploadSystem × Event)) : JsString → Option Round :=
  trace.foldl (fun rounds e => e.1.noted rounds e.2) fun _ => none

/-! ## What a run keeps -/

/-- The invariant, next to `Orderly`.  A listed record is the stored one, and so is the
one an open `retry` has read. -/
structure Inv (cfg : AttachmentQueueConfig) (rounds : JsString → Option Round)
    (sys : UploadSystem) : Prop where
  unrejected : sys.rejected = false
  working : sys.workers ≠ [] → sys.drain = .working
  listing : ∀ now, sys.drain = .listing now → now ≤ sys.now
  fresh : ∀ row ∈ sys.runnable sys.pass ++ sys.drain.rows, sys.store.get row.id = some row ∧
    row.status = .queued ∧ row.nextAttemptAt ≤ sys.now
  held : ∀ worker ∈ sys.workers, sys.store.HasStatus worker.record.id worker.point.held
  opened : ∀ record ∈ sys.retries, sys.store.get record.id = some record ∧
    record.status = .failed
  apart : (sys.retries.map (·.id)).Nodup
  works : ∀ worker ∈ sys.workers, ∀ round, rounds worker.record.id = some round →
    round.Works cfg sys.now worker
  rests : ∀ id ∉ sys.claimed, ∀ round, rounds id = some round →
    ∃ row, sys.store.get id = some row ∧ round.Rests cfg row

/-- No record changes hands: at most the drain moves, and time passes. -/
structure Moves (sys sys' : UploadSystem) : Prop where
  store : sys'.store = sys.store
  workers : sys'.workers = sys.workers
  runnable : sys'.runnable = sys.runnable
  pass : sys'.pass = sys.pass
  retries : sys'.retries = sys.retries
  rejected : sys'.rejected = sys.rejected
  now : sys.now ≤ sys'.now
  drain : sys'.drain = sys.drain ∨ (sys.workers = [] ∨ sys.drain ≠ .working) ∧
    sys'.drain.rows = [] ∧ ∀ now, sys'.drain = .listing now → now ≤ sys'.now

theorem drainOnce_moves (hfree : sys.workers = [] ∨ sys.drain ≠ .working) :
    Moves sys sys.drainOnce := by
  unfold drainOnce
  split
  · exact ⟨rfl, rfl, rfl, rfl, rfl, rfl, le_rfl, Or.inr ⟨hfree, rfl, by simp⟩⟩
  · refine ⟨rfl, rfl, rfl, rfl, rfl, rfl, le_rfl, Or.inr ⟨hfree, rfl, ?_⟩⟩
    intro now hnow
    exact (DrainPoint.listing.inj hnow).ge

theorem nextPass_moves (hfree : sys.workers = [] ∨ sys.drain ≠ .working) :
    Moves sys sys.nextPass := by
  unfold nextPass
  split
  · have h := @drainOnce_moves { sys with rerun := false } hfree
    exact ⟨h.store, h.workers, h.runnable, h.pass, h.retries, h.rejected, h.now, h.drain⟩
  · exact ⟨rfl, rfl, rfl, rfl, rfl, rfl, le_rfl, Or.inr ⟨hfree, rfl, by simp⟩⟩

theorem process_moves (sys : UploadSystem) : Moves sys sys.process := by
  unfold process
  split
  · rename_i hidle
    have hfree : sys.workers = [] ∨ sys.drain ≠ .working := Or.inr (by simp [hidle])
    have h := @nextPass_moves { sys with rerun := true } hfree
    exact ⟨h.store, h.workers, h.runnable, h.pass, h.retries, h.rejected, h.now, h.drain⟩
  · exact ⟨rfl, rfl, rfl, rfl, rfl, rfl, le_rfl, Or.inl rfl⟩

namespace Inv

theorem create (store : UploadStore) (network : NetworkMonitor) (now : Nat) :
    Inv cfg (fun _ => none) (UploadSystem.create store network now) where
  unrejected := rfl
  working := absurd rfl
  listing now hnow := by cases hnow
  fresh row hrow := by simp [UploadSystem.create, AttachmentUploadQueue.create,
    DrainPoint.rows] at hrow
  held worker hworker := by simp [UploadSystem.create, AttachmentUploadQueue.create] at hworker
  opened record hrecord := by simp [UploadSystem.create, AttachmentUploadQueue.create] at hrecord
  apart := List.nodup_nil
  works worker hworker := by simp [UploadSystem.create, AttachmentUploadQueue.create] at hworker
  rests id hid round hround := by cases hround

theorem moves (h : Inv cfg rounds sys) (hmoves : Moves sys sys') : Inv cfg rounds sys' where
  unrejected := hmoves.rejected.trans h.unrejected
  working := by
    rw [hmoves.workers]
    intro hworkers
    rcases hmoves.drain with hsame | ⟨hfree, -⟩
    · exact hsame.trans (h.working hworkers)
    · exact absurd (h.working hworkers) (hfree.resolve_left hworkers)
  listing now hnow := by
    rcases hmoves.drain with hsame | ⟨-, -, hlisting⟩
    · exact (h.listing now (hsame.symm.trans hnow)).trans hmoves.now
    · exact hlisting now hnow
  fresh := by
    have hrows : sys'.runnable sys'.pass ++ sys'.drain.rows ⊆
        sys.runnable sys.pass ++ sys.drain.rows := by
      rw [hmoves.runnable, hmoves.pass]
      rcases hmoves.drain with hsame | ⟨-, hnone, -⟩
      · rw [hsame]
        exact List.Subset.refl _
      · rw [hnone, List.append_nil]
        exact List.subset_append_left _ _
    intro row hrow
    obtain ⟨hstored, hqueued, hnext⟩ := h.fresh row (hrows hrow)
    exact ⟨hmoves.store ▸ hstored, hqueued, hnext.trans hmoves.now⟩
  held := by
    rw [hmoves.workers, hmoves.store]
    exact h.held
  opened := by
    rw [hmoves.retries, hmoves.store]
    exact h.opened
  apart := hmoves.retries ▸ h.apart
  works := by
    rw [hmoves.workers]
    exact fun worker hworker round hround => (h.works worker hworker round hround).mono hmoves.now
  rests := by
    rw [claimed, hmoves.workers, hmoves.store]
    exact h.rests

/-- An id with no record, or a failed one, is neither claimed nor listed. -/
theorem idle_of_failed (h : Inv cfg rounds sys) {id : JsString}
    (hfailed : ∀ row, sys.store.get id = some row → row.status = .failed) :
    id ∉ sys.claimed ∧ ∀ row ∈ sys.runnable sys.pass ++ sys.drain.rows, row.id ≠ id := by
  constructor
  · intro hid
    obtain ⟨worker, hworker, rfl⟩ := List.mem_map.mp hid
    obtain ⟨row, hrow, hstatus⟩ := h.held worker hworker
    exact worker.point.held_ne_failed (hstatus.symm.trans (hfailed row hrow))
  · rintro row hrow rfl
    obtain ⟨hstored, hqueued, -⟩ := h.fresh row hrow
    have hstatus := hfailed row hstored
    rw [hqueued] at hstatus
    cases hstatus

/-- A caller's record opens a round. -/
theorem puts (h : Inv cfg rounds sys) (hmax : 0 < cfg.maxAttempts) {record : AttachmentUpload}
    {retries : List AttachmentUpload}
    (hfailed : ∀ row, sys.store.get record.id = some row → row.status = .failed)
    (hqueued : record.status = .queued) (hattempts : record.attempts = 0)
    (hnext : record.nextAttemptAt = 0) (hretries : retries.Sublist sys.retries)
    (hothers : ∀ other ∈ retries, other.id ≠ record.id) :
    Inv cfg (Function.update rounds record.id (some .opened))
      { sys with store := sys.store.put record, retries := retries } := by
  obtain ⟨hclaimed, hlisted⟩ := h.idle_of_failed hfailed
  have hworkers : ∀ worker ∈ sys.workers, worker.record.id ≠ record.id :=
    fun worker hworker heq => hclaimed (heq ▸ List.mem_map_of_mem hworker)
  refine ⟨h.unrejected, h.working, h.listing, ?_, ?_, ?_, (hretries.map _).nodup h.apart, ?_, ?_⟩
  · intro row hrow
    obtain ⟨hstored, hrest⟩ := h.fresh row hrow
    exact ⟨(UploadStore.get_put_of_ne (hlisted row hrow)).trans hstored, hrest⟩
  · intro worker hworker
    rw [UploadStore.hasStatus_put, if_neg (hworkers worker hworker)]
    exact h.held worker hworker
  · intro other hother
    obtain ⟨hstored, hstatus⟩ := h.opened other (hretries.subset hother)
    exact ⟨(UploadStore.get_put_of_ne (hothers other hother)).trans hstored, hstatus⟩
  · intro worker hworker round hround
    rw [Function.update_of_ne (hworkers worker hworker)] at hround
    exact h.works worker hworker round hround
  · intro id hid round hround
    by_cases hsame : id = record.id
    · subst hsame
      rw [Function.update_self] at hround
      obtain rfl := Option.some.inj hround
      exact ⟨_, UploadStore.get_put_self,
        Round.rests_written (Round.opened_rests hmax hqueued hattempts hnext)⟩
    · rw [Function.update_of_ne hsame] at hround
      rw [UploadStore.get_put_of_ne hsame]
      exact h.rests id hid round hround

/-- A `retry` reads a failed record. -/
theorem opens (h : Inv cfg rounds sys) {record : AttachmentUpload}
    (hstored : sys.store.get record.id = some record) (hstatus : record.status = .failed)
    (hothers : ∀ other ∈ sys.retries, other.id ≠ record.id) :
    Inv cfg rounds { sys with retries := sys.retries ++ [record] } := by
  refine ⟨h.unrejected, h.working, h.listing, h.fresh, h.held, ?_, ?_, h.works, h.rests⟩
  · exact List.forall_mem_append.mpr
      ⟨h.opened, List.forall_mem_singleton.mpr ⟨hstored, hstatus⟩⟩
  · rw [List.map_append, List.map_singleton, List.nodup_append]
    refine ⟨h.apart, List.nodup_singleton _, ?_⟩
    rintro id hid id' hid' rfl
    obtain ⟨other, hother, rfl⟩ := List.mem_map.mp hid
    exact hothers other hother (List.mem_singleton.mp hid')

/-- The records are listed while no worker is left. -/
theorem lists (h : Inv cfg rounds sys) {now : Nat} {rows : List AttachmentUpload}
    (hdrain : sys.drain = .listing now) (hrows : rows.Perm (sys.store.listRunnable now)) :
    sys.workers = [] ∧ Inv cfg rounds { sys with drain := .listed rows } := by
  have hnone : sys.workers = [] := by
    by_contra hworkers
    rw [h.working hworkers] at hdrain
    cases hdrain
  refine ⟨hnone, h.unrejected, fun hworkers => absurd hnone hworkers, by simp, ?_, h.held,
    h.opened, h.apart, h.works, h.rests⟩
  intro row hrow
  rcases List.mem_append.mp hrow with hrunnable | hlisted
  · exact h.fresh row (List.mem_append_left _ hrunnable)
  · obtain ⟨hstored, hqueued, hnext⟩ := UploadStore.mem_listRunnable.mp (hrows.mem_iff.mp hlisted)
    exact ⟨UploadStore.mem_records.mp hstored, hqueued, hnext.trans (h.listing now hdrain)⟩

/-- A worker claims a listed record, which is the stored one. -/
theorem turn (h : Inv cfg rounds sys) (hclaims : Claimed sys) (hdrain : sys.drain = .working) :
    Inv cfg rounds (sys.turn sys.pass) := by
  have hkept : ∀ rest, rest ⊆ sys.runnable sys.pass →
      ∀ row ∈ Function.update sys.runnable sys.pass rest sys.pass ++ sys.drain.rows,
        sys.store.get row.id = some row ∧ row.status = .queued ∧ row.nextAttemptAt ≤ sys.now := by
    intro rest hrest row hrow
    rw [Function.update_self, List.mem_append] at hrow
    exact h.fresh row (List.mem_append.mpr (hrow.imp_left fun hmem => hrest hmem))
  rcases sys.turn_cases sys.pass with ⟨rest, hrest, heq⟩ | ⟨next, rest, hnext, hrest, heq⟩
  · rw [heq]
    exact ⟨h.unrejected, h.working, h.listing, hkept rest hrest.subset, h.held, h.opened,
      h.apart, h.works, h.rests⟩
  · rw [heq]
    rw [hclaims.mem_inFlight] at hnext
    have hlisted : next ∈ sys.runnable sys.pass ++ sys.drain.rows :=
      List.mem_append_left _ (hrest.subset List.mem_cons_self)
    obtain ⟨hstored, hqueued, helapsed⟩ := h.fresh next hlisted
    refine ⟨h.unrejected, fun _ => hdrain, h.listing, ?_, ?_, h.opened, h.apart, ?_, ?_⟩
    · exact hkept rest fun row hmem => hrest.subset (List.mem_cons_of_mem _ hmem)
    · exact List.forall_mem_append.mpr
        ⟨h.held, List.forall_mem_singleton.mpr ⟨next, hstored, hqueued⟩⟩
    · refine List.forall_mem_append.mpr ⟨h.works, List.forall_mem_singleton.mpr ?_⟩
      intro round hround
      obtain ⟨row, hrow, hfits⟩ := h.rests next.id hnext round hround
      obtain rfl := Option.some.inj (hstored.symm.trans hrow)
      unfold Round.Rests at hfits
      rw [hqueued] at hfits
      obtain ⟨hsucceeded, hleft, hcalls, hattempts, hbefore⟩ := hfits
      exact ⟨hsucceeded, hleft, hcalls, hattempts, hbefore ▸ helapsed⟩
    · intro id hid
      refine h.rests id fun hclaimed => hid ?_
      rw [claimed, List.map_append]
      exact List.mem_append_left _ hclaimed

/-- The turns that begin a pass. -/
theorem iterate_turn (h : Inv cfg rounds sys) (hclaims : Claimed sys)
    (hdrain : sys.drain = .working) (count : Nat) :
    Inv cfg rounds ((UploadSystem.turn · sys.pass)^[count] sys) := by
  induction count generalizing sys with
  | zero => exact h
  | succ count ih =>
      obtain ⟨-, -, hdrain', hpass⟩ := SinglePass.waiting_turn sys
      have hnext := ih (h.turn hclaims hdrain) (hclaims.turn _) (hdrain'.trans hdrain)
      rw [hpass] at hnext
      exact hnext

theorem beginPass (h : Inv cfg rounds sys) (hclaims : Claimed sys) {rows : List AttachmentUpload}
    (hdrain : sys.drain = .listed rows) : Inv cfg rounds (sys.beginPass cfg rows) := by
  have hrows : (rows.filter fun r => r.status = .queued ∧ r.id ∉ sys.inFlight) ⊆ rows :=
    List.filter_subset_self rows
  unfold UploadSystem.beginPass
  dsimp only
  generalize (rows.filter fun r => r.status = .queued ∧ r.id ∉ sys.inFlight) = runnable at hrows
  split
  · refine h.moves ⟨rfl, rfl, rfl, rfl, rfl, rfl, le_rfl, Or.inr ⟨Or.inr ?_, rfl, by simp⟩⟩
    simp [hdrain]
  · have hbefore : Inv cfg rounds
        { sys with
          drain := .working
          pass := sys.pass + 1
          runnable := Function.update sys.runnable (sys.pass + 1) runnable
          rejected := false } := by
      refine ⟨rfl, fun _ => rfl, by simp, ?_, h.held, h.opened, h.apart, h.works, h.rests⟩
      intro row hrow
      have hlisted : row ∈ runnable := by simpa [DrainPoint.rows] using hrow
      refine h.fresh row (List.mem_append_right _ ?_)
      rw [hdrain]
      exact hrows hlisted
    exact hbefore.iterate_turn (hclaims.congr rfl rfl) rfl (workerCount cfg runnable)

end Inv

/-! ## A worker -/

section

variable {i : Nat} {worker other : Worker}

/-- Beside a worker that goes on, the others have claimed other records. -/
theorem Claimed.mem_set (hclaims : Claimed sys) (hworker : sys.workers[i]? = some worker)
    {worker' : Worker} (h : other ∈ sys.workers.set i worker') :
    other = worker' ∨ other ∈ sys.workers ∧ other.record.id ≠ worker.record.id := by
  obtain ⟨j, hj⟩ := List.mem_iff_getElem?.mp h
  rw [List.getElem?_set] at hj
  split at hj
  · split at hj
    · exact Or.inl (Option.some.inj hj).symm
    · cases hj
  · rename_i hne
    refine Or.inr ⟨List.mem_of_getElem? hj, fun hid => hne ?_⟩
    have hi : sys.claimed[i]? = some worker.record.id := by
      rw [claimed, List.getElem?_map, hworker]
      rfl
    have hj' : sys.claimed[j]? = some worker.record.id := by
      rw [claimed, List.getElem?_map, hj, ← hid]
      rfl
    obtain ⟨hlt, -⟩ := List.getElem?_eq_some_iff.mp hi
    exact (List.getElem?_inj hlt hclaims.nodup).mp (hi.trans hj'.symm)

theorem Claimed.mem_eraseIdx (hclaims : Claimed sys) (hworker : sys.workers[i]? = some worker)
    (h : other ∈ sys.workers.eraseIdx i) :
    other ∈ sys.workers ∧ other.record.id ≠ worker.record.id :=
  ⟨List.mem_of_mem_eraseIdx h,
    ne_of_mem_eraseIdx (fun worker : Worker => worker.record.id) hclaims.nodup hworker h⟩

namespace Inv

/-- A claimed record is neither listed nor read by a `retry`. -/
theorem not_listed (h : Inv cfg rounds sys) {limit : Nat} (hsingle : SinglePass limit sys)
    (hmem : worker ∈ sys.workers) :
    (∀ row ∈ sys.runnable sys.pass ++ sys.drain.rows, row.id ≠ worker.record.id) ∧
      ∀ record ∈ sys.retries, record.id ≠ worker.record.id := by
  constructor
  · intro row hrow hid
    rw [hsingle.nothing_listed hmem, List.append_nil] at hrow
    have hdisjoint := (List.nodup_append.mp hsingle.nodup).2.2
    exact hdisjoint worker.record.id (List.mem_map_of_mem hmem) row.id (List.mem_map_of_mem hrow)
      hid.symm
  · intro record hrecord hid
    obtain ⟨row, hrow, hstatus⟩ := h.held worker hmem
    obtain ⟨hstored, hfailed⟩ := h.opened record hrecord
    obtain rfl := Option.some.inj (hstored.symm.trans (hid ▸ hrow))
    exact worker.point.held_ne_failed (hstatus.symm.trans hfailed)

section Write

variable {limit : Nat} {store : UploadStore}

/-- A write to a claimed record leaves the listed rows as they are. -/
theorem fresh_write (h : Inv cfg rounds sys) (hsingle : SinglePass limit sys)
    (hmem : worker ∈ sys.workers)
    (hstore : ∀ id, id ≠ worker.record.id → store.get id = sys.store.get id) :
    ∀ row ∈ sys.runnable sys.pass ++ sys.drain.rows, store.get row.id = some row ∧
      row.status = .queued ∧ row.nextAttemptAt ≤ sys.now := by
  intro row hrow
  obtain ⟨hstored, hrest⟩ := h.fresh row hrow
  exact ⟨(hstore row.id ((h.not_listed hsingle hmem).1 row hrow)).trans hstored, hrest⟩

/-- So it does the rows a `retry` has read. -/
theorem opened_write (h : Inv cfg rounds sys) (hsingle : SinglePass limit sys)
    (hmem : worker ∈ sys.workers)
    (hstore : ∀ id, id ≠ worker.record.id → store.get id = sys.store.get id) :
    ∀ record ∈ sys.retries, store.get record.id = some record ∧ record.status = .failed := by
  intro record hrecord
  obtain ⟨hstored, hfailed⟩ := h.opened record hrecord
  exact ⟨(hstore _ ((h.not_listed hsingle hmem).2 record hrecord)).trans hstored, hfailed⟩

/-- So it does the rows of the other workers. -/
theorem held_write (h : Inv cfg rounds sys)
    (hstore : ∀ id, id ≠ worker.record.id → store.get id = sys.store.get id)
    (hother : other ∈ sys.workers) (hne : other.record.id ≠ worker.record.id) :
    store.HasStatus other.record.id other.point.held := by
  obtain ⟨row, hrow, hstatus⟩ := h.held other hother
  exact ⟨row, (hstore _ hne).trans hrow, hstatus⟩

end Write

/-- A worker goes on to its next point. -/
theorem goesOn (h : Inv cfg rounds sys) (hclaims : Claimed sys) {limit : Nat}
    (hsingle : SinglePass limit sys) (hworker : sys.workers[i]? = some worker)
    (point : WorkerPoint) {store : UploadStore} (hpoint : point.held = .uploading)
    (hstore : ∀ id, id ≠ worker.record.id → store.get id = sys.store.get id)
    (hheld : store.HasStatus worker.record.id .uploading) (next : Round → Round)
    (hworks : ∀ round, rounds worker.record.id = some round →
      (next round).Works cfg sys.now { worker with point := point }) :
    Inv cfg (Function.update rounds worker.record.id ((rounds worker.record.id).map next))
      { sys with store := store, workers := sys.workers.set i { worker with point := point } } := by
  have hmem : worker ∈ sys.workers := List.mem_of_getElem? hworker
  refine ⟨h.unrejected, fun _ => h.working (List.ne_nil_of_mem hmem), h.listing,
    h.fresh_write hsingle hmem hstore, ?_, h.opened_write hsingle hmem hstore, h.apart, ?_, ?_⟩
  · intro other hother
    rcases hclaims.mem_set hworker hother with rfl | ⟨hother, hne⟩
    · exact hpoint ▸ hheld
    · exact h.held_write hstore hother hne
  · intro other hother round hround
    rcases hclaims.mem_set hworker hother with rfl | ⟨hother, hne⟩
    · rw [Function.update_self] at hround
      obtain ⟨before, hbefore, rfl⟩ := Option.map_eq_some_iff.mp hround
      exact hworks before hbefore
    · rw [Function.update_of_ne hne] at hround
      exact h.works other hother round hround
  · intro id hid round hround
    rw [claimed, map_set_point hworker] at hid
    have hne : id ≠ worker.record.id := fun heq => hid (heq ▸ List.mem_map_of_mem hmem)
    rw [Function.update_of_ne hne] at hround
    rw [hstore id hne]
    exact h.rests id hid round hround

/-- A worker stores what came of the upload and gives its record up. -/
theorem finishes (h : Inv cfg rounds sys) (hclaims : Claimed sys) {limit : Nat}
    (hsingle : SinglePass limit sys) (hworker : sys.workers[i]? = some worker)
    (record : AttachmentUpload) (hid : record.id = worker.record.id) (timers : List Nat)
    (hrests : ∀ round, rounds worker.record.id = some round → round.Rests cfg record) :
    Inv cfg rounds
      ({ sys with store := sys.store.put record, timers := timers }.release i worker) := by
  have hmem : worker ∈ sys.workers := List.mem_of_getElem? hworker
  have hdrain : sys.drain = .working := h.working (List.ne_nil_of_mem hmem)
  have hstore : ∀ id, id ≠ worker.record.id →
      (sys.store.put record).get id = sys.store.get id :=
    fun id hne => UploadStore.get_put_of_ne (hid ▸ hne)
  have hdrop : Inv cfg rounds
      { sys with
        store := sys.store.put record
        timers := timers
        workers := sys.workers.eraseIdx i
        inFlight := sys.inFlight.erase worker.record.id } := by
    refine ⟨h.unrejected, fun _ => hdrain, h.listing, h.fresh_write hsingle hmem hstore, ?_,
      h.opened_write hsingle hmem hstore, h.apart, ?_, ?_⟩
    · intro other hother
      obtain ⟨hother, hne⟩ := hclaims.mem_eraseIdx hworker hother
      exact h.held_write hstore hother hne
    · intro other hother round hround
      exact h.works other (hclaims.mem_eraseIdx hworker hother).1 round hround
    · intro id hnot round hround
      by_cases hsame : id = worker.record.id
      · subst hsame
        refine ⟨_, hid ▸ UploadStore.get_put_self, Round.rests_written (hrests round hround)⟩
      · rw [hstore id hsame]
        refine h.rests id (fun hclaimed => hnot ?_) round hround
        have hperm := (claimed_perm hworker).mem_iff.mpr hclaimed
        exact (List.mem_cons.mp hperm).resolve_left hsame
  rw [release, hsingle.passes worker hmem]
  exact hdrop.turn (hclaims.drop hworker rfl rfl) hdrain

/-- What a worker awaits settles; only an upload may fail. -/
theorem work (h : Inv cfg rounds sys) (horderly : Orderly cfg sys)
    (hworker : sys.workers[i]? = some worker) (outcome : Except JsString JsString)
    (hreliable : ∀ message, outcome = .error message → worker.point = .uploading) :
    Inv cfg (Function.update rounds worker.record.id
        ((rounds worker.record.id).map fun round => round.after sys.now worker.point outcome))
      (sys.work cfg i worker outcome) := by
  have hmem : worker ∈ sys.workers := List.mem_of_getElem? hworker
  have hheld := h.held worker hmem
  have hworks := h.works worker hmem
  have hsame : Function.update rounds worker.record.id
      ((rounds worker.record.id).map fun round => round) = rounds := by
    rw [Option.map_id', Function.update_eq_self]
  obtain ⟨pass, record, point⟩ := worker
  cases outcome with
  | error message =>
      obtain rfl : point = .uploading := hreliable message rfl
      refine h.goesOn horderly.claimed horderly.single hworker (.recording message sys.now)
        rfl (fun _ _ => rfl) hheld _ fun round hround => ?_
      obtain ⟨hsucceeded, hleft, hcalls, hattempts⟩ := hworks round hround
      exact ⟨hsucceeded, hleft, hcalls, congrArg (· + 1) hattempts, rfl⟩
  | ok value =>
      cases point with
      | marking =>
          have hothers : ∀ id, id ≠ record.id →
              (sys.store.put { record with status := .uploading }).get id = sys.store.get id :=
            fun _ hne => UploadStore.get_put_of_ne hne
          have hmarked : (sys.store.put { record with status := .uploading }).HasStatus record.id
              .uploading :=
            UploadStore.hasStatus_put.mpr (by simp)
          refine h.goesOn horderly.claimed horderly.single hworker .uploading rfl hothers hmarked _
            fun round hround => ?_
          obtain ⟨hsucceeded, hleft, hcalls, hattempts, -⟩ := hworks round hround
          exact ⟨hsucceeded, hleft, congrArg (· + 1) hcalls, hattempts⟩
      | uploading =>
          refine h.goesOn horderly.claimed horderly.single hworker (.storing value)
            rfl (fun _ _ => rfl) hheld _ fun round hround => ?_
          obtain ⟨-, hleft, hcalls, -⟩ := hworks round hround
          exact ⟨rfl, hleft, hcalls⟩
      | storing url =>
          have hstored := h.finishes horderly.claimed horderly.single hworker
            { record with status := .uploaded, remoteUrl := some url, lastError := none }
            rfl sys.timers fun round hround => hworks round hround
          exact hsame.symm ▸ hstored
      | recording message failedAt =>
          have hstored := h.finishes horderly.claimed horderly.single hworker
            _ (handleFailure_spec cfg record message failedAt).1
            (sys.schedule (handleFailure cfg record message failedAt).2)
            fun round hround => Round.rests_handleFailure (hworks round hround)
          exact hsame.symm ▸ hstored

end Inv

end

/-! ## Every run -/

/-- A `retry` of an id does not read its record while another one is open. -/
def RetriesApart (sys : UploadSystem) : Event → Prop
  | .retry id _ => ∀ record ∈ sys.retries, record.id ≠ id
  | _ => True

instance (sys : UploadSystem) (event : Event) : Decidable (sys.RetriesApart event) :=
  match event with
  | .retry _ _ => inferInstanceAs (Decidable (∀ record ∈ sys.retries, _))
  | .start | .stop | .process | .enqueue _ _ | .requeue _ _ | .network _ | .wait _ | .fire _
  | .list _ | .begin | .endPass | .work _ _ | .kill => inferInstanceAs (Decidable True)

/-- The process goes on. -/
def Uninterrupted : Event → Prop
  | .kill => False
  | _ => True

instance (event : Event) : Decidable (Uninterrupted event) :=
  match event with
  | .kill => inferInstanceAs (Decidable False)
  | .start | .stop | .process | .enqueue _ _ | .retry _ _ | .requeue _ _ | .network _ | .wait _
  | .fire _ | .list _ | .begin | .endPass | .work _ _ => inferInstanceAs (Decidable True)

/-- The conditions on a step. -/
structure Undisturbed (sys : UploadSystem) (event : Event) : Prop where
  reliable : sys.Reliable event
  fresh : sys.EnqueuesFresh event
  apart : sys.RetriesApart event
  uninterrupted : Uninterrupted event

/-- Then the records are listed when no worker is left, and a `retry` writes over a failed
record. -/
theorem Inv.onePassAtATime (h : Inv cfg rounds sys) {event : Event}
    (hstep : sys.step cfg event = some sys') : sys.OnePassAtATime event := by
  cases event with
  | list rows =>
      rcases step_list hstep with ⟨now, listed, rfl, hdrain, hperm, -⟩ | ⟨message, rfl, -⟩
      · exact (h.lists hdrain hperm).1
      · trivial
  | requeue i put =>
      cases put with
      | error message => trivial
      | ok value =>
          rintro record hrecord ⟨row, hrow, huploaded⟩
          obtain ⟨hstored, hfailed⟩ := h.opened record (List.mem_of_getElem? hrecord)
          obtain rfl := Option.some.inj (hstored.symm.trans hrow)
          rw [hfailed] at huploaded
          cases huploaded
  | start | stop | process | enqueue | retry | network | wait | fire | begin | endPass | work
  | kill => trivial

theorem Inv.step (hmax : 0 < cfg.maxAttempts) (h : Inv cfg rounds sys)
    (horderly : Orderly cfg sys) {event : Event} (hmeets : sys.Undisturbed event)
    (hstep : sys.step cfg event = some sys') : Inv cfg (sys.noted rounds event) sys' := by
  cases event with
  | start =>
      obtain rfl := Option.some.inj hstep
      unfold start
      split
      · exact h
      · have hon : Moves sys { sys with stopped := false, started := true } :=
          ⟨rfl, rfl, rfl, rfl, rfl, rfl, le_rfl, Or.inl rfl⟩
        exact (h.moves hon).moves (process_moves _)
  | stop =>
      obtain rfl := Option.some.inj hstep
      exact h.moves ⟨rfl, rfl, rfl, rfl, rfl, rfl, le_rfl, Or.inl rfl⟩
  | process =>
      obtain rfl := Option.some.inj hstep
      exact h.moves (process_moves _)
  | enqueue input put =>
      cases put with
      | error message => exact hmeets.reliable.elim
      | ok value =>
          obtain rfl := Option.some.inj hstep
          have hnone : sys.store.get input.id = none := hmeets.fresh
          have hfailed : ∀ row, sys.store.get (enqueued input).id = some row →
              row.status = .failed := by
            intro row hrow
            exact absurd (hrow.symm.trans hnone) (by simp)
          have hput := h.puts hmax hfailed rfl rfl rfl (List.Sublist.refl sys.retries) ?_
          · exact hput.moves (process_moves _)
          · rintro other hother hid
            have hstored := (h.opened other hother).1
            rw [hid] at hstored
            exact absurd (hstored.symm.trans hnone) (by simp)
  | retry id get =>
      rcases step_retry hstep with rfl | ⟨record, hrecord, hfailed, rfl⟩
      · exact h
      · have hid := UploadStore.id_of_get hrecord
        exact h.opens (hid ▸ hrecord) hfailed (hid ▸ hmeets.apart)
  | requeue i put =>
      obtain ⟨record, hrecord, rfl⟩ := Option.map_eq_some_iff.mp hstep
      cases put with
      | error message => exact hmeets.reliable.elim
      | ok value =>
          have hmem : record ∈ sys.retries := List.mem_of_getElem? hrecord
          obtain ⟨hstored, hstatus⟩ := h.opened record hmem
          have hfailed : ∀ row, sys.store.get (requeued record).id = some row →
              row.status = .failed := by
            intro row hrow
            rw [← Option.some.inj (hstored.symm.trans hrow), hstatus]
          have hnoted : sys.noted rounds (.requeue i (.ok value)) =
              Function.update rounds (requeued record).id (some .opened) := by
            simp only [noted, hrecord]
            rfl
          have hothers : ∀ other ∈ sys.retries.eraseIdx i, other.id ≠ record.id :=
            fun _ => ne_of_mem_eraseIdx (fun row : AttachmentUpload => row.id) h.apart hrecord
          have hput := h.puts hmax hfailed rfl rfl rfl (List.eraseIdx_sublist sys.retries i) hothers
          rw [hnoted]
          exact hput.moves (process_moves _)
  | network monitor =>
      obtain rfl := Option.some.inj hstep
      have hmoves : Moves sys { sys with network := monitor } :=
        ⟨rfl, rfl, rfl, rfl, rfl, rfl, le_rfl, Or.inl rfl⟩
      dsimp only
      split
      · exact (h.moves hmoves).moves (process_moves _)
      · exact h.moves hmoves
  | wait ms =>
      obtain rfl := Option.some.inj hstep
      exact h.moves ⟨rfl, rfl, rfl, rfl, rfl, rfl, Nat.le_add_right _ ms, Or.inl rfl⟩
  | fire i =>
      obtain ⟨due, -, -, rfl⟩ := step_fire hstep
      have hmoves : Moves sys { sys with timers := sys.timers.eraseIdx i } :=
        ⟨rfl, rfl, rfl, rfl, rfl, rfl, le_rfl, Or.inl rfl⟩
      exact (h.moves hmoves).moves (process_moves _)
  | list rows =>
      rcases step_list hstep with ⟨now, listed, rfl, hdrain, hperm, rfl⟩ | ⟨message, rfl, -⟩
      · exact (h.lists hdrain hperm).2
      · exact hmeets.reliable.elim
  | begin =>
      obtain ⟨rows, hdrain, rfl⟩ := step_begin hstep
      exact h.beginPass horderly.claimed hdrain
  | endPass =>
      rcases step_endPass hstep with ⟨rfl, hdrain | hover⟩ | ⟨hrejected, -⟩
      · exact h.moves (nextPass_moves (Or.inr (by simp [hdrain])))
      · have hnone : sys.workers = [] := List.eq_nil_iff_forall_not_mem.mpr fun worker hworker =>
          hover worker hworker (horderly.single.passes _ hworker)
        exact h.moves (nextPass_moves (Or.inl hnone))
      · exact absurd (hrejected.symm.trans h.unrejected) (by simp)
  | work i outcome =>
      obtain ⟨worker, hworker, rfl⟩ := Option.map_eq_some_iff.mp hstep
      have hnoted : sys.noted rounds (.work i outcome) =
          Function.update rounds worker.record.id ((rounds worker.record.id).map fun round =>
            round.after sys.now worker.point outcome) := by
        simp only [noted, hworker]
      rw [hnoted]
      refine h.work horderly hworker outcome ?_
      rintro message rfl
      exact hmeets.reliable worker hworker
  | kill => exact hmeets.uninterrupted.elim

theorem roundsOf_concat (trace : List (UploadSystem × Event)) (sys : UploadSystem)
    (event : Event) : roundsOf (trace ++ [(sys, event)]) = sys.noted (roundsOf trace) event :=
  List.foldl_append

section Runs

variable {store : UploadStore} {network : NetworkMonitor} {now : Nat}
  {trace : List (UploadSystem × Event)}

theorem inv_run (hmax : 0 < cfg.maxAttempts)
    (run : Steps (step cfg) (create store network now) trace sys)
    (hmeets : ∀ e ∈ trace, e.1.Undisturbed e.2) :
    Orderly cfg sys ∧ Inv cfg (roundsOf trace) sys := by
  induction run with
  | none => exact ⟨.create store network now, .create store network now⟩
  | @next trace s s' event run hstep ih =>
      obtain ⟨horderly, hinv⟩ := ih fun e he => hmeets e (List.mem_append_left _ he)
      refine ⟨horderly.step (hinv.onePassAtATime hstep) hstep, ?_⟩
      rw [roundsOf_concat]
      exact hinv.step hmax horderly (hmeets (s, event) (by simp)) hstep

/-- A round and the stored record of its id. -/
theorem Inv.bounded (h : Inv cfg rounds sys) {id : JsString} {round : Round}
    (hround : rounds id = some round) :
    round.calls ≤ cfg.maxAttempts ∧ round.failures ≤ cfg.maxAttempts ∧
      ∃ row, sys.store.get id = some row ∧
        (row.status = .failed ↔ id ∉ sys.claimed ∧ round.failures = cfg.maxAttempts) ∧
        (row.status = .uploaded ↔ id ∉ sys.claimed ∧ round.succeeded = true) ∧
        (id ∉ sys.claimed → round.succeeded = false → round.failures < cfg.maxAttempts →
          row.status = .queued ∧ row.attempts = round.failures ∧
            row.nextAttemptAt = round.notBefore cfg) := by
  by_cases hclaimed : id ∈ sys.claimed
  · obtain ⟨worker, hworker, rfl⟩ := List.mem_map.mp hclaimed
    obtain ⟨row, hrow, hstatus⟩ := h.held worker hworker
    obtain ⟨hcalls, hfailures⟩ := (h.works worker hworker round hround).le
    refine ⟨hcalls, hfailures, row, hrow, ?_, ?_, fun hnot => absurd hclaimed hnot⟩
    · refine iff_of_false (fun hfailed => ?_) fun hnot => hnot.1 hclaimed
      exact worker.point.held_ne_failed (hstatus.symm.trans hfailed)
    · refine iff_of_false (fun huploaded => ?_) fun hnot => hnot.1 hclaimed
      exact worker.point.held_ne_uploaded (hstatus.symm.trans huploaded)
  · obtain ⟨row, hrow, hrests⟩ := h.rests id hclaimed round hround
    simp only [hclaimed, not_false_eq_true, true_and, true_imp_iff]
    unfold Round.Rests at hrests
    split at hrests
    · rename_i hstatus
      obtain ⟨hsucceeded, hleft, hcalls, hattempts, hnext⟩ := hrests
      refine ⟨by omega, hleft.le, row, hrow, ?_, ?_, fun _ _ => ⟨hstatus, hattempts, hnext⟩⟩
      · simp [hstatus, hleft.ne]
      · simp [hstatus, hsucceeded]
    · exact hrests.elim
    · rename_i hstatus
      obtain ⟨hsucceeded, hleft, hcalls⟩ := hrests
      refine ⟨by omega, hleft.le, row, hrow, ?_, ?_, ?_⟩
      · simp [hstatus, hleft.ne]
      · simp [hstatus, hsucceeded]
      · simp [hsucceeded]
    · rename_i hstatus
      obtain ⟨hsucceeded, hfull, hcalls⟩ := hrests
      refine ⟨by omega, hfull.le, row, hrow, ?_, ?_, ?_⟩
      · simp [hstatus, hfull]
      · simp [hstatus, hsucceeded]
      · exact fun _ hleft => absurd hfull hleft.ne

/-- An upload begins with attempts left, once the backoff of its round has elapsed. -/
theorem Inv.uploads_elapsed (h : Inv cfg rounds sys) {event : Event} {record : AttachmentUpload}
    (huploads : sys.uploads event = some record) {round : Round}
    (hround : rounds record.id = some round) :
    round.succeeded = false ∧ round.failures < cfg.maxAttempts ∧ round.calls = round.failures ∧
      round.notBefore cfg ≤ sys.now := by
  unfold uploads at huploads
  split at huploads
  · split at huploads
    · rename_i worker hworker
      split at huploads
      · rename_i hpoint
        obtain rfl := Option.some.inj huploads
        have hworks := h.works worker (List.mem_of_getElem? hworker) round hround
        unfold Round.Works at hworks
        rw [hpoint] at hworks
        exact ⟨hworks.1, hworks.2.1, hworks.2.2.1, hworks.2.2.2.2⟩
      · cases huploads
    · cases huploads
  · cases huploads

/-- **Retries are bounded and backed off.**  In every uninterrupted run whose store is
reliable, an id that was enqueued or requeued is uploaded at most `maxAttempts` times
since, and each time only while attempts are left, no upload has succeeded, and the
backoff after the last failure has elapsed.  Whenever no worker has it, its record is
'uploaded' exactly if an upload succeeded, 'failed' exactly if `maxAttempts` failed, and
otherwise queued with its failures as attempts, until the end of the backoff. -/
theorem retries_bounded (hmax : 0 < cfg.maxAttempts)
    (run : Steps (step cfg) (create store network now) trace sys)
    (hreliable : ∀ e ∈ trace, e.1.Reliable e.2) (hfresh : ∀ e ∈ trace, e.1.EnqueuesFresh e.2)
    (hapart : ∀ e ∈ trace, e.1.RetriesApart e.2) (hgoes : ∀ e ∈ trace, Uninterrupted e.2) :
    (∀ id round, roundsOf trace id = some round →
      round.calls ≤ cfg.maxAttempts ∧ round.failures ≤ cfg.maxAttempts ∧
        ∃ row, sys.store.get id = some row ∧
          (row.status = .failed ↔ id ∉ sys.claimed ∧ round.failures = cfg.maxAttempts) ∧
          (row.status = .uploaded ↔ id ∉ sys.claimed ∧ round.succeeded = true) ∧
          (id ∉ sys.claimed → round.succeeded = false → round.failures < cfg.maxAttempts →
            row.status = .queued ∧ row.attempts = round.failures ∧
              row.nextAttemptAt = round.notBefore cfg)) ∧
      ∀ pre s event post, trace = pre ++ (s, event) :: post →
        ∀ record, s.uploads event = some record →
          ∀ round, roundsOf pre record.id = some round →
            round.succeeded = false ∧ round.failures < cfg.maxAttempts ∧
              round.calls = round.failures ∧ round.notBefore cfg ≤ s.now := by
  have hmeets : ∀ e ∈ trace, e.1.Undisturbed e.2 :=
    fun e he => ⟨hreliable e he, hfresh e he, hapart e he, hgoes e he⟩
  refine ⟨fun id round hround => (inv_run hmax run hmeets).2.bounded hround, ?_⟩
  rintro pre s event post rfl record huploads round hround
  have hbefore : ∀ e ∈ pre, e.1.Undisturbed e.2 :=
    fun e he => hmeets e (List.mem_append_left _ he)
  exact (inv_run hmax run.split hbefore).2.uploads_elapsed huploads hround

end Runs

/-! ### A file that fails twice -/

namespace TwoFailures

open FourFiles

/-- Two attempts for each file. -/
def twice : AttachmentQueueConfig := { maxAttempts := 2 }

/-- The file after its first failure. -/
def failedOnce : AttachmentUpload :=
  { file "a" with
    attempts := 1
    nextAttemptAt := 2005
    lastError := some (js "network blip") }

/-- One attempt: the listed file is marked, its upload fails, and the failure is stored. -/
def attempt (row : AttachmentUpload) : List Event :=
  [.list (.ok [row]), .begin, .work 0 (.ok []), .work 0 (.error (js "network blip")),
    .work 0 (.ok []), .endPass]

/-- The file is enqueued at 5, and tried again when its timer fires. -/
def actions : List Event :=
  [.enqueue (file "a").toNewAttachmentUpload (.ok ())] ++ attempt (file "a") ++
    [.wait 2000, .fire 0] ++ attempt failedOnce

end TwoFailures

/-- After two failures of two the file is parked. -/
theorem twoFailures_bounded : ∃ trace sys,
    Steps (step TwoFailures.twice) (create FourFiles.empty FourFiles.online 5) trace sys ∧
      roundsOf trace (js "a") =
        some { calls := 2, failures := 2, failedAt := 2005, succeeded := false } ∧
      sys.store.HasStatus (js "a") .failed := by
  have hruns : (TwoFailures.actions.foldlM (step TwoFailures.twice)
      (create FourFiles.empty FourFiles.online 5)).map claimed = some [] := by
    decide
  obtain ⟨sys, hsys, hclaimed⟩ := Option.map_eq_some_iff.mp hruns
  have hround : roundsOf (traceOf (step TwoFailures.twice)
      (create FourFiles.empty FourFiles.online 5) TwoFailures.actions) (js "a") =
        some { calls := 2, failures := 2, failedAt := 2005, succeeded := false } := by
    decide
  have hmeets : ∀ e ∈ traceOf (step TwoFailures.twice)
      (create FourFiles.empty FourFiles.online 5) TwoFailures.actions,
        e.1.Reliable e.2 ∧ e.1.EnqueuesFresh e.2 ∧ e.1.RetriesApart e.2 ∧ Uninterrupted e.2 := by
    decide
  have hrun := Steps.of_actions hsys
  obtain ⟨hrounds, -⟩ := retries_bounded (by decide) hrun (fun e he => (hmeets e he).1)
    (fun e he => (hmeets e he).2.1) (fun e he => (hmeets e he).2.2.1)
    (fun e he => (hmeets e he).2.2.2)
  obtain ⟨-, -, row, hrow, hfailed, -⟩ := hrounds (js "a") _ hround
  exact ⟨_, sys, hrun, hround, row, hrow, hfailed.mpr ⟨by simp [hclaimed], rfl⟩⟩

end UploadSystem

end FlowLogix.Mobile

/-
  Mobile/BackoffTimers.lean --- the wake-ups of the upload queue
  (mobile/src/attachments/AttachmentUploadQueue.ts).

  A failed upload is stored with the time of its next attempt, and its kick is scheduled
  in memory.  `stop` clears the timers and a new instance has none, while `start` only
  kicks.  So a queue that is started over a record in backoff never wakes for it, and
  otherwise it does (`awake_along`).
-/
import FlowLogix.Mobile.UploadLimit

set_option autoImplicit false

namespace FlowLogix.Mobile

open FlowLogix.Foundation

namespace UploadSystem

variable {cfg : AttachmentQueueConfig} {sys sys' : UploadSystem}

/-! ## What the claim is about -/

/-- Every queued record in backoff has a timer that is due no earlier than its next
attempt. -/
def Scheduled (sys : UploadSystem) : Prop :=
  ∀ row ∈ sys.store.records, row.status = .queued → sys.now < row.nextAttemptAt →
    ∃ due ∈ sys.timers, row.nextAttemptAt ≤ due

instance (sys : UploadSystem) : Decidable sys.Scheduled :=
  inferInstanceAs (Decidable (∀ row ∈ sys.store.records, row.status = .queued →
    sys.now < row.nextAttemptAt → ∃ due ∈ sys.timers, row.nextAttemptAt ≤ due))

/-- A pending kick at or after the next attempt of a record lists it, when nothing happens
before it and the network is suitable. -/
def RetriedByTimer (cfg : AttachmentQueueConfig) (sys : UploadSystem) (row : AttachmentUpload) :
    Prop :=
  ∃ i due, sys.timers[i]? = some due ∧ row.nextAttemptAt ≤ due ∧
    ∀ ms, due ≤ sys.now + ms → isSuitableForLargeUpload sys.network = true →
      ∃ sys', [.wait ms, .fire i].foldlM (step cfg) sys = some sys' ∧
        sys'.drain = .listing (sys.now + ms) ∧ row ∈ sys'.store.listRunnable (sys.now + ms)

/-- A started queue with no drain in progress retries every queued record in backoff by
one of its timers. -/
def NoneStranded (cfg : AttachmentQueueConfig) (sys : UploadSystem) : Prop :=
  sys.started = true → sys.drain = .idle →
    ∀ row ∈ sys.store.records, row.status = .queued → sys.now < row.nextAttemptAt →
      sys.RetriedByTimer cfg row

/-- No store operation rejects. -/
def Reliable (sys : UploadSystem) : Event → Prop
  | .enqueue _ (.error _) | .retry _ (.error _) | .requeue _ (.error _) | .list (.error _) => False
  | .work i (.error _) => ∀ worker ∈ sys.workers[i]?, worker.point = .uploading
  | _ => True

instance (sys : UploadSystem) (event : Event) : Decidable (sys.Reliable event) :=
  match event with
  | .enqueue _ (.error _) | .retry _ (.error _) | .requeue _ (.error _) | .list (.error _) =>
      inferInstanceAs (Decidable False)
  | .work i (.error _) =>
      inferInstanceAs (Decidable (∀ worker ∈ sys.workers[i]?, worker.point = .uploading))
  | .enqueue _ (.ok _) | .retry _ (.ok _) | .requeue _ (.ok _) | .list (.ok _) | .work _ (.ok _)
  | .start | .stop | .process | .network _ | .wait _ | .fire _ | .begin | .endPass | .kill =>
      inferInstanceAs (Decidable True)

/-- A queue is started when every record in backoff still has its timer. -/
def StartsScheduled (sys : UploadSystem) : Event → Prop
  | .start => sys.started = true ∨ sys.Scheduled
  | _ => True

instance (sys : UploadSystem) (event : Event) : Decidable (sys.StartsScheduled event) :=
  match event with
  | .start => inferInstanceAs (Decidable (_ = true ∨ sys.Scheduled))
  | .stop | .process | .enqueue _ _ | .retry _ _ | .requeue _ _ | .network _ | .wait _ | .fire _
  | .list _ | .begin | .endPass | .work _ _ | .kill => inferInstanceAs (Decidable True)

/-! ## Timers -/

/-- The invariant.  A failure is recorded with a time that has passed. -/
structure Wakes (sys : UploadSystem) : Prop where
  running : sys.started = true → sys.stopped = false
  recorded : ∀ worker ∈ sys.workers, ∀ message now, worker.point = .recording message now →
    now ≤ sys.now
  awake : sys.started = true → sys.Scheduled

/-- The clock, the timers and the store are as before, and new workers mark their
record. -/
structure SameTimers (sys sys' : UploadSystem) : Prop where
  store : sys'.store = sys.store
  now : sys'.now = sys.now
  timers : sys'.timers = sys.timers
  started : sys'.started = sys.started
  stopped : sys'.stopped = sys.stopped
  workers : ∀ worker ∈ sys'.workers, worker ∈ sys.workers ∨ worker.point = .marking

namespace SameTimers

theorem trans {sys'' : UploadSystem} (h : SameTimers sys sys') (h' : SameTimers sys' sys'') :
    SameTimers sys sys'' where
  store := h'.store.trans h.store
  now := h'.now.trans h.now
  timers := h'.timers.trans h.timers
  started := h'.started.trans h.started
  stopped := h'.stopped.trans h.stopped
  workers worker hworker := (h'.workers worker hworker).elim (h.workers worker) Or.inr

theorem process (sys : UploadSystem) : SameTimers sys sys.process := by
  obtain ⟨rerun, drain, -, heq⟩ := process_eq sys
  rw [heq]
  exact ⟨rfl, rfl, rfl, rfl, rfl, fun _ => Or.inl⟩

theorem nextPass (sys : UploadSystem) : SameTimers sys sys.nextPass := by
  obtain ⟨rerun, drain, -, heq⟩ := nextPass_eq sys
  rw [heq]
  exact ⟨rfl, rfl, rfl, rfl, rfl, fun _ => Or.inl⟩

theorem turn (sys : UploadSystem) (pass : Nat) : SameTimers sys (sys.turn pass) := by
  rcases sys.turn_cases pass with ⟨rest, -, heq⟩ | ⟨next, rest, -, -, heq⟩
  · rw [heq]
    exact ⟨rfl, rfl, rfl, rfl, rfl, fun _ => Or.inl⟩
  · rw [heq]
    refine ⟨rfl, rfl, rfl, rfl, rfl, fun worker hworker => ?_⟩
    refine (List.mem_append.mp hworker).imp_right fun hnew => ?_
    rw [List.mem_singleton.mp hnew]

theorem beginPass (sys : UploadSystem) (rows : List AttachmentUpload) :
    SameTimers sys (sys.beginPass cfg rows) :=
  beginPass_induction (fun mid pass h => h.trans (turn mid pass))
    ⟨rfl, rfl, rfl, rfl, rfl, fun _ => Or.inl⟩ fun _ => ⟨rfl, rfl, rfl, rfl, rfl, fun _ => Or.inl⟩

end SameTimers

namespace Wakes

theorem create (store : UploadStore) (network : NetworkMonitor) (now : Nat) :
    Wakes (UploadSystem.create store network now) :=
  ⟨nofun, nofun, nofun⟩

theorem same (h : Wakes sys) (hsame : SameTimers sys sys') : Wakes sys' where
  running := by
    rw [hsame.started, hsame.stopped]
    exact h.running
  recorded worker hworker message now hpoint := by
    rw [hsame.now]
    rcases hsame.workers worker hworker with hworker | hmarking
    · exact h.recorded worker hworker message now hpoint
    · rw [hmarking] at hpoint
      cases hpoint
  awake := by
    rw [Scheduled, hsame.started, hsame.store, hsame.now, hsame.timers]
    exact h.awake

/-- A record is stored, and if it is in backoff its timer is set. -/
theorem stores (h : Wakes sys) {record : AttachmentUpload}
    (hstore : sys'.store = sys.store.put record) (hnow : sys'.now = sys.now)
    (hstarted : sys'.started = sys.started) (hstopped : sys'.stopped = sys.stopped)
    (hworkers : ∀ worker ∈ sys'.workers, ∀ message now, worker.point = .recording message now →
      now ≤ sys.now)
    (htimers : sys.timers ⊆ sys'.timers)
    (hrecord : sys.stopped = false → record.status = .queued → sys.now < record.nextAttemptAt →
      ∃ due ∈ sys'.timers, record.nextAttemptAt ≤ due) : Wakes sys' := by
  refine ⟨?_, hnow ▸ hworkers, fun hon row hrow hqueued hlater => ?_⟩
  · rw [hstarted, hstopped]
    exact h.running
  · rw [hstarted] at hon
    rw [UploadStore.mem_records, hstore, UploadStore.get_put] at hrow
    rw [hnow] at hlater
    split at hrow
    · obtain rfl := Option.some.inj hrow
      rw [UploadStore.written_status] at hqueued
      rw [UploadStore.written_nextAttemptAt] at hlater ⊢
      exact hrecord (h.running hon) hqueued hlater
    · have hbefore := h.awake hon row (UploadStore.mem_records.mpr hrow) hqueued hlater
      obtain ⟨due, hdue, hle⟩ := hbefore
      exact ⟨due, htimers hdue, hle⟩

/-- What a caller puts is not in backoff. -/
theorem puts (h : Wakes sys) {event : Event} {record : AttachmentUpload}
    (hputs : sys.puts event = some record) (hstore : sys'.store = sys.store.put record)
    (hnow : sys'.now = sys.now) (htimers : sys'.timers = sys.timers)
    (hstarted : sys'.started = sys.started) (hstopped : sys'.stopped = sys.stopped)
    (hworkers : sys'.workers = sys.workers) : Wakes sys' := by
  refine h.stores hstore hnow hstarted hstopped (hworkers ▸ h.recorded)
    (htimers ▸ List.Subset.refl _) fun _ _ hlater => ?_
  rw [(queued_of_puts hputs).2] at hlater
  exact absurd hlater (Nat.not_lt_zero _)

theorem settles (h : Wakes sys) {i : Nat} {worker : Worker} {outcome : Except JsString JsString}
    (hworker : sys.workers[i]? = some worker) (hsettles : Settles sys i worker outcome sys') :
    Wakes sys' := by
  have hmem : worker ∈ sys.workers := List.mem_of_getElem? hworker
  have hset : ∀ point : WorkerPoint,
      (∀ message now, point = .recording message now → now ≤ sys.now) →
        ∀ other ∈ sys.workers.set i { worker with point := point }, ∀ message now,
        other.point = .recording message now → now ≤ sys.now := by
    intro point hpoint other hother
    rcases List.mem_or_eq_of_mem_set hother with hother | rfl
    · exact h.recorded other hother
    · exact hpoint
  have herase : ∀ other ∈ sys.workers.eraseIdx i, ∀ message now,
      other.point = .recording message now → now ≤ sys.now :=
    fun other hother => h.recorded other (List.mem_of_mem_eraseIdx hother)
  cases hsettles with
  | marks value hpoint =>
      exact h.stores rfl rfl rfl rfl (hset _ nofun) (List.Subset.refl _) nofun
  | awaits outcome point hends hpoint =>
      refine ⟨h.running, hset point fun message now heq => ?_, h.awake⟩
      exact (hpoint.2 message now heq).le
  | releases value record delay hid hstores hretry =>
      have htimers : sys.timers ⊆ sys.schedule delay := by
        unfold schedule
        split
        · exact List.Subset.refl _
        · split
          · exact List.Subset.refl _
          · exact List.subset_append_left _ _
      have hstored : Wakes
          { sys with
            store := sys.store.put record
            timers := sys.schedule delay
            workers := sys.workers.eraseIdx i
            inFlight := sys.inFlight.erase worker.record.id } := by
        refine h.stores rfl rfl rfl rfl herase htimers fun hrunning hqueued _ => ?_
        obtain ⟨message, now, ms, hpoint, hnext, rfl⟩ := hretry hqueued
        have hpassed := h.recorded worker hmem message now hpoint
        refine ⟨sys.now + ms, ?_, by omega⟩
        simp [schedule, hrunning]
      exact hstored.same (SameTimers.turn _ worker.pass)
  | rejects message => exact ⟨h.running, herase, h.awake⟩

/-- A timer that fires is no later than now, so no record in backoff waits for it. -/
theorem fires (h : Wakes sys) {i due : Nat} (htimer : sys.timers[i]? = some due)
    (hdue : due ≤ sys.now) : Wakes { sys with timers := sys.timers.eraseIdx i } := by
  refine ⟨h.running, h.recorded, fun hon row hrow hqueued hlater => ?_⟩
  obtain ⟨due', hdue', hle⟩ := h.awake hon row hrow hqueued hlater
  obtain ⟨j, hj⟩ := List.mem_iff_getElem?.mp hdue'
  refine ⟨due', List.mem_eraseIdx_iff_getElem?.mpr ⟨j, ?_, hj⟩, hle⟩
  rintro rfl
  obtain rfl := Option.some.inj (htimer.symm.trans hj)
  exact absurd (hlater.trans_le hle) (not_lt.mpr hdue)

theorem step {event : Event} (h : Wakes sys) (hmeets : sys.StartsScheduled event)
    (hstep : sys.step cfg event = some sys') : Wakes sys' := by
  cases event with
  | start =>
      obtain rfl := Option.some.inj hstep
      unfold start
      split
      · exact h
      · rename_i hoff
        have hon : Wakes { sys with stopped := false, started := true } :=
          ⟨fun _ => rfl, h.recorded, fun _ => hmeets.resolve_left hoff⟩
        exact hon.same (SameTimers.process _)
  | stop =>
      obtain rfl := Option.some.inj hstep
      exact ⟨nofun, h.recorded, nofun⟩
  | process =>
      obtain rfl := Option.some.inj hstep
      exact h.same (SameTimers.process sys)
  | enqueue input put =>
      cases put with
      | error message =>
          obtain rfl := Option.some.inj hstep
          exact h
      | ok value =>
          obtain rfl := Option.some.inj hstep
          have hputs : sys.puts (.enqueue input (.ok value)) = some (enqueued input) := rfl
          have hput : Wakes { sys with store := sys.store.put (enqueued input) } :=
            h.puts hputs rfl rfl rfl rfl rfl rfl
          exact hput.same (SameTimers.process _)
  | retry id get =>
      rcases step_retry hstep with rfl | ⟨record, -, -, rfl⟩
      · exact h
      · exact ⟨h.running, h.recorded, h.awake⟩
  | requeue i put =>
      obtain ⟨record, hrecord, rfl⟩ := Option.map_eq_some_iff.mp hstep
      cases put with
      | error message => exact ⟨h.running, h.recorded, h.awake⟩
      | ok value =>
          have hputs : sys.puts (.requeue i (.ok value)) = some (requeued record) := by
            rw [UploadSystem.puts, hrecord]
            rfl
          have hput : Wakes
              { sys with
                store := sys.store.put (requeued record)
                retries := sys.retries.eraseIdx i } :=
            h.puts hputs rfl rfl rfl rfl rfl rfl
          exact hput.same (SameTimers.process _)
  | network monitor =>
      obtain rfl := Option.some.inj hstep
      have hnetwork : Wakes { sys with network := monitor } := ⟨h.running, h.recorded, h.awake⟩
      dsimp only
      split
      · exact hnetwork.same (SameTimers.process _)
      · exact hnetwork
  | wait ms =>
      obtain rfl := Option.some.inj hstep
      refine ⟨h.running, fun worker hworker message now hpoint => ?_,
        fun hon row hrow hqueued hlater => ?_⟩
      · exact (h.recorded worker hworker message now hpoint).trans (Nat.le_add_right _ ms)
      · exact h.awake hon row hrow hqueued ((Nat.le_add_right _ ms).trans_lt hlater)
  | fire i =>
      obtain ⟨due, htimer, hdue, rfl⟩ := step_fire hstep
      exact (h.fires htimer hdue).same (SameTimers.process _)
  | list rows =>
      rcases step_list hstep with ⟨now, listed, rfl, -, -, rfl⟩ | ⟨message, rfl, rfl⟩
      · exact ⟨h.running, h.recorded, h.awake⟩
      · exact ⟨h.running, h.recorded, h.awake⟩
  | begin =>
      obtain ⟨rows, -, rfl⟩ := step_begin hstep
      exact h.same (SameTimers.beginPass sys rows)
  | endPass =>
      rcases step_endPass hstep with ⟨rfl, -⟩ | ⟨-, rfl⟩
      · exact h.same (SameTimers.nextPass sys)
      · exact ⟨h.running, h.recorded, h.awake⟩
  | work i outcome =>
      obtain ⟨worker, hworker, rfl⟩ := Option.map_eq_some_iff.mp hstep
      exact h.settles hworker (settles_work cfg sys i worker outcome)
  | kill =>
      obtain rfl := Option.some.inj hstep
      exact create sys.store sys.network sys.now

end Wakes

/-! ## Every run -/

/-- The timer of a record in backoff lists it. -/
theorem Wakes.noneStranded (h : Wakes sys) : sys.NoneStranded cfg := by
  intro hon hidle row hrow hqueued hlater
  obtain ⟨due, hdue, hle⟩ := h.awake hon row hrow hqueued hlater
  obtain ⟨i, hi⟩ := List.mem_iff_getElem?.mp hdue
  refine ⟨i, due, hi, hle, fun ms hms hsuitable => ?_⟩
  have hlisted : row ∈ sys.store.listRunnable (sys.now + ms) :=
    UploadStore.mem_listRunnable.mpr ⟨hrow, hqueued, hle.trans hms⟩
  refine ⟨UploadSystem.process
    { sys with now := sys.now + ms, timers := sys.timers.eraseIdx i }, ?_, ?_, ?_⟩
  · simp [UploadSystem.step, hi, hms]
  · simp [UploadSystem.process, hidle, nextPass, drainOnce, h.running hon, hsuitable]
  · rw [(SameTimers.process _).store]
    exact hlisted

/-- **No queued upload is stranded** in a run that starts its queue when every record in
backoff still has its timer. -/
theorem noneStranded_along {store : UploadStore} {network : NetworkMonitor} {now : Nat}
    {trace : List (UploadSystem × Event)}
    (run : Steps (step cfg) (create store network now) trace sys)
    (hmeets : ∀ e ∈ trace, e.1.StartsScheduled e.2) :
    (∀ e ∈ trace, e.1.NoneStranded cfg) ∧ sys.NoneStranded cfg := by
  have hstates := run.everywhere hmeets (Wakes.create store network now)
    fun _ _ _ hmeets h hstep => h.step hmeets hstep
  exact ⟨fun e he => (hstates.1 e he).noneStranded, hstates.2.noneStranded⟩

/-! ### A record in backoff -/

namespace Backoff

open FourFiles

/-- A file whose upload failed once. -/
def failedOnce : AttachmentUpload := { file "a" with attempts := 1, nextAttemptAt := 2005 }

/-- The upload of a file fails. -/
def failing : List Event :=
  [.start, .list (.ok [file "a"]), .begin, .work 0 (.ok []), .work 0 (.error (js "network blip")),
    .work 0 (.ok []), .endPass]

/-- A new instance is started over the failed file. -/
def restarted : List Event := [.start, .list (.ok []), .begin, .endPass]

end Backoff

/-- The failed file has its timer. -/
theorem failing_noneStranded : ∃ trace sys,
    Steps (step {}) (create (FourFiles.empty.put (FourFiles.file "a")) FourFiles.online 5)
        trace sys ∧
      sys.timers = [2005] ∧ (∀ e ∈ trace, e.1.NoneStranded {}) ∧ sys.NoneStranded {} := by
  have hruns : (Backoff.failing.foldlM (step {})
      (create (FourFiles.empty.put (FourFiles.file "a")) FourFiles.online 5)).map (·.timers) =
        some [2005] := by
    decide
  obtain ⟨sys, hsys, htimers⟩ := Option.map_eq_some_iff.mp hruns
  have hmeets : ∀ e ∈ traceOf (step {})
      (create (FourFiles.empty.put (FourFiles.file "a")) FourFiles.online 5) Backoff.failing,
        e.1.StartsScheduled e.2 := by
    decide
  have hrun := Steps.of_actions hsys
  exact ⟨_, sys, hrun, htimers, noneStranded_along hrun hmeets⟩

/-- The new instance has no timer for the failed file. -/
theorem restarted_strands : ¬ ∀ (cfg : AttachmentQueueConfig) (store : UploadStore)
    (network : NetworkMonitor) (now : Nat) (sys : UploadSystem)
    (trace : List (UploadSystem × Event)),
    Steps (step cfg) (create store network now) trace sys →
      (∀ e ∈ trace, e.1.Reliable e.2) →
        (∀ e ∈ trace, e.1.NoneStranded cfg) ∧ sys.NoneStranded cfg := by
  intro hclaim
  have hruns : (Backoff.restarted.foldlM (step {})
      (create (FourFiles.empty.put Backoff.failedOnce) FourFiles.online 5)).map (fun sys =>
        (sys.started, decide (sys.drain = .idle), sys.timers,
          decide (∃ row ∈ sys.store.records, row.status = .queued ∧ sys.now < row.nextAttemptAt))) =
      some (true, true, [], true) := by
    decide
  obtain ⟨sys, hsys, hfinal⟩ := Option.map_eq_some_iff.mp hruns
  simp only [Prod.mk.injEq, decide_eq_true_iff] at hfinal
  obtain ⟨hon, hidle, htimers, row, hrow, hqueued, hlater⟩ := hfinal
  have hreliable : ∀ e ∈ traceOf (step {})
      (create (FourFiles.empty.put Backoff.failedOnce) FourFiles.online 5) Backoff.restarted,
        e.1.Reliable e.2 := by
    intro e he
    have hevent := mem_of_mem_traceOf he
    simp only [Backoff.restarted, List.mem_cons, List.not_mem_nil, or_false] at hevent
    rcases hevent with h | h | h | h <;> rw [h] <;> trivial
  have hnone := hclaim {} _ _ _ sys _ (Steps.of_actions hsys) hreliable
  obtain ⟨i, due, hi, -⟩ := hnone.2 hon hidle row hrow hqueued hlater
  rw [htimers] at hi
  cases hi

end UploadSystem

end FlowLogix.Mobile

/-
  Mobile/UploadRestart.lean --- uploads after a restart
  (mobile/src/attachments/AttachmentUploadQueue.ts, mobile/src/attachments/ports.ts).

  `runClaimed` stores the status 'uploading' before it transfers a file, and
  `listRunnable` returns queued records only.  So a record is lost when the process dies
  while it is marked, or when the worker that has marked it ends on a rejected `put`; a
  run loses none exactly if neither happens.
-/
import FlowLogix.Mobile.UploadLimit

set_option autoImplicit false

namespace FlowLogix.Mobile

open FlowLogix.Foundation

/-- A `put` of a record that is not marked leaves no record marked that was not. -/
theorem UploadStore.uploading_of_put {store : UploadStore} {record : AttachmentUpload}
    {id : JsString} (hstatus : record.status ≠ .uploading)
    (h : (store.put record).HasStatus id .uploading) :
    id ≠ record.id ∧ store.HasStatus id .uploading := by
  rw [UploadStore.hasStatus_put] at h
  split at h
  · exact absurd h hstatus
  · rename_i hne
    exact ⟨hne, h⟩

namespace UploadSystem

variable {cfg : AttachmentQueueConfig} {sys sys' : UploadSystem}

/-! ## What the claim is about -/

/-- Every record that is marked 'uploading' is in flight, and every other one that is
neither uploaded nor given up is queued, and listed once its backoff has elapsed. -/
structure NoneLost (sys : UploadSystem) : Prop where
  marked : ∀ id, sys.store.HasStatus id .uploading → id ∈ sys.inFlight
  listed : ∀ row ∈ sys.store.records, row.status ≠ .uploaded → row.status ≠ .failed →
    row.id ∉ sys.inFlight →
      row.status = .queued ∧ ∀ now, row.nextAttemptAt ≤ now → row ∈ sys.store.listRunnable now

/-- The two ways to say that no record is lost. -/
theorem noneLost_iff :
    sys.NoneLost ↔ ∀ id, sys.store.HasStatus id .uploading → id ∈ sys.inFlight := by
  refine ⟨NoneLost.marked, fun h => ⟨h, fun row hrow hnotUploaded hnotFailed hout => ?_⟩⟩
  have hqueued : row.status = .queued := by
    cases hstatus : row.status with
    | queued => rfl
    | uploading =>
        exact absurd (h row.id ⟨row, UploadStore.mem_records.mp hrow, hstatus⟩) hout
    | uploaded => exact absurd hstatus hnotUploaded
    | failed => exact absurd hstatus hnotFailed
  exact ⟨hqueued, fun now hnow => UploadStore.mem_listRunnable.mpr ⟨hrow, hqueued, hnow⟩⟩

/-- The process does not die while a record is marked, and no worker ends on a rejected
`put` while its record is. -/
def EndsUnmarked (sys : UploadSystem) : Event → Prop
  | .work i (.error _) => ∀ worker ∈ sys.workers[i]?,
      worker.EndsOnError → ¬ sys.store.HasStatus worker.record.id .uploading
  | .kill => ∀ id, ¬ sys.store.HasStatus id .uploading
  | _ => True

theorem endsUnmarked_of_spares {event : Event} (h : event.SparesWorkers) :
    sys.EndsUnmarked event := by
  cases event with
  | work i outcome => exact h.elim
  | kill => exact h.elim
  | _ => trivial

/-! ## One step -/

/-- Claims add to the in-flight set. -/
theorem inFlight_subset_turn (sys : UploadSystem) (pass : Nat) :
    sys.inFlight ⊆ (sys.turn pass).inFlight := by
  rcases sys.turn_cases pass with ⟨rest, -, heq⟩ | ⟨next, rest, -, -, heq⟩
  · rw [heq]
  · rw [heq]
    exact Finset.subset_insert next.id sys.inFlight

theorem inFlight_subset_beginPass (sys : UploadSystem) (rows : List AttachmentUpload) :
    sys.inFlight ⊆ (sys.beginPass cfg rows).inFlight :=
  beginPass_induction (P := fun mid => sys.inFlight ⊆ mid.inFlight)
    (fun mid pass h => h.trans (inFlight_subset_turn mid pass)) (Finset.Subset.refl _)
    fun _ => Finset.Subset.refl _

/-- The worker of a record that is marked has it in flight until it stores what came of
the upload. -/
theorem NoneLost.settles_iff (hclaimed : Claimed sys) (h : sys.NoneLost) {i : Nat}
    {worker : Worker} {outcome : Except JsString JsString}
    (hworker : sys.workers[i]? = some worker) (hsettles : Settles sys i worker outcome sys') :
    sys'.NoneLost ↔ sys.EndsUnmarked (.work i outcome) := by
  have hmem : worker.record.id ∈ sys.inFlight := (hclaimed.mem_inFlight _).mpr
    (List.mem_map_of_mem (List.mem_of_getElem? hworker))
  rw [noneLost_iff]
  cases hsettles with
  | marks value hpoint =>
      refine iff_of_true (fun id hid => ?_) trivial
      rw [UploadStore.hasStatus_put] at hid
      split at hid
      · rename_i heq
        exact heq ▸ hmem
      · exact h.marked id hid
  | awaits outcome point hpoint =>
      refine iff_of_true h.marked ?_
      cases outcome with
      | ok value => trivial
      | error message =>
          intro other hother hends
          obtain rfl := Option.some.inj (hworker.symm.trans hother)
          exact absurd hends hpoint
  | releases value record delay hid hstores =>
      refine iff_of_true (fun id hmarked => ?_) trivial
      rw [release_store] at hmarked
      have hstatus : record.status ≠ .uploading := by
        intro heq
        rw [heq, Worker.Stores] at hstores
        split at hstores <;> simp at hstores
      obtain ⟨hne, hbefore⟩ := UploadStore.uploading_of_put hstatus hmarked
      apply inFlight_subset_turn
      exact Finset.mem_erase.mpr ⟨hid ▸ hne, h.marked id hbefore⟩
  | rejects message hends =>
      constructor
      · intro hafter other hother _ hmarked
        obtain rfl := Option.some.inj (hworker.symm.trans hother)
        exact absurd (hafter _ hmarked) (Finset.notMem_erase _ _)
      · intro hunmarked id hid
        refine Finset.mem_erase.mpr ⟨fun heq => ?_, h.marked id hid⟩
        exact hunmarked worker hworker hends (heq ▸ hid)

theorem NoneLost.step_iff (hclaimed : Claimed sys) (h : sys.NoneLost) {event : Event}
    (hstep : sys.step cfg event = some sys') : sys'.NoneLost ↔ sys.EndsUnmarked event := by
  cases takes_of_step hstep with
  | moves hquiet hstore =>
      refine iff_of_true (noneLost_iff.mpr fun id hid => ?_) (endsUnmarked_of_spares hquiet.spares)
      rw [hquiet.inFlight]
      exact h.marked id (hstore ▸ hid)
  | puts record hputs hquiet hstore =>
      refine iff_of_true (noneLost_iff.mpr fun id hid => ?_) (endsUnmarked_of_spares hquiet.spares)
      rw [hstore] at hid
      have hstatus : record.status ≠ .uploading := by simp [queued_of_puts hputs]
      rw [hquiet.inFlight]
      exact h.marked id (UploadStore.uploading_of_put hstatus hid).2
  | begins rows hevent =>
      subst hevent
      refine iff_of_true (noneLost_iff.mpr fun id hid => ?_) trivial
      rw [beginPass_store] at hid
      exact inFlight_subset_beginPass sys rows (h.marked id hid)
  | works i worker outcome hevent hworker hsettles =>
      subst hevent
      exact h.settles_iff hclaimed hworker hsettles
  | dies hevent =>
      subst hevent
      rw [noneLost_iff]
      exact forall_congr' fun id => imp_congr_right fun _ =>
        iff_false_intro (Finset.notMem_empty id)

/-! ## Every run -/

/-- **A restart loses no upload** exactly in the runs in which the process does not die
while a record is marked, and no worker ends on a rejected `put` while its record is. -/
theorem noneLost_along_iff {store : UploadStore} {network : NetworkMonitor} {now : Nat}
    (hstart : ∀ id, ¬ store.HasStatus id .uploading) {trace : List (UploadSystem × Event)}
    (run : Steps (step cfg) (create store network now) trace sys) :
    ((∀ e ∈ trace, e.1.NoneLost) ∧ sys.NoneLost) ↔ ∀ e ∈ trace, e.1.EndsUnmarked e.2 := by
  have hclaimed := run.always (Claimed.create store network now) fun _ _ _ h hstep => h.step hstep
  have hnone : (create store network now).NoneLost :=
    noneLost_iff.mpr fun id hid => absurd hid (hstart id)
  exact @Steps.everywhere_iff _ _ (step cfg) _ trace sys NoneLost (fun s _ => Claimed s)
    EndsUnmarked run hclaimed.1 hnone fun _ _ _ hs h hstep => h.step_iff hs hstep

/-! ### A restart in the middle of an upload -/

namespace Interrupted

open FourFiles

/-- The first file is marked, and the process dies. -/
def marked : List Event :=
  [.start, .list (.ok [file "a", file "b", file "c", file "d"]), .begin, .work 0 (.ok []), .kill]

/-- The process dies before the first file is marked; the new instance uploads it. -/
def unmarked : List Event :=
  [.start, .list (.ok [file "a", file "b", file "c", file "d"]), .begin, .kill, .start,
    .list (.ok [file "a", file "b", file "c", file "d"]), .begin, .work 0 (.ok [])]

theorem not_uploading : ∀ id, ¬ FourFiles.store.HasStatus id .uploading := by
  have hput : ∀ {store : UploadStore}, (∀ id, ¬ store.HasStatus id .uploading) →
      ∀ name id, ¬ (store.put (file name)).HasStatus id .uploading :=
    fun h name id hid => h id (UploadStore.uploading_of_put (by simp [file, enqueued]) hid).2
  have hempty : ∀ id, ¬ empty.HasStatus id .uploading := by
    simp [UploadStore.HasStatus, UploadStore.get, empty]
  exact hput (hput (hput (hput hempty "a") "b") "c") "d"

end Interrupted

/-- A restart between two uploads. -/
theorem unmarked_noneLost : ∃ trace sys,
    Steps (step {}) (create FourFiles.store FourFiles.online 5) trace sys ∧
      sys.uploading.map (·.record.id) = [js "a"] ∧
        (((∀ e ∈ trace, e.1.NoneLost) ∧ sys.NoneLost) ↔ ∀ e ∈ trace, e.1.EndsUnmarked e.2) := by
  have hruns : (Interrupted.unmarked.foldlM (step {})
      (create FourFiles.store FourFiles.online 5)).map (·.uploading.map (·.record.id)) =
        some [js "a"] := by
    decide
  obtain ⟨sys, hsys, hids⟩ := Option.map_eq_some_iff.mp hruns
  have hrun := Steps.of_actions hsys
  exact ⟨_, sys, hrun, hids, noneLost_along_iff Interrupted.not_uploading hrun⟩

/-- The file that was being uploaded stays 'uploading'. -/
theorem marked_lost : ¬ ∀ (cfg : AttachmentQueueConfig) (store : UploadStore)
    (network : NetworkMonitor) (now : Nat), (∀ id, ¬ store.HasStatus id .uploading) →
      ∀ (sys : UploadSystem) (trace : List (UploadSystem × Event)),
        Steps (step cfg) (create store network now) trace sys →
          (∀ e ∈ trace, e.1.NoneLost) ∧ sys.NoneLost := by
  intro hclaim
  have hruns : (Interrupted.marked.foldlM (step {})
      (create FourFiles.store FourFiles.online 5)).map (fun sys =>
        decide (sys.store.HasStatus (js "a") .uploading ∧ js "a" ∉ sys.inFlight)) = some true := by
    decide
  obtain ⟨sys, hsys, hlost⟩ := Option.map_eq_some_iff.mp hruns
  obtain ⟨hmarked, hout⟩ := of_decide_eq_true hlost
  have hnone := hclaim {} _ _ _ Interrupted.not_uploading sys _ (Steps.of_actions hsys)
  exact hout (hnone.2.marked _ hmarked)

end UploadSystem

end FlowLogix.Mobile

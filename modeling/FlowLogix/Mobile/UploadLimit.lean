/-
  Mobile/UploadLimit.lean --- how many uploads run at once, and which are not run again
  (mobile/src/attachments/AttachmentUploadQueue.ts).

  While the workers of one pass are running, `Promise.all` may have rejected already and
  let another pass begin.  In a run that lists the records only when no worker is left,
  one pass is at work at a time (`SinglePass`): its workers are within the limit, and no
  record that it has claimed or can still claim was uploaded.
-/
import FlowLogix.Mobile.UploadWorkers

set_option autoImplicit false

namespace FlowLogix.Mobile

open FlowLogix.Foundation

theorem UploadStore.not_uploaded_put {store : UploadStore} {record : AttachmentUpload}
    {id : JsString} (hstatus : record.status ≠ .uploaded)
    (h : ¬ store.HasStatus id .uploaded) : ¬ (store.put record).HasStatus id .uploaded := by
  rw [UploadStore.hasStatus_put]
  split
  · exact hstatus
  · exact h

namespace UploadSystem

variable {cfg : AttachmentQueueConfig} {sys sys' : UploadSystem}

/-! ## What the claim is about -/

/-- The workers whose record is being transferred. -/
def uploading (sys : UploadSystem) : List Worker := sys.workers.filter (·.point = .uploading)

/-- The record that an event passes to `uploader.upload`. -/
def uploads (sys : UploadSystem) : Event → Option AttachmentUpload
  | .work i (.ok _) =>
      match sys.workers[i]? with
      | some worker => if worker.point = .marking then some worker.record else none
      | none => none
  | _ => none

/-- At most `maxConcurrent` uploads, no two of one record. -/
structure WithinLimit (cfg : AttachmentQueueConfig) (sys : UploadSystem) : Prop where
  length : sys.uploading.length ≤ (max 1 cfg.maxConcurrent).toNat
  once : (sys.uploading.map (·.record.id)).Nodup

/-- An enqueued record has a fresh id. -/
def EnqueuesFresh (sys : UploadSystem) : Event → Prop
  | .enqueue input (.ok _) => sys.store.get input.id = none
  | _ => True

instance (sys : UploadSystem) (event : Event) : Decidable (sys.EnqueuesFresh event) :=
  match event with
  | .enqueue _ (.ok _) => inferInstanceAs (Decidable (_ = none))
  | .enqueue _ (.error _) | .start | .stop | .process | .retry _ _ | .requeue _ _ | .network _
  | .wait _ | .fire _ | .list _ | .begin | .endPass | .work _ _ | .kill =>
      inferInstanceAs (Decidable True)

/-- The records are listed when no worker is left, and a `retry` does not write over a
record that was uploaded since it read it. -/
def OnePassAtATime (sys : UploadSystem) : Event → Prop
  | .list (.ok _) => sys.workers = []
  | .requeue i (.ok _) => ∀ record ∈ sys.retries[i]?, ¬ sys.store.HasStatus record.id .uploaded
  | _ => True

instance (sys : UploadSystem) (event : Event) : Decidable (sys.OnePassAtATime event) :=
  match event with
  | .list (.ok _) => decidable_of_iff (sys.workers.isEmpty = true) List.isEmpty_iff
  | .requeue _ (.ok _) => inferInstanceAs (Decidable (∀ record ∈ _, ¬ _))
  | .list (.error _) | .requeue _ (.error _) | .start | .stop | .process | .enqueue _ _
  | .retry _ _ | .network _ | .wait _ | .fire _ | .begin | .endPass | .work _ _ | .kill =>
      inferInstanceAs (Decidable True)

/-! ## One pass -/

/-- The ids that the latest pass has claimed or can still claim. -/
def waiting (sys : UploadSystem) : List JsString :=
  sys.claimed ++ (sys.runnable sys.pass).map (·.id)

/-- One pass is at work, with at most `limit` workers. -/
structure SinglePass (limit : Nat) (sys : UploadSystem) : Prop where
  length : sys.workers.length ≤ limit
  passes : ∀ worker ∈ sys.workers, worker.pass = sys.pass
  nodup : sys.waiting.Nodup
  notUploaded : ∀ id ∈ sys.waiting, ¬ sys.store.HasStatus id .uploaded
  listedAlone : sys.drain.rows ≠ [] → sys.workers = []
  listedNodup : (sys.drain.rows.map (·.id)).Nodup
  listedNotUploaded : ∀ id ∈ sys.drain.rows.map (·.id), ¬ sys.store.HasStatus id .uploaded

namespace SinglePass

variable {limit : Nat}

/-- No listing is open. -/
theorem of_nothing_listed (hrows : sys.drain.rows = []) (length : sys.workers.length ≤ limit)
    (passes : ∀ worker ∈ sys.workers, worker.pass = sys.pass) (nodup : sys.waiting.Nodup)
    (notUploaded : ∀ id ∈ sys.waiting, ¬ sys.store.HasStatus id .uploaded) :
    SinglePass limit sys where
  length := length
  passes := passes
  nodup := nodup
  notUploaded := notUploaded
  listedAlone := absurd hrows
  listedNodup := hrows ▸ List.nodup_nil
  listedNotUploaded := by
    rw [hrows]
    exact nofun

/-- Workers run only while no listing is open. -/
theorem nothing_listed (h : SinglePass limit sys) {worker : Worker} (hmem : worker ∈ sys.workers) :
    sys.drain.rows = [] := by
  by_contra hne
  rw [h.listedAlone hne] at hmem
  cases hmem

theorem create (store : UploadStore) (network : NetworkMonitor) (now : Nat) :
    SinglePass limit (UploadSystem.create store network now) :=
  of_nothing_listed rfl (Nat.zero_le limit) nofun List.nodup_nil nofun

/-- A turn uses up what the pass can claim. -/
theorem waiting_turn (sys : UploadSystem) : (sys.turn sys.pass).waiting.Sublist sys.waiting ∧
    (sys.turn sys.pass).store = sys.store ∧ (sys.turn sys.pass).drain = sys.drain ∧
      (sys.turn sys.pass).pass = sys.pass := by
  rcases sys.turn_cases sys.pass with ⟨rest, hrest, heq⟩ | ⟨next, rest, -, hrest, heq⟩
  · rw [heq]
    refine ⟨?_, rfl, rfl, rfl⟩
    simp only [waiting, claimed, Function.update_self]
    exact (hrest.sublist.map _).append_left _
  · rw [heq]
    refine ⟨?_, rfl, rfl, rfl⟩
    simp only [waiting, claimed, Function.update_self, List.map_append, List.append_assoc]
    exact (hrest.sublist.map (·.id)).append_left _

theorem turn (h : SinglePass limit sys) (hrows : sys.drain.rows = []) :
    SinglePass (limit + 1) (sys.turn sys.pass) := by
  obtain ⟨hwaiting, hstore, hdrain, hpass⟩ := waiting_turn sys
  have hworkers : (sys.turn sys.pass).workers.length ≤ limit + 1 ∧
      ∀ worker ∈ (sys.turn sys.pass).workers, worker.pass = sys.pass := by
    rcases sys.turn_cases sys.pass with ⟨rest, -, heq⟩ | ⟨next, rest, -, -, heq⟩
    · rw [heq]
      exact ⟨h.length.trans (Nat.le_succ limit), h.passes⟩
    · rw [heq]
      refine ⟨?_, List.forall_mem_append.mpr ⟨h.passes, by simp⟩⟩
      simpa using h.length
  refine of_nothing_listed (hdrain ▸ hrows) hworkers.1
    (fun worker hw => (hworkers.2 worker hw).trans hpass.symm) (hwaiting.nodup h.nodup)
    fun id hid => ?_
  rw [hstore]
  exact h.notUploaded id (hwaiting.subset hid)

/-- The turns that begin a pass. -/
theorem iterate_turn (h : SinglePass limit sys) (hrows : sys.drain.rows = []) (count : Nat) :
    SinglePass (limit + count) ((UploadSystem.turn · sys.pass)^[count] sys) := by
  induction count generalizing sys limit with
  | zero => exact h
  | succ count ih =>
      obtain ⟨-, -, hdrain, hpass⟩ := waiting_turn sys
      have hnext := ih (h.turn hrows) (hdrain ▸ hrows)
      rw [hpass, Nat.add_right_comm] at hnext
      exact hnext

theorem mono {limit' : Nat} (h : SinglePass limit sys) (hle : limit ≤ limit') :
    SinglePass limit' sys :=
  { h with length := h.length.trans hle }

theorem beginPass (h : SinglePass (max 1 cfg.maxConcurrent).toNat sys)
    {rows : List AttachmentUpload} (hrows : sys.drain = .listed rows) :
    SinglePass (max 1 cfg.maxConcurrent).toNat (sys.beginPass cfg rows) := by
  have hlisted : sys.drain.rows = rows := by rw [hrows, DrainPoint.rows]
  obtain ⟨hlength, hpasses, hnodup, hnot, halone, hlistedNodup, hlistedNot⟩ := h
  rw [hlisted] at halone hlistedNodup hlistedNot
  have hids : ((rows.filter fun r => r.status = .queued ∧ r.id ∉ sys.inFlight).map (·.id)).Sublist
      (rows.map (·.id)) := List.filter_sublist.map _
  unfold UploadSystem.beginPass
  dsimp only
  generalize (rows.filter fun r => r.status = .queued ∧ r.id ∉ sys.inFlight) = runnable at hids
  split
  · exact of_nothing_listed rfl hlength hpasses hnodup hnot
  · rename_i hne
    have hworkers : sys.workers = [] := by
      refine halone fun hnil => hne ?_
      rw [hnil] at hids
      exact List.map_eq_nil_iff.mp (List.sublist_nil.mp hids)
    have hbefore : SinglePass 0
        { sys with
          drain := .working
          pass := sys.pass + 1
          runnable := Function.update sys.runnable (sys.pass + 1) runnable
          rejected := false } := by
      refine of_nothing_listed rfl (by simp [hworkers]) (by simp [hworkers]) ?_ ?_
      · simp only [waiting, claimed, hworkers, Function.update_self, List.map_nil, List.nil_append]
        exact hids.nodup hlistedNodup
      · simp only [waiting, claimed, hworkers, Function.update_self, List.map_nil, List.nil_append]
        exact fun id hid => hlistedNot id (hids.subset hid)
    have hturns := hbefore.iterate_turn rfl (workerCount cfg runnable)
    exact hturns.mono (by rw [workerCount]; omega)

/-- A worker gives its record up, whatever it has stored for it. -/
theorem drop (h : SinglePass limit sys) {i : Nat} {worker : Worker}
    (hworker : sys.workers[i]? = some worker) (hworkers : sys'.workers = sys.workers.eraseIdx i)
    (hrunnable : sys'.runnable = sys.runnable) (hpass : sys'.pass = sys.pass)
    (hdrain : sys'.drain = sys.drain)
    (hstore : ∀ id, id ≠ worker.record.id → ¬ sys.store.HasStatus id .uploaded →
      ¬ sys'.store.HasStatus id .uploaded) :
    SinglePass (limit - 1) sys' ∧ sys'.drain.rows = [] ∧ worker.pass = sys'.pass := by
  have hmem : worker ∈ sys.workers := List.mem_of_getElem? hworker
  have hrows : sys'.drain.rows = [] := hdrain ▸ h.nothing_listed hmem
  have hwaiting : (worker.record.id :: sys'.waiting).Perm sys.waiting := by
    rw [waiting, waiting, claimed, hworkers, hrunnable, hpass]
    exact (claimed_perm hworker).append_right _
  obtain ⟨hout, hnodup⟩ := List.nodup_cons.mp (hwaiting.nodup_iff.mpr h.nodup)
  have hlength := h.length
  obtain ⟨hlt, -⟩ := List.getElem?_eq_some_iff.mp hworker
  refine ⟨of_nothing_listed hrows ?_ ?_ hnodup fun id hid => ?_, hrows, ?_⟩
  · rw [hworkers, List.length_eraseIdx_of_lt hlt]
    omega
  · rw [hworkers, hpass]
    exact fun other hother => h.passes other (List.mem_of_mem_eraseIdx hother)
  · refine hstore id (fun heq => hout (heq ▸ hid)) (h.notUploaded id ?_)
    exact hwaiting.subset (List.mem_cons_of_mem _ hid)
  · rw [hpass]
    exact h.passes worker hmem

theorem settles (h : SinglePass limit sys) {i : Nat} {worker : Worker}
    {outcome : Except JsString JsString} (hworker : sys.workers[i]? = some worker)
    (hsettles : Settles sys i worker outcome sys') : SinglePass limit sys' := by
  have hmem : worker ∈ sys.workers := List.mem_of_getElem? hworker
  have hrows := h.nothing_listed hmem
  have hpasses : ∀ point : WorkerPoint, ∀ other ∈ sys.workers.set i { worker with point := point },
      other.pass = sys.pass := by
    intro point other hother
    rcases List.mem_or_eq_of_mem_set hother with hother | rfl
    · exact h.passes other hother
    · exact h.passes worker hmem
  have hwaiting : ∀ (point : WorkerPoint),
      (sys.workers.set i { worker with point := point }).map (·.record.id) ++
        (sys.runnable sys.pass).map (·.id) = sys.waiting := by
    intro point
    rw [map_set_point hworker, waiting, claimed]
  cases hsettles with
  | marks value hpoint =>
      refine of_nothing_listed hrows (by simpa using h.length) (hpasses _) ?_ ?_
      · rw [waiting, claimed, hwaiting]
        exact h.nodup
      · rw [waiting, claimed, hwaiting]
        exact fun id hid => UploadStore.not_uploaded_put (by simp) (h.notUploaded id hid)
  | awaits outcome point =>
      refine of_nothing_listed hrows (by simpa using h.length) (hpasses point) ?_ ?_
      · rw [waiting, claimed, hwaiting]
        exact h.nodup
      · rw [waiting, claimed, hwaiting]
        exact h.notUploaded
  | releases value record delay hid =>
      have hstore : ∀ id, id ≠ worker.record.id → ¬ sys.store.HasStatus id .uploaded →
          ¬ (sys.store.put record).HasStatus id .uploaded := by
        intro id hne hnot
        rw [UploadStore.hasStatus_put, if_neg (hid ▸ hne)]
        exact hnot
      obtain ⟨hdrop, hnone, hpass⟩ : SinglePass (limit - 1)
          { sys with
            store := sys.store.put record
            timers := sys.schedule delay
            workers := sys.workers.eraseIdx i
            inFlight := sys.inFlight.erase worker.record.id } ∧ _ ∧ _ :=
        h.drop hworker rfl rfl rfl rfl hstore
      have hturn := hdrop.turn hnone
      rw [Nat.sub_add_cancel ((List.length_pos_of_mem hmem).trans_le h.length)] at hturn
      rw [release, hpass]
      exact hturn
  | rejects message =>
      have hdrop : SinglePass (limit - 1) (sys.abandon i worker) ∧ _ ∧ _ :=
        h.drop hworker rfl rfl rfl rfl fun _ _ => id
      exact hdrop.1.mono (Nat.sub_le limit 1)

/-- A step that is none of the workers' business, over a store in which no more records
are uploaded. -/
theorem quiet (h : SinglePass limit sys) {event : Event} (hone : sys.OnePassAtATime event)
    (hquiet : Quiet sys event sys')
    (hstore : ∀ id, ¬ sys.store.HasStatus id .uploaded → ¬ sys'.store.HasStatus id .uploaded) :
    SinglePass limit sys' := by
  have hwaiting : sys'.waiting = sys.waiting := by
    rw [waiting, waiting, claimed, claimed, hquiet.workers, hquiet.pass, hquiet.runnable]
  have hlisted : (sys'.drain.rows ≠ [] → sys'.workers = []) ∧
      (sys'.drain.rows.map (·.id)).Nodup ∧
      ∀ id ∈ sys'.drain.rows.map (·.id), ¬ sys.store.HasStatus id .uploaded := by
    rw [hquiet.workers]
    rcases hquiet.drain with hnone | hsame | ⟨now, rfl, hperm⟩
    · rw [hnone]
      exact ⟨absurd rfl, List.nodup_nil, by simp⟩
    · rw [hsame]
      exact ⟨h.listedAlone, h.listedNodup, h.listedNotUploaded⟩
    · -- the listing of a store holds queued records
      refine ⟨fun _ => hone, ?_, fun id hid => ?_⟩
      · exact (hperm.map (·.id)).nodup_iff.mpr (UploadStore.nodup_listRunnable sys.store now)
      · obtain ⟨row, hrow, rfl⟩ := List.mem_map.mp hid
        obtain ⟨hstored, hqueued, -⟩ := UploadStore.mem_listRunnable.mp (hperm.mem_iff.mp hrow)
        rintro ⟨other, hother, huploaded⟩
        obtain rfl := Option.some.inj ((UploadStore.mem_records.mp hstored).symm.trans hother)
        rw [hqueued] at huploaded
        cases huploaded
  refine ⟨hquiet.workers ▸ h.length, ?_, hwaiting ▸ h.nodup, ?_, hlisted.1, hlisted.2.1, ?_⟩
  · rw [hquiet.workers, hquiet.pass]
    exact h.passes
  · rw [hwaiting]
    exact fun id hid => hstore id (h.notUploaded id hid)
  · exact fun id hid => hstore id (hlisted.2.2 id hid)

theorem step {event : Event} (h : SinglePass (max 1 cfg.maxConcurrent).toNat sys)
    (hone : sys.OnePassAtATime event) (hstep : sys.step cfg event = some sys') :
    SinglePass (max 1 cfg.maxConcurrent).toNat sys' := by
  cases takes_of_step hstep with
  | moves hquiet hstore => exact h.quiet hone hquiet fun id hnot => hstore ▸ hnot
  | puts record hputs hquiet hstore =>
      refine h.quiet hone hquiet fun id hnot => ?_
      rw [hstore]
      exact UploadStore.not_uploaded_put (by simp [queued_of_puts hputs]) hnot
  | begins rows hevent hrows => exact h.beginPass hrows
  | works i worker outcome hevent hworker hsettles => exact h.settles hworker hsettles
  | dies => exact create sys.store sys.network sys.now

end SinglePass

/-! ## Every run -/

/-- What a caller puts is no record that was uploaded. -/
theorem not_uploaded_of_puts {event : Event} (hfresh : sys.EnqueuesFresh event)
    (hone : sys.OnePassAtATime event) {record : AttachmentUpload}
    (h : sys.puts event = some record) : ¬ sys.store.HasStatus record.id .uploaded := by
  unfold puts at h
  split at h
  · obtain rfl := Option.some.inj h
    rintro ⟨row, hrow, -⟩
    exact Option.some_ne_none row (hrow.symm.trans hfresh)
  · obtain ⟨failed, hfailed, rfl⟩ := Option.map_eq_some_iff.mp h
    exact hone failed hfailed
  · cases h

/-- A record that was uploaded stays so. -/
theorem uploaded_kept {limit : Nat} (h : SinglePass limit sys) {event : Event}
    (hfresh : sys.EnqueuesFresh event) (hone : sys.OnePassAtATime event)
    (hstep : sys.step cfg event = some sys') {id : JsString}
    (huploaded : sys.store.HasStatus id .uploaded) : sys'.store.HasStatus id .uploaded := by
  have hput : ∀ record, ¬ sys.store.HasStatus record.id .uploaded →
      (sys.store.put record).HasStatus id .uploaded := by
    intro record hnot
    have hne : id ≠ record.id := fun heq => hnot (heq ▸ huploaded)
    rw [UploadStore.hasStatus_put, if_neg hne]
    exact huploaded
  cases takes_of_step hstep with
  | moves hquiet hstore => exact hstore ▸ huploaded
  | puts record hputs hquiet hstore =>
      rw [hstore]
      exact hput record (not_uploaded_of_puts hfresh hone hputs)
  | begins rows hevent hrows =>
      rw [beginPass_store]
      exact huploaded
  | works i worker outcome hevent hworker hsettles =>
      have hclaimed : worker.record.id ∈ sys.waiting :=
        List.mem_append_left _ (List.mem_map_of_mem (List.mem_of_getElem? hworker))
      have hnot := h.notUploaded worker.record.id hclaimed
      cases hsettles with
      | marks value hpoint => exact hput _ hnot
      | awaits outcome point => exact huploaded
      | releases value record delay hid =>
          rw [release_store]
          exact hput record (hid ▸ hnot)
      | rejects message => exact huploaded
  | dies => exact huploaded

/-- A record that is passed to `uploader.upload` was not uploaded yet. -/
theorem not_uploaded_of_uploads {limit : Nat} (h : SinglePass limit sys) {event : Event}
    {record : AttachmentUpload} (huploads : sys.uploads event = some record) :
    ¬ sys.store.HasStatus record.id .uploaded := by
  unfold uploads at huploads
  split at huploads
  · split at huploads
    · rename_i worker hworker
      split at huploads
      · obtain rfl := Option.some.inj huploads
        refine h.notUploaded _ (List.mem_append_left _ ?_)
        exact List.mem_map_of_mem (List.mem_of_getElem? hworker)
      · cases huploads
    · cases huploads
  · cases huploads

/-- What every state of such a run is like. -/
structure Orderly (cfg : AttachmentQueueConfig) (sys : UploadSystem) : Prop where
  single : SinglePass (max 1 cfg.maxConcurrent).toNat sys
  claimed : Claimed sys

namespace Orderly

theorem create (store : UploadStore) (network : NetworkMonitor) (now : Nat) :
    Orderly cfg (UploadSystem.create store network now) :=
  ⟨.create store network now, .create store network now⟩

theorem step (h : Orderly cfg sys) {event : Event} (hone : sys.OnePassAtATime event)
    (hstep : sys.step cfg event = some sys') : Orderly cfg sys' :=
  ⟨h.single.step hone hstep, h.claimed.step hstep⟩

theorem withinLimit (h : Orderly cfg sys) : sys.WithinLimit cfg where
  length := (List.length_filter_le _ _).trans h.single.length
  once := (List.filter_sublist.map _).nodup h.claimed.nodup

end Orderly

/-- A step that meets the two conditions. -/
def Meets (sys : UploadSystem) (event : Event) : Prop :=
  sys.EnqueuesFresh event ∧ sys.OnePassAtATime event

/-- Such a step, while one pass is at work. -/
def InOrder (cfg : AttachmentQueueConfig) (sys : UploadSystem) (event : Event) : Prop :=
  SinglePass (max 1 cfg.maxConcurrent).toNat sys ∧ sys.Meets event

/-- **The queue keeps its limit and repeats no upload** in a run that lists the records
only when no worker is left, and whose retries do not write over uploaded records. -/
theorem uploads_within_limit {store : UploadStore} {network : NetworkMonitor} {now : Nat}
    {trace : List (UploadSystem × Event)}
    (run : Steps (step cfg) (create store network now) trace sys)
    (hfresh : ∀ e ∈ trace, e.1.EnqueuesFresh e.2) (hone : ∀ e ∈ trace, e.1.OnePassAtATime e.2) :
    ((∀ e ∈ trace, e.1.WithinLimit cfg) ∧ sys.WithinLimit cfg) ∧
      ∀ pre s event post, trace = pre ++ (s, event) :: post →
        ∀ record, s.uploads event = some record →
          ∀ e ∈ pre ++ [(s, event)], ¬ e.1.store.HasStatus record.id .uploaded := by
  have hmeets : ∀ e ∈ trace, e.1.Meets e.2 := fun e he => ⟨hfresh e he, hone e he⟩
  have hstates := run.everywhere hmeets (Orderly.create store network now)
    fun s event s' hmeets hs hstep => hs.step hmeets.2 hstep
  refine ⟨⟨fun e he => (hstates.1 e he).withinLimit, hstates.2.withinLimit⟩, ?_⟩
  rintro pre s event post rfl record huploads e he
  have hlast := not_uploaded_of_uploads (hstates.1 (s, event) (by simp)).single huploads
  rcases List.mem_append.mp he with hbefore | hlatest
  · -- an earlier upload would still be in the store
    have hinOrder : ∀ e ∈ pre, InOrder cfg e.1 e.2 := by
      intro e he
      have hmem := List.mem_append_left ((s, event) :: post) he
      exact ⟨(hstates.1 e hmem).single, hmeets e hmem⟩
    have hkept := run.split.kept (U := fun s => s.store.HasStatus record.id .uploaded) hinOrder
      (fun s event s' hok huploaded hstep => uploaded_kept hok.1 hok.2.1 hok.2.2 hstep huploaded)
      hbefore
    exact fun hearlier => hlast (hkept hearlier)
  · obtain rfl := List.mem_singleton.mp hlatest
    exact hlast

/-! ### Four files -/

namespace FourFiles

/-- A staged file. -/
def file (id : String) : AttachmentUpload :=
  enqueued
    { id := js id
      cardId := js "card-1"
      localUri := js "file:///tmp/a.bin"
      filename := js "a.bin"
      mimeType := js "application/octet-stream"
      sizeBytes := 10000000 }

def empty : UploadStore where
  rows := ∅
  keyed := by simp

/-- Four of them in the store. -/
def store : UploadStore := ["a", "b", "c", "d"].foldl (fun store id => store.put (file id)) empty

def online : NetworkMonitor := ⟨true, .wifi⟩

/-- Two files are uploaded side by side; the first upload fails and waits for its retry. -/
def twoAtOnce : List Event :=
  [.start, .list (.ok [file "a", file "b", file "c", file "d"]), .begin, .work 0 (.ok []),
    .work 1 (.ok []), .work 0 (.error (js "network blip")), .work 0 (.ok []),
    .work 0 (.ok (js "https://cdn.example/b")), .work 0 (.ok [])]

/-- The first record cannot be marked, so the drain ends while the second is being
uploaded; the next drain begins two more uploads. -/
def overlapping : List Event :=
  [.start, .list (.ok [file "a", file "b", file "c", file "d"]), .begin,
    .work 0 (.error (js "disk full")), .work 0 (.ok []), .endPass, .process,
    .list (.ok [file "a", file "c", file "d"]), .begin, .work 1 (.ok []), .work 2 (.ok [])]

end FourFiles

/-- Two of the four files at a time. -/
theorem fourFiles_within_limit : ∃ trace sys,
    Steps (step {}) (create FourFiles.store FourFiles.online 5) trace sys ∧
      sys.claimed = [js "c", js "d"] ∧
        ((∀ e ∈ trace, e.1.WithinLimit {}) ∧ sys.WithinLimit {}) ∧
          ∀ pre s event post, trace = pre ++ (s, event) :: post →
            ∀ record, s.uploads event = some record →
              ∀ e ∈ pre ++ [(s, event)], ¬ e.1.store.HasStatus record.id .uploaded := by
  have hruns : (FourFiles.twoAtOnce.foldlM (step {})
      (create FourFiles.store FourFiles.online 5)).map claimed = some [js "c", js "d"] := by
    decide
  obtain ⟨sys, hsys, hclaimed⟩ := Option.map_eq_some_iff.mp hruns
  have hfresh : ∀ e ∈ traceOf (step {}) (create FourFiles.store FourFiles.online 5)
      FourFiles.twoAtOnce, e.1.EnqueuesFresh e.2 := by
    decide
  have hone : ∀ e ∈ traceOf (step {}) (create FourFiles.store FourFiles.online 5)
      FourFiles.twoAtOnce, e.1.OnePassAtATime e.2 := by
    decide
  have hrun := Steps.of_actions hsys
  exact ⟨_, sys, hrun, hclaimed, uploads_within_limit hrun hfresh hone⟩

/-- Three uploads at once, with a limit of two. -/
theorem fourFiles_over_limit : ¬ ∀ (cfg : AttachmentQueueConfig) (store : UploadStore)
    (network : NetworkMonitor) (now : Nat) (sys : UploadSystem)
    (trace : List (UploadSystem × Event)),
    Steps (step cfg) (create store network now) trace sys →
      (∀ e ∈ trace, e.1.EnqueuesFresh e.2) →
        ((∀ e ∈ trace, e.1.WithinLimit cfg) ∧ sys.WithinLimit cfg) ∧
          ∀ pre s event post, trace = pre ++ (s, event) :: post →
            ∀ record, s.uploads event = some record →
              ∀ e ∈ pre ++ [(s, event)], ¬ e.1.store.HasStatus record.id .uploaded := by
  intro hclaim
  have hruns : (FourFiles.overlapping.foldlM (step {})
      (create FourFiles.store FourFiles.online 5)).map (·.uploading.length) = some 3 := by
    decide
  obtain ⟨sys, hsys, hlength⟩ := Option.map_eq_some_iff.mp hruns
  have hfresh : ∀ e ∈ traceOf (step {}) (create FourFiles.store FourFiles.online 5)
      FourFiles.overlapping, e.1.EnqueuesFresh e.2 := by
    decide
  have hwithin := (hclaim {} _ _ _ sys _ (Steps.of_actions hsys) hfresh).1.2.length
  rw [hlength] at hwithin
  exact absurd hwithin (by decide)

end UploadSystem

end FlowLogix.Mobile

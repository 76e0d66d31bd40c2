/-
  Mobile/HttpSync.lean --- a device against the server
  (mobile/src/sync/httpSyncTransport.ts and `SyncEngine.sync` of
  mobile/src/sync/SyncService.ts).

  The transport's two calls are two requests to the endpoint.  A pull sends no
  changes; a push names checkpoint 0 and keeps only `acceptedIds` of the
  response.  A request that fails leaves the device as it was at that point.
-/
import FlowLogix.Mobile.SyncEngine
import FlowLogix.Server.DeltaPull

set_option autoImplicit false

namespace FlowLogix.Mobile

open FlowLogix.Foundation FlowLogix.Server
open FlowLogix.Crdt (VersionedRecord)

variable {pg : Postgres}

/-! ## The transport -/

/-- A record as `JSON.stringify` sends it: a property that holds `undefined` is
left out. -/
def wireChange (r : VersionedRecord Clock) : SyncChangeDto where
  id := r.id
  fields := r.fields.filterMapValues id
  clocks := r.clocks.mapValues some
  nodeId := r.nodeId
  deletedAt := r.deletedAt

/-- `PullResult<F>`. -/
structure PullResult where
  changes : List (VersionedRecord Clock)
  checkpoint : Nat

/-- `PushResult`. -/
structure PushResult where
  acceptedIds : List JsString

namespace HttpSyncTransport

variable (orgId : JsString) (now : Nat) (server : ServerState pg) (c : SyncCollection)

/-- `pull`: an empty change list. -/
def pull (sinceCheckpoint : Nat) : Except Failure (ServerState pg × PullResult) := do
  let res ← Server.sync orgId now server (pullRequest c sinceCheckpoint)
  return (res.server, ⟨res.response.changes, res.response.checkpoint⟩)

/-- The request of a push. -/
def pushRequest (c : SyncCollection) (changes : List (VersionedRecord Clock)) :
    SyncRequestDto where
  collection := c
  sinceCheckpoint := 0
  changes := changes.map wireChange

/-- `push`: of the response only the accepted ids are returned. -/
def push (changes : List (VersionedRecord Clock)) :
    Except Failure (ServerState pg × PushResult) := do
  let res ← Server.sync orgId now server (pushRequest c changes)
  return (res.server, ⟨res.response.acceptedIds⟩)

end HttpSyncTransport

/-! ## The engine -/

/-- A device and the server it talks to. -/
structure Session (pg : Postgres) where
  engine : SyncEngine
  server : ServerState pg

/-- The loop over the changes of a pull; the count is of the changed records. -/
def applyRemotes (store : LocalStore) (changes : List (VersionedRecord Clock)) :
    Except Failure (LocalStore × Nat) :=
  changes.foldlM (fun (acc : LocalStore × Nat) remote => do
    let applied ← applyRemote acc.1 remote
    return (applied.1, if applied.2 then acc.2 + 1 else acc.2)) (store, 0)

/-- What a pull leaves behind. -/
structure Pulled (pg : Postgres) where
  session : Session pg
  pulled : Nat
  applied : Nat

/-- `pullAndMerge`: the checkpoint advances after every change is stored. -/
def pullAndMerge (orgId : JsString) (c : SyncCollection) (now : Nat) (s : Session pg) :
    Except Failure (Pulled pg) := do
  let res ← HttpSyncTransport.pull orgId now s.server c s.engine.checkpoint
  let merged ← applyRemotes s.engine.store res.2.changes
  return {
    session :=
      { engine := { s.engine with store := merged.1, checkpoint := res.2.checkpoint }
        server := res.1 }
    pulled := res.2.changes.length
    applied := merged.2 }

/-- What a push leaves behind, and the records it sent. -/
structure Pushed (pg : Postgres) where
  session : Session pg
  sent : List LocalRecord
  accepted : Nat

/-- `pushPending`: no request when nothing is pending. -/
def pushPending (orgId : JsString) (c : SyncCollection) (now : Nat) (s : Session pg) :
    Except Failure (Pushed pg) :=
  let pending := s.engine.store.getPending
  if pending = [] then .ok { session := s, sent := [], accepted := 0 }
  else do
    let res ← HttpSyncTransport.push orgId now s.server c
      (pending.map LocalRecord.toVersionedRecord)
    return {
      session :=
        { engine := { s.engine with
            store := pending.foldl (acknowledge res.2.acceptedIds) s.engine.store }
          server := res.1 }
      sent := pending
      accepted := res.2.acceptedIds.dedup.length }

/-- `SyncReport`. -/
structure SyncReport where
  collection : SyncCollection
  pulled : Nat
  merged : Nat
  pushed : Nat
  skippedOffline : Bool

/-- What a sync leaves behind, and the records it pushed. -/
structure Synced (pg : Postgres) where
  session : Session pg
  sent : List LocalRecord
  report : SyncReport

/-- `SyncEngine.sync`; the two requests are served at `pullAt` and `pushAt`. -/
def sync (online : Bool) (orgId : JsString) (c : SyncCollection) (pullAt pushAt : Nat)
    (s : Session pg) : Except Failure (Synced pg) :=
  if !online then
    .ok { session := s, sent := [], report := ⟨c, 0, 0, 0, true⟩ }
  else do
    let merged ← pullAndMerge orgId c pullAt s
    let pushed ← pushPending orgId c pushAt merged.session
    return {
      session := pushed.session
      sent := pushed.sent
      report := ⟨c, merged.pulled, merged.applied, pushed.accepted, false⟩ }

/-! ## What a pull does to the device -/

section ApplyRemotes

variable {store : LocalStore} {changes : List (VersionedRecord Clock)} {res : LocalStore × Nat}

/-- The loop over the changes of a pull does not throw. -/
theorem applyRemotes_ok (store : LocalStore) (changes : List (VersionedRecord Clock)) :
    ∃ res, applyRemotes store changes = .ok res := by
  unfold applyRemotes
  generalize (store, 0) = start
  induction changes generalizing start with
  | nil => exact ⟨start, rfl⟩
  | cons v rest ih =>
      obtain ⟨store', changed, hok, -⟩ := applyRemote_ok start.1 v
      obtain ⟨res, hres⟩ := ih (store', if changed then start.2 + 1 else start.2)
      refine ⟨res, ?_⟩
      rw [List.foldlM_cons]
      exact bind_eq_ok.mpr ⟨_, bind_eq_ok.mpr ⟨_, hok, rfl⟩, hres⟩

/-- One turn of the loop. -/
theorem applyStep_eq_ok {v : VersionedRecord Clock} {acc acc' : LocalStore × Nat}
    (h : (do
      let applied ← applyRemote acc.1 v
      return (applied.1, if applied.2 then acc.2 + 1 else acc.2) : Except Failure _) = .ok acc') :
    ApplyEffect acc.1 v acc'.1 := by
  obtain ⟨store', changed, hok, heffect⟩ := applyRemote_ok acc.1 v
  obtain ⟨applied, happlied, hacc⟩ := bind_eq_ok.mp h
  obtain rfl := Except.ok.inj (hok.symm.trans happlied)
  exact Except.ok.inj hacc ▸ heffect

/-- What every change that names a record preserves of it holds after the loop. -/
theorem applyRemotes_invariant (h : applyRemotes store changes = .ok res) (id : JsString)
    (P : Option LocalRecord → Prop)
    (hstep : ∀ v ∈ changes, v.id = id → ∀ st st', ApplyEffect st v st' →
      P (st.getById id) → P (st'.getById id))
    (hstart : P (store.getById id)) : P (res.1.getById id) := by
  refine foldlM_invariant (fun acc : LocalStore × Nat => P (acc.1.getById id)) ?_ hstart h
  intro acc v acc' hv hacc hturn
  have heffect := applyStep_eq_ok hturn
  by_cases hid : v.id = id
  · exact hstep v hv hid acc.1 acc'.1 heffect hacc
  · rw [heffect.other id (Ne.symm hid)]
    exact hacc

/-- What one change establishes of the record it names, and every change that
names it preserves, holds after the loop. -/
theorem applyRemotes_established (h : applyRemotes store changes = .ok res)
    {v₀ : VersionedRecord Clock} (hv₀ : v₀ ∈ changes) (P : Option LocalRecord → Prop)
    (hstart : ∀ st st', ApplyEffect st v₀ st' → P (st'.getById v₀.id))
    (hstep : ∀ v ∈ changes, v.id = v₀.id → ∀ st st', ApplyEffect st v st' →
      P (st.getById v₀.id) → P (st'.getById v₀.id)) : P (res.1.getById v₀.id) := by
  refine (foldlM_established (fun _ => True) (fun acc : LocalStore × Nat => P (acc.1.getById v₀.id))
    hv₀ (fun _ _ _ _ _ _ => trivial)
    (fun acc acc' _ hturn => hstart acc.1 acc'.1 (applyStep_eq_ok hturn)) ?_ trivial h).2
  intro acc v acc' hv _ hacc hturn
  have heffect := applyStep_eq_ok hturn
  by_cases hid : v.id = v₀.id
  · exact hstep v hv hid acc.1 acc'.1 heffect hacc
  · rw [heffect.other v₀.id (Ne.symm hid)]
    exact hacc

end ApplyRemotes

/-- The device has a local copy of a row: its record contains the row. -/
def HasCopy {c : SyncCollection} (store : LocalStore) (k : JsString) (row : Row pg c) : Prop :=
  ∃ r, store.getById k = some r ∧ Covers row r.toVersionedRecord

section Delivery

variable {c : SyncCollection} {orgId : JsString}

/-- The rows a pull delivers to a device. -/
def delivered (orgId : JsString) (c : SyncCollection) (s : Session pg) :
    List (JsString × Row pg c) :=
  if 0 < s.engine.checkpoint then page s.server.db c orgId s.engine.checkpoint else []

theorem mem_sent_fields {row : Row pg c} {k : JsString} {field : String}
    (hf : field ∈ syncFields c) : field ∈ ((serverState row).sent k).fields :=
  (mem_serverState_fields row).mpr hf

/-- A version that takes in a sent row contains the row, and what the local record
contained. -/
theorem covers_of_merged {row r₀ : Row pg c} {k : JsString} {loc r : VersionedRecord Clock}
    (h : Merged loc ((serverState r₀).sent k) r)
    (hrow : Covers row loc ∨ row = r₀) : Covers row r := by
  have htomb : tombOf r.deletedAt = tombOf loc.deletedAt ⊔ tombOf r₀.syncDeletedAt := by
    rw [h.tombstone, tombOf_pickTomb]
    rfl
  refine ⟨fun field hf => ?_, ?_⟩
  · rw [h.stamp field (Or.inr (mem_sent_fields hf))]
    rcases hrow with hcovers | rfl
    · exact (hcovers.1 field hf).trans le_sup_left
    · exact ((covers_sent_iff.mpr (.refl row)).1 field hf).trans le_sup_right
  · rw [htomb]
    rcases hrow with hcovers | rfl
    · exact hcovers.2.trans le_sup_left
    · exact le_sup_right

/-- Applying a row leaves a copy of it, and of every row there was a copy of. -/
theorem hasCopy_of_apply {row r₀ : Row pg c} {k : JsString} {st st' : LocalStore}
    (h : ApplyEffect st ((serverState r₀).sent k) st')
    (hrow : HasCopy st k row ∨ row = r₀) : HasCopy st' k row := by
  cases hloc : st.getById k with
  | none =>
      refine ⟨_, h.unseen hloc, ?_⟩
      rcases hrow with ⟨r, hr, -⟩ | rfl
      · rw [hloc] at hr
        cases hr
      · exact covers_sent_iff.mpr (.refl row)
  | some loc =>
      obtain ⟨r, hr, hmerged, -⟩ := h.seen loc hloc
      refine ⟨r, hr, covers_of_merged hmerged ?_⟩
      rcases hrow with ⟨loc', hloc', hcovers⟩ | rfl
      · obtain rfl := Option.some.inj (hloc.symm.trans hloc')
        exact Or.inl hcovers
      · exact Or.inr rfl

variable {s : Session pg} {now : Nat} {p : Pulled pg}

/-- A completed pull: one page is applied to the store, the checkpoint is the
server's clock, the tables stay as they are. -/
theorem pullAndMerge_eq_ok (h : pullAndMerge orgId c now s = .ok p) :
    applyRemotes s.engine.store ((delivered orgId c s).map fun e => (serverState e.2).sent e.1) =
        .ok (p.session.engine.store, p.applied) ∧
      p.session.engine.checkpoint = nowMicros s.server.lastMicros now ∧
      p.session.server.db = s.server.db ∧
      p.session.server.lastMicros = nowMicros s.server.lastMicros now ∧
      p.pulled = (delivered orgId c s).length := by
  obtain ⟨res, hres, h⟩ := bind_eq_ok.mp h
  obtain ⟨merged, hmerged, h⟩ := bind_eq_ok.mp h
  obtain ⟨result, hresult, hpair⟩ := bind_eq_ok.mp hres
  obtain rfl := Except.ok.inj hpair
  obtain rfl := Except.ok.inj h
  obtain ⟨hdb, hlast, hcheckpoint, hchanges⟩ := pull_eq_ok hresult
  have hdelivered : result.response.changes =
      (delivered orgId c s).map fun e => (serverState e.2).sent e.1 := by
    rw [hchanges, delivered]
    split <;> rfl
  refine ⟨hdelivered ▸ hmerged, hcheckpoint, hdb, hlast, ?_⟩
  show result.response.changes.length = _
  rw [hdelivered, List.length_map]

/-- A pull completes when every clock of the organization's rows is a `bigint`,
and at checkpoint 0 in any case. -/
theorem exists_pullAndMerge
    (h : 0 < s.engine.checkpoint → ∀ e ∈ s.server.db.orgRows c orgId, castable e.2 = true) :
    ∃ p, pullAndMerge orgId c now s = .ok p := by
  obtain ⟨result, hresult⟩ : ∃ result, Server.sync orgId now s.server
      (pullRequest c s.engine.checkpoint) = .ok result := exists_pull h
  obtain ⟨merged, hmerged⟩ := applyRemotes_ok s.engine.store result.response.changes
  exact ⟨_, bind_eq_ok.mpr ⟨_, bind_eq_ok.mpr ⟨result, hresult, rfl⟩,
    bind_eq_ok.mpr ⟨merged, hmerged, rfl⟩⟩⟩

/-- After a pull the device has copies of the delivered rows and of the rows it
had copies of, and of no others. -/
theorem hasCopy_pullAndMerge_iff (h : pullAndMerge orgId c now s = .ok p) {k : JsString}
    {row : Row pg c} (hrow : (k, row) ∈ s.server.db.orgRows c orgId) :
    HasCopy p.session.engine.store k row ↔
      (k, row) ∈ delivered orgId c s ∨ HasCopy s.engine.store k row := by
  obtain ⟨happlied, -⟩ := pullAndMerge_eq_ok h
  have hfind := (mem_orgRows.mp hrow).1
  have hdelivered : ∀ e ∈ delivered orgId c s, e.1 = k → e = (k, row) := by
    rintro ⟨j, r⟩ he rfl
    have hmem : (j, r) ∈ s.server.db.orgRows c orgId := by
      rw [delivered] at he
      split at he
      · exact (mem_of_mem_page he).1
      · cases he
    rw [(mem_orgRows.mp hmem).1] at hfind
    rw [Option.some.inj hfind]
  have hnamed : ∀ v ∈ (delivered orgId c s).map fun e => (serverState e.2).sent e.1,
      v.id = k → v = (serverState row).sent k := by
    intro v hv hid
    obtain ⟨e, he, rfl⟩ := List.mem_map.mp hv
    rw [hdelivered e he hid]
  constructor
  · intro hcopy
    by_cases hmem : (k, row) ∈ delivered orgId c s
    · exact Or.inl hmem
    · right
      have hsame := applyRemotes_invariant happlied k (fun o => o = s.engine.store.getById k)
        (fun v hv hid => ?_) rfl
      · obtain ⟨r, hr, hcovers⟩ := hcopy
        exact ⟨r, hsame ▸ hr, hcovers⟩
      · obtain ⟨e, he, rfl⟩ := List.mem_map.mp hv
        exact absurd (hdelivered e he hid ▸ he) hmem
  · intro hcopy
    have hpreserved : ∀ v ∈ (delivered orgId c s).map fun e => (serverState e.2).sent e.1,
        v.id = k → ∀ st st', ApplyEffect st v st' → HasCopy st k row → HasCopy st' k row := by
      intro v hv hid st st' heffect hst
      rw [hnamed v hv hid] at heffect
      exact hasCopy_of_apply heffect (Or.inl hst)
    rcases hcopy with hmem | hcopy
    · have hsent : (serverState row).sent k ∈
          (delivered orgId c s).map fun e => (serverState e.2).sent e.1 :=
        List.mem_map.mpr ⟨(k, row), hmem, rfl⟩
      exact applyRemotes_established happlied hsent
        (fun o => ∃ r, o = some r ∧ Covers row r.toVersionedRecord)
        (fun st st' heffect => hasCopy_of_apply heffect (Or.inr rfl)) hpreserved
    · exact applyRemotes_invariant happlied k
        (fun o => ∃ r, o = some r ∧ Covers row r.toVersionedRecord) hpreserved hcopy

end Delivery

end FlowLogix.Mobile

/-
  Mobile/PendingBatch.lean --- the batch a device pushes against the cap of the server
  (`pushPending` of mobile/src/sync/SyncService.ts, backend/src/sync/dto/sync.dto.ts).

  A push sends everything that is pending in one request, and nothing bounds how much
  a device that is offline queues.  Its stamps are whole numbers, and so are the ones
  it takes over from the server, so the count is all the validator can refuse.
-/
import FlowLogix.Mobile.Delivery
import FlowLogix.Mobile.LocalClock
import FlowLogix.Server.SyncDto

set_option autoImplicit false

namespace FlowLogix.Mobile

open FlowLogix.Foundation FlowLogix.Crdt FlowLogix.Server

variable {c : SyncCollection}

/-- The request of `pushPending`, if there is one to make. -/
def SyncEngine.pushRequest (engine : SyncEngine) (c : SyncCollection) :
    Option SyncRequestDto :=
  let pending := engine.store.getPending
  if pending = [] then none
  else some (HttpSyncTransport.pushRequest c (pending.map LocalRecord.toVersionedRecord))

/-- `pushPending` makes that request and no other. -/
theorem pushPending_eq {pg : Postgres} (orgId : JsString) (now : Nat) (s : Session pg) :
    pushPending orgId c now s =
      match s.engine.pushRequest c with
      | none => .ok { session := s, sent := [], accepted := 0 }
      | some request => do
          let res ← Server.sync orgId now s.server request
          let pending := s.engine.store.getPending
          return {
            session :=
              { engine := { s.engine with
                  store := pending.foldl (acknowledge res.response.acceptedIds) s.engine.store }
                server := res.server }
            sent := pending
            accepted := res.response.acceptedIds.dedup.length } := by
  unfold pushPending SyncEngine.pushRequest
  by_cases hnone : s.engine.store.getPending = []
  · simp only [if_pos hnone]
  · simp only [if_neg hnone, HttpSyncTransport.push, bind_assoc, pure_bind]

/-- A record is one of the changes a pull returns from a server whose rows fit their
columns. -/
def SentByServer (remote : VersionedRecord Clock) : Prop :=
  ∃ (pg : Postgres) (server server' : ServerState pg) (orgId : JsString) (c : SyncCollection)
    (since now : Nat) (result : PullResult),
    (∀ e ∈ server.db.orgRows c orgId, e.2.FitsColumns) ∧
      HttpSyncTransport.pull orgId now server c since = .ok (server', result) ∧
      remote ∈ result.changes

/-- The engine after a list of operations. -/
def SyncEngine.run (engine : SyncEngine) (ops : List LocalOp) : SyncEngine :=
  ops.foldl SyncEngine.step engine

/-! ## Tombstones -/

/-- The server sends whole stamps: a `bigint` column holds nothing else. -/
theorem SentByServer.isWhole {remote : VersionedRecord Clock} (h : SentByServer remote) :
    IsWhole remote.deletedAt := by
  obtain ⟨pg, server, server', orgId, c, since, now, pulled, hfits, hpull, hmem⟩ := h
  obtain ⟨result, hsync, hreturn⟩ := bind_eq_ok.mp hpull
  obtain ⟨-, rfl⟩ := Prod.mk.inj (Except.ok.inj hreturn)
  obtain ⟨-, -, -, hchanges⟩ := pull_eq_ok hsync
  rw [hchanges] at hmem
  split at hmem
  · obtain ⟨e, he, rfl⟩ := List.mem_map.mp hmem
    intro x hx
    have hbigint := (hfits e (mem_of_mem_page he).1).2
    rw [show e.2.syncDeletedAt = some x from hx, Option.all_some, isBigint] at hbigint
    simp only [Bool.and_eq_true] at hbigint
    exact beq_iff_eq.mp hbigint.1.1
  · cases hmem

/-- Every record of a store has a whole tombstone, or none. -/
def LocalStore.WholeTombstones (store : LocalStore) : Prop :=
  ∀ id r, store.getById id = some r → IsWhole r.deletedAt

theorem LocalStore.WholeTombstones.put {store : LocalStore} (h : store.WholeTombstones)
    {record : LocalRecord} (hrecord : IsWhole record.deletedAt) :
    (store.put record).WholeTombstones := by
  intro id r hr
  rw [LocalStore.getById_put] at hr
  split at hr
  · obtain rfl := Option.some.inj hr
    exact hrecord
  · exact h id r hr

theorem isWhole_natCast (n : Nat) : IsWhole (some (n : Clock)) := by
  intro x hx
  obtain rfl := Option.some.inj hx
  exact Rat.den_natCast n

/-- A merge keeps one of two tombstones. -/
theorem isWhole_pickTomb {a b : Option Clock} (ha : IsWhole a) (hb : IsWhole b) :
    IsWhole (pickTomb a b) := by
  rcases pickTomb_eq_or a b with h | h
  · rwa [h]
  · rwa [h]

/-- A remote change keeps tombstones whole if its own is. -/
theorem LocalStore.WholeTombstones.applyEffect {store store' : LocalStore}
    {remote : VersionedRecord Clock} (h : store.WholeTombstones)
    (hremote : IsWhole remote.deletedAt) (heffect : ApplyEffect store remote store') :
    store'.WholeTombstones := by
  intro id r hr
  by_cases hid : id = remote.id
  · subst hid
    cases hloc : store.getById remote.id with
    | none =>
        obtain rfl := Option.some.inj ((heffect.unseen hloc).symm.trans hr)
        exact hremote
    | some loc =>
        obtain ⟨r', hr', hmerged, -⟩ := heffect.seen loc hloc
        obtain rfl := Option.some.inj (hr'.symm.trans hr)
        rw [hmerged.tombstone]
        exact isWhole_pickTomb (h _ loc hloc) hremote
  · exact h id r (heffect.other id hid ▸ hr)

/-- One operation keeps them whole. -/
theorem wholeTombstones_step {engine : SyncEngine} {op : LocalOp}
    (h : engine.store.WholeTombstones)
    (hop : ∀ remote, op = .applyRemote remote → SentByServer remote) :
    (engine.step op).store.WholeTombstones := by
  cases op with
  | create wall id fields => exact h.put nofun
  | mutate wall id patch =>
      cases hexisting : engine.store.getById id with
      | none => simpa [SyncEngine.step, SyncEngine.mutate, hexisting, Except.toOption] using h
      | some existing =>
          simp only [SyncEngine.step, SyncEngine.mutate, hexisting]
          exact h.put (h id existing hexisting)
  | remove wall id =>
      cases hexisting : engine.store.getById id with
      | none => simpa [SyncEngine.step, SyncEngine.remove, hexisting] using h
      | some existing =>
          simp only [SyncEngine.step, SyncEngine.remove, hexisting]
          exact h.put (isWhole_natCast _)
  | applyRemote remote =>
      obtain ⟨store', changed, hok, heffect⟩ := applyRemote_ok engine.store remote
      simp only [SyncEngine.step, hok]
      exact h.applyEffect (hop remote rfl).isWhole heffect
  | restart => exact h

/-- So does a run. -/
theorem wholeTombstones_run {engine : SyncEngine} {ops : List LocalOp}
    (h : engine.store.WholeTombstones)
    (hops : ∀ remote, .applyRemote remote ∈ ops → SentByServer remote) :
    (engine.run ops).store.WholeTombstones := by
  induction ops generalizing engine with
  | nil => exact h
  | cons op rest ih =>
      have hstep := wholeTombstones_step h fun remote hremote =>
        hops remote (hremote ▸ List.mem_cons_self)
      exact ih hstep fun remote hmem => hops remote (List.mem_cons_of_mem op hmem)

theorem wholeTombstones_fresh (nodeId : JsString) :
    (SyncEngine.fresh nodeId).store.WholeTombstones := by
  intro id r hr
  cases hr

/-! ## The request -/

/-- With whole tombstones the validator only counts. -/
theorem pushRequest_accepted_iff {engine : SyncEngine} (h : engine.store.WholeTombstones) :
    (∀ request, engine.pushRequest c = some request →
        SyncRequestDto.validate request.body = true) ↔
      engine.store.getPending.length ≤ maxSyncChanges := by
  have hwhole : ∀ change ∈ (engine.store.getPending.map LocalRecord.toVersionedRecord).map
      wireChange, IsWhole change.deletedAt := by
    intro change hchange
    obtain ⟨r, hr, rfl⟩ := List.mem_map.mp hchange
    obtain ⟨record, hrecord, rfl⟩ := List.mem_map.mp hr
    exact h record.id record (LocalStore.mem_getPending.mp hrecord).1
  have hlength : ((engine.store.getPending.map LocalRecord.toVersionedRecord).map
      wireChange).length = engine.store.getPending.length := by
    rw [List.length_map, List.length_map]
  unfold SyncEngine.pushRequest
  by_cases hnone : engine.store.getPending = []
  · simp [hnone]
  · simp only [if_neg hnone, Option.some.injEq, forall_eq', SyncRequestDto.validate_body_iff]
    exact (and_iff_left hwhole).trans (by rw [← hlength]; rfl)

/-- **The server takes what a device has queued** exactly when at most `MAX_SYNC_CHANGES`
records are pending. -/
theorem push_accepted_iff (c : SyncCollection) (nodeId : JsString) (ops : List LocalOp)
    (hops : ∀ remote, .applyRemote remote ∈ ops → SentByServer remote) :
    (∀ request, ((SyncEngine.fresh nodeId).run ops).pushRequest c = some request →
        SyncRequestDto.validate request.body = true) ↔
      ((SyncEngine.fresh nodeId).run ops).store.getPending.length ≤ maxSyncChanges :=
  pushRequest_accepted_iff (wholeTombstones_run (wholeTombstones_fresh nodeId) hops)

namespace DeletedCard

/-- A card the server deleted at 7. -/
def card : Row Postgres.plain .cards :=
  { Sample.card with syncClocks := Dict.ofList [("title", 5)], syncDeletedAt := some 7 }

def server : ServerState Postgres.plain where
  db := Sample.oneCard card
  lastMicros := 0

/-- The card is pulled, and its title is edited. -/
def ops : List LocalOp :=
  [.applyRemote ((serverState card).sent Sample.cardId),
    .mutate 1 Sample.cardId (Dict.ofList [("title", some (.str (js "Later")))])]

theorem sent_card : SentByServer ((serverState card).sent Sample.cardId) := by
  have hrow : (Sample.cardId, card) ∈ server.db.orgRows .cards Sample.orgId :=
    mem_orgRows.mpr ⟨rfl, by decide⟩
  have honly : ∀ e ∈ server.db.orgRows .cards Sample.orgId, e.2 = card := fun e he =>
    (Sample.of_find_oneCard (mem_orgRows.mp he).1).2
  obtain ⟨result, hresult⟩ : ∃ result, Server.sync Sample.orgId 2 server
      (pullRequest .cards 1) = .ok result :=
    exists_pull fun _ e he => honly e he ▸ (by decide : castable card = true)
  obtain ⟨-, -, -, hchanges⟩ := pull_eq_ok hresult
  refine ⟨_, server, result.server, Sample.orgId, .cards, 1, 2, ⟨result.response.changes,
    result.response.checkpoint⟩, fun e he => ?_, bind_eq_ok.mpr ⟨result, hresult, rfl⟩, ?_⟩
  · exact honly e he ▸ ⟨rfl, by decide⟩
  · show _ ∈ result.response.changes
    rw [hchanges, if_pos Nat.one_pos]
    refine List.mem_map.mpr ⟨_, (mem_page_iff (by decide)).mpr ⟨hrow, ?_⟩, rfl⟩
    show stampedAfter 1 card = true
    decide

/-- The edited card is accepted. -/
theorem deleted_card_accepted : ∃ request,
    ((SyncEngine.fresh (js "device")).run ops).pushRequest .cards = some request ∧
      SyncRequestDto.validate request.body = true := by
  have hsent : ∀ remote, .applyRemote remote ∈ ops → SentByServer remote := by
    intro remote hmem
    simp only [ops, List.mem_cons, LocalOp.applyRemote.injEq, reduceCtorEq, List.not_mem_nil,
      or_false] at hmem
    exact hmem ▸ sent_card
  have hsome : (((SyncEngine.fresh (js "device")).run ops).pushRequest .cards).isSome = true := by
    decide
  obtain ⟨request, hrequest⟩ := Option.isSome_iff_exists.mp hsome
  refine ⟨request, hrequest, ?_⟩
  exact (push_accepted_iff .cards (js "device") ops hsent).mpr (by decide) request hrequest

end DeletedCard

/-! ### A long time offline -/

namespace LongOffline

/-- The id of the `k`-th record. -/
def recordId (k : Nat) : JsString := List.replicate (k + 1) (digitUnit 1)

/-- The records are created while the device is offline. -/
def creates (count : Nat) : List LocalOp :=
  (List.range count).map fun k => .create 0 (recordId k) (Dict.ofList [("title", some .null)])

/-- The device after that. -/
def engine (count : Nat) : SyncEngine := (SyncEngine.fresh (js "device")).run (creates count)

theorem engine_succ (count : Nat) :
    engine (count + 1) =
      (engine count).create 0 (recordId count) (Dict.ofList [("title", some .null)]) := by
  rw [engine, creates, List.range_succ, List.map_append, SyncEngine.run, List.foldl_append]
  rfl

/-- Each of them is pending. -/
theorem pending_engine {count k : Nat} (hk : k < count) :
    recordId k ∈ (engine count).store.getPending.map (·.id) := by
  suffices h : ∃ r, (engine count).store.getById (recordId k) = some r ∧ r.pending = true by
    obtain ⟨r, hr, hpending⟩ := h
    have hid := LocalStore.id_of_getById hr
    exact List.mem_map.mpr ⟨r, LocalStore.mem_getPending.mpr ⟨hid.symm ▸ hr, hpending⟩, hid⟩
  induction count with
  | zero => cases hk
  | succ count ih =>
      rw [engine_succ, SyncEngine.create]
      simp only [LocalStore.getById_put]
      by_cases hlast : recordId k = recordId count
      · rw [if_pos hlast]
        exact ⟨_, rfl, rfl⟩
      · rw [if_neg hlast]
        refine ih (lt_of_le_of_ne (Nat.lt_succ_iff.mp hk) ?_)
        rintro rfl
        exact hlast rfl

theorem recordId_injective : Function.Injective recordId := by
  intro j k h
  have hlength := congrArg List.length h
  rw [recordId, recordId, List.length_replicate, List.length_replicate] at hlength
  exact Nat.succ.inj hlength

/-- So nothing bounds what is pending. -/
theorem le_length_pending (count : Nat) : count ≤ (engine count).store.getPending.length := by
  have hnodup : ((List.range count).map recordId).Nodup :=
    List.nodup_range.map recordId_injective
  have hsubset : (List.range count).map recordId ⊆ (engine count).store.getPending.map (·.id) := by
    intro id hid
    obtain ⟨k, hk, rfl⟩ := List.mem_map.mp hid
    exact pending_engine (List.mem_range.mp hk)
  simpa using (hnodup.subperm hsubset).length_le

/-- One record more than the cap, and the push is refused. -/
theorem long_offline_refused : ∃ request,
    ((SyncEngine.fresh (js "device")).run (creates (maxSyncChanges + 1))).pushRequest .cards =
        some request ∧
      SyncRequestDto.validate request.body = false := by
  have hwhole : (engine (maxSyncChanges + 1)).store.WholeTombstones := by
    refine wholeTombstones_run (wholeTombstones_fresh (js "device")) fun remote hmem => ?_
    obtain ⟨k, -, hk⟩ := List.mem_map.mp hmem
    cases hk
  by_contra hnone
  push Not at hnone
  have hall := (pushRequest_accepted_iff (c := .cards) hwhole).mp fun request hrequest =>
    eq_true_of_ne_false (hnone request hrequest)
  exact absurd (le_length_pending (maxSyncChanges + 1)) (by omega)

end LongOffline

end FlowLogix.Mobile

/-
  Server/TenantIsolation.lean --- a sync stays inside its organization.

  A record is authorized by a joined read and then locked, merged and written
  under its bare id, and `listId` and `boardId`, which decide who owns it, are
  synced fields.  `Within` is what every change of the loop preserves:
  the rows of other organizations are as they were, no record has left its
  organization, new rows are in the organization of the request, and so is every
  record the response names.  `sync_within_org` reads it off at the end of a
  request.
-/
import FlowLogix.Server.DeltaPull

set_option autoImplicit false

namespace FlowLogix.Server

open FlowLogix.Foundation

variable {pg : Postgres} {orgId : JsString} {c : SyncCollection} {db : Database pg}
  {change : SyncChangeDto} {now : Nat}

/-- A record of the organization, named by its key or by another spelling of it. -/
def Database.Belongs (db : Database pg) (c : SyncCollection) (id orgId : JsString) : Prop :=
  ∃ k, (id = k ∨ pg.uuid id = some k) ∧ db.owner c k = some orgId

/-- Where no record leaves its organization, a record that belongs to one still does. -/
theorem Database.Belongs.mono {db' : Database pg} {id : JsString} (h : db.Belongs c id orgId)
    (howner : ∀ c' j o, db.owner c' j = some o → db'.owner c' j = some o) :
    db'.Belongs c id orgId := by
  obtain ⟨k, hk, ho⟩ := h
  exact ⟨k, hk, howner c k orgId ho⟩

/-! ## One change -/

/-- What a change adds to the response names its own record, which is in the
organization then. -/
theorem processChange_response (horg : pg.uuid orgId = some orgId) {loop loop' : SyncLoop pg}
    (h : processChange orgId c now loop change = .ok loop') :
    (∀ v ∈ loop'.changes, v ∈ loop.changes ∨ loop'.db.Belongs c v.id orgId) ∧
      ∀ id ∈ loop'.acceptedIds, id ∈ loop.acceptedIds ∨ loop'.db.Belongs c id orgId := by
  obtain ⟨k, hk, hstep⟩ := processChange_eq_ok h
  obtain ⟨k', hk', heffect⟩ := processChange_cases h
  obtain rfl : k' = k := Option.some.inj (hk'.symm.trans hk)
  cases hstep with
  | merged row written howner _ _ =>
      have hbelongs := heffect.owner howner
      constructor
      · intro v hv
        refine (List.mem_append.mp hv).imp_right fun hv => ?_
        split at hv
        · obtain rfl := List.mem_singleton.mp hv
          exact ⟨k', Or.inr hk, hbelongs⟩
        · cases hv
      · intro id hid
        refine (List.mem_append.mp hid).imp_right fun hid => ?_
        split at hid
        · obtain rfl := List.mem_singleton.mp hid
          exact ⟨k', Or.inr hk, hbelongs⟩
        · cases hid
  | refused _ _ => exact ⟨fun v hv => Or.inl hv, fun id hid => Or.inl hid⟩
  | inserted inserted _ hinserted =>
      obtain ⟨k', row, hk', -, rfl, hinsert⟩ := tryInsert_eq_ok hinserted
      refine ⟨fun v hv => Or.inl hv, fun id hid => ?_⟩
      refine (List.mem_append.mp hid).imp_right fun hid => ?_
      obtain rfl := List.mem_singleton.mp hid
      exact ⟨k', Or.inr hk', Database.owner_put_self (hinsert.parent horg)⟩

/-- The loop has stayed inside the organization. -/
structure Within (db : Database pg) (orgId : JsString) (c : SyncCollection) (loop : SyncLoop pg) :
    Prop where
  table : ∀ c', c' ≠ c → loop.db.table c' = db.table c'
  /-- the rows of others are as they were -/
  others : ∀ k row, db.find c k = some row → db.owner c k ≠ some orgId →
    loop.db.find c k = some row
  /-- no record has left its organization -/
  owner : ∀ c' k o, db.owner c' k = some o → loop.db.owner c' k = some o
  /-- new rows are in the organization -/
  inserted : ∀ k row, db.find c k = none → loop.db.find c k = some row →
    loop.db.owner c k = some orgId
  changes : ∀ v ∈ loop.changes, loop.db.Belongs c v.id orgId
  accepted : ∀ id ∈ loop.acceptedIds, loop.db.Belongs c id orgId

/-- One change keeps the loop inside the organization: it writes a record it loaded
there, or a fresh one. -/
theorem Within.step (horg : pg.uuid orgId = some orgId) {loop loop' : SyncLoop pg}
    (hwithin : Within db orgId c loop) (h : processChange orgId c now loop change = .ok loop') :
    Within db orgId c loop' := by
  obtain ⟨hchanges, haccepted⟩ := processChange_response horg h
  obtain ⟨k, -, heffect⟩ := processChange_cases h
  have howner : ∀ c' j o, loop.db.owner c' j = some o → loop'.db.owner c' j = some o :=
    fun c' j o => heffect.owner
  refine ⟨?_, ?_, ?_, ?_, ?_, ?_⟩
  · intro c' hc
    exact (heffect.table_of_ne hc).trans (hwithin.table c' hc)
  · intro j row hrow hother
    have hkept := hwithin.others j row hrow hother
    by_cases hj : j = k
    · subst hj
      cases heffect with
      | merged row₁ row' hmine hfind _ _ _ =>
          -- the row and the tables above it are as they were, and so is its owner
          rw [Database.owner, hkept, Database.parentOrg_congr hwithin.table] at hmine
          rw [Database.owner, hrow] at hother
          exact absurd hmine hother
      | skipped _ _ hdb => rwa [hdb]
      | inserted row' hnone _ _ =>
          rw [hkept] at hnone
          cases hnone
    · rwa [heffect.find_of_ne hj]
  · intro c' j o ho
    exact howner c' j o (hwithin.owner c' j o ho)
  · intro j row hnone hrow
    by_cases hj : j = k
    · subst hj
      rcases heffect.owner_self horg with hmine | hdb
      · exact hmine
      · rw [hdb] at hrow ⊢
        exact hwithin.inserted j row hnone hrow
    · rw [heffect.find_of_ne hj] at hrow
      exact howner c j orgId (hwithin.inserted j row hnone hrow)
  · intro v hv
    rcases hchanges v hv with hold | hnew
    · exact (hwithin.changes v hold).mono howner
    · exact hnew
  · intro id hid
    rcases haccepted id hid with hold | hnew
    · exact (hwithin.accepted id hold).mono howner
    · exact hnew

/-! ## A whole request -/

/-- The delta of a request consists of records of the organization. -/
theorem belongs_of_deltaPull {loop : SyncLoop pg} {since : Nat}
    {pulled : List (Crdt.VersionedRecord Clock)} (h : deltaPull loop c orgId since = .ok pulled) :
    ∀ v ∈ pulled, loop.db.Belongs c v.id orgId := by
  unfold deltaPull at h
  split at h
  · simp only [pullSinceCheckpoint] at h
    split at h
    · obtain rfl := Except.ok.inj h
      intro v hv
      obtain ⟨⟨k, row⟩, hmem, rfl⟩ := List.mem_map.mp hv
      have hpage := List.mem_of_mem_take (List.mem_filter.mp (List.mem_of_mem_take hmem)).1
      exact ⟨k, Or.inl rfl, (mem_orgRows.mp (List.mem_filter.mp hpage).1).2⟩
    · cases h
  · obtain rfl := Except.ok.inj h
    nofun

/-- All changes of a request. -/
theorem Within.of_processChanges (horg : pg.uuid orgId = some orgId)
    {changes : List SyncChangeDto} {loop : SyncLoop pg}
    (h : processChanges orgId c now db changes = .ok loop) : Within db orgId c loop := by
  have hstart : Within db orgId c (.start db) := by
    refine ⟨fun _ _ => rfl, fun _ _ hrow _ => hrow, fun _ _ _ ho => ho, ?_, nofun, nofun⟩
    intro k row hnone hrow
    rw [SyncLoop.start, hnone] at hrow
    cases hrow
  exact foldlM_invariant (Within db orgId c) (fun l ch l' _ hl hprocess => hl.step horg hprocess)
    hstart h

/-- The response of a sync names records of the organization. -/
theorem belongs_of_sync (horg : pg.uuid orgId = some orgId) {server : ServerState pg}
    {req : SyncRequestDto} {result : SyncResult pg}
    (h : sync orgId now server req = .ok result) :
    (∀ v ∈ result.response.changes, result.server.db.Belongs req.collection v.id orgId) ∧
      ∀ id ∈ result.response.acceptedIds,
        result.server.db.Belongs req.collection id orgId := by
  obtain ⟨loop, hloop, hdb, -, -, haccepted, pulled, hpulled, hchanges⟩ := sync_eq_ok h
  have hwithin := Within.of_processChanges horg hloop
  rw [hdb, haccepted, hchanges]
  refine ⟨fun v hv => ?_, hwithin.accepted⟩
  rcases List.mem_append.mp hv with hv | hv
  · exact hwithin.changes v hv
  · exact belongs_of_deltaPull hpulled v hv

/-- **A sync never crosses tenants.** Whatever the tables and the request: a
committed sync of an organization leaves the rows of others as they were, moves no
record out of an organization, inserts only into its own, and names only its own
records in the response. -/
theorem sync_within_org (horg : pg.uuid orgId = some orgId) {server : ServerState pg}
    {req : SyncRequestDto} {result : SyncResult pg}
    (h : sync orgId now server req = .ok result) :
    (∀ c k row, server.db.find c k = some row → server.db.owner c k ≠ some orgId →
        result.server.db.find c k = some row) ∧
      (∀ c k o, server.db.owner c k = some o → result.server.db.owner c k = some o) ∧
      (∀ c k row, server.db.find c k = none → result.server.db.find c k = some row →
        result.server.db.owner c k = some orgId) ∧
      (∀ v ∈ result.response.changes,
        result.server.db.Belongs req.collection v.id orgId) ∧
      ∀ id ∈ result.response.acceptedIds,
        result.server.db.Belongs req.collection id orgId := by
  obtain ⟨loop, hloop, hdb, -⟩ := sync_eq_ok h
  have hwithin := Within.of_processChanges horg hloop
  have hnamed := belongs_of_sync horg h
  rw [hdb] at hnamed ⊢
  refine ⟨?_, hwithin.owner, ?_, hnamed⟩
  · intro c k row hrow hother
    by_cases hc : c = req.collection
    · subst hc
      exact hwithin.others k row hrow hother
    · rw [Database.find, hwithin.table c hc]
      exact hrow
  · intro c k row hnone hrow
    by_cases hc : c = req.collection
    · subst hc
      exact hwithin.inserted k row hnone hrow
    · rw [Database.find, hwithin.table c hc] at hrow
      rw [Database.find, hrow] at hnone
      cases hnone

/-! ### A push beside another organization's card -/

namespace Neighbours

def otherOrgId : JsString := js "00000000-0000-4000-8000-000000000002"
def otherBoardId : JsString := js "00000000-0000-4000-8000-0000000000aa"
def newBoardId : JsString := js "00000000-0000-4000-8000-0000000000ab"

/-- A board of another organization. -/
def otherBoard : Row Postgres.plain .boards :=
  .plain (Dict.ofList [("orgId", .str otherOrgId), ("title", .str (js "Theirs"))]) (by decide)
    (by decide)

/-- One board for each organization. -/
def server : ServerState Postgres.plain where
  db :=
    { table
        | .boards => Dict.ofList [(Sample.boardId, Sample.board), (otherBoardId, otherBoard)]
        | .lists => ∅
        | .cards => ∅
      users := ∅ }
  lastMicros := 0

/-- A title for a board, under the clock 5. -/
def entitle (id : JsString) (title : String) : SyncChangeDto where
  id := id
  fields := Dict.ofList [("title", .str (js title))]
  clocks := Dict.ofList [("title", some 5)]
  nodeId := js "device"
  deletedAt := none

/-- A device of the first organization retitles its board and creates one. -/
def request : SyncRequestDto where
  collection := .boards
  sinceCheckpoint := 1
  changes := [entitle Sample.boardId "Ours", entitle newBoardId "New"]

def result : SyncResult Postgres.plain :=
  okOr (sync Sample.orgId 1 server request) ⟨server, ⟨[], 0, []⟩, []⟩

end Neighbours

/-- Both changes are accepted, and the other organization's board is as it was. -/
theorem neighbours_apart :
    Neighbours.result.response.acceptedIds = [Sample.boardId, Neighbours.newBoardId] ∧
      Neighbours.result.server.db.find .boards Neighbours.otherBoardId =
        some Neighbours.otherBoard ∧
      Neighbours.result.server.db.owner .boards Neighbours.newBoardId = some Sample.orgId := by
  have hcommitted : sync Sample.orgId 1 Neighbours.server Neighbours.request =
      .ok Neighbours.result := eq_ok_okOr (by decide)
  obtain ⟨hothers, -, hinserted, -⟩ := sync_within_org rfl hcommitted
  obtain ⟨row, hrow⟩ := Option.isSome_iff_exists.mp
    (show (Neighbours.result.server.db.find .boards Neighbours.newBoardId).isSome = true by
      decide)
  exact ⟨by decide,
    hothers .boards Neighbours.otherBoardId Neighbours.otherBoard rfl (by decide),
    hinserted .boards Neighbours.newBoardId row rfl hrow⟩

end FlowLogix.Server

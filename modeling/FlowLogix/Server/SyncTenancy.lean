/-
  Server/SyncTenancy.lean --- a sync over all tables keeps organizations apart
  (backend/src/sync/sync.controller.ts).

  `TenantIsolation.lean` says what a sync does to the synced tables.  Here it is a request
  like those of the web API: each change writes a row of the organization under a parent of
  the organization, so the tables stay coherent and the rows of other organizations as they
  were (`Tables.stays_sync`).
-/
import FlowLogix.Server.PushEffect
import FlowLogix.Server.TenantIsolation
import FlowLogix.Server.WebTenancy

set_option autoImplicit false

namespace FlowLogix.Server

open FlowLogix.Foundation

variable {pg : Postgres} {c : SyncCollection} {t t' : Tables pg} {orgId : JsString}
  {change : SyncChangeDto} {now : Nat} {loop loop' : SyncLoop pg}

/-- The boards of organizations there are none of. -/
def Tables.orphans (t : Tables pg) (db : Database pg) : List (JsString × Row pg .boards) :=
  select (db.table .boards) fun _ board => (board.text "orgId").any (· ∉ t.organizations)

/-- `POST /sync`.  The organization of a board is a foreign key. -/
def Tables.sync (t : Tables pg) (lastMicros : Nat) (orgId : JsString) (now : Nat)
    (req : SyncRequestDto) : Except Failure (SyncResponseDto × Tables pg × Nat) := do
  let result ← Server.sync orgId now { db := t.database, lastMicros := lastMicros } req
  if (t.orphans result.server.db).isEmpty then
    return (result.response, t.withDatabase result.server.db, result.server.lastMicros)
  else throw .rejectedStatement

/-- The rows a response names, each by its key. -/
def SyncResponseDto.records (pg : Postgres) (c : SyncCollection) (response : SyncResponseDto) :
    List Record :=
  (response.changes.map (·.id) ++ response.acceptedIds).map fun id =>
    .synced c ((pg.uuid id).getD id)

/-! ## One change -/

/-- One change writes a row of the organization, or a new one. -/
theorem within_processChange (hcolumn : CreatorColumn pg) (horg : pg.uuid orgId = some orgId)
    (h : processChange orgId c now loop change = .ok loop')
    (hexists : ∀ k, loop'.db.owner c k = some orgId → orgId ∈ t.organizations) :
    Tables.Within orgId (t.withDatabase loop.db) (t.withDatabase loop'.db) := by
  obtain ⟨k, -, heffect⟩ := processChange_cases h
  have horgOf := Tables.orgOf_synced (t.withDatabase loop.db) c k
  cases heffect with
  | merged row row' howner hfind hmerge _ hdb =>
      rcases hdb with hdb | hdb
      · rw [hdb]
        exact .refl orgId _
      · rw [hdb]
        have hparent : loop.db.parentOrg c row' = some orgId := by
          refine hmerge.parentOrg ?_
          rwa [Database.owner, hfind] at howner
        refine Tables.within_put (t := t.withDatabase loop.db)
          (fun o ho => Option.some.inj (ho.symm.trans howner)) hparent
          (fun hc => hc.mem_organizations (horgOf.trans howner)) fun hc hboards u hu => ?_
        -- a merge leaves the creator alone
        subst hboards
        rw [Row.text_congr (hmerge.unsynced "createdBy" (by decide))] at hu
        exact (hc.refs (.synced .boards k) row _ hfind (.creator hu)).trans (horgOf.trans howner)
  | skipped _ _ hdb =>
      rw [hdb]
      exact .refl orgId _
  | inserted row hnone hinsert hdb =>
      have hparent := hinsert.parent horg
      have hmine : loop'.db.owner c k = some orgId := by
        rw [hdb]
        exact Database.owner_put_self hparent
      rw [hdb]
      refine Tables.within_put (t := t.withDatabase loop.db) (fun o ho => ?_) hparent
        (fun _ => hexists k hmine) fun _ hboards u hu => ?_
      · have hnew : (loop.db.find c k).bind (loop.db.parentOrg c) = some o := ho
        rw [hnone] at hnew
        cases hnew
      · -- it has no creator
        subst hboards
        obtain ⟨w, hstore, hw⟩ := hinsert.defaults "createdBy" .null (by simp [schemaDefaults])
        rw [Row.text, hw] at hu
        cases w with
        | str s =>
            obtain ⟨_, hnull, -⟩ := hcolumn .null s hstore
            cases hnull
        | _ => cases hu

/-- A key is the canonical text of an id. -/
theorem canonical_processChange (h : processChange orgId c now loop change = .ok loop')
    (hkeys : ∀ c' k, k ∈ loop.db.table c' → pg.uuid k = some k) :
    ∀ c' k, k ∈ loop'.db.table c' → pg.uuid k = some k := by
  obtain ⟨k, hk, heffect⟩ := processChange_cases h
  intro c' j hj
  by_cases hc : c' = c
  · subst hc
    by_cases hjk : j = k
    · rw [hjk]
      exact pg.uuid_canonical _ _ hk
    · refine hkeys c' j (AList.lookup_isSome.mp ?_)
      rw [← AList.lookup_isSome] at hj
      exact (congrArg Option.isSome (heffect.find_of_ne hjk)).symm.trans hj
  · exact hkeys c' j (heffect.table_of_ne hc ▸ hj)

/-! ## A whole request -/

theorem within_processChanges (hcolumn : CreatorColumn pg) (horg : pg.uuid orgId = some orgId)
    {changes : List SyncChangeDto}
    (h : changes.foldlM (processChange orgId c now) loop = .ok loop')
    (hexists : ∀ k, loop'.db.owner c k = some orgId → orgId ∈ t.organizations) :
    Tables.Within orgId (t.withDatabase loop.db) (t.withDatabase loop'.db) := by
  induction changes generalizing loop with
  | nil =>
      obtain rfl := Except.ok.inj h
      exact .refl orgId _
  | cons change rest ih =>
      obtain ⟨mid, hstep, hrest⟩ := bind_eq_ok.mp h
      -- what is the organization's after this change is so at the end
      refine (within_processChange hcolumn horg hstep fun k hk => ?_).trans (ih hrest)
      exact hexists k (foldlM_owner hrest hk)

/-- A row of an organization is below a board that names it. -/
theorem Database.exists_board_of_owner {db : Database pg} {k o : JsString}
    (h : db.owner c k = some o) :
    ∃ b board, db.find .boards b = some board ∧ board.text "orgId" = some o := by
  have hboard : ∀ b, db.boardOrg b = some o →
      ∃ b board, db.find .boards b = some board ∧ board.text "orgId" = some o := by
    intro b hb
    obtain ⟨board, hfind, hof⟩ := Option.bind_eq_some_iff.mp hb
    exact ⟨b, board, hfind, hof⟩
  cases c with
  | boards => exact hboard k (by rwa [Database.owner_boards] at h)
  | lists =>
      rw [Database.owner_lists] at h
      obtain ⟨b, -, hb⟩ := Option.bind_eq_some_iff.mp h
      exact hboard b hb
  | cards =>
      obtain ⟨card, -, h⟩ := Option.bind_eq_some_iff.mp h
      obtain ⟨l, -, hl⟩ := Option.bind_eq_some_iff.mp h
      obtain ⟨b, -, hb⟩ := Option.bind_eq_some_iff.mp hl
      exact hboard b hb

/-- **A sync stays in its organization**, all tables considered. -/
theorem Tables.stays_sync (hcolumn : CreatorColumn pg) (horg : pg.uuid orgId = some orgId)
    (hkeys : ∀ c k, k ∈ t.table c → pg.uuid k = some k) {lastMicros micros : Nat}
    {req : SyncRequestDto} {response : SyncResponseDto}
    (h : t.sync lastMicros orgId now req = .ok (response, t', micros)) :
    Stays orgId t (response.records pg req.collection) t' := by
  obtain ⟨result, hsync, h⟩ := bind_eq_ok.mp h
  split at h
  swap
  · cases h
  · rename_i hnone
    obtain ⟨rfl, rfl, rfl⟩ : result.response = response ∧
        t.withDatabase result.server.db = t' ∧ result.server.lastMicros = micros := by
      simpa using Except.ok.inj h
    obtain ⟨loop, hloop, hdb, -⟩ := sync_eq_ok hsync
    have hexists : ∀ k, loop.db.owner req.collection k = some orgId →
        orgId ∈ t.organizations := by
      intro k hk
      by_contra hnot
      obtain ⟨b, board, hfind, hof⟩ := Database.exists_board_of_owner hk
      have horphan : (b, board) ∈ t.orphans result.server.db := by
        rw [hdb]
        exact mem_select.mpr ⟨hfind, by simp [hof, hnot]⟩
      rw [List.isEmpty_iff.mp hnone] at horphan
      cases horphan
    have hcanonical := foldlM_invariant
      (fun l : SyncLoop pg => ∀ c k, k ∈ l.db.table c → pg.uuid k = some k)
      (fun l change l' _ hl hprocess => canonical_processChange hprocess hl) hkeys hloop
    obtain ⟨hchanges, haccepted⟩ := belongs_of_sync horg hsync
    rw [hdb] at hchanges haccepted ⊢
    refine ⟨within_processChanges hcolumn horg hloop hexists, fun _ r hr => Or.inl ?_⟩
    obtain ⟨id, hid, rfl⟩ := List.mem_map.mp hr
    have hbelongs : loop.db.Belongs req.collection id orgId := by
      rcases List.mem_append.mp hid with hid | hid
      · obtain ⟨v, hv, rfl⟩ := List.mem_map.mp hid
        exact hchanges v hv
      · exact haccepted id hid
    obtain ⟨k, hk, howner⟩ := hbelongs
    have hkey : (pg.uuid id).getD id = k := by
      rcases hk with rfl | hk
      · obtain ⟨row, hfind, -⟩ := Option.bind_eq_some_iff.mp howner
        have hmem := AList.lookup_isSome.mp (Option.isSome_of_eq_some hfind)
        rw [hcanonical _ _ hmem, Option.getD_some]
      · rw [hk, Option.getD_some]
    rw [hkey]
    exact (Tables.orgOf_synced _ _ _).trans howner

end FlowLogix.Server

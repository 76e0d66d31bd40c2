/-
  Server/PushRetry.lean --- a push that is sent twice.

  A client that lost a response sends its push again.  After the first run every
  row contains what the change of its record brings, so the second run merges
  nothing: the tables stay as they are, and, since a change is accepted only when
  it wins a register, nothing is acknowledged.
-/
import FlowLogix.Server.PushEffect

set_option autoImplicit false

namespace FlowLogix.Server

open FlowLogix.Foundation

variable {pg : Postgres} {orgId : JsString} {c : SyncCollection}

/-! ## A change a row contains -/

/-- Every register of a row is at least what a change brings for it. -/
structure Contains (db : Database pg) (orgId : JsString) (row : Row pg c)
    (change : SyncChangeDto) : Prop where
  stamp : ∀ field ∈ syncFields c, sentStamp db orgId change field ≤ row.stamp field
  tombstone : tombOf change.deletedAt ≤ tombOf row.syncDeletedAt

variable {db db' : Database pg} {row : Row pg c} {change : SyncChangeDto}

/-- A settled row contains the change that settled it. -/
theorem Settled.contains (h : Settled db orgId c change row) : Contains db orgId row change := by
  cases hfind : db.find c change.id with
  | none =>
      obtain ⟨hstamp, hdeleted⟩ := h.inserted hfind
      exact ⟨fun field hf => (hstamp field hf).ge, (congrArg tombOf hdeleted).ge⟩
  | some r =>
      obtain ⟨-, hstamp, htomb⟩ := h.merged r hfind
      refine ⟨fun field hf => ?_, ?_⟩
      · rw [hstamp field hf]
        exact le_sup_right
      · rw [htomb]
        exact le_sup_right

theorem Contains.congr (h : Contains db orgId row change)
    (htable : ∀ c', c' ≠ c → db'.table c' = db.table c') : Contains db' orgId row change where
  stamp field hf := sentStamp_congr htable hf ▸ h.stamp field hf
  tombstone := h.tombstone

/-- Merging a change into a row that contains it changes and accepts nothing. -/
theorem Contains.merge (h : Contains db orgId row change) :
    (mergeInto db orgId row change).serverChanged = false ∧
      (mergeInto db orgId row change).clientAccepted = false := by
  have hwins : ¬ ∃ key, (key ∈ (serverState row).fields ∨
      key ∈ (clientState db orgId (syncFields c) change).fields) ∧
        ClientWins (serverState row) (clientState db orgId (syncFields c) change) key := by
    rintro ⟨key, hkey, hlt⟩
    have hf := (mem_fields_iff db orgId row change).mp hkey
    exact ((clientWins_iff_stamp hf).mp hlt).not_ge (h.stamp key hf)
  constructor
  · refine eq_false_of_ne_true fun hchanged => ?_
    rcases (serverChanged_iff _ _).mp hchanged with hfield | htomb
    · exact hwins hfield
    · refine htomb (tombOf_injective ?_)
      exact (tombOf_pickTomb _ _).trans (sup_eq_left.mpr h.tombstone)
  · refine eq_false_of_ne_true fun haccepted => ?_
    rcases (clientAccepted_iff _ _).mp haccepted with hfield | htomb
    · exact hwins hfield
    · exact (Prod.Lex.monotone_fst_ofLex h.tombstone).not_gt htomb

/-- The loop passes over a change the row of its record contains: nothing but an
echo. -/
theorem Contains.processChange {loop : SyncLoop pg} {k : JsString}
    (h : Contains loop.db orgId row change) (hk : pg.uuid change.id = some k)
    (howner : loop.db.owner c k = some orgId) (hfind : loop.db.find c k = some row) (now : Nat) :
    ∃ loop', processChange orgId c now loop change = .ok loop' ∧ loop'.db = loop.db ∧
      loop'.acceptedIds = loop.acceptedIds ∧ loop.changes.length ≤ loop'.changes.length := by
  obtain ⟨hchanged, haccepted⟩ := h.merge
  have hload : loop.db.load c change.id orgId = .ok (some (k, row)) := by
    simp [Database.load, Database.key, hk, howner, hfind, bind, Except.bind, pure, Except.pure]
  have hwrite : writeMerged loop.db k change.id row (mergeInto loop.db orgId row change) =
      .ok (loop.db, []) := by
    rw [writeMerged, hchanged]
    rfl
  have hmerge : ∃ loop', mergeChange orgId loop change k row = .ok loop' ∧
      loop'.db = loop.db ∧ loop'.acceptedIds = loop.acceptedIds ∧
        loop.changes.length ≤ loop'.changes.length := by
    rw [mergeChange, hwrite]
    exact ⟨_, rfl, rfl, by simp [haccepted], by simp⟩
  rw [Server.processChange, hload]
  exact hmerge

/-! ## A push the tables contain -/

/-- The tables hold a change: its record is in the organization, in a row that
contains it. -/
structure Holds (db : Database pg) (orgId : JsString) (c : SyncCollection)
    (change : SyncChangeDto) : Prop where
  canonical : pg.uuid change.id = some change.id
  owner : db.owner c change.id = some orgId
  row : ∃ row, db.find c change.id = some row ∧ Contains db orgId row change

/-- The loop over changes the tables hold. -/
theorem foldlM_of_holds {changes : List SyncChangeDto} {loop : SyncLoop pg}
    (h : ∀ change ∈ changes, Holds loop.db orgId c change) (now : Nat) :
    ∃ loop', changes.foldlM (processChange orgId c now) loop = .ok loop' ∧
      loop'.db = loop.db ∧ loop'.acceptedIds = loop.acceptedIds := by
  induction changes generalizing loop with
  | nil => exact ⟨loop, rfl, rfl, rfl⟩
  | cons change rest ih =>
      obtain ⟨hcanonical, howner, row, hfind, hcontains⟩ := h change List.mem_cons_self
      obtain ⟨mid, hmid, hdb, haccepted, -⟩ :=
        hcontains.processChange hcanonical howner hfind now
      have hrest : ∀ other ∈ rest, Holds mid.db orgId c other := by
        rw [hdb]
        exact fun other ho => h other (List.mem_cons_of_mem change ho)
      obtain ⟨last, hlast, hdb', haccepted'⟩ := ih hrest
      refine ⟨last, ?_, hdb'.trans hdb, haccepted'.trans haccepted⟩
      rw [List.foldlM_cons, hmid]
      exact hlast

/-! ## Sending a push twice -/

section Retry

variable {server : ServerState pg} {req : SyncRequestDto} {now : Nat} {result : SyncResult pg}

/-- After a push of valid changes the tables hold each of them. -/
theorem holds_of_sync (horg : pg.uuid orgId = some orgId)
    (hvalid : ∀ change ∈ req.changes, ValidChange server.db orgId req.collection change)
    (hnodup : (req.changes.map (·.id)).Nodup)
    (h : sync orgId now server req = .ok result) {change : SyncChangeDto}
    (hmem : change ∈ req.changes) : Holds result.server.db orgId req.collection change := by
  obtain ⟨loop, hloop, hdb, -⟩ := sync_eq_ok h
  rw [hdb]
  have hvalid' : ∀ change ∈ orderedChanges req.changes,
      ValidChange server.db orgId req.collection change :=
    fun change hc => hvalid change (mem_orderedChanges.mp hc)
  have hnodup' : ((orderedChanges req.changes).map (·.id)).Nodup :=
    ((List.perm_insertionSort _ req.changes).map _).nodup_iff.mpr hnodup
  have hmem' := mem_orderedChanges.mpr hmem
  obtain ⟨row, hfind, hsettled⟩ := processChanges_settled hvalid' hnodup' hloop hmem'
  exact {
    canonical := (hvalid change hmem).canonical
    owner := processChanges_owner horg hvalid' hnodup' hloop hmem'
    row := ⟨row, hfind, hsettled.contains.congr (processChanges_frame hloop).1⟩ }

/-- **Sending a push twice** leaves the tables as sending it once does; the second
response acknowledges nothing. -/
theorem sync_retry (horg : pg.uuid orgId = some orgId)
    (hvalid : ∀ change ∈ req.changes, ValidChange server.db orgId req.collection change)
    (hnodup : (req.changes.map (·.id)).Nodup) (hcheckpoint : req.sinceCheckpoint = 0)
    (hfirst : sync orgId now server req = .ok result) (later : Nat) :
    ∃ again, sync orgId later result.server req = .ok again ∧
      again.server.db = result.server.db ∧ again.response.acceptedIds = [] := by
  have hholds : ∀ change ∈ orderedChanges req.changes,
      Holds (SyncLoop.start result.server.db).db orgId req.collection change :=
    fun change hc => holds_of_sync horg hvalid hnodup hfirst (mem_orderedChanges.mp hc)
  obtain ⟨loop, hloop, hdb, haccepted⟩ := foldlM_of_holds hholds later
  have hpull : deltaPull loop req.collection orgId req.sinceCheckpoint = .ok [] := by
    rw [deltaPull, hcheckpoint]
    rfl
  have hsync : ∃ again, sync orgId later result.server req = .ok again ∧
      again.server.db = loop.db ∧ again.response.acceptedIds = loop.acceptedIds := by
    rw [sync, processChanges, hloop]
    simp only [bind, Except.bind, hpull]
    exact ⟨_, rfl, rfl, rfl⟩
  obtain ⟨again, hagain, hdb', haccepted'⟩ := hsync
  exact ⟨again, hagain, hdb'.trans hdb, haccepted'.trans haccepted⟩

end Retry

/-! ### A title pushed twice -/

namespace Resent

/-- A complete change of the sample card. -/
def retitle : SyncChangeDto where
  id := Sample.cardId
  fields := Dict.ofList [("title", .str (js "Shipped")), ("description", .null),
    ("isComplete", .bool false), ("listId", .str Sample.listId), ("positionIdx", .str (js "M"))]
  clocks := Dict.ofList [("title", some 5)]
  nodeId := js "device"
  deletedAt := none

def server : ServerState Postgres.plain where
  db := Sample.oneCard Sample.card
  lastMicros := 0

def req : SyncRequestDto where
  collection := .cards
  sinceCheckpoint := 0
  changes := [retitle]

theorem valid : ∀ change ∈ req.changes, ValidChange server.db Sample.orgId .cards change := by
  intro change hmem
  obtain rfl := List.mem_singleton.mp hmem
  decide +kernel

/-- The outcome of a push. -/
def push (server : ServerState Postgres.plain) (now : Nat) : SyncResult Postgres.plain :=
  okOr (sync Sample.orgId now server req) ⟨server, ⟨[], 0, []⟩, []⟩

theorem first_ok : sync Sample.orgId 1 server req = .ok (push server 1) :=
  eq_ok_okOr (by decide +kernel)

theorem again_ok : sync Sample.orgId 2 (push server 1).server req =
    .ok (push (push server 1).server 2) :=
  eq_ok_okOr (by decide +kernel)

theorem first_accepted : (push server 1).response.acceptedIds = [Sample.cardId] := by
  decide +kernel

theorem again_accepted : (push (push server 1).server 2).response.acceptedIds = [] := by
  decide +kernel

end Resent

/-- The title is stored and acknowledged once. -/
theorem sync_retry_title : (Resent.push Resent.server 1).response.acceptedIds = [Sample.cardId] ∧
    ∃ again, sync Sample.orgId 2 (Resent.push Resent.server 1).server Resent.req = .ok again ∧
      again.server.db = (Resent.push Resent.server 1).server.db ∧
      again.response.acceptedIds = [] := by
  have horg : Postgres.plain.uuid Sample.orgId = some Sample.orgId := rfl
  have hnodup : (Resent.req.changes.map (·.id)).Nodup := List.nodup_singleton _
  exact ⟨Resent.first_accepted,
    sync_retry horg Resent.valid hnodup rfl Resent.first_ok 2⟩

/-- The client that lost the first response is not told that its push was
accepted. -/
theorem retry_not_acknowledged : ¬ ∀ (server : ServerState Postgres.plain) (req : SyncRequestDto)
    (now later : Nat) (result again : SyncResult Postgres.plain),
    (∀ change ∈ req.changes, ValidChange server.db Sample.orgId req.collection change) →
      (req.changes.map (·.id)).Nodup → req.sinceCheckpoint = 0 →
        sync Sample.orgId now server req = .ok result →
          sync Sample.orgId later result.server req = .ok again →
            again.server.db = result.server.db ∧
              ∀ id ∈ result.response.acceptedIds, id ∈ again.response.acceptedIds := by
  intro hclaim
  have hnodup : (Resent.req.changes.map (·.id)).Nodup := List.nodup_singleton _
  obtain ⟨-, hkept⟩ := hclaim Resent.server Resent.req 1 2 _ _ Resent.valid hnodup rfl
    Resent.first_ok Resent.again_ok
  have hmem : Sample.cardId ∈ (Resent.push Resent.server 1).response.acceptedIds := by
    rw [Resent.first_accepted]
    exact List.mem_singleton_self _
  have hlost := hkept Sample.cardId hmem
  rw [Resent.again_accepted] at hlost
  cases hlost

end FlowLogix.Server

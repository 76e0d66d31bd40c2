/-
  Server/SyncService.lean --- the sync endpoint
  (backend/src/sync/sync.service.ts, backend/src/realtime/dto/board-mutation.ts).

  One request is one transaction: `sync` returns the state it commits, or the
  failure that rolls it back.  `SyncLoop` is what the loop over the changes
  carries: the tables as the transaction sees them, and the three lists it
  fills.  The row the loop loads and the row it reads again under its lock are
  the same here, since nothing else runs between the two reads.

  A unique violation is the one failure the source catches.  PostgreSQL rejects
  every later statement of that transaction, and the next one is the re-load of
  the same record, so the request fails there.
-/
import FlowLogix.Server.MergeAgreement
import FlowLogix.Server.Sanitize

set_option autoImplicit false

namespace FlowLogix.Server

open FlowLogix.Foundation FlowLogix.Ordering
open FlowLogix.Crdt (VersionedRecord)

/-- `MAX_SYNC_CHANGES`. -/
def maxSyncChanges : Nat := 1000

/-! ## Requests and responses -/

/-- `SyncRequestDto`. -/
structure SyncRequestDto where
  collection : SyncCollection
  sinceCheckpoint : Nat
  changes : List SyncChangeDto

/-- `SyncResponseDto`. -/
structure SyncResponseDto where
  changes : List (VersionedRecord Clock)
  checkpoint : Nat
  acceptedIds : List JsString

/-! ## Frames of the live board

A frame says what kind of change a board saw and which record it concerns, under the
number it took on the board.  It carries no content: a client that needs more loads the
board again. -/

/-- `BoardMutationType`. -/
inductive BoardMutationType where
  | listCreated
  | listUpdated
  | listDeleted
  | cardCreated
  | cardUpdated
  | cardMoved
  | cardDeleted
  deriving DecidableEq, Repr

/-- `BoardMutationPayload`. -/
structure BoardMutationPayload where
  cardId : Option JsString
  listId : Option JsString
  positionIdx : Option JsString
  deriving DecidableEq

/-- `BoardMutationEnvelope`: one frame. -/
structure BoardMutationEnvelope where
  seq : Nat
  boardId : JsString
  type : BoardMutationType
  payload : BoardMutationPayload
  ts : Nat
  deriving DecidableEq

/-- `BoardSyncResult`. -/
structure BoardSyncResult where
  boardId : JsString
  events : List BoardMutationEnvelope
  headSeq : Nat
  deriving DecidableEq

/-- `PendingBoardEvent`, its payload spread out. -/
structure PendingBoardEvent where
  type : BoardMutationType
  boardId : JsString
  cardId : Option JsString
  listId : JsString
  positionIdx : Option JsString
  deriving DecidableEq

/-- The payload of an event. -/
def PendingBoardEvent.payload (event : PendingBoardEvent) : BoardMutationPayload where
  cardId := event.cardId
  listId := some event.listId
  positionIdx := event.positionIdx

variable {pg : Postgres}

/-! ## Events -/

/-- `typeof value === 'string' ? value : undefined`. -/
def asString : Option Json → Option JsString
  | some (.str s) => some s
  | _ => none

/-- `a ?? b`. -/
def coalesce (a b : Option Json) : Option Json :=
  match a with
  | none | some .null => b
  | some v => some v

/-- The event of an offline-created record. -/
def eventForInsert (db : Database pg) (c : SyncCollection) (change : SyncChangeDto) :
    Option PendingBoardEvent :=
  let positionIdx := asString (change.fields.lookup "positionIdx")
  match c with
  | .boards => none
  | .lists => do
      let boardId ← asUuid (change.fields.lookup "boardId")
      return ⟨.listCreated, boardId, none, change.id, positionIdx⟩
  | .cards => do
      let listId ← asUuid (change.fields.lookup "listId")
      let boardId ← db.boardIdForList listId
      return ⟨.cardCreated, boardId, some change.id, listId, positionIdx⟩

/-- The event of a merged record. -/
def eventForUpdate (db : Database pg) (c : SyncCollection) (id : JsString)
    (before after : RecordState Clock) : Option PendingBoardEvent :=
  let deletedNow := after.deletedAt.isSome
  let wasDeleted := before.deletedAt.isSome
  let afterPos := asString (readField after.fields "positionIdx")
  match c with
  | .boards => none
  | .lists => do
      let boardId ← asUuid (coalesce (readField after.fields "boardId")
        (readField before.fields "boardId"))
      if deletedNow && !wasDeleted then return ⟨.listDeleted, boardId, none, id, none⟩
      return ⟨.listUpdated, boardId, none, id, afterPos⟩
  | .cards => do
      let listId ← asUuid (coalesce (readField after.fields "listId")
        (readField before.fields "listId"))
      let boardId ← db.boardIdForList listId
      if deletedNow && !wasDeleted then return ⟨.cardDeleted, boardId, some id, listId, none⟩
      let beforeList := asUuid (readField before.fields "listId")
      let beforePos := asString (readField before.fields "positionIdx")
      let moved := beforeList ≠ some listId ∨ beforePos ≠ afterPos
      return ⟨if moved then .cardMoved else .cardUpdated, boardId, some id, listId, afterPos⟩

/-! ## Inserting -/

/-- How an insert ends, when no unexpected error is thrown. -/
inductive InsertOutcome (pg : Postgres) where
  | inserted (db : Database pg)
  /-- the payload is incomplete, or its parent is out of the organization -/
  | refused
  /-- the id is taken -/
  | uniqueViolation

/-- What the schema puts in the columns an insert does not name. -/
def schemaDefaults : SyncCollection → List (String × Json)
  | .boards => [("bgProperties", .obj []), ("createdBy", .null)]
  | .lists => [("isArchived", .bool false)]
  | .cards => [("dueDate", .null), ("isArchived", .bool false), ("customFields", .obj [])]

/-- `manager.insert`, with the unique violation caught. -/
def insertRow (db : Database pg) (c : SyncCollection) (now : Nat) (change : SyncChangeDto)
    (values : List (String × Json)) : Except Failure (InsertOutcome pg) := do
  let k ← Database.key pg change.id
  let cols : Columns pg c ← Columns.empty.writeAll (values ++ schemaDefaults c)
  let row ← Row.ofColumns now cols
  let nodeId := if change.nodeId = [] then none else some change.nodeId
  let row ← row.writeSync (numericClocks change.clocks (syncFields c)) nodeId change.deletedAt
  return if (db.find c k).isSome then .uniqueViolation else .inserted (db.put k row)

/-- Prefer a valid key of the client; otherwise append after the last sibling. -/
def resolvePositionKey (db : Database pg) (c : SyncCollection) (parentId : JsString)
    (provided : Option Json) : Except Failure JsString :=
  match (asString provided).filter PositionService.isValid with
  | some key => .ok key
  | none =>
      let last := (pg.uuid parentId).bind (db.lastKey c)
      (PositionService.keyForAppend last).mapError .error

/-- `tryInsert` of the boards strategy. -/
def tryInsertBoard (db : Database pg) (orgId : JsString) (now : Nat) (change : SyncChangeDto) :
    Except Failure (InsertOutcome pg) :=
  if !isUuid change.id then .ok .refused
  else
    match asNonEmptyString (change.fields.lookup "title") with
    | none => .ok .refused
    | some title =>
        insertRow db .boards now change [("orgId", .str orgId), ("title", .str title),
          ("description", .null), ("visibility", .str (js "private"))]

/-- `tryInsert` of the lists strategy. -/
def tryInsertList (db : Database pg) (orgId : JsString) (now : Nat) (change : SyncChangeDto) :
    Except Failure (InsertOutcome pg) :=
  if !isUuid change.id then .ok .refused
  else
    match asNonEmptyString (change.fields.lookup "title"),
        asUuid (change.fields.lookup "boardId") with
    | some title, some boardId =>
        if !db.boardInOrg boardId orgId then .ok .refused
        else do
          let positionIdx ←
            resolvePositionKey db .lists boardId (change.fields.lookup "positionIdx")
          insertRow db .lists now change [("boardId", .str boardId), ("title", .str title),
            ("positionIdx", .str positionIdx)]
    | _, _ => .ok .refused

/-- `typeof value === 'string' ? value : null`. -/
def stringOrNull : Option Json → Json
  | some (.str s) => .str s
  | _ => .null

/-- `typeof value === 'boolean' ? value : false`. -/
def booleanOrFalse : Option Json → Json
  | some (.bool b) => .bool b
  | _ => .bool false

/-- `tryInsert` of the cards strategy. -/
def tryInsertCard (db : Database pg) (orgId : JsString) (now : Nat) (change : SyncChangeDto) :
    Except Failure (InsertOutcome pg) :=
  if !isUuid change.id then .ok .refused
  else
    match asNonEmptyString (change.fields.lookup "title"),
        asUuid (change.fields.lookup "listId") with
    | some title, some listId =>
        if !db.listInOrg listId orgId then .ok .refused
        else do
          let positionIdx ←
            resolvePositionKey db .cards listId (change.fields.lookup "positionIdx")
          insertRow db .cards now change [("listId", .str listId), ("title", .str title),
            ("description", stringOrNull (change.fields.lookup "description")),
            ("isComplete", booleanOrFalse (change.fields.lookup "isComplete")),
            ("positionIdx", .str positionIdx)]
    | _, _ => .ok .refused

/-- `tryInsert` of a collection's strategy. -/
def tryInsert (db : Database pg) (orgId : JsString) (now : Nat) (change : SyncChangeDto) :
    SyncCollection → Except Failure (InsertOutcome pg)
  | .boards => tryInsertBoard db orgId now change
  | .lists => tryInsertList db orgId now change
  | .cards => tryInsertCard db orgId now change

/-! ## Merging -/

/-- What the loop over the changes carries. -/
structure SyncLoop (pg : Postgres) where
  db : Database pg
  changes : List (VersionedRecord Clock)
  acceptedIds : List JsString
  pendingEvents : List PendingBoardEvent

/-- The state before the loop. -/
def SyncLoop.start (db : Database pg) : SyncLoop pg where
  db := db
  changes := []
  acceptedIds := []
  pendingEvents := []

/-- `manager.update` with the patch of the merged record.  A property that holds
`undefined` is not part of the statement. -/
def patchRow {c : SyncCollection} (row : Row pg c) (merged : RecordState Clock) :
    Except Failure (Row pg c) := do
  let row ← row.writeColumns ((syncFields c).filterMap fun field =>
    (readField merged.fields field).map fun value => (field, value))
  row.writeSync merged.clocks merged.nodeId merged.deletedAt

/-- The merge of a sanitized change into a row. -/
def mergeInto (db : Database pg) (orgId : JsString) {c : SyncCollection} (row : Row pg c)
    (change : SyncChangeDto) : ServerMergeResult Clock :=
  mergeServerRecord (serverState row) (clientState db orgId (syncFields c) change)

/-- Write a merged record back under its key, if the merge changed it. -/
def writeMerged (db : Database pg) {c : SyncCollection} (k id : JsString) (row : Row pg c)
    (result : ServerMergeResult Clock) :
    Except Failure (Database pg × List PendingBoardEvent) :=
  if result.serverChanged then do
    let row' ← patchRow row result.merged
    return (db.put k row',
      (eventForUpdate (db.put k row') c id (serverState row) result.merged).toList)
  else return (db, [])

/-- The merge of a change into the record it names. -/
def mergeChange (orgId : JsString) {c : SyncCollection} (loop : SyncLoop pg)
    (change : SyncChangeDto) (k : JsString) (row : Row pg c) :
    Except Failure (SyncLoop pg) := do
  let written ← writeMerged loop.db k change.id row (mergeInto loop.db orgId row change)
  return {
    db := written.1
    changes := loop.changes ++
      if (mergeInto loop.db orgId row change).serverAhead then
        [(mergeInto loop.db orgId row change).merged.sent change.id] else []
    acceptedIds := loop.acceptedIds ++
      if (mergeInto loop.db orgId row change).clientAccepted then [change.id] else []
    pendingEvents := loop.pendingEvents ++ written.2 }

/-- The loop body of `sync`. -/
def processChange (orgId : JsString) (c : SyncCollection) (now : Nat) (loop : SyncLoop pg)
    (change : SyncChangeDto) : Except Failure (SyncLoop pg) := do
  match ← loop.db.load c change.id orgId with
  | some (k, row) => mergeChange orgId loop change k row
  | none =>
      match ← tryInsert loop.db orgId now change c with
      | .inserted db =>
          return {
            db := db
            changes := loop.changes
            acceptedIds := loop.acceptedIds ++ [change.id]
            pendingEvents := loop.pendingEvents ++ (eventForInsert db c change).toList }
      | .refused => return loop
      | .uniqueViolation => throw .abortedTransaction

/-- The changes of a request in the order their rows are locked. -/
def orderedChanges (changes : List SyncChangeDto) : List SyncChangeDto :=
  changes.insertionSort fun a b => a.id ≤ b.id

/-- The loop over the changes. -/
def processChanges (orgId : JsString) (c : SyncCollection) (now : Nat) (db : Database pg)
    (changes : List SyncChangeDto) : Except Failure (SyncLoop pg) :=
  changes.foldlM (processChange orgId c now) (.start db)

/-! ## Delta pull -/

/-- A row whose tombstone or any field clock is newer than a checkpoint. -/
def stampedAfter {c : SyncCollection} (cp : Nat) (row : Row pg c) : Bool :=
  (row.syncDeletedAt.any fun d => decide ((cp : Clock) < d)) ||
    row.syncClocks.values.any fun clock => decide ((cp : Clock) < clock)

/-- Every clock of a row survives the cast to `bigint`. -/
def castable {c : SyncCollection} (row : Row pg c) : Bool := row.syncClocks.values.all isBigint

/-- The rows of the organization stamped after a checkpoint, up to `limit` of
them, without the excluded ones.  Assumed of PostgreSQL: a row of the organization whose
clock does not survive the cast fails the query, wherever the row stands.  The database
may in fact stop at an earlier match and never reach the cast. -/
def pullSinceCheckpoint (db : Database pg) (c : SyncCollection) (orgId : JsString)
    (sinceCheckpoint : Nat) (excludeIds : List JsString) (limit : Nat) :
    Except Failure (List (VersionedRecord Clock)) :=
  let orgRows := db.orgRows c orgId
  if orgRows.all fun e => castable e.2 then
    let rows := (orgRows.filter fun e => stampedAfter sinceCheckpoint e.2).take
      (limit + excludeIds.length)
    .ok (((rows.filter fun e => decide (e.1 ∉ excludeIds)).take limit).map fun e =>
      (serverState e.2).sent e.1)
  else .error .rejectedStatement

/-- The delta of a request, in the room its echoes leave; a checkpoint of 0 asks
for none. -/
def deltaPull (loop : SyncLoop pg) (c : SyncCollection) (orgId : JsString)
    (sinceCheckpoint : Nat) : Except Failure (List (VersionedRecord Clock)) :=
  if 0 < sinceCheckpoint ∧ 0 < maxSyncChanges - loop.changes.length then
    pullSinceCheckpoint loop.db c orgId sinceCheckpoint
      (loop.changes.map (·.id) ++ loop.acceptedIds).dedup (maxSyncChanges - loop.changes.length)
  else .ok []

/-! ## The endpoint -/

/-- The server: its tables and the last checkpoint it issued. -/
structure ServerState (pg : Postgres) where
  db : Database pg
  lastMicros : Nat

/-- The strictly increasing checkpoint clock. -/
def nowMicros (lastMicros now : Nat) : Nat := strictMicros lastMicros now

/-- What a committed request leaves behind. -/
structure SyncResult (pg : Postgres) where
  server : ServerState pg
  response : SyncResponseDto
  events : List PendingBoardEvent

/-- `SyncService.sync`; `now` is `Date.now()`. -/
def sync (orgId : JsString) (now : Nat) (server : ServerState pg) (req : SyncRequestDto) :
    Except Failure (SyncResult pg) := do
  let loop ←
    processChanges orgId req.collection now server.db (orderedChanges req.changes)
  let pulled ← deltaPull loop req.collection orgId req.sinceCheckpoint
  return {
    server := { db := loop.db, lastMicros := nowMicros server.lastMicros now }
    response :=
      { changes := loop.changes ++ pulled
        checkpoint := nowMicros server.lastMicros now
        acceptedIds := loop.acceptedIds }
    events := loop.pendingEvents }

end FlowLogix.Server

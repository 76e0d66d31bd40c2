/-
  Server/Crud.lean --- the web write paths
  (backend/src/boards/boards.service.ts, lists/lists.service.ts,
  cards/cards.service.ts and common/ordering/position-rebalance.service.ts).

  An update loads an entity, assigns the request's properties to it in memory,
  and saves it.  `saveRow` is TypeORM's `save` on a loaded entity: it reads the
  row again and updates every column whose in-memory value differs, the sync
  metadata included.  Assumption (save writes `listId`): `assertCardInOrg` loads a card
  with its relation `list`, the update assigns the column `listId` only, and the two then
  name different lists; `save` is taken to write the column, as the service means it to.

  `CardsService.update` does this in up to four transactions, and each of them
  may see different tables.  `updateAcross` takes the tables each one sees;
  `update` is the case where nothing runs in between.  `createAcross` and
  `rebalanceParentAcross` do the same for a create and for one rebalanced parent.
-/
import FlowLogix.Server.SyncService

set_option autoImplicit false

namespace FlowLogix.Server

open FlowLogix.Foundation FlowLogix.Ordering

variable {pg : Postgres}

/-! ## Entities in memory -/

/-- A loaded entity, free to be assigned to. -/
structure Entity where
  columns : JsObject Json
  createdAt : Int
  syncClocks : JsObject Clock
  nodeId : Option JsString
  syncDeletedAt : Option Clock

/-- The entity `findOne` returns. -/
def Row.toEntity {c : SyncCollection} (row : Row pg c) : Entity where
  columns := row.columns
  createdAt := row.createdAt
  syncClocks := row.syncClocks
  nodeId := row.nodeId
  syncDeletedAt := row.syncDeletedAt

/-- `Object.assign(entity, values)`. -/
def Entity.assign (entity : Entity) (values : JsObject Json) : Entity :=
  { entity with columns := entity.columns.assign values }

/-- `manager.save` on a row: update every column whose in-memory value differs
from the row's current one, `listId` included whatever relation the entity was loaded
with. -/
def saveRow {c : SyncCollection} (current : Row pg c) (entity : Entity) :
    Except Failure (Row pg c) := do
  let row ← current.writeColumns ((entity.columns.entries.map fun e => (e.1, e.2)).filter
    fun p => current.columns.lookup p.1 ≠ some p.2)
  row.writeSync entity.syncClocks entity.nodeId entity.syncDeletedAt

/-- `manager.save` on an entity whose row is gone: insert it again. -/
def insertEntity (c : SyncCollection) (entity : Entity) : Except Failure (Row pg c) := do
  let cols ← Columns.empty.writeAll (entity.columns.entries.map fun e => (e.1, e.2))
  let row ← Row.ofColumns entity.createdAt cols
  row.writeSync entity.syncClocks entity.nodeId entity.syncDeletedAt

/-- `manager.save`. -/
def saveEntity (db : Database pg) (c : SyncCollection) (k : JsString) (entity : Entity) :
    Except Failure (Database pg) := do
  let row ←
    match db.find c k with
    | some current => saveRow current entity
    | none => insertEntity c entity
  return db.put k row

/-! ## `TenantAccessService` -/

/-- A record of the organization, or a `NotFoundException`. -/
def assertInOrg (db : Database pg) (c : SyncCollection) (id orgId message : JsString) :
    Except Failure (JsString × Row pg c) := do
  match ← db.load c id orgId with
  | some found => return found
  | none => throw (.notFound message)

def assertBoardInOrg (db : Database pg) (boardId orgId : JsString) :
    Except Failure (JsString × Row pg .boards) :=
  assertInOrg db .boards boardId orgId (js "Board not found")

def assertListInOrg (db : Database pg) (listId orgId : JsString) :
    Except Failure (JsString × Row pg .lists) :=
  assertInOrg db .lists listId orgId (js "List not found")

def assertCardInOrg (db : Database pg) (cardId orgId : JsString) :
    Except Failure (JsString × Row pg .cards) :=
  assertInOrg db .cards cardId orgId (js "Card not found")

def assertUserInOrg (db : Database pg) (userId orgId : JsString) : Except Failure Unit := do
  let k ← Database.key pg userId
  if db.users.lookup k = some orgId then return ()
  else throw (.notFound (js "User not found"))

/-- `PositionService.assertValid`. -/
def assertValid (value : Json) : Except Failure Unit :=
  if (asString (some value)).any PositionService.isValid then .ok ()
  else .error (.badRequest (js "Invalid position key: " ++
    (asString (some value)).getD (stringify value)))

/-! ## `BoardsService.update` and `ListsService.update` -/

/-- `UpdateBoardDto`: the properties present in the request. -/
structure UpdateBoardDto where
  content : JsObject Json
  content_keys : ∀ key ∈ content.keys,
    key ∈ ["title", "description", "visibility", "bgProperties", "createdBy"]

/-- A creator named by the request is a user of the organization. -/
def BoardsService.checkCreator (db : Database pg) (orgId : JsString) (dto : UpdateBoardDto) :
    Except Failure Unit :=
  match asString (dto.content.lookup "createdBy") with
  | some (u :: userId) => assertUserInOrg db (u :: userId) orgId
  | _ => .ok ()

/-- `BoardsService.update`: load and save in one transaction. -/
def BoardsService.update (db : Database pg) (id orgId : JsString) (dto : UpdateBoardDto) :
    Except Failure (Database pg) := do
  BoardsService.checkCreator db orgId dto
  let found ← assertBoardInOrg db id orgId
  saveEntity db .boards found.1 (found.2.toEntity.assign dto.content)

/-- `UpdateListDto`: the properties present in the request. -/
structure UpdateListDto where
  content : JsObject Json
  content_keys : ∀ key ∈ content.keys, key ∈ ["title", "positionIdx", "isArchived"]

/-- A position key of the request is valid. -/
def ListsService.checkPosition (dto : UpdateListDto) : Except Failure Unit :=
  match dto.content.lookup "positionIdx" with
  | some positionIdx => assertValid positionIdx
  | none => .ok ()

/-- `ListsService.update`. -/
def ListsService.update (db : Database pg) (id orgId : JsString) (dto : UpdateListDto) :
    Except Failure (Database pg) := do
  let found ← assertListInOrg db id orgId
  ListsService.checkPosition dto
  saveEntity db .lists found.1 (found.2.toEntity.assign dto.content)

/-! ## `CardsService.update` -/

/-- `UpdateCardDto`: the content properties present in the request, and the ones
that place the card. -/
structure UpdateCardDto where
  content : JsObject Json
  content_keys : ∀ key ∈ content.keys,
    key ∈ ["title", "description", "dueDate", "customFields", "isComplete", "isArchived"]
  listId : Option JsString
  positionIdx : Option JsString
  beforeCardId : Option JsString
  afterCardId : Option JsString

theorem UpdateCardDto.no_content : ∀ key ∈ (∅ : JsObject Json).keys,
    key ∈ ["title", "description", "dueDate", "customFields", "isComplete", "isArchived"] := by
  simp

namespace CardsService

/-- What the first transaction of an update loads: the card under its key, with
the board its list is on. -/
structure LoadedCard where
  key : JsString
  card : Entity
  listId : JsString
  boardId : JsString

/-- The first transaction: `assertCardInOrg`. -/
def load (db : Database pg) (id orgId : JsString) : Except Failure LoadedCard := do
  let found ← assertCardInOrg db id orgId
  return {
    key := found.1
    card := found.2.toEntity
    listId := (found.2.text "listId").getD []
    boardId := (((found.2.text "listId").bind (db.find .lists)).bind (·.text "boardId")).getD [] }

/-- `dto.listId ?? card.listId`. -/
def targetListId (dto : UpdateCardDto) (loaded : LoadedCard) : JsString :=
  dto.listId.getD loaded.listId

/-- The second transaction: a card only moves to a list of its own board. -/
def checkTarget (db : Database pg) (orgId : JsString) (dto : UpdateCardDto)
    (loaded : LoadedCard) : Except Failure Unit :=
  if targetListId dto loaded = loaded.listId then .ok ()
  else do
    let found ← assertListInOrg db (targetListId dto loaded) orgId
    if found.2.text "boardId" = some loaded.boardId then return ()
    else throw (.badRequest (js "Cannot move a card to a list on another board"))

/-- The position key of a neighbour, which has to be in the target list. -/
def neighborKey (db : Database pg) (listId : JsString) (label : String) :
    Option JsString → Except Failure (Option JsString)
  | none => .ok none
  | some cardId => do
      let k ← Database.key pg cardId
      let l ← Database.key pg listId
      match (db.find .cards k).filter fun card => card.text "listId" = some l with
      | some card => return card.text "positionIdx"
      | none =>
          throw (.badRequest (js label ++ js " must refer to a card in the target list"))

/-- `resolvePositionFromNeighbors`. -/
def resolvePositionFromNeighbors (db : Database pg) (cardId listId : JsString)
    (beforeCardId afterCardId : Option JsString) : Except Failure JsString := do
  if beforeCardId = some cardId ∨ afterCardId = some cardId then
    throw (.badRequest (js "A card cannot be its own neighbor"))
  if beforeCardId.isSome ∧ beforeCardId = afterCardId then
    throw (.badRequest (js "beforeCardId and afterCardId must differ"))
  let prevKey ← neighborKey db listId "beforeCardId" beforeCardId
  let nextKey ← neighborKey db listId "afterCardId" afterCardId
  (PositionService.keyBetween prevKey nextKey).mapError .error

/-- The request names a neighbour. -/
def wantsNeighborPlacement (dto : UpdateCardDto) : Bool :=
  dto.beforeCardId.isSome || dto.afterCardId.isSome

/-- The third transaction: the position key the update assigns, if any. -/
def place (db : Database pg) (id : JsString) (dto : UpdateCardDto) (loaded : LoadedCard) :
    Except Failure (Option JsString) :=
  if wantsNeighborPlacement dto then do
    let key ← resolvePositionFromNeighbors db id (targetListId dto loaded) dto.beforeCardId
      dto.afterCardId
    return some key
  else
    match dto.positionIdx with
    | some positionIdx => do
        assertValid (.str positionIdx)
        return some positionIdx
    | none =>
        if targetListId dto loaded ≠ loaded.listId then do
          let key ← resolvePositionKey db .cards (targetListId dto loaded) none
          return some key
        else return none

/-- The properties an update assigns to the card. -/
def assigned (dto : UpdateCardDto) (nextPositionIdx : Option JsString) : JsObject Json :=
  dto.content.assign (Dict.ofList
    ((dto.listId.map fun listId => ("listId", Json.str listId)).toList ++
      (nextPositionIdx.map fun key => ("positionIdx", Json.str key)).toList))

/-- `CardsService.update`, with the tables each of its transactions sees: the
load, the check of the target list, the placement and the save. -/
def updateAcross (loadDb targetDb placeDb saveDb : Database pg) (id orgId : JsString)
    (dto : UpdateCardDto) : Except Failure (Database pg) := do
  let loaded ← load loadDb id orgId
  checkTarget targetDb orgId dto loaded
  let nextPositionIdx ← place placeDb id dto loaded
  saveEntity saveDb .cards loaded.key (loaded.card.assign (assigned dto nextPositionIdx))

/-- `CardsService.update`, when nothing else is written in between. -/
def update (db : Database pg) (id orgId : JsString) (dto : UpdateCardDto) :
    Except Failure (Database pg) :=
  updateAcross db db db db id orgId dto

end CardsService

/-! ## `CardsService.create` -/

/-- `CreateCardDto`: the content properties present in the request, and the position
key. -/
structure CreateCardDto where
  content : JsObject Json
  content_keys : ∀ key ∈ content.keys, key ∈ ["title", "description", "dueDate", "customFields"]
  positionIdx : Option JsString

namespace CardsService

/-- `resolvePosition`: a validated key of the client, or one after the last card of
the list. -/
def resolvePosition (db : Database pg) (listId : JsString) :
    Option JsString → Except Failure JsString
  | some provided => do
      assertValid (.str provided)
      return provided
  | none => resolvePositionKey db .cards listId none

/-- `manager.create(Card, { ...dto, listId, positionIdx })`, over the entity's
initializers and the columns' defaults. -/
def newCard (now : Int) (listId positionIdx : JsString) (dto : CreateCardDto) : Entity where
  columns := (Dict.ofList [("description", .null), ("dueDate", .null), ("isComplete", .bool false),
    ("isArchived", .bool false), ("customFields", .obj [])]).assign
      (dto.content.assign
        (Dict.ofList [("listId", .str listId), ("positionIdx", .str positionIdx)]))
  createdAt := now
  syncClocks := ∅
  nodeId := none
  syncDeletedAt := none

/-- `CardsService.create`, with the tables each of its statements sees: the check of
the list, the read of the last card and the insert.  `id` and `now` are the defaults
`gen_random_uuid()` and `now()`. -/
def createAcross (accessDb readDb saveDb : Database pg) (listId orgId id : JsString) (now : Int)
    (dto : CreateCardDto) : Except Failure (Database pg) := do
  let _ ← assertListInOrg accessDb listId orgId
  let positionIdx ← resolvePosition readDb listId dto.positionIdx
  let row ← insertEntity .cards (newCard now listId positionIdx dto)
  if (saveDb.find .cards id).isSome then throw .rejectedStatement
  return saveDb.put id row

/-- `CardsService.create`, when nothing else is written in between. -/
def create (db : Database pg) (listId orgId id : JsString) (now : Int) (dto : CreateCardDto) :
    Except Failure (Database pg) :=
  createAcross db db db listId orgId id now dto

end CardsService

/-! ## `PositionRebalanceService` -/

namespace PositionRebalanceService

/-- `MAX_KEY_LENGTH`. -/
def maxKeyLength : Nat := 32

/-- The parents of the organization that have a row with an over-long key. -/
def overlongParents (db : Database pg) (c : SyncCollection) (orgId : JsString) :
    List JsString :=
  ((db.orgRows c orgId).filterMap fun e =>
    if (e.2.text "positionIdx").any fun key => decide (maxKeyLength < charLength key) then
      e.2.text (parentProperty c)
    else none).dedup

/-- The sort key of a row within its parent. -/
def sortKey {c : SyncCollection} (e : JsString × Row pg c) : JsString ×ₗ Int ×ₗ JsString :=
  toLex ((e.2.text "positionIdx").getD [], toLex (e.2.createdAt, e.1))

/-- The ids of a parent's rows, `ORDER BY position_idx, created_at, id`. -/
def orderedIds (db : Database pg) (c : SyncCollection) (orgId parent : JsString) :
    List JsString :=
  (((db.orgRows c orgId).filter fun e => e.2.text (parentProperty c) = some parent).insertionSort
    fun e e' => sortKey e ≤ sortKey e').map Prod.fst

/-- One row of the batched update. -/
def writeKey (c : SyncCollection) (db : Database pg) (pair : JsString × JsString) :
    Except Failure (Database pg) :=
  match db.find c pair.1 with
  | none => .ok db
  | some row => do
      let row ← row.writeColumns [("positionIdx", .str pair.2)]
      return db.put pair.1 row

/-- Re-spread one parent. -/
def rebalanceParent (c : SyncCollection) (orgId : JsString) (db : Database pg)
    (parent : JsString) : Except Failure (Database pg) := do
  let ids := orderedIds db c orgId parent
  let keys ← (PositionService.rebalancedKeys ids.length).mapError .error
  (ids.zip keys).foldlM (writeKey c) db

/-- Re-spread one parent, the tables its `SELECT` sees and those its `UPDATE` writes
apart. -/
def rebalanceParentAcross (c : SyncCollection) (orgId : JsString) (readDb saveDb : Database pg)
    (parent : JsString) : Except Failure (Database pg) := do
  let ids := orderedIds readDb c orgId parent
  let keys ← (PositionService.rebalancedKeys ids.length).mapError .error
  (ids.zip keys).foldlM (writeKey c) saveDb

/-- What a rebalance of one table leaves behind: the tables, the number of parents it
returns, and the rows its statements update. -/
structure TableRebalance (pg : Postgres) where
  db : Database pg
  rebalanced : Nat
  updated : List JsString

/-- The loop body of `rebalanceTable`. -/
def rebalanceNext (c : SyncCollection) (orgId : JsString) (acc : TableRebalance pg)
    (parent : JsString) : Except Failure (TableRebalance pg) := do
  let db ← rebalanceParent c orgId acc.db parent
  return {
    db := db
    rebalanced := acc.rebalanced + 1
    updated := acc.updated ++ orderedIds acc.db c orgId parent }

/-- Re-spread each parent that contains an over-long key. -/
def rebalanceTable (c : SyncCollection) (orgId : JsString) (db : Database pg) :
    Except Failure (TableRebalance pg) :=
  (overlongParents db c orgId).foldlM (rebalanceNext c orgId)
    { db := db, rebalanced := 0, updated := [] }

/-- `updated_at` after the statements of a rebalance: the table's trigger
`set_updated_at` sets it for every row they update. -/
def TableRebalance.updatedAt (result : TableRebalance pg) (now : Int) (before : JsString → Int)
    (id : JsString) : Int :=
  if id ∈ result.updated then now else before id

/-- What `rebalanceOverlongColumns` leaves behind and returns. -/
structure RebalanceResult (pg : Postgres) where
  db : Database pg
  lists : Nat
  cards : Nat
  skipped : Bool

/-- Both tables of one organization. -/
def rebalanceOrg (acc : RebalanceResult pg) (orgId : JsString) :
    Except Failure (RebalanceResult pg) := do
  let lists ← rebalanceTable .lists orgId acc.db
  let cards ← rebalanceTable .cards orgId lists.db
  return {
    db := cards.db
    lists := acc.lists + lists.rebalanced
    cards := acc.cards + cards.rebalanced
    skipped := acc.skipped }

/-- `rebalanceOverlongColumns`, over the given organizations; `locked` is whether
the advisory lock was obtained. -/
def rebalanceOverlongColumns (db : Database pg) (locked : Bool) (orgs : List JsString) :
    Except Failure (RebalanceResult pg) :=
  if locked then orgs.foldlM rebalanceOrg { db := db, lists := 0, cards := 0, skipped := false }
  else .ok { db := db, lists := 0, cards := 0, skipped := true }

end PositionRebalanceService

/-! ## What the web write paths announce

After its transaction a service emits one event, made of the entity it has in memory, for
the board it found on the way in. -/

/-- A property of an entity that holds text. -/
def Entity.text (entity : Entity) (property : String) : Option JsString :=
  asString (entity.columns.lookup property)

theorem asString_lookup {pg : Postgres} {c : SyncCollection} (row : Row pg c)
    (property : String) : asString (row.columns.lookup property) = row.text property := by
  rw [Row.text]
  cases row.columns.lookup property with
  | none => rfl
  | some v => cases v <;> rfl

namespace CardsService

/-- The card an update saves: the loaded one with the assigned properties. -/
def edited (dto : UpdateCardDto) (loaded : LoadedCard) (nextPositionIdx : Option JsString) :
    Entity :=
  loaded.card.assign (assigned dto nextPositionIdx)

/-- `saved.listId !== fromListId || nextPositionIdx !== undefined`. -/
def moved (dto : UpdateCardDto) (loaded : LoadedCard) (nextPositionIdx : Option JsString) :
    Bool :=
  ((edited dto loaded nextPositionIdx).text "listId").getD [] ≠ loaded.listId ||
    nextPositionIdx.isSome

/-- The event of an update. -/
def eventForSave (dto : UpdateCardDto) (loaded : LoadedCard) (nextPositionIdx : Option JsString) :
    PendingBoardEvent where
  type := if moved dto loaded nextPositionIdx then .cardMoved else .cardUpdated
  boardId := loaded.boardId
  cardId := some loaded.key
  listId := ((edited dto loaded nextPositionIdx).text "listId").getD []
  positionIdx := (edited dto loaded nextPositionIdx).text "positionIdx"

end CardsService

end FlowLogix.Server

/-
  Server/BoardEndpoints.lean --- the other endpoints of a board
  (backend/src/lists/lists.service.ts, cards/cards.service.ts and
  common/sync-visibility.ts).

  Creating a list, removing a list or a card, and the two reads a client loads a board
  with.  A removed list takes its cards with it: their foreign key cascades.
-/
import FlowLogix.Server.Crud

set_option autoImplicit false

namespace FlowLogix.Server

open FlowLogix.Foundation FlowLogix.Ordering

variable {pg : Postgres} {c : SyncCollection}

/-! ## Visibility -/

/-- `isSyncDeleted`. -/
def isSyncDeleted (row : Row pg c) : Bool :=
  row.syncDeletedAt.any fun deletedAt => decide (row.syncClocks.mathMax ≤ deletedAt)

/-- `filterVisible`. -/
def filterVisible (rows : List (JsString × Row pg c)) : List (JsString × Row pg c) :=
  rows.filter fun e => !isSyncDeleted e.2

/-- The rows of a parent, in no order a caller may count on. -/
def Database.children (db : Database pg) (c : SyncCollection) (parent : JsString) :
    List (JsString × Row pg c) :=
  ((db.table c).entries.map fun e => (e.1, e.2)).filter fun e =>
    e.2.text (parentProperty c) = some parent

/-- `ListsService.findAll`. -/
def ListsService.findAll (db : Database pg) (boardId orgId : JsString) :
    Except Failure (List (JsString × Row pg .lists)) := do
  let board ← assertBoardInOrg db boardId orgId
  return filterVisible (db.children .lists board.1)

/-- `CardsService.findAll`. -/
def CardsService.findAll (db : Database pg) (listId orgId : JsString) :
    Except Failure (List (JsString × Row pg .cards)) := do
  let list ← assertListInOrg db listId orgId
  return filterVisible (db.children .cards list.1)

/-! ## Removing -/

/-- `manager.remove`. -/
def Database.remove (db : Database pg) (c : SyncCollection) (k : JsString) : Database pg :=
  { db with table := Function.update db.table c ((db.table c).erase k) }

/-- `ON DELETE CASCADE` of a list's cards. -/
def Database.removeCardsOf (db : Database pg) (list : JsString) : Database pg :=
  { db with
    table := Function.update db.table .cards ((db.table .cards).filterMapValues fun card =>
      if card.text "listId" = some list then none else some card) }

/-- `CardsService.remove`. -/
def CardsService.remove (db : Database pg) (id orgId : JsString) :
    Except Failure (Database pg) := do
  let found ← assertCardInOrg db id orgId
  return db.remove .cards found.1

/-- `ListsService.remove`. -/
def ListsService.remove (db : Database pg) (id orgId : JsString) :
    Except Failure (Database pg) := do
  let found ← assertListInOrg db id orgId
  return (db.remove .lists found.1).removeCardsOf found.1

/-! ## `ListsService.create` -/

/-- `CreateListDto`: the title, and the position key. -/
structure CreateListDto where
  content : JsObject Json
  content_keys : ∀ key ∈ content.keys, key ∈ ["title"]
  positionIdx : Option JsString

namespace ListsService

/-- `resolvePosition`: a validated key of the client, or one after the last list of
the board. -/
def resolvePosition (db : Database pg) (boardId : JsString) :
    Option JsString → Except Failure JsString
  | some provided => do
      assertValid (.str provided)
      return provided
  | none => resolvePositionKey db .lists boardId none

/-- `manager.create(List, { ...dto, boardId, positionIdx })`, over the entity's
initializers. -/
def newList (now : Int) (boardId positionIdx : JsString) (dto : CreateListDto) : Entity where
  columns := (Dict.ofList [("isArchived", .bool false)]).assign
    (dto.content.assign
      (Dict.ofList [("boardId", .str boardId), ("positionIdx", .str positionIdx)]))
  createdAt := now
  syncClocks := ∅
  nodeId := none
  syncDeletedAt := none

/-- `ListsService.create`.  `id` and `now` are the defaults `gen_random_uuid()` and
`now()`. -/
def create (db : Database pg) (boardId orgId id : JsString) (now : Int) (dto : CreateListDto) :
    Except Failure (Database pg) := do
  let _ ← assertBoardInOrg db boardId orgId
  let positionIdx ← resolvePosition db boardId dto.positionIdx
  let row ← insertEntity .lists (newList now boardId positionIdx dto)
  if (db.find .lists id).isSome then throw .rejectedStatement
  return db.put id row

end ListsService

/-! ## What a removal leaves -/

namespace Database

theorem find_remove (db : Database pg) (k j : JsString) :
    (db.remove c k).find c j = if j = k then none else db.find c j := by
  simp only [find, remove, Function.update_self]
  split
  · rename_i h
    rw [h, AList.lookup_erase]
  · rename_i h
    rw [AList.lookup_erase_ne h]

theorem find_remove_of_ne (db : Database pg) (k j : JsString) {c' : SyncCollection}
    (h : c' ≠ c) : (db.remove c k).find c' j = db.find c' j := by
  simp [find, remove, h]

theorem find_removeCardsOf (db : Database pg) (list j : JsString) :
    (db.removeCardsOf list).find .cards j =
      (db.find .cards j).filter fun card => card.text "listId" ≠ some list := by
  simp only [find, removeCardsOf, Function.update_self, Dict.lookup_filterMapValues]
  cases (db.table .cards).lookup j with
  | none => rfl
  | some card =>
      rw [Option.bind_some, Option.filter_some]
      split <;> simp_all

theorem find_removeCardsOf_of_ne (db : Database pg) (list j : JsString) {c' : SyncCollection}
    (h : c' ≠ .cards) : (db.removeCardsOf list).find c' j = db.find c' j := by
  simp [find, removeCardsOf, h]

/-- The children of a parent are the rows that name it. -/
theorem mem_children {db : Database pg} {parent k : JsString} {row : Row pg c} :
    (k, row) ∈ db.children c parent ↔
      db.find c k = some row ∧ row.text (parentProperty c) = some parent := by
  rw [children, List.mem_filter, decide_eq_true_iff]
  exact and_congr_left fun _ => Dict.mem_pairs

theorem nodup_children (db : Database pg) (parent : JsString) :
    ((db.children c parent).map Prod.fst).Nodup := by
  refine List.Nodup.sublist (List.Sublist.map _ List.filter_sublist) ?_
  rw [List.map_map]
  exact (db.table c).nodupKeys

end Database

end FlowLogix.Server

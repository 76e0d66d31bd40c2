/-
  Server/WebCalls.lean --- the calls of the web that change a board, with the event
  each of them emits (backend/src/cards/cards.service.ts, lists/lists.service.ts).

  An event is about the rows as the service has them in memory: a created card and a
  created list name their parent the way the request did, and a removal names the
  record the way the request did.  The board is that of the loaded row, but for a
  created list, where it is the request's.
-/
import FlowLogix.Server.BoardEndpoints
import FlowLogix.Server.Crud
import FlowLogix.Server.WebEffects

set_option autoImplicit false

namespace FlowLogix.Server

open FlowLogix.Foundation

variable {pg : Postgres} {db db' : Database pg}

/-! ## Calls -/

/-- The writing calls of `CardsService` and `ListsService`.  `id` and `now` of a create
are the defaults of its columns. -/
inductive WebCall where
  | createCard (listId id : JsString) (now : Int) (dto : CreateCardDto)
  | updateCard (id : JsString) (dto : UpdateCardDto)
  | removeCard (id : JsString)
  | createList (boardId id : JsString) (now : Int) (dto : CreateListDto)
  | updateList (id : JsString) (dto : UpdateListDto)
  | removeList (id : JsString)

/-- `list.boardId`. -/
def Row.boardId (list : Row pg .lists) : JsString := (list.text "boardId").getD []

/-- `card.list.boardId`. -/
def Database.boardOfCard (db : Database pg) (card : Row pg .cards) : JsString :=
  (((card.text "listId").bind (db.find .lists)).bind (·.text "boardId")).getD []

/-- The event of `CardsService.create`. -/
def CardsService.eventForCreate (list : Row pg .lists) (listId id positionIdx : JsString) :
    PendingBoardEvent where
  type := .cardCreated
  boardId := list.boardId
  cardId := some id
  listId := listId
  positionIdx := some positionIdx

/-- The event of `CardsService.remove`. -/
def CardsService.eventForRemove (db : Database pg) (id : JsString) (card : Row pg .cards) :
    PendingBoardEvent where
  type := .cardDeleted
  boardId := db.boardOfCard card
  cardId := some id
  listId := (card.text "listId").getD []
  positionIdx := none

/-- The event of `ListsService.create`. -/
def ListsService.eventForCreate (boardId id positionIdx : JsString) : PendingBoardEvent where
  type := .listCreated
  boardId := boardId
  cardId := none
  listId := id
  positionIdx := some positionIdx

/-- The event of `ListsService.update`. -/
def ListsService.eventForSave (k : JsString) (list : Row pg .lists) (dto : UpdateListDto) :
    PendingBoardEvent where
  type := .listUpdated
  boardId := ((list.toEntity.assign dto.content).text "boardId").getD []
  cardId := none
  listId := k
  positionIdx := (list.toEntity.assign dto.content).text "positionIdx"

/-- The event of `ListsService.remove`. -/
def ListsService.eventForRemove (id : JsString) (list : Row pg .lists) : PendingBoardEvent where
  type := .listDeleted
  boardId := list.boardId
  cardId := none
  listId := id
  positionIdx := none

/-- A call that commits: the tables it leaves and the event it emits. -/
def WebCall.run (orgId : JsString) (db : Database pg) :
    WebCall → Except Failure (Database pg × PendingBoardEvent)
  | .createCard listId id now dto => do
      let db' ← CardsService.create db listId orgId id now dto
      let list ← assertListInOrg db listId orgId
      let positionIdx ← CardsService.resolvePosition db listId dto.positionIdx
      return (db', CardsService.eventForCreate list.2 listId id positionIdx)
  | .updateCard id dto => do
      let db' ← CardsService.update db id orgId dto
      let loaded ← CardsService.load db id orgId
      let nextPositionIdx ← CardsService.place db id dto loaded
      return (db', CardsService.eventForSave dto loaded nextPositionIdx)
  | .removeCard id => do
      let db' ← CardsService.remove db id orgId
      let card ← assertCardInOrg db id orgId
      return (db', CardsService.eventForRemove db id card.2)
  | .createList boardId id now dto => do
      let db' ← ListsService.create db boardId orgId id now dto
      let positionIdx ← ListsService.resolvePosition db boardId dto.positionIdx
      return (db', ListsService.eventForCreate boardId id positionIdx)
  | .updateList id dto => do
      let db' ← ListsService.update db id orgId dto
      let list ← assertListInOrg db id orgId
      return (db', ListsService.eventForSave list.1 list.2 dto)
  | .removeList id => do
      let db' ← ListsService.remove db id orgId
      let list ← assertListInOrg db id orgId
      return (db', ListsService.eventForRemove id list.2)

/-! ## What a call does -/

section Inversion

variable {orgId id : JsString} {event : PendingBoardEvent}

/-- What a card update does: the row is written over, and the event is that of the save. -/
theorem WebCall.updateCard_eq_ok {dto : UpdateCardDto}
    (h : (WebCall.updateCard id dto).run orgId db = .ok (db', event)) :
    ∃ loaded next, ∃ row row' : Row pg .cards, CardsService.load db id orgId = .ok loaded ∧
      CardsService.checkTarget db orgId dto loaded = .ok () ∧
      CardsService.place db id dto loaded = .ok next ∧
      pg.uuid id = some loaded.key ∧ db.find .cards loaded.key = some row ∧
      loaded.card = row.toEntity ∧ loaded.listId = (row.text "listId").getD [] ∧
      db' = db.put loaded.key row' ∧ SaveEffect row row' (CardsService.assigned dto next) ∧
      event = CardsService.eventForSave dto loaded next := by
  obtain ⟨_, hupdate, h⟩ := bind_eq_ok.mp h
  obtain ⟨loaded, hload, h⟩ := bind_eq_ok.mp h
  obtain ⟨next, hplace, h⟩ := bind_eq_ok.mp h
  obtain ⟨rfl, rfl⟩ := Prod.mk.inj (Except.ok.inj h)
  obtain ⟨loaded', next', hload', htarget, hplace', hsave⟩ :=
    CardsService.updateAcross_eq_ok hupdate
  obtain rfl : loaded = loaded' := Except.ok.inj (hload.symm.trans hload')
  obtain rfl : next = next' := Except.ok.inj (hplace.symm.trans hplace')
  obtain ⟨row, hk, -, hfind, hcard, hlistId⟩ := CardsService.load_eq_ok hload
  rw [hcard] at hsave
  obtain ⟨row', rfl, heffect⟩ := saveEntity_eq_ok hfind hsave
  exact ⟨loaded, next, row, row', hload, htarget, hplace, hk, hfind, hcard, hlistId, rfl, heffect,
    rfl⟩

theorem WebCall.removeCard_eq_ok (h : (WebCall.removeCard id).run orgId db = .ok (db', event)) :
    ∃ k, ∃ row : Row pg .cards, pg.uuid id = some k ∧ db.find .cards k = some row ∧
      db' = db.remove .cards k ∧ event = CardsService.eventForRemove db id row := by
  obtain ⟨_, hremove, h⟩ := bind_eq_ok.mp h
  obtain ⟨⟨k, row⟩, hfound, hremove, h⟩ := bind_eq_ok_both hremove h
  obtain ⟨rfl, rfl⟩ := Prod.mk.inj (Except.ok.inj h)
  obtain ⟨hk, -, hfind⟩ := assertInOrg_eq_ok hfound
  exact ⟨k, row, hk, hfind, (Except.ok.inj hremove).symm, rfl⟩

theorem WebCall.removeList_eq_ok (h : (WebCall.removeList id).run orgId db = .ok (db', event)) :
    ∃ k, ∃ row : Row pg .lists, pg.uuid id = some k ∧ db.find .lists k = some row ∧
      db' = (db.remove .lists k).removeCardsOf k ∧
      event = ListsService.eventForRemove id row := by
  obtain ⟨_, hremove, h⟩ := bind_eq_ok.mp h
  obtain ⟨⟨k, row⟩, hfound, hremove, h⟩ := bind_eq_ok_both hremove h
  obtain ⟨rfl, rfl⟩ := Prod.mk.inj (Except.ok.inj h)
  obtain ⟨hk, -, hfind⟩ := assertInOrg_eq_ok hfound
  exact ⟨k, row, hk, hfind, (Except.ok.inj hremove).symm, rfl⟩

theorem WebCall.createCard_eq_ok {listId : JsString} {now : Int} {dto : CreateCardDto}
    (h : (WebCall.createCard listId id now dto).run orgId db = .ok (db', event)) :
    ∃ l positionIdx, ∃ list : Row pg .lists, ∃ row : Row pg .cards, pg.uuid listId = some l ∧
      db.find .lists l = some list ∧ db.find .cards id = none ∧
      insertEntity .cards (CardsService.newCard now listId positionIdx dto) = .ok row ∧
      db' = db.put id row ∧ event = CardsService.eventForCreate list listId id positionIdx := by
  obtain ⟨_, hcreate, h⟩ := bind_eq_ok.mp h
  obtain ⟨⟨l, list⟩, hfound, hcreate, h⟩ := bind_eq_ok_both hcreate h
  obtain ⟨positionIdx, -, hcreate, h⟩ := bind_eq_ok_both hcreate h
  obtain ⟨rfl, rfl⟩ := Prod.mk.inj (Except.ok.inj h)
  obtain ⟨row, hrow, hcreate⟩ := bind_eq_ok.mp hcreate
  obtain ⟨hl, -, hfind⟩ := assertInOrg_eq_ok hfound
  cases hfree : db.find .cards id with
  | some current =>
      rw [hfree] at hcreate
      cases hcreate
  | none =>
      rw [hfree] at hcreate
      exact ⟨l, positionIdx, list, row, hl, hfind, rfl, hrow, (Except.ok.inj hcreate).symm, rfl⟩

theorem WebCall.createList_eq_ok {boardId : JsString} {now : Int} {dto : CreateListDto}
    (h : (WebCall.createList boardId id now dto).run orgId db = .ok (db', event)) :
    ∃ b positionIdx, ∃ row : Row pg .lists, pg.uuid boardId = some b ∧
      db.find .lists id = none ∧
      insertEntity .lists (ListsService.newList now boardId positionIdx dto) = .ok row ∧
      db' = db.put id row ∧ event = ListsService.eventForCreate boardId id positionIdx := by
  obtain ⟨_, hcreate, h⟩ := bind_eq_ok.mp h
  obtain ⟨⟨b, board⟩, hfound, hcreate⟩ := bind_eq_ok.mp hcreate
  obtain ⟨positionIdx, -, hcreate, h⟩ := bind_eq_ok_both hcreate h
  obtain ⟨rfl, rfl⟩ := Prod.mk.inj (Except.ok.inj h)
  obtain ⟨row, hrow, hcreate⟩ := bind_eq_ok.mp hcreate
  obtain ⟨hb, -, -⟩ := assertInOrg_eq_ok hfound
  cases hfree : db.find .lists id with
  | some current =>
      rw [hfree] at hcreate
      cases hcreate
  | none =>
      rw [hfree] at hcreate
      exact ⟨b, positionIdx, row, hb, rfl, hrow, (Except.ok.inj hcreate).symm, rfl⟩

theorem WebCall.updateList_eq_ok {dto : UpdateListDto}
    (h : (WebCall.updateList id dto).run orgId db = .ok (db', event)) :
    ∃ k, ∃ row row' : Row pg .lists, pg.uuid id = some k ∧ db.find .lists k = some row ∧
      db' = db.put k row' ∧ SaveEffect row row' dto.content ∧
      event = ListsService.eventForSave k row dto := by
  obtain ⟨_, hupdate, h⟩ := bind_eq_ok.mp h
  obtain ⟨⟨k, row⟩, hfound, hupdate, h⟩ := bind_eq_ok_both hupdate h
  obtain ⟨rfl, rfl⟩ := Prod.mk.inj (Except.ok.inj h)
  obtain ⟨_, -, hsave⟩ := bind_eq_ok.mp hupdate
  obtain ⟨hk, -, hfind⟩ := assertInOrg_eq_ok hfound
  obtain ⟨row', rfl, heffect⟩ := saveEntity_eq_ok hfind hsave
  exact ⟨k, row, row', hk, hfind, rfl, heffect, rfl⟩

end Inversion

end FlowLogix.Server

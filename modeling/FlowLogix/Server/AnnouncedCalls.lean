/-
  Server/AnnouncedCalls.lean --- the calls of the web announce what they change.

  A card update moves a card within its board, so its one event is for the board of both
  places.  A created row has no place before, a removed one none after.

  `ListsService.create` names the board as the request did, while the row holds the
  board's canonical id: the event is for the board only where the two are the same.
-/
import FlowLogix.Server.ShownPlaces

set_option autoImplicit false

namespace FlowLogix.Server

open FlowLogix.Foundation

variable {pg : Postgres} {c : SyncCollection} {db db' : Database pg} {orgId id k : JsString}
  {event : PendingBoardEvent}

/-- The `boolean` column of the archive flag keeps `false`. -/
def KeepsFlags (pg : Postgres) : Prop :=
  ∀ c w, pg.store c "isArchived" (.bool false) = some w → w = .bool false

/-! ## The board of a shown card -/

theorem list_of_showing {listId board : JsString} (h : db.boardShowing .cards listId = some board) :
    ∃ list : Row pg .lists, db.find .lists listId = some list ∧
      list.text "boardId" = some board := by
  obtain ⟨list, hfind, hshown⟩ := Option.bind_eq_some_iff.mp h
  rw [Row.shownParent] at hshown
  split at hshown
  · exact ⟨list, hfind, hshown⟩
  · cases hshown

/-- A list that shows its cards shows them on its board. -/
theorem boardId_of_showing {list : Row pg .lists} {listId board : JsString}
    (hfind : db.find .lists listId = some list)
    (h : db.boardShowing .cards listId = some board) : list.boardId = board := by
  obtain ⟨list', hfind', hboard⟩ := list_of_showing h
  obtain rfl : list = list' := Option.some.inj (hfind.symm.trans hfind')
  rw [Row.boardId, hboard, Option.getD_some]

theorem boardOfCard_of_showing {card : Row pg .cards} {listId board : JsString}
    (hlist : card.text "listId" = some listId)
    (h : db.boardShowing .cards listId = some board) : db.boardOfCard card = board := by
  obtain ⟨list, hfind, hboard⟩ := list_of_showing h
  rw [Database.boardOfCard, hlist, Option.bind_some, hfind, Option.bind_some, hboard,
    Option.getD_some]

/-- A shown card is on the board of its list. -/
theorem boardOfCard_of_placeOf {card : Row pg .cards} {p : Place} (h : db.placeOf card = some p) :
    db.boardOfCard card = p.board := by
  obtain ⟨-, hlist, hshowing, -⟩ := Database.placeOf_eq_some h
  exact boardOfCard_of_showing hlist hshowing

/-- A shown list is on its board. -/
theorem boardId_of_placeOf {list : Row pg .lists} {p : Place} (h : db.placeOf list = some p) :
    list.text "boardId" = some p.board := by
  obtain ⟨-, hboard, hshowing, -⟩ := Database.placeOf_eq_some h
  rw [show p.board = p.parent from (Option.some.inj hshowing).symm]
  exact hboard

/-! ## Cards -/

/-- The board a card update announces is that of the loaded row. -/
theorem CardsService.boardId_of_load {loaded : CardsService.LoadedCard} {row : Row pg .cards}
    (h : CardsService.load db id orgId = .ok loaded)
    (hfind : db.find .cards loaded.key = some row) : loaded.boardId = db.boardOfCard row := by
  obtain ⟨⟨k, row'⟩, hfound, h⟩ := bind_eq_ok.mp h
  obtain rfl := Except.ok.inj h
  obtain ⟨-, -, hfind'⟩ := assertInOrg_eq_ok hfound
  obtain rfl : row = row' := Option.some.inj (hfind.symm.trans hfind')
  rfl

/-- The list an update puts the card in is on the board of the loaded row. -/
theorem CardsService.list_of_checkTarget {dto : UpdateCardDto}
    {loaded : CardsService.LoadedCard} {listId l : JsString} {row : Row pg .cards}
    (hload : CardsService.load db id orgId = .ok loaded)
    (hfind : db.find .cards loaded.key = some row)
    (h : CardsService.checkTarget db orgId dto loaded = .ok ()) (hlist : dto.listId = some listId)
    (hl : pg.uuid listId = some l) :
    row.text "listId" = some l ∨ ∃ list : Row pg .lists, db.find .lists l = some list ∧
      list.text "boardId" = some loaded.boardId := by
  unfold CardsService.checkTarget CardsService.targetListId at h
  rw [hlist, Option.getD_some] at h
  by_cases hsame : listId = loaded.listId
  · obtain ⟨row', -, howner, hfind', -, hlistId⟩ := CardsService.load_eq_ok hload
    obtain rfl : row = row' := Option.some.inj (hfind.symm.trans hfind')
    rw [Database.owner, hfind, Option.bind_some] at howner
    obtain ⟨l', hl', -⟩ := Option.bind_eq_some_iff.mp howner
    have hl' : row.text "listId" = some l' := hl'
    rw [hl', Option.getD_some] at hlistId
    rw [hsame, hlistId, Row.text_eq_uuid hl'] at hl
    exact Or.inl (hl'.trans hl)
  · rw [if_neg hsame] at h
    obtain ⟨⟨l', list⟩, hfound, h⟩ := bind_eq_ok.mp h
    obtain ⟨hl', -, hlists⟩ := assertInOrg_eq_ok hfound
    obtain rfl : l = l' := Option.some.inj (hl.symm.trans hl')
    refine Or.inr ⟨list, hlists, ?_⟩
    by_contra hboard
    rw [if_neg hboard] at h
    cases h

theorem WebCall.announced_updateCard {dto : UpdateCardDto}
    (h : (WebCall.updateCard id dto).run orgId db = .ok (db', event)) :
    Announced db db' [event] := by
  obtain ⟨loaded, next, row, row', hload, htarget, -, -, hfind, -, -, rfl, heffect, rfl⟩ :=
    WebCall.updateCard_eq_ok h
  have hboard := CardsService.boardId_of_load hload hfind
  refine announced_put_iff.mpr (Or.inr ?_)
  rintro p (hp | hp)
  · rw [Database.place_of_find hfind] at hp
    exact ⟨_, List.mem_singleton_self _, hboard.trans (boardOfCard_of_placeOf hp)⟩
  · refine ⟨_, List.mem_singleton_self _, ?_⟩
    show loaded.boardId = p.board
    obtain ⟨-, hparent, hshowing, -⟩ := Database.placeOf_eq_some hp
    have hassigned := CardsService.lookup_assigned_listId dto next
    -- the list the card is in now: the one it was in, or the one that was checked
    have hlist : row.text "listId" = some p.parent ∨ ∃ list : Row pg .lists,
        db.find .lists p.parent = some list ∧ list.text "boardId" = some loaded.boardId := by
      cases hdto : dto.listId with
      | none =>
          rw [hdto, Option.map_none] at hassigned
          left
          rw [← Row.text_congr (heffect.kept _ (AList.lookup_eq_none.mp hassigned))]
          exact hparent
      | some listId =>
          rw [hdto, Option.map_some] at hassigned
          obtain ⟨w, hstore, hw⟩ := heffect.assigned _ _ hassigned
          obtain ⟨l, hl, rfl⟩ := pg.store_parent .cards _ _ hstore
          have htext : row'.text "listId" = some l := by rw [Row.text, hw]
          obtain rfl : l = p.parent := Option.some.inj (htext.symm.trans hparent)
          exact CardsService.list_of_checkTarget hload hfind htarget hdto hl
    rcases hlist with hlist | ⟨list, hlists, htext⟩
    · rw [hboard]
      exact boardOfCard_of_showing hlist hshowing
    · have hboardId := boardId_of_showing hlists hshowing
      rwa [Row.boardId, htext, Option.getD_some] at hboardId

theorem WebCall.announced_removeCard (h : (WebCall.removeCard id).run orgId db = .ok (db', event)) :
    Announced db db' [event] := by
  obtain ⟨k, row, -, hfind, rfl, rfl⟩ := WebCall.removeCard_eq_ok h
  refine announced_of_remove fun p hp => ⟨_, List.mem_singleton_self _, ?_⟩
  rw [Database.place_of_find hfind] at hp
  exact boardOfCard_of_placeOf hp

theorem CardsService.lookup_newCard_listId (now : Int) (listId positionIdx : JsString)
    (dto : CreateCardDto) :
    (CardsService.newCard now listId positionIdx dto).columns.lookup "listId" =
      some (.str listId) := by
  simp [CardsService.newCard, Dict.lookup_assign, Dict.ofList, Dict.lookup_singleton_eq]

theorem WebCall.announced_createCard {listId : JsString} {now : Int} {dto : CreateCardDto}
    (h : (WebCall.createCard listId id now dto).run orgId db = .ok (db', event)) :
    Announced db db' [event] := by
  obtain ⟨l, positionIdx, list, row, hl, hfind, hfree, hrow, rfl, rfl⟩ :=
    WebCall.createCard_eq_ok h
  refine announced_put_iff.mpr (Or.inr ?_)
  rintro p (hp | hp)
  · rw [Database.place, hfree] at hp
    cases hp
  · refine ⟨_, List.mem_singleton_self _, ?_⟩
    obtain ⟨-, hparent, hshowing, -⟩ := Database.placeOf_eq_some hp
    obtain ⟨w, hstore, hw⟩ := (insertEntity_eq_ok hrow).1 _ _
      (CardsService.lookup_newCard_listId now listId positionIdx dto)
    obtain ⟨l', hl', rfl⟩ := pg.store_parent .cards _ _ hstore
    have htext : row.text "listId" = some l' := by rw [Row.text, hw]
    obtain rfl : l = l' := Option.some.inj (hl.symm.trans hl')
    obtain rfl : l = p.parent := Option.some.inj (htext.symm.trans hparent)
    exact boardId_of_showing hfind hshowing

/-! ## Lists -/

theorem WebCall.announced_removeList (h : (WebCall.removeList id).run orgId db = .ok (db', event)) :
    Announced db db' [event] := by
  obtain ⟨k, row, -, hfind, rfl, rfl⟩ := WebCall.removeList_eq_ok h
  refine announced_of_removeList fun p hp => ⟨_, List.mem_singleton_self _, ?_⟩
  rw [Database.place_of_find hfind] at hp
  show row.boardId = p.board
  rw [Row.boardId, boardId_of_placeOf hp, Option.getD_some]

theorem WebCall.announced_updateList {dto : UpdateListDto}
    (h : (WebCall.updateList id dto).run orgId db = .ok (db', event)) :
    Announced db db' [event] := by
  obtain ⟨k, row, row', -, hfind, rfl, heffect, rfl⟩ := WebCall.updateList_eq_ok h
  have hcontent : "boardId" ∉ dto.content := fun hmem =>
    absurd (dto.content_keys _ (AList.mem_keys.mp hmem)) (by decide)
  have htext : row'.text "boardId" = row.text "boardId" := Row.text_congr (heffect.kept _ hcontent)
  have hevent : (ListsService.eventForSave k row dto).boardId = (row.text "boardId").getD [] := by
    have hlookup : (row.toEntity.assign dto.content).columns.lookup "boardId" =
        row.columns.lookup "boardId" := by
      rw [Entity.assign, Dict.lookup_assign, AList.lookup_eq_none.mpr hcontent, Option.none_or]
      rfl
    rw [ListsService.eventForSave, Entity.text, hlookup, asString_lookup]
  refine announced_put_iff.mpr (Or.inr ?_)
  rintro p (hp | hp)
  · rw [Database.place_of_find hfind] at hp
    refine ⟨_, List.mem_singleton_self _, ?_⟩
    rw [hevent, boardId_of_placeOf hp, Option.getD_some]
  · refine ⟨_, List.mem_singleton_self _, ?_⟩
    rw [hevent, ← htext, boardId_of_placeOf hp, Option.getD_some]

theorem insertEntity_syncDeletedAt {entity : Entity} {row : Row pg c}
    (h : insertEntity c entity = .ok row) : row.syncDeletedAt = entity.syncDeletedAt := by
  obtain ⟨_, -, h⟩ := bind_eq_ok.mp h
  obtain ⟨_, -, hsync⟩ := bind_eq_ok.mp h
  exact (Row.writeSync_eq_ok hsync).2.2.1

theorem ListsService.lookup_newList_boardId (now : Int) (boardId positionIdx : JsString)
    (dto : CreateListDto) :
    (ListsService.newList now boardId positionIdx dto).columns.lookup "boardId" =
      some (.str boardId) := by
  simp [ListsService.newList, Dict.lookup_assign, Dict.ofList, Dict.lookup_singleton_eq]

theorem ListsService.lookup_newList_isArchived (now : Int) (boardId positionIdx : JsString)
    (dto : CreateListDto) :
    (ListsService.newList now boardId positionIdx dto).columns.lookup "isArchived" =
      some (.bool false) := by
  have hcontent : dto.content.lookup "isArchived" = none := AList.lookup_eq_none.mpr fun hmem =>
    absurd (dto.content_keys _ (AList.mem_keys.mp hmem)) (by decide)
  simp [ListsService.newList, Dict.lookup_assign, Dict.ofList, Dict.lookup_singleton_eq, hcontent]

/-- A created list is shown on its board. -/
theorem placeOf_newList (hpg : KeepsFlags pg) {boardId positionIdx b : JsString} {now : Int}
    {dto : CreateListDto} {row : Row pg .lists} (hb : pg.uuid boardId = some b)
    (h : insertEntity .lists (ListsService.newList now boardId positionIdx dto) = .ok row) :
    db.placeOf row = some ⟨b, b, row.text "positionIdx"⟩ := by
  obtain ⟨hstores, -⟩ := insertEntity_eq_ok h
  obtain ⟨w, hstore, hw⟩ := hstores _ _ (ListsService.lookup_newList_boardId now boardId _ dto)
  obtain ⟨b', hb', rfl⟩ := pg.store_parent .lists _ _ hstore
  obtain rfl : b = b' := Option.some.inj (hb.symm.trans hb')
  obtain ⟨flag, hflag, harchived⟩ :=
    hstores _ _ (ListsService.lookup_newList_isArchived now boardId _ dto)
  obtain rfl := hpg _ _ hflag
  have hdeleted : row.syncDeletedAt = none := insertEntity_syncDeletedAt h
  have hshown : isShown row = true := by simp [isShown, isSyncDeleted, hdeleted, harchived]
  have htext : row.text (parentProperty .lists) = some b := by rw [Row.text, parentProperty, hw]
  rw [Database.placeOf, Row.shownParent, if_pos hshown, htext]
  rfl

/-- A created list is announced exactly where the request names the board by its
canonical id. -/
theorem WebCall.announced_createList_iff (hpg : KeepsFlags pg) {boardId : JsString} {now : Int}
    {dto : CreateListDto}
    (h : (WebCall.createList boardId id now dto).run orgId db = .ok (db', event)) :
    Announced db db' [event] ↔ pg.uuid boardId = some boardId := by
  obtain ⟨b, positionIdx, row, hb, hfree, hrow, rfl, rfl⟩ := WebCall.createList_eq_ok h
  have hbefore : db.place .lists id = none := by rw [Database.place, hfree, Option.bind_none]
  have hafter : db.placeOf row = _ := placeOf_newList hpg hb hrow
  rw [announced_put_iff, hbefore, hafter, hb]
  constructor
  · intro hannounced
    obtain ⟨e, he, hboard⟩ := hannounced.resolve_left (by simp) ⟨b, b, _⟩ (Or.inr rfl)
    obtain rfl := List.mem_singleton.mp he
    exact congrArg some hboard.symm
  · intro hcanonical
    refine Or.inr ?_
    rintro p (hp | hp)
    · cases hp
    · obtain rfl := Option.some.inj hp
      exact ⟨_, List.mem_singleton_self _, (Option.some.inj hcanonical).symm⟩

/-! ## Calls -/

/-- The request of a created list names the board by its canonical id. -/
def WebCall.NamesCanonically (pg : Postgres) : WebCall → Prop
  | .createList boardId _ _ _ => pg.uuid boardId = some boardId
  | _ => True

/-- **A call of the web is announced** exactly where it names its board canonically. -/
theorem WebCall.announced_iff (hpg : KeepsFlags pg) {call : WebCall}
    (h : call.run orgId db = .ok (db', event)) :
    Announced db db' [event] ↔ call.NamesCanonically pg := by
  cases call with
  | createCard listId id now dto => exact iff_of_true (announced_createCard h) trivial
  | updateCard id dto => exact iff_of_true (announced_updateCard h) trivial
  | removeCard id => exact iff_of_true (announced_removeCard h) trivial
  | createList boardId id now dto => exact announced_createList_iff hpg h
  | updateList id dto => exact iff_of_true (announced_updateList h) trivial
  | removeList id => exact iff_of_true (announced_removeList h) trivial

end FlowLogix.Server

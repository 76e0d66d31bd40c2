/-
  Web/RemoteMutations.lean --- applying a live frame to the board
  (frontend/src/store/types.ts, store/remoteMutations.ts).

  The board is a list of lists, each an order of card ids, and the cards by id.  A
  frame that moves or deletes is applied to it; one that changes content, or names
  something the board does not have, asks for the board to be loaded again.  An empty
  id counts as none, as `!cardId` does.

  Ids are uuids or made by `createId`, so none is named like a member of
  `Object.prototype`, and `cards[id]` and `moveVersions[id]` read own properties.
-/
import FlowLogix.Server.SyncService
import FlowLogix.Foundation.Dict

set_option autoImplicit false

namespace FlowLogix.Web

open FlowLogix.Foundation FlowLogix.Server

/-! ## The board -/

abbrev Id : Type := JsString

/-- `CardPriority`. -/
inductive CardPriority where
  | low
  | medium
  | high
  deriving DecidableEq, Repr

/-- `ChecklistItem`. -/
structure ChecklistItem where
  id : Id
  label : JsString
  done : Bool
  deriving DecidableEq

/-- `Card`. -/
structure Card where
  id : Id
  title : JsString
  description : Option JsString
  priority : CardPriority
  assigneeIds : List Id
  checklist : List ChecklistItem
  isComplete : Bool
  positionIdx : Option JsString
  deriving DecidableEq

/-- `List`. -/
structure BoardList where
  id : Id
  title : JsString
  cardIds : List Id
  deriving DecidableEq

/-- `BoardState`. -/
structure BoardState where
  lists : List BoardList
  cards : Dict Id Card

/-- The list with an id. -/
def findList (lists : List BoardList) (id : Id) : Option BoardList :=
  lists.find? fun l => l.id = id

/-! ## `reconcileRemoteMutation` -/

/-- `ReconcilePatch`: the lists and cards are replaced together or not at all. -/
inductive ReconcilePatch where
  | none
  | board (lists : List BoardList) (cards : Dict Id Card)
  | needsResync

/-- An id of a payload, if it is not empty. -/
def namedId (id : Option Id) : Option Id := id.filter fun s => s ≠ []

/-- `insertionIndexForKey`: before the first sibling with a greater key, or at the end. -/
def insertionIndexForKey (orderedCardIds : List Id) (cards : Dict Id Card) (key : JsString) : Nat :=
  orderedCardIds.findIdx fun id =>
    ((cards.lookup id).bind Card.positionIdx).any fun siblingKey => decide (key < siblingKey)

/-- The lists with a card taken out wherever it is. -/
def withoutCard (lists : List BoardList) (cardId : Id) : List BoardList :=
  lists.map fun l => { l with cardIds := l.cardIds.filter fun id => id ≠ cardId }

/-- Taking a card out of a list that does not have it. -/
theorem filter_ne_of_not_mem {ids : List Id} {cardId : Id} (h : cardId ∉ ids) :
    (ids.filter fun id => id ≠ cardId) = ids := by
  refine List.filter_eq_self.mpr fun id hid => ?_
  have hne : id ≠ cardId := ne_of_mem_of_not_mem hid h
  simpa using hne

/-- Taking the card out only where it is. -/
theorem map_ite_eq_withoutCard (lists : List BoardList) (cardId : Id) :
    (lists.map fun l => if cardId ∈ l.cardIds then
      { l with cardIds := l.cardIds.filter fun id => id ≠ cardId } else l) =
      withoutCard lists cardId := by
  refine List.map_congr_left fun l _ => ?_
  split
  · rfl
  · rename_i hnot
    rw [filter_ne_of_not_mem hnot]

/-- The card put into a list by its key. -/
def placeByKey (cards : Dict Id Card) (cardId listId : Id) (positionIdx : JsString)
    (lists : List BoardList) : List BoardList :=
  let index := insertionIndexForKey (((findList lists listId).map BoardList.cardIds).getD []) cards
    positionIdx
  lists.map fun l =>
    if l.id = listId then
      { l with cardIds := l.cardIds.take index ++ cardId :: l.cardIds.drop index }
    else l

/-- A `card.moved` frame. -/
def reconcileMoved (state : BoardState) (payload : BoardMutationPayload) : ReconcilePatch :=
  match namedId payload.cardId, namedId payload.listId, payload.positionIdx with
  | some cardId, some listId, some positionIdx =>
      match state.cards.lookup cardId, findList state.lists listId with
      | some card, some _ =>
          .board (placeByKey state.cards cardId listId positionIdx (withoutCard state.lists cardId))
            (state.cards.insert cardId { card with positionIdx := some positionIdx })
      | _, _ => .needsResync
  | _, _, _ => .needsResync

/-- A `card.deleted` frame. -/
def reconcileDeleted (state : BoardState) (payload : BoardMutationPayload) : ReconcilePatch :=
  match namedId payload.cardId with
  | none => .none
  | some cardId =>
      if cardId ∈ state.cards then
        .board
          (state.lists.map fun l =>
            if cardId ∈ l.cardIds then
              { l with cardIds := l.cardIds.filter fun id => id ≠ cardId }
            else l)
          (state.cards.erase cardId)
      else .none

/-- A `list.deleted` frame: the list goes with its cards. -/
def reconcileListDeleted (state : BoardState) (payload : BoardMutationPayload) : ReconcilePatch :=
  match namedId payload.listId with
  | none => .none
  | some listId =>
      match findList state.lists listId with
      | none => .none
      | some removed =>
          .board (state.lists.filter fun l => l.id ≠ listId)
            (removed.cardIds.foldl (fun cards id => cards.erase id) state.cards)

/-- `reconcileRemoteMutation`. -/
def reconcileRemoteMutation (state : BoardState) (envelope : BoardMutationEnvelope) :
    ReconcilePatch :=
  match envelope.type with
  | .cardMoved => reconcileMoved state envelope.payload
  | .cardDeleted => reconcileDeleted state envelope.payload
  | .listDeleted => reconcileListDeleted state envelope.payload
  | .cardCreated | .cardUpdated | .listCreated | .listUpdated => .needsResync

end FlowLogix.Web

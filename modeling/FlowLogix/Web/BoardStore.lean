/-
  Web/BoardStore.lean --- the web board's store
  (frontend/src/store/useBoardStore.ts, store/persistence.ts).

  An action that waits for the server is a state change and a value that remembers
  what its completion needs: `PendingMove` for a move, `PendingCard` for a created
  card.  The completion is a second state change, of whatever state there is when the
  promise settles.

  Demo mode differs in that a created card gets its final id at once, and in that a
  move's promise resolves without a key.  The board's title, its members and the
  loading flags, which none of this reads, are left out.
-/
import FlowLogix.Web.RemoteMutations

set_option autoImplicit false

namespace FlowLogix.Web

open FlowLogix.Foundation FlowLogix.Server

/-- The slices of the store the actions work on. -/
structure BoardStore extends BoardState where
  moveVersions : Dict Id Nat
  moveError : Option JsString
  needsResync : Bool

namespace BoardStore

/-- `hydrateBoard`. -/
def hydrateBoard (snapshot : BoardState) : BoardStore where
  toBoardState := snapshot
  moveVersions := ∅
  moveError := none
  needsResync := false

/-- `moveVersions[cardId] ?? 0`. -/
def moveVersion (store : BoardStore) (cardId : Id) : Nat :=
  (store.moveVersions.lookup cardId).getD 0

/-- A move of the card counts. -/
def bump (store : BoardStore) (cardId : Id) : BoardStore :=
  { store with moveVersions := store.moveVersions.insert cardId (store.moveVersion cardId + 1) }

/-! ## `addCard` -/

/-- The card an `addCard` makes up. -/
def newCard (id : Id) (title : JsString) : Card where
  id := id
  title := title
  description := none
  priority := .medium
  assigneeIds := []
  checklist := []
  isComplete := false
  positionIdx := none

/-- The list a card is added to is there. -/
def hasList (store : BoardStore) (listId : Id) : Bool := store.lists.any fun l => l.id = listId

/-- The card is shown at the end of its list. -/
def showCard (store : BoardStore) (listId : Id) (card : Card) : BoardStore :=
  { store with
    cards := store.cards.insert card.id card
    lists := store.lists.map fun l =>
      if l.id = listId then { l with cardIds := l.cardIds ++ [card.id] } else l }

end BoardStore

/-- What the completion of an `addCard` needs. -/
structure PendingCard where
  listId : Id
  tempId : Id
  deriving DecidableEq

/-- How the creation of a card settles. -/
inductive CreateOutcome where
  /-- `mapApiCard` of the created card -/
  | resolved (mapped : Card)
  | rejected (message : JsString)

/-- The completion of an `addCard`. -/
def PendingCard.settle (pending : PendingCard) (store : BoardStore) : CreateOutcome → BoardStore
  | .resolved mapped =>
      { store with
        cards := (store.cards.erase pending.tempId).insert mapped.id mapped
        lists := store.lists.map fun l =>
          if l.id = pending.listId then
            { l with
              cardIds := l.cardIds.map fun id => if id = pending.tempId then mapped.id else id }
          else l }
  | .rejected message =>
      { store with
        cards := store.cards.erase pending.tempId
        lists := store.lists.map fun l =>
          if l.id = pending.listId then
            { l with cardIds := l.cardIds.filter fun id => id ≠ pending.tempId }
          else l
        moveError := some message }

/-! ## `moveCard` -/

/-- `splice(index, 0, id)`. -/
def spliceIn (ids : List Id) (index : Int) (id : Id) : List Id :=
  let i := (if index < 0 then index + ids.length else index).toNat
  ids.take i ++ id :: ids.drop i

/-- Change the first list with an id. -/
def modifyList (id : Id) (f : BoardList → BoardList) : List BoardList → List BoardList
  | [] => []
  | l :: rest => if l.id = id then f l :: rest else l :: modifyList id f rest

/-- Take a card out of one list and put it into another, or back into the same one. -/
def transfer (lists : List BoardList) (cardId fromListId toListId : Id) (toIndex : Int) :
    List BoardList :=
  modifyList toListId (fun l => { l with cardIds := spliceIn l.cardIds toIndex cardId })
    (modifyList fromListId (fun l => { l with cardIds := l.cardIds.erase cardId }) lists)

/-- What the completion of a move needs. -/
structure PendingMove where
  cardId : Id
  fromListId : Id
  toListId : Id
  originalIndex : Nat
  originalPositionIdx : Option JsString
  version : Nat
  deriving DecidableEq

namespace BoardStore

/-- `lists.find((l) => l.id === listId)?.cardIds`. -/
def cardIdsOf (store : BoardStore) (listId : Id) : List Id :=
  ((findList store.lists listId).map BoardList.cardIds).getD []

/-- The card with another key. -/
def setKey (store : BoardStore) (cardId : Id) (card : Card) (positionIdx : Option JsString) :
    BoardStore :=
  { store with cards := store.cards.insert cardId { card with positionIdx := positionIdx } }

/-- The optimistic update of a move: the card in its new place, without its key. -/
def showMove (store : BoardStore) (cardId fromListId toListId : Id) (toIndex : Int) : BoardStore :=
  match findList store.lists fromListId, findList store.lists toListId with
  | some source, some _ =>
      if cardId ∈ source.cardIds then
        { store with
          lists := transfer store.lists cardId fromListId toListId toIndex
          cards :=
            match store.cards.lookup cardId with
            | some card =>
                if card.positionIdx.isSome then
                  store.cards.insert cardId { card with positionIdx := none }
                else store.cards
            | none => store.cards
          moveError := none }
      else store
  | _, _ => store

/-- `moveCard` up to its promise; a card that is not in the list it is moved from stays. -/
def moveCard (store : BoardStore) (cardId fromListId toListId : Id) (toIndex : Int) :
    Option (BoardStore × PendingMove) :=
  if cardId ∈ store.cardIdsOf fromListId then
    some ((store.bump cardId).showMove cardId fromListId toListId toIndex,
      { cardId := cardId
        fromListId := fromListId
        toListId := toListId
        originalIndex := (store.cardIdsOf fromListId).idxOf cardId
        originalPositionIdx := (store.cards.lookup cardId).bind Card.positionIdx
        version := store.moveVersion cardId + 1 })
  else none

end BoardStore

/-- How the promise of a move settles. -/
inductive MoveOutcome where
  /-- with the key the server minted, in API mode -/
  | resolved (positionIdx : Option JsString)
  | rejected (message : JsString)

namespace PendingMove

/-- The card, if it is there and the move is its latest. -/
def latest (pending : PendingMove) (store : BoardStore) : Option Card :=
  if store.moveVersions.lookup pending.cardId = some pending.version then
    store.cards.lookup pending.cardId
  else none

/-- The rollback of a move that failed. -/
def rollback (pending : PendingMove) (store : BoardStore) (card : Card) (message : JsString) :
    BoardStore :=
  match findList store.lists pending.fromListId, findList store.lists pending.toListId with
  | some _, some target =>
      { store with
        lists :=
          if pending.cardId ∈ target.cardIds then
            transfer store.lists pending.cardId pending.toListId pending.fromListId
              pending.originalIndex
          else store.lists
        cards :=
          match pending.originalPositionIdx with
          | some key => store.cards.insert pending.cardId { card with positionIdx := some key }
          | none => store.cards
        moveError := some message }
  | _, _ => { store with moveError := some message }

/-- The completion of a move. -/
def settle (pending : PendingMove) (store : BoardStore) : MoveOutcome → BoardStore
  | .resolved none => store
  | .resolved (some key) =>
      match pending.latest store with
      | some card => store.setKey pending.cardId card (some key)
      | none => store
  | .rejected message =>
      match pending.latest store with
      | some card => pending.rollback store card message
      | none => { store with moveError := some message }

end PendingMove

/-! ## The other actions -/

namespace BoardStore

/-- `toggleChecklistItem`. -/
def toggleChecklistItem (store : BoardStore) (cardId itemId : Id) : BoardStore :=
  match store.cards.lookup cardId with
  | none => store
  | some card =>
      { store with
        cards := store.cards.insert cardId
          { card with
            checklist := card.checklist.map fun item =>
              if item.id = itemId then { item with done := !item.done } else item } }

/-- A patch merged into the store. -/
def patched (store : BoardStore) : ReconcilePatch → BoardStore
  | .none => store
  | .board lists cards => { store with lists := lists, cards := cards }
  | .needsResync => { store with needsResync := true }

/-- The card whose pending moves a frame overrules. -/
def overruled (envelope : BoardMutationEnvelope) : Option Id :=
  match envelope.type with
  | .cardMoved | .cardDeleted => namedId envelope.payload.cardId
  | _ => none

/-- `applyRemoteMutation`. -/
def applyRemoteMutation (store : BoardStore) (envelope : BoardMutationEnvelope) : BoardStore :=
  let patched := store.patched (reconcileRemoteMutation store.toBoardState envelope)
  match overruled envelope with
  | none => patched
  | some cardId => patched.bump cardId

end BoardStore

end FlowLogix.Web

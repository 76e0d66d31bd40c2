/-
  Web/WebBoard.lean --- a web board in use (frontend/src/store/useBoardStore.ts).

  `WebBoard` is the store with the promises that are pending.  A step is one action up
  to its promise, or the completion of one promise, which may resolve or reject at any
  later point.  What an action does between two of its `set` calls changes no list and
  no card, so it is one step.

  A pending move keeps the actions since it was issued, which no step reads.  A call
  of `moveCard` that does not find the card in the list returns before anything and
  issues no move; it is not among them.
-/
import FlowLogix.Web.BoardStore

set_option autoImplicit false

namespace FlowLogix.Web

open FlowLogix.Foundation FlowLogix.Server

/-- What happens on a board. -/
inductive Action where
  | moveCard (cardId fromListId toListId : Id) (toIndex : Int)
  /-- the promise of the `i`-th pending move settles -/
  | settleMove (i : Nat) (outcome : MoveOutcome)
  /-- with the id `createId` makes up -/
  | addCard (apiMode : Bool) (listId : Id) (title : JsString) (id : Id)
  /-- the promise of the `i`-th pending creation settles -/
  | settleCard (i : Nat) (outcome : CreateOutcome)
  | toggleChecklistItem (cardId itemId : Id)
  | applyRemoteMutation (envelope : BoardMutationEnvelope)
  | hydrateBoard (snapshot : BoardState)

/-- A pending move, with the actions since it was issued. -/
structure InFlight where
  move : PendingMove
  since : List Action

/-- The store and its pending promises. -/
structure WebBoard where
  store : BoardStore
  moves : List InFlight
  creations : List PendingCard

namespace WebBoard

/-- A board that was just loaded. -/
def loaded (snapshot : BoardState) : WebBoard where
  store := .hydrateBoard snapshot
  moves := []
  creations := []

/-- An action leaves the store so. -/
def after (w : WebBoard) (action : Action) (store : BoardStore) : WebBoard :=
  { w with
    store := store
    moves := w.moves.map fun f => { f with since := f.since ++ [action] } }

/-- `addCard` up to its promise; demo mode has none. -/
def addCard (w : WebBoard) (apiMode : Bool) (listId : Id) (title : JsString) (id : Id) :
    WebBoard :=
  if trim title = [] ∨ !w.store.hasList listId then w
  else
    let shown := w.store.showCard listId (BoardStore.newCard id (trim title))
    let w := w.after (.addCard apiMode listId title id)
      (if apiMode then { shown with moveError := none } else shown)
    if apiMode then { w with creations := w.creations ++ [{ listId := listId, tempId := id }] }
    else w

/-- One step. -/
def step (w : WebBoard) (action : Action) : Option WebBoard :=
  match action with
  | .moveCard cardId fromListId toListId toIndex =>
      match w.store.moveCard cardId fromListId toListId toIndex with
      | none => some w
      | some (store, move) =>
          let w := w.after action store
          some { w with moves := w.moves ++ [{ move := move, since := [] }] }
  | .settleMove i outcome =>
      w.moves[i]?.map fun f =>
        { w with moves := w.moves.eraseIdx i }.after action (f.move.settle w.store outcome)
  | .addCard apiMode listId title id => some (w.addCard apiMode listId title id)
  | .settleCard i outcome =>
      w.creations[i]?.map fun pending =>
        { w with creations := w.creations.eraseIdx i }.after action
          (pending.settle w.store outcome)
  | .toggleChecklistItem cardId itemId =>
      some (w.after action (w.store.toggleChecklistItem cardId itemId))
  | .applyRemoteMutation envelope =>
      some (w.after action (w.store.applyRemoteMutation envelope))
  | .hydrateBoard snapshot => some (w.after action (.hydrateBoard snapshot))

end WebBoard

end FlowLogix.Web

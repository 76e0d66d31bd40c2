/-
  Web/RemoteMove.lean --- what a card.moved frame does to the board
  (frontend/src/store/remoteMutations.ts).

  The card is taken out of every list and put into the one the frame names, before the
  first sibling with a greater key.  Cards without a key may stand anywhere in between;
  the keyed ones ascend before and after.
-/
import FlowLogix.Web.Standing
import FlowLogix.Foundation.SortByKey

set_option autoImplicit false

namespace FlowLogix.Web

open FlowLogix.Foundation FlowLogix.Server

variable {lists : List BoardList} {cards : Dict Id Card} {cardId listId : Id}
  {positionIdx : JsString}

/-- The key a card is shown with. -/
def keyOf (cards : Dict Id Card) (id : Id) : Option JsString :=
  (cards.lookup id).bind Card.positionIdx

/-- The keyed cards of a column come in ascending order. -/
def KeysAscend (cards : Dict Id Card) (ids : List Id) : Prop :=
  (ids.filterMap (keyOf cards)).Pairwise (· ≤ ·)

/-- The card is in the target list alone, where its key belongs, and carries that key;
nothing else changed. -/
structure MovedTo (s : BoardState) (cardId listId : Id) (card : Card) (positionIdx : JsString)
    (lists : List BoardList) (cards : Dict Id Card) : Prop where
  /-- every other card keeps its list and its place among the others -/
  others : withoutCard lists cardId = withoutCard s.lists cardId
  once : ∀ l ∈ lists, l.cardIds.count cardId = if l.id = listId then 1 else 0
  /-- the target's keys ascend, those before the card's equal or smaller, those after it
  greater -/
  place : ∃ l before after, findList lists listId = some l ∧ KeysAscend cards l.cardIds ∧
    l.cardIds = before ++ cardId :: after ∧
    (∀ id ∈ before, ∀ key, keyOf cards id = some key → key ≤ positionIdx) ∧
    ∀ id ∈ after, ∀ key, keyOf cards id = some key → positionIdx < key
  moved : cards.lookup cardId = some { card with positionIdx := some positionIdx }
  frame : ∀ id, id ≠ cardId → cards.lookup id = s.cards.lookup id

/-! ## Taking the card out -/

theorem findList_withoutCard (lists : List BoardList) (cardId listId : Id) :
    findList (withoutCard lists cardId) listId = (findList lists listId).map fun l =>
      { l with cardIds := l.cardIds.filter fun id => id ≠ cardId } := by
  rw [findList, withoutCard, List.find?_map]
  rfl

theorem not_mem_withoutCard {l : BoardList} (hl : l ∈ withoutCard lists cardId) :
    cardId ∉ l.cardIds := by
  obtain ⟨l, -, rfl⟩ := List.mem_map.mp hl
  simp

/-! ## Putting it back -/

/-- A card put where it is taken out again leaves the list without it. -/
theorem filter_insert_of_not_mem {ids : List Id} (h : cardId ∉ ids) (i : Nat) :
    ((ids.take i ++ cardId :: ids.drop i).filter fun id => id ≠ cardId) = ids := by
  rw [List.filter_append, List.filter_cons_of_neg (by simp), ← List.filter_append,
    List.take_append_drop, filter_ne_of_not_mem h]

/-- Putting a card into one list of a board without it leaves the others' order. -/
theorem withoutCard_placeByKey (h : ∀ l ∈ lists, cardId ∉ l.cardIds) :
    withoutCard (placeByKey cards cardId listId positionIdx lists) cardId = lists := by
  unfold withoutCard placeByKey
  rw [List.map_map]
  refine (List.map_congr_left fun l hl => ?_).trans (List.map_id _)
  rw [Function.comp_apply]
  split
  · rw [filter_insert_of_not_mem (h l hl), id_eq]
  · rw [filter_ne_of_not_mem (h l hl), id_eq]

theorem count_placeByKey (h : ∀ l ∈ lists, cardId ∉ l.cardIds) {l : BoardList}
    (hl : l ∈ placeByKey cards cardId listId positionIdx lists) :
    l.cardIds.count cardId = if l.id = listId then 1 else 0 := by
  obtain ⟨before, hbefore, rfl⟩ := List.mem_map.mp hl
  have hnone : before.cardIds.count cardId = 0 := List.count_eq_zero.mpr (h before hbefore)
  by_cases heq : before.id = listId
  · simp only [heq, if_true]
    rw [← spliceIn_natCast, count_spliceIn, hnone, if_pos rfl]
  · simp only [heq, if_false]
    exact hnone

/-- The other cards' keys are read as before. -/
theorem keyOf_insert_of_ne {id : Id} (hne : id ≠ cardId) (card : Card) :
    keyOf (cards.insert cardId card) id = keyOf cards id := by
  rw [keyOf, keyOf, AList.lookup_insert_ne hne]

theorem filterMap_keyOf_insert {ids : List Id} (h : cardId ∉ ids) (card : Card) :
    ids.filterMap (keyOf (cards.insert cardId card)) = ids.filterMap (keyOf cards) := by
  exact List.filterMap_congr fun id hid => keyOf_insert_of_ne (ne_of_mem_of_not_mem hid h) card

/-- In a column whose keys ascend the moved card goes where its key belongs. -/
theorem keysAscend_insert {ids : List Id} (h : cardId ∉ ids) (hsorted : KeysAscend cards ids)
    (card : Card) :
    KeysAscend (cards.insert cardId { card with positionIdx := some positionIdx })
      (ids.take (insertionIndexForKey ids cards positionIdx) ++
        cardId :: ids.drop (insertionIndexForKey ids cards positionIdx)) := by
  have hmoved : keyOf (cards.insert cardId { card with positionIdx := some positionIdx }) cardId =
      some positionIdx := by
    rw [keyOf, AList.lookup_insert, Option.bind_some]
  rw [KeysAscend, List.filterMap_append, List.filterMap_cons_some hmoved,
    filterMap_keyOf_insert (fun hmem => h (List.mem_of_mem_take hmem)),
    filterMap_keyOf_insert (fun hmem => h (List.mem_of_mem_drop hmem))]
  exact pairwise_insert_placeOf _ _ hsorted

/-! ## The frame -/

/-- The target list, after a card was put into it by its key. -/
theorem findList_placeByKey (hids : (lists.map BoardList.id).Nodup) {target : BoardList}
    (htarget : findList lists listId = some target) :
    findList (placeByKey cards cardId listId positionIdx lists) listId =
      some { target with
        cardIds := target.cardIds.take (insertionIndexForKey target.cardIds cards positionIdx) ++
          cardId :: target.cardIds.drop
            (insertionIndexForKey target.cardIds cards positionIdx) } := by
  rw [placeByKey, map_ite_eq_modifyList hids, findList_modifyList, htarget, Option.map_some,
    if_pos rfl]
  · rfl
  · exact fun _ => rfl

/-- A card put by its key into a list of a board it was taken out of. -/
theorem movedTo_placeByKey {s : BoardState} {target : BoardList}
    (hids : (s.lists.map BoardList.id).Nodup) (htarget : findList s.lists listId = some target)
    (hsorted : KeysAscend s.cards (target.cardIds.filter fun id => id ≠ cardId)) (card : Card) :
    MovedTo s cardId listId card positionIdx
      (placeByKey s.cards cardId listId positionIdx (withoutCard s.lists cardId))
      (s.cards.insert cardId { card with positionIdx := some positionIdx }) := by
  have hout : ∀ l ∈ withoutCard s.lists cardId, cardId ∉ l.cardIds :=
    fun _ => not_mem_withoutCard
  have hids' : ((withoutCard s.lists cardId).map BoardList.id).Nodup := by
    rw [ids_withoutCard]
    exact hids
  have hthere := findList_withoutCard s.lists cardId listId
  rw [htarget, Option.map_some] at hthere
  -- the place is looked for in the target list without the card
  have hnot : cardId ∉ target.cardIds.filter fun id => id ≠ cardId := by simp
  constructor
  case others => exact withoutCard_placeByKey hout
  case once => exact fun l hl => count_placeByKey hout hl
  case place =>
    refine ⟨_, _, _, findList_placeByKey hids' hthere, keysAscend_insert hnot hsorted card, rfl,
      fun id hid key hkey => ?_, fun id hid key hkey => ?_⟩
    · rw [keyOf_insert_of_ne (ne_of_mem_of_not_mem (List.mem_of_mem_take hid) hnot)] at hkey
      exact le_of_mem_take_placeOf hid hkey
    · rw [keyOf_insert_of_ne (ne_of_mem_of_not_mem (List.mem_of_mem_drop hid) hnot)] at hkey
      exact lt_of_mem_drop_placeOf hsorted hid hkey
  case moved => exact AList.lookup_insert _
  case frame => exact fun id hne => AList.lookup_insert_ne hne

/-- A card.moved frame that names a card and a list of a board with distinct list ids, where
the other keyed cards of the list ascend, moves the card to where its key belongs and
changes nothing else. -/
theorem moved_frame_exact {s : BoardState} {envelope : BoardMutationEnvelope} {card : Card}
    {target : BoardList} (hids : (s.lists.map BoardList.id).Nodup)
    (hsorted : KeysAscend s.cards (target.cardIds.filter fun id => id ≠ cardId))
    (htype : envelope.type = .cardMoved)
    (hcardId : namedId envelope.payload.cardId = some cardId)
    (hlistId : namedId envelope.payload.listId = some listId)
    (hkey : envelope.payload.positionIdx = some positionIdx)
    (hcard : s.cards.lookup cardId = some card)
    (htarget : findList s.lists listId = some target) :
    ∃ lists cards, reconcileRemoteMutation s envelope = .board lists cards ∧
      MovedTo s cardId listId card positionIdx lists cards := by
  refine ⟨_, _, ?_, movedTo_placeByKey hids htarget hsorted card⟩
  simp only [reconcileRemoteMutation, htype, reconcileMoved, hcardId, hlistId, hkey, hcard,
    htarget]

/-! ## A tie -/

section Tie

/-- A column with keys "B" and "D" and a card without a key between them, and a card "m"
elsewhere. -/
def columns : BoardState where
  lists := [{ id := js "l1", title := js "To do", cardIds := [js "c1", js "c2", js "c3"] },
    { id := js "l2", title := js "Done", cardIds := [js "m"] }]
  cards := Dict.ofList ([(js "c1", some (js "B")), (js "c2", none), (js "c3", some (js "D")),
    (js "m", some (js "A"))].map fun (id, key) =>
      (id, { BoardStore.newCard id (js "Card") with positionIdx := key }))

/-- The server moved "m" to the column under the key "B". -/
def moveToB : BoardMutationEnvelope where
  seq := 1
  boardId := js "b1"
  type := .cardMoved
  payload := { cardId := some (js "m"), listId := some (js "l1"), positionIdx := some (js "B") }
  ts := 0

/-- The moved card goes after the one with its key, before the greater one. -/
theorem moved_after_tie :
    ∃ lists cards, reconcileRemoteMutation columns moveToB = .board lists cards ∧
      MovedTo columns (js "m") (js "l1") { BoardStore.newCard (js "m") (js "Card") with
        positionIdx := some (js "A") } (js "B") lists cards := by
  refine moved_frame_exact ?_ ?_ rfl rfl rfl rfl rfl rfl
  · decide
  · unfold KeysAscend
    decide

end Tie

end FlowLogix.Web

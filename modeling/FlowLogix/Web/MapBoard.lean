/-
  Web/MapBoard.lean --- loading the board (frontend/src/api/mapBoard.ts, boardLoader.ts).

  A snapshot is composed of the lists of the board and the cards of each list, as the
  endpoints return them, in any order.  Where the keys of each parent are distinct that
  order does not show (`composeBoardSnapshot_eq`).
-/
import FlowLogix.Foundation.SortByKey
import FlowLogix.Web.RemoteMutations

set_option autoImplicit false

namespace FlowLogix.Web

open FlowLogix.Foundation

/-! ## `composeBoardSnapshot` -/

/-- `ApiList`. -/
structure ApiList where
  id : Id
  title : JsString
  positionIdx : JsString
  isArchived : Bool

/-- `ApiCard`. -/
structure ApiCard where
  id : Id
  title : JsString
  description : Option JsString
  positionIdx : JsString
  isComplete : Bool
  isArchived : Bool

/-- `mapApiCard`. -/
def mapApiCard (api : ApiCard) : Card where
  id := api.id
  title := api.title
  description := api.description
  priority := .medium
  assigneeIds := []
  checklist := []
  isComplete := api.isComplete
  positionIdx := some api.positionIdx

/-- The entry of a list in `lists`. -/
def ApiList.withCards (api : ApiList) (cardIds : List Id) : BoardList where
  id := api.id
  title := api.title
  cardIds := cardIds

/-- What the endpoints serve of a board: its lists, and the cards of a list. -/
structure ServedBoard where
  lists : List ApiList
  cards : Id → List ApiCard

namespace ServedBoard

/-- The lists that are not archived. -/
def shownLists (b : ServedBoard) : List ApiList := b.lists.filter fun l => !l.isArchived

/-- The cards of a list that are not archived. -/
def shownCards (b : ServedBoard) (listId : Id) : List ApiCard :=
  (b.cards listId).filter fun c => !c.isArchived

/-- The lists in the order they are shown. -/
def sortedLists (b : ServedBoard) : List ApiList := sortByKey ApiList.positionIdx b.shownLists

/-- The cards of a list in the order they are shown. -/
def listCards (b : ServedBoard) (listId : Id) : List ApiCard :=
  sortByKey ApiCard.positionIdx (b.shownCards listId)

/-- The board composed of what is served. -/
def snapshot (b : ServedBoard) : BoardState where
  lists := b.sortedLists.map fun l => l.withCards ((b.listCards l.id).map ApiCard.id)
  cards := (b.sortedLists.flatMap fun l => b.listCards l.id).foldl
    (fun cards c => cards.insert c.id (mapApiCard c)) ∅

end ServedBoard

/-- `composeBoardSnapshot`. -/
def composeBoardSnapshot (apiLists : List ApiList) (cardsByList : Dict Id (List ApiCard)) :
    BoardState :=
  (ServedBoard.mk apiLists fun listId => (cardsByList.lookup listId).getD []).snapshot

/-! ## Boards that look the same -/

/-- What is compared of a card. -/
def Card.seen (card : Card) : Id × JsString × Option JsString × Bool × Option JsString :=
  (card.id, card.title, card.description, card.isComplete, card.positionIdx)

/-- Two boards with the same lists, in the same order, and cards that look the same. -/
structure BoardState.Agrees (s s' : BoardState) : Prop where
  lists : s.lists = s'.lists
  cards : ∀ id, (s.cards.lookup id).map Card.seen = (s'.cards.lookup id).map Card.seen

namespace BoardState.Agrees

variable {s s' : BoardState}

theorem refl (s : BoardState) : s.Agrees s := ⟨rfl, fun _ => rfl⟩

/-- They show cards under the same ids. -/
theorem lookup_isSome (h : s.Agrees s') (id : Id) :
    (s.cards.lookup id).isSome = (s'.cards.lookup id).isSome := by
  have hcards := congrArg Option.isSome (h.cards id)
  simpa using hcards

/-- They show a card with the same key. -/
theorem positionIdx (h : s.Agrees s') (id : Id) :
    (s.cards.lookup id).bind Card.positionIdx = (s'.cards.lookup id).bind Card.positionIdx := by
  have hbind : ∀ card : Option Card,
      card.bind Card.positionIdx = (card.map Card.seen).bind fun seen => seen.2.2.2.2 := by
    rintro (_ | card) <;> rfl
  rw [hbind, hbind, h.cards id]

end BoardState.Agrees

/-! ## Payloads of one board -/

/-- The endpoints' answers for a board: its lists, and for each of them its cards, in any
order. -/
structure Serves (b : ServedBoard) (apiLists : List ApiList)
    (cardsByList : Dict Id (List ApiCard)) : Prop where
  lists : apiLists.Perm b.lists
  cards : ∀ l ∈ apiLists, ∃ listCards, cardsByList.lookup l.id = some listCards ∧
    listCards.Perm (b.cards l.id)

namespace ServedBoard

variable {b b' : ServedBoard}

@[simp] theorem mem_shownLists {l : ApiList} :
    l ∈ b.shownLists ↔ l ∈ b.lists ∧ l.isArchived = false := by
  simp [shownLists]

@[simp] theorem mem_shownCards {listId : Id} {c : ApiCard} :
    c ∈ b.shownCards listId ↔ c ∈ b.cards listId ∧ c.isArchived = false := by
  simp [shownCards]

theorem mem_sortedLists {l : ApiList} : l ∈ b.sortedLists ↔ l ∈ b.shownLists := mem_sortByKey

theorem mem_listCards {listId : Id} {c : ApiCard} :
    c ∈ b.listCards listId ↔ c ∈ b.shownCards listId := mem_sortByKey

/-- The keys of the shown lists, and of the shown cards of each, are distinct. -/
structure DistinctKeys (b : ServedBoard) : Prop where
  lists : (b.shownLists.map ApiList.positionIdx).Nodup
  cards : ∀ l ∈ b.shownLists, ((b.shownCards l.id).map ApiCard.positionIdx).Nodup

/-- The same rows are shown of both, in any order. -/
structure SameShown (b b' : ServedBoard) : Prop where
  lists : b.shownLists.Perm b'.shownLists
  cards : ∀ l ∈ b'.shownLists, (b.shownCards l.id).Perm (b'.shownCards l.id)

theorem SameShown.refl (b : ServedBoard) : b.SameShown b where
  lists := List.Perm.refl _
  cards _ _ := List.Perm.refl _

theorem SameShown.trans {b'' : ServedBoard} (h : b.SameShown b') (h' : b'.SameShown b'') :
    b.SameShown b'' where
  lists := h.lists.trans h'.lists
  cards l hl := (h.cards l (h'.lists.mem_iff.mpr hl)).trans (h'.cards l hl)

/-- The answers show the rows of the board. -/
theorem sameShown_of_serves {apiLists : List ApiList}
    {cardsByList : Dict Id (List ApiCard)} (h : Serves b apiLists cardsByList) :
    (ServedBoard.mk apiLists fun listId => (cardsByList.lookup listId).getD []).SameShown b where
  lists := h.lists.filter _
  cards l hl := by
    obtain ⟨cards, hlookup, hperm⟩ := h.cards l (h.lists.mem_iff.mpr (mem_shownLists.mp hl).1)
    show (((cardsByList.lookup l.id).getD []).filter _).Perm _
    rw [hlookup, Option.getD_some]
    exact hperm.filter _

/-- With distinct keys a snapshot shows no order but theirs. -/
theorem snapshot_congr (hsame : b'.SameShown b) (hkeys : b.DistinctKeys) :
    b'.snapshot = b.snapshot := by
  have hlists : b'.sortedLists = b.sortedLists := sortByKey_congr hkeys.lists hsame.lists
  have hcards : ∀ l ∈ b.sortedLists, b'.listCards l.id = b.listCards l.id := fun l hl =>
    sortByKey_congr (hkeys.cards l (mem_sortedLists.mp hl)) (hsame.cards l (mem_sortedLists.mp hl))
  simp only [snapshot, BoardState.mk.injEq, hlists]
  refine ⟨List.map_congr_left fun l hl => ?_, ?_⟩
  · rw [hcards l hl]
  · rw [List.flatMap_congr hcards]

end ServedBoard

/-- With distinct keys the order of the answers does not show. -/
theorem composeBoardSnapshot_eq {b : ServedBoard} {apiLists : List ApiList}
    {cardsByList : Dict Id (List ApiCard)} (hserves : Serves b apiLists cardsByList)
    (hkeys : b.DistinctKeys) : composeBoardSnapshot apiLists cardsByList = b.snapshot :=
  ServedBoard.snapshot_congr (ServedBoard.sameShown_of_serves hserves) hkeys

/-! ## The cards of a snapshot -/

/-- The cards a fold leaves under an id. -/
theorem lookup_foldl_insert {cards : List ApiCard} (hids : (cards.map ApiCard.id).Nodup)
    (start : Dict Id Card) (id : Id) :
    (cards.foldl (fun cards c => cards.insert c.id (mapApiCard c)) start).lookup id =
      ((cards.find? fun c => c.id = id).map mapApiCard).or (start.lookup id) := by
  induction cards generalizing start with
  | nil => simp
  | cons first rest ih =>
      rw [List.map_cons, List.nodup_cons] at hids
      rw [List.foldl_cons, ih hids.2, Dict.lookup_insert_eq, List.find?_cons]
      by_cases hfirst : first.id = id
      · have hnone : rest.find? (fun c => decide (c.id = id)) = none := by
          rw [List.find?_eq_none]
          intro c hc heq
          refine hids.1 (List.mem_map.mpr ⟨c, hc, ?_⟩)
          rw [hfirst]
          simpa using heq
        simp [hnone, hfirst]
      · simp [hfirst, Ne.symm hfirst]

namespace ServedBoard

/-- Ids are those of rows: a list stands once on the board, and a card once in one
list. -/
structure DistinctIds (b : ServedBoard) : Prop where
  lists : (b.shownLists.map ApiList.id).Nodup
  cards : ∀ l ∈ b.shownLists, ((b.shownCards l.id).map ApiCard.id).Nodup
  parent : ∀ l ∈ b.shownLists, ∀ l' ∈ b.shownLists, ∀ c ∈ b.shownCards l.id,
    ∀ c' ∈ b.shownCards l'.id, c.id = c'.id → l.id = l'.id

variable {b b' : ServedBoard}

theorem DistinctIds.nodup_flatMap (h : b.DistinctIds) :
    ((b.sortedLists.flatMap fun l => b.listCards l.id).map ApiCard.id).Nodup := by
  rw [List.map_flatMap, List.nodup_flatMap]
  constructor
  · intro l hl
    exact (((sortByKey_perm _ _).map _).nodup_iff).mpr (h.cards l (mem_sortedLists.mp hl))
  · have hids : (b.sortedLists.map ApiList.id).Nodup :=
      (((sortByKey_perm _ _).map _).nodup_iff).mpr h.lists
    refine ((List.pairwise_map.mp hids).imp_of_mem fun {l l'} hl hl' hne => ?_)
    intro id hid hid'
    obtain ⟨c, hc, rfl⟩ := List.mem_map.mp hid
    obtain ⟨c', hc', heq⟩ := List.mem_map.mp hid'
    exact hne (h.parent l (mem_sortedLists.mp hl) l' (mem_sortedLists.mp hl') c
      (mem_listCards.mp hc) c' (mem_listCards.mp hc') heq.symm)

/-- What a snapshot shows under an id. -/
theorem lookup_snapshot (h : b.DistinctIds) {id : Id} {card : Card} :
    b.snapshot.cards.lookup id = some card ↔
      ∃ l ∈ b.shownLists, ∃ c ∈ b.shownCards l.id, c.id = id ∧ mapApiCard c = card := by
  have hids := h.nodup_flatMap
  have hmem : ∀ c, c ∈ (b.sortedLists.flatMap fun l => b.listCards l.id) ↔
      ∃ l ∈ b.shownLists, c ∈ b.shownCards l.id := by
    intro c
    rw [List.mem_flatMap]
    exact exists_congr fun l => and_congr mem_sortedLists mem_listCards
  have hlookup : b.snapshot.cards.lookup id =
      ((b.sortedLists.flatMap fun l => b.listCards l.id).find? fun c => c.id = id).map
        mapApiCard := by
    refine (lookup_foldl_insert hids ∅ id).trans ?_
    rw [AList.lookup_empty, Option.or_none]
  rw [hlookup, Option.map_eq_some_iff]
  constructor
  · rintro ⟨c, hfind, hcard⟩
    obtain ⟨l, hl, hc⟩ := (hmem c).mp (List.mem_of_find?_eq_some hfind)
    exact ⟨l, hl, c, hc, by simpa using List.find?_some hfind, hcard⟩
  · rintro ⟨l, hl, c, hc, hid, hcard⟩
    have hc := (hmem c).mpr ⟨l, hl, hc⟩
    refine ⟨c, ?_, hcard⟩
    cases hfind : (b.sortedLists.flatMap fun l => b.listCards l.id).find? fun c =>
        decide (c.id = id) with
    | none =>
        have hnot := List.find?_eq_none.mp hfind c hc
        simp [hid] at hnot
    | some other =>
        have hother : other.id = id := by simpa using List.find?_some hfind
        rw [List.inj_on_of_nodup_map hids (List.mem_of_find?_eq_some hfind) hc
          (hother.trans hid.symm)]

theorem lookup_snapshot_of_mem (h : b.DistinctIds) {l : ApiList} (hl : l ∈ b.shownLists)
    {c : ApiCard} (hc : c ∈ b.shownCards l.id) :
    b.snapshot.cards.lookup c.id = some (mapApiCard c) :=
  (lookup_snapshot h).mpr ⟨l, hl, c, hc, rfl, rfl⟩

/-- A snapshot has a list if the list is shown. -/
theorem findList_snapshot_isSome {listId : Id} :
    (findList b.snapshot.lists listId).isSome = true ↔ ∃ l ∈ b.shownLists, l.id = listId := by
  simp only [findList, snapshot, List.find?_isSome, List.mem_map, decide_eq_true_iff]
  constructor
  · rintro ⟨_, ⟨l, hl, rfl⟩, hid⟩
    exact ⟨l, mem_sortedLists.mp hl, hid⟩
  · rintro ⟨l, hl, hid⟩
    exact ⟨_, ⟨l, mem_sortedLists.mpr hl, rfl⟩, hid⟩

/-! ## Payloads in table order -/

/-- The cards of each list, by its id. -/
def payload (b : ServedBoard) : Dict Id (List ApiCard) :=
  Dict.writeAll b.cards (b.lists.map ApiList.id) ∅

theorem lookup_payload {l : ApiList} (hl : l ∈ b.lists) :
    b.payload.lookup l.id = some (b.cards l.id) := by
  rw [payload, Dict.lookup_writeAll, if_pos (List.mem_map.mpr ⟨l, hl, rfl⟩)]

theorem serves_payload (hlists : b'.lists = b.lists)
    (hcards : ∀ listId, (b'.cards listId).Perm (b.cards listId)) :
    Serves b b'.lists b'.payload where
  lists := hlists ▸ List.Perm.refl _
  cards l hl := ⟨_, lookup_payload hl, hcards l.id⟩

theorem composeBoardSnapshot_payload (b : ServedBoard) :
    composeBoardSnapshot b.lists b.payload = b.snapshot := by
  have hcards : ∀ l ∈ b.sortedLists,
      sortByKey ApiCard.positionIdx
        (((b.payload.lookup l.id).getD []).filter fun c => !c.isArchived) = b.listCards l.id := by
    intro l hl
    rw [lookup_payload (mem_shownLists.mp (mem_sortedLists.mp hl)).1]
    rfl
  simp only [composeBoardSnapshot, snapshot, BoardState.mk.injEq]
  refine ⟨List.map_congr_left fun l hl => ?_, ?_⟩
  · exact congrArg (fun cards => l.withCards (cards.map ApiCard.id)) (hcards l hl)
  · exact congrArg (List.foldl _ ∅) (List.flatMap_congr hcards)

/-- The cards of each list in the opposite order. -/
def reversed (b : ServedBoard) : ServedBoard :=
  { b with cards := fun listId => (b.cards listId).reverse }

theorem shownCards_reversed (b : ServedBoard) (listId : Id) :
    b.reversed.shownCards listId = (b.shownCards listId).reverse :=
  List.filter_reverse

/-- Where the order of the cards does not show, the keys of each list are distinct. -/
theorem nodup_cardKeys_of_reversed (hids : b.DistinctIds)
    (h : b.reversed.snapshot.lists = b.snapshot.lists) {l : ApiList} (hl : l ∈ b.shownLists) :
    ((b.shownCards l.id).map ApiCard.positionIdx).Nodup := by
  have hlists : ∀ l ∈ b.sortedLists, l.withCards ((b.reversed.listCards l.id).map ApiCard.id) =
      l.withCards ((b.listCards l.id).map ApiCard.id) := List.map_inj_left.mp h
  have hsame : (b.reversed.listCards l.id).map ApiCard.id = (b.listCards l.id).map ApiCard.id :=
    congrArg BoardList.cardIds (hlists l (mem_sortedLists.mpr hl))
  rw [listCards, shownCards_reversed] at hsame
  exact nodup_key_of_sortByKey_reverse (hids.cards l hl) hsame

theorem positionIdx_ne_of_reversed (hids : b.DistinctIds)
    (h : b.reversed.snapshot.lists = b.snapshot.lists) {l : ApiList} (hl : l ∈ b.shownLists)
    {c c' : ApiCard} (hc : c ∈ b.shownCards l.id) (hc' : c' ∈ b.shownCards l.id)
    (hne : c.id ≠ c'.id) : c.positionIdx ≠ c'.positionIdx := by
  intro hkey
  have hinj := List.inj_on_of_nodup_map (nodup_cardKeys_of_reversed hids h hl) hc hc' hkey
  exact hne (congrArg ApiCard.id hinj)

end ServedBoard

end FlowLogix.Web

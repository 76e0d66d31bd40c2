/-
  Web/AppliedFrames.lean --- a live frame against a reload
  (frontend/src/store/remoteMutations.ts, api/mapBoard.ts).

  Each kind of frame that is applied has a counterpart among the changes of what the
  endpoints serve: a card that is dropped, a list that is dropped, a card that is put
  under a list with a key.  Applying the frame to the old snapshot is loading the new
  one (`dropCard_agrees`, `dropList_agrees`, `moveCard_agrees`).
-/
import FlowLogix.Web.MapBoard

set_option autoImplicit false

namespace FlowLogix.Web

open FlowLogix.Foundation FlowLogix.Server

variable {b : ServedBoard} {s : BoardState}

namespace ServedBoard

/-! ## Changes of what is served -/

/-- A card is gone. -/
def dropCard (b : ServedBoard) (cardId : Id) : ServedBoard :=
  { b with cards := fun listId => (b.cards listId).filter fun c => c.id ≠ cardId }

/-- A list is gone. -/
def dropList (b : ServedBoard) (listId : Id) : ServedBoard :=
  { b with lists := b.lists.filter fun l => l.id ≠ listId }

/-- A card stands in a list, and nowhere else. -/
def moveCard (b : ServedBoard) (moved : ApiCard) (listId : Id) : ServedBoard :=
  { b with
    cards := fun id =>
      if id = listId then moved :: (b.dropCard moved.id).cards id
      else (b.dropCard moved.id).cards id }

theorem shownCards_dropCard (b : ServedBoard) (cardId listId : Id) :
    (b.dropCard cardId).shownCards listId =
      (b.shownCards listId).filter fun c => c.id ≠ cardId :=
  List.filter_comm _ _ _

theorem shownLists_dropList (b : ServedBoard) (listId : Id) :
    (b.dropList listId).shownLists = b.shownLists.filter fun l => l.id ≠ listId :=
  List.filter_comm _ _ _

theorem shownCards_moveCard (b : ServedBoard) {moved : ApiCard} (hmoved : moved.isArchived = false)
    (listId id : Id) :
    (b.moveCard moved listId).shownCards id =
      if id = listId then moved :: (b.dropCard moved.id).shownCards id
      else (b.dropCard moved.id).shownCards id := by
  by_cases hid : id = listId <;> simp [shownCards, moveCard, hid, hmoved]

/-- A card that goes leaves the order of the others. -/
theorem listCards_dropCard {listId : Id}
    (hkeys : ((b.shownCards listId).map ApiCard.positionIdx).Nodup) (cardId : Id) :
    (b.dropCard cardId).listCards listId =
      (b.listCards listId).filter fun c => c.id ≠ cardId := by
  rw [listCards, shownCards_dropCard]
  exact sortByKey_filter hkeys _

theorem sortedLists_dropList (hkeys : (b.shownLists.map ApiList.positionIdx).Nodup)
    (listId : Id) :
    (b.dropList listId).sortedLists = b.sortedLists.filter fun l => l.id ≠ listId := by
  rw [sortedLists, shownLists_dropList]
  exact sortByKey_filter hkeys _

theorem DistinctKeys.dropCard (h : b.DistinctKeys) (cardId : Id) :
    (b.dropCard cardId).DistinctKeys where
  lists := h.lists
  cards l hl := by
    rw [shownCards_dropCard]
    exact (List.filter_sublist.map _).nodup (h.cards l hl)

theorem DistinctKeys.dropList (h : b.DistinctKeys) (listId : Id) :
    (b.dropList listId).DistinctKeys where
  lists := by
    rw [shownLists_dropList]
    exact (List.filter_sublist.map _).nodup h.lists
  cards l hl := by
    rw [shownLists_dropList] at hl
    exact h.cards l (List.mem_filter.mp hl).1

theorem DistinctIds.dropCard (h : b.DistinctIds) (cardId : Id) :
    (b.dropCard cardId).DistinctIds where
  lists := h.lists
  cards l hl := by
    rw [shownCards_dropCard]
    exact (List.filter_sublist.map _).nodup (h.cards l hl)
  parent l hl l' hl' c hc c' hc' := by
    rw [shownCards_dropCard] at hc hc'
    exact h.parent l hl l' hl' c (List.mem_filter.mp hc).1 c' (List.mem_filter.mp hc').1

theorem DistinctIds.dropList (h : b.DistinctIds) (listId : Id) :
    (b.dropList listId).DistinctIds where
  lists := by
    rw [shownLists_dropList]
    exact (List.filter_sublist.map _).nodup h.lists
  cards l hl := by
    rw [shownLists_dropList] at hl
    exact h.cards l (List.mem_filter.mp hl).1
  parent l hl l' hl' := by
    rw [shownLists_dropList] at hl hl'
    exact h.parent l (List.mem_filter.mp hl).1 l' (List.mem_filter.mp hl').1

/-- No other card of the list has the key. -/
def KeyFree (b : ServedBoard) (listId cardId : Id) (key : JsString) : Prop :=
  ∀ c ∈ b.shownCards listId, c.id ≠ cardId → c.positionIdx ≠ key

theorem DistinctKeys.moveCard (h : b.DistinctKeys) {moved : ApiCard} {listId : Id}
    (hshown : moved.isArchived = false) (hfree : b.KeyFree listId moved.id moved.positionIdx) :
    (b.moveCard moved listId).DistinctKeys where
  lists := h.lists
  cards l hl := by
    rw [shownCards_moveCard b hshown]
    have hrest := (h.dropCard moved.id).cards l hl
    split
    · rename_i hid
      rw [List.map_cons, List.nodup_cons]
      refine ⟨fun hmem => ?_, hrest⟩
      obtain ⟨c, hc, hkey⟩ := List.mem_map.mp hmem
      rw [shownCards_dropCard, List.mem_filter] at hc
      exact hfree c (hid ▸ hc.1) (by simpa using hc.2) hkey
    · exact hrest

theorem DistinctIds.moveCard (h : b.DistinctIds) {moved : ApiCard} {listId : Id}
    (hshown : moved.isArchived = false) : (b.moveCard moved listId).DistinctIds where
  lists := h.lists
  cards l hl := by
    rw [shownCards_moveCard b hshown]
    have hrest := (h.dropCard moved.id).cards l hl
    split
    · rw [List.map_cons, List.nodup_cons]
      refine ⟨fun hmem => ?_, hrest⟩
      obtain ⟨c, hc, hid⟩ := List.mem_map.mp hmem
      rw [shownCards_dropCard, List.mem_filter] at hc
      simp [hid] at hc
    · exact hrest
  parent l hl l' hl' c hc c' hc' heq := by
    have hcases : ∀ l : ApiList, ∀ c ∈ (b.moveCard moved listId).shownCards l.id,
        c = moved ∧ l.id = listId ∨ c ∈ (b.dropCard moved.id).shownCards l.id := by
      intro l c hc
      rw [shownCards_moveCard b hshown] at hc
      split at hc
      · rename_i hid
        exact (List.mem_cons.mp hc).imp_left fun h => ⟨h, hid⟩
      · exact Or.inr hc
    have hne : ∀ l : ApiList, ∀ c ∈ (b.dropCard moved.id).shownCards l.id, c.id ≠ moved.id := by
      intro l c hc
      rw [shownCards_dropCard, List.mem_filter] at hc
      simpa using hc.2
    rcases hcases l c hc with ⟨rfl, hl₀⟩ | hc
    · rcases hcases l' c' hc' with ⟨-, hl₀'⟩ | hc'
      · exact hl₀.trans hl₀'.symm
      · exact absurd heq.symm (hne l' c' hc')
    · rcases hcases l' c' hc' with ⟨rfl, -⟩ | hc'
      · exact absurd heq (hne l c hc)
      · exact (h.dropCard moved.id).parent l hl l' hl' c hc c' hc' heq

/-! ## Snapshots of what is changed -/

theorem withoutCard_snapshot (b : ServedBoard) (cardId : Id) :
    withoutCard b.snapshot.lists cardId = b.sortedLists.map fun l =>
      l.withCards (((b.listCards l.id).filter fun c => c.id ≠ cardId).map ApiCard.id) := by
  rw [withoutCard, snapshot, List.map_map]
  refine List.map_congr_left fun l _ => ?_
  rw [Function.comp_apply, ApiList.withCards, ApiList.withCards, List.filter_map]
  rfl

theorem snapshot_dropCard_lists (hkeys : b.DistinctKeys) (cardId : Id) :
    (b.dropCard cardId).snapshot.lists = withoutCard b.snapshot.lists cardId := by
  rw [withoutCard_snapshot]
  refine List.map_congr_left fun l hl => ?_
  rw [listCards_dropCard (hkeys.cards l (mem_sortedLists.mp hl)) cardId]

theorem snapshot_dropCard_lookup (hids : b.DistinctIds) (cardId id : Id) :
    (b.dropCard cardId).snapshot.cards.lookup id =
      if id = cardId then none else b.snapshot.cards.lookup id := by
  refine Option.ext fun card => ?_
  rw [lookup_snapshot (hids.dropCard cardId)]
  by_cases hid : id = cardId
  · rw [if_pos hid]
    simp only [shownCards_dropCard, List.mem_filter, reduceCtorEq, iff_false]
    rintro ⟨l, -, c, ⟨-, hne⟩, hc, -⟩
    simp [hc, hid] at hne
  · rw [if_neg hid, lookup_snapshot hids]
    refine exists_congr fun l => and_congr Iff.rfl (exists_congr fun c => ?_)
    rw [shownCards_dropCard, List.mem_filter, and_assoc]
    refine and_congr_right fun _ => ⟨And.right, fun h => ⟨?_, h⟩⟩
    simp [h.1, hid]

/-- Dropping a card that is not shown shows nothing. -/
theorem snapshot_dropCard_of_not_shown (hkeys : b.DistinctKeys) {cardId : Id}
    (hnot : ∀ l ∈ b.shownLists, ∀ c ∈ b.shownCards l.id, c.id ≠ cardId) :
    (b.dropCard cardId).snapshot = b.snapshot := by
  refine snapshot_congr ⟨List.Perm.refl _, fun l hl => ?_⟩ hkeys
  rw [shownCards_dropCard, List.filter_eq_self.mpr fun c hc => decide_eq_true (hnot l hl c hc)]

/-- Dropping a list that is not shown shows nothing. -/
theorem snapshot_dropList_of_not_shown (hkeys : b.DistinctKeys) {listId : Id}
    (hnot : ∀ l ∈ b.shownLists, l.id ≠ listId) :
    (b.dropList listId).snapshot = b.snapshot := by
  refine snapshot_congr ⟨?_, fun l _ => List.Perm.refl _⟩ hkeys
  rw [shownLists_dropList, List.filter_eq_self.mpr fun l hl => decide_eq_true (hnot l hl)]

theorem snapshot_dropList_lists (hkeys : b.DistinctKeys) (listId : Id) :
    (b.dropList listId).snapshot.lists = b.snapshot.lists.filter fun l => l.id ≠ listId := by
  simp only [snapshot, sortedLists_dropList hkeys.lists, List.filter_map]
  rfl

theorem snapshot_dropList_lookup (hids : b.DistinctIds) {listId : Id} {l₀ : ApiList}
    (hl₀ : l₀ ∈ b.shownLists) (hlist : l₀.id = listId) (id : Id) :
    (b.dropList listId).snapshot.cards.lookup id =
      if id ∈ (b.listCards listId).map ApiCard.id then none else b.snapshot.cards.lookup id := by
  refine Option.ext fun card => ?_
  rw [lookup_snapshot (hids.dropList listId)]
  split
  · rename_i hmem
    obtain ⟨c, hc, rfl⟩ := List.mem_map.mp hmem
    simp only [shownLists_dropList, List.mem_filter, reduceCtorEq, iff_false]
    rintro ⟨l, ⟨hl, hne⟩, c', hc', heq, -⟩
    have hc : c ∈ b.shownCards l₀.id := hlist ▸ mem_listCards.mp hc
    have hsame := hids.parent l hl l₀ hl₀ c' hc' c hc heq
    simp [hsame, hlist] at hne
  · rename_i hmem
    rw [lookup_snapshot hids]
    refine exists_congr fun l => ?_
    rw [shownLists_dropList, List.mem_filter, and_assoc]
    refine and_congr_right fun _ => ⟨And.right, fun h => ⟨?_, h⟩⟩
    obtain ⟨c, hc, rfl, -⟩ := h
    have hne : l.id ≠ listId := by
      rintro rfl
      exact hmem (List.mem_map.mpr ⟨c, mem_listCards.mpr hc, rfl⟩)
    simpa using hne

/-- The place a card gets is that of its key. -/
theorem insertionIndexForKey_eq (hids : b.DistinctIds) {l : ApiList} (hl : l ∈ b.shownLists)
    (cardId : Id) (key : JsString) :
    insertionIndexForKey
        (((b.listCards l.id).filter fun c => c.id ≠ cardId).map ApiCard.id) b.snapshot.cards key =
      ((b.listCards l.id).filter fun c => c.id ≠ cardId).findIdx fun c =>
        decide (key < c.positionIdx) := by
  rw [insertionIndexForKey, List.findIdx_map]
  have hkey : ∀ c ∈ (b.listCards l.id).filter (fun c => c.id ≠ cardId),
      (((b.snapshot.cards.lookup c.id).bind Card.positionIdx).any fun sibling =>
        decide (key < sibling)) = decide (key < c.positionIdx) := by
    intro c hc
    rw [lookup_snapshot_of_mem hids hl (mem_listCards.mp (List.mem_filter.mp hc).1)]
    rfl
  refine le_antisymm (List.findIdx_le_findIdx fun c hc h => ?_)
    (List.findIdx_le_findIdx fun c hc h => ?_)
  · exact (hkey c hc).trans h
  · exact (hkey c hc).symm.trans h

/-- The cards a list shows without one of them. -/
theorem cardIds_withoutCard {l : ApiList} (hl : l ∈ b.sortedLists) (cardId : Id) :
    (findList (withoutCard b.snapshot.lists cardId) l.id).map BoardList.cardIds =
      some (((b.listCards l.id).filter fun c => c.id ≠ cardId).map ApiCard.id) := by
  rw [withoutCard_snapshot]
  cases hfind : findList (b.sortedLists.map fun l =>
      l.withCards (((b.listCards l.id).filter fun c => c.id ≠ cardId).map ApiCard.id)) l.id with
  | none =>
      have hnot := List.find?_eq_none.mp hfind _ (List.mem_map.mpr ⟨l, hl, rfl⟩)
      simp [ApiList.withCards] at hnot
  | some found =>
      obtain ⟨l', -, rfl⟩ := List.mem_map.mp (List.mem_of_find?_eq_some hfind)
      have hid : l'.id = l.id :=
        of_decide_eq_true (List.find?_some (p := fun l' : BoardList => decide (l'.id = l.id)) hfind)
      rw [Option.map_some, ApiList.withCards, hid]

theorem listCards_moveCard {moved : ApiCard} {listId : Id} (hshown : moved.isArchived = false)
    (hkeys : ((b.shownCards listId).map ApiCard.positionIdx).Nodup)
    (hfree : b.KeyFree listId moved.id moved.positionIdx) :
    (b.moveCard moved listId).listCards listId =
      ((b.listCards listId).filter fun c => c.id ≠ moved.id).take
          (((b.listCards listId).filter fun c => c.id ≠ moved.id).findIdx fun c =>
            decide (moved.positionIdx < c.positionIdx)) ++
        moved :: ((b.listCards listId).filter fun c => c.id ≠ moved.id).drop
          (((b.listCards listId).filter fun c => c.id ≠ moved.id).findIdx fun c =>
            decide (moved.positionIdx < c.positionIdx)) := by
  have hrest : ((b.dropCard moved.id).shownCards listId).map ApiCard.positionIdx |>.Nodup := by
    rw [shownCards_dropCard]
    exact (List.filter_sublist.map _).nodup hkeys
  have hnew : moved.positionIdx ∉
      ((b.dropCard moved.id).shownCards listId).map ApiCard.positionIdx := by
    intro hmem
    obtain ⟨c, hc, hkey⟩ := List.mem_map.mp hmem
    rw [shownCards_dropCard, List.mem_filter] at hc
    exact hfree c hc.1 (by simpa using hc.2) hkey
  rw [listCards, shownCards_moveCard b hshown, if_pos rfl,
    sortByKey_cons (List.nodup_cons.mpr ⟨hnew, hrest⟩), ← listCards, listCards_dropCard hkeys]

theorem snapshot_moveCard_lists (hkeys : b.DistinctKeys) (hids : b.DistinctIds) {moved : ApiCard}
    {listId : Id} (hshown : moved.isArchived = false)
    (hfree : b.KeyFree listId moved.id moved.positionIdx) :
    (b.moveCard moved listId).snapshot.lists =
      placeByKey b.snapshot.cards moved.id listId moved.positionIdx
        (withoutCard b.snapshot.lists moved.id) := by
  unfold placeByKey
  generalize hindex : insertionIndexForKey (((findList (withoutCard b.snapshot.lists moved.id)
    listId).map BoardList.cardIds).getD []) b.snapshot.cards moved.positionIdx = index
  rw [withoutCard_snapshot, List.map_map]
  refine List.map_congr_left fun l (hl : l ∈ b.sortedLists) => ?_
  have hl' : l ∈ b.shownLists := mem_sortedLists.mp hl
  by_cases hid : l.id = listId
  · subst hid
    rw [cardIds_withoutCard hl, Option.getD_some, insertionIndexForKey_eq hids hl'] at hindex
    rw [listCards_moveCard hshown (hkeys.cards l hl') hfree, hindex, List.map_append, List.map_take,
      List.map_cons, List.map_drop]
    exact (if_pos rfl).symm
  · have hcards : (b.moveCard moved listId).listCards l.id =
        (b.listCards l.id).filter fun c => c.id ≠ moved.id := by
      rw [listCards, shownCards_moveCard b hshown, if_neg hid, ← listCards,
        listCards_dropCard (hkeys.cards l hl')]
    rw [hcards]
    exact (if_neg hid).symm

theorem snapshot_moveCard_lookup (hids : b.DistinctIds) {moved : ApiCard} {l₀ : ApiList}
    (hl₀ : l₀ ∈ b.shownLists) (hshown : moved.isArchived = false) (id : Id) :
    (b.moveCard moved l₀.id).snapshot.cards.lookup id =
      if id = moved.id then some (mapApiCard moved) else b.snapshot.cards.lookup id := by
  refine Option.ext fun card => ?_
  rw [lookup_snapshot (hids.moveCard hshown)]
  by_cases hid : id = moved.id
  · rw [if_pos hid, Option.some_inj]
    simp only [shownCards_moveCard b hshown, shownCards_dropCard]
    constructor
    · rintro ⟨l, -, c, hc, heq, hcard⟩
      have hc : c = moved := by
        split at hc
        · rcases List.mem_cons.mp hc with rfl | hc
          · rfl
          · simp [heq.trans hid] at hc
        · simp [heq.trans hid] at hc
      rw [← hcard, hc]
    · rintro rfl
      exact ⟨l₀, hl₀, moved, by simp, hid.symm, rfl⟩
  · rw [if_neg hid, lookup_snapshot hids]
    refine exists_congr fun l => and_congr Iff.rfl (exists_congr fun c => ?_)
    rw [shownCards_moveCard b hshown, shownCards_dropCard]
    refine ⟨?_, ?_⟩
    · rintro ⟨hc, heq, hcard⟩
      refine ⟨?_, heq, hcard⟩
      split at hc
      · rcases List.mem_cons.mp hc with rfl | hc
        · exact absurd heq.symm hid
        · exact (List.mem_filter.mp hc).1
      · exact (List.mem_filter.mp hc).1
    · rintro ⟨hc, heq, hcard⟩
      have hkept : c ∈ (b.shownCards l.id).filter fun c => c.id ≠ moved.id :=
        List.mem_filter.mpr ⟨hc, by simpa [heq] using hid⟩
      refine ⟨?_, heq, hcard⟩
      split
      · exact List.mem_cons_of_mem _ hkept
      · exact hkept

end ServedBoard

/-! ## Frames -/

/-- The client asks for the board again, or shows what it would load. -/
def ReconcilePatch.UpToDate (s snapshot : BoardState) : ReconcilePatch → Prop
  | .none => s.Agrees snapshot
  | .board lists cards => (BoardState.mk lists cards).Agrees snapshot
  | .needsResync => True

theorem namedId_some {id : Id} (h : id ≠ []) : namedId (some id) = some id := by
  simp [namedId, h]

/-- A `card.deleted` frame of a card the client does not have. -/
theorem reconcileDeleted_eq_none {payload : BoardMutationPayload} {cardId : Id}
    (hcard : payload.cardId = some cardId) (hnot : cardId ∉ s.cards) :
    reconcileDeleted s payload = .none := by
  unfold reconcileDeleted
  rw [hcard]
  by_cases hne : cardId = []
  · subst hne
    rfl
  · rw [namedId_some hne]
    exact if_neg hnot

/-- A `list.deleted` frame of a list the client does not have. -/
theorem reconcileListDeleted_eq_none {payload : BoardMutationPayload} {listId : Id}
    (hlist : payload.listId = some listId) (hnot : findList s.lists listId = none) :
    reconcileListDeleted s payload = .none := by
  unfold reconcileListDeleted
  rw [hlist]
  by_cases hne : listId = []
  · subst hne
    rfl
  · rw [namedId_some hne]
    dsimp only
    rw [hnot]

/-- A `card.moved` frame of a card and a list the client has. -/
theorem reconcileMoved_eq {payload : BoardMutationPayload} {cardId listId : Id} {key : JsString}
    {card : Card} (hcard : payload.cardId = some cardId) (hcardId : cardId ≠ [])
    (hlist : payload.listId = some listId) (hlistId : listId ≠ [])
    (hkey : payload.positionIdx = some key) (hfound : s.cards.lookup cardId = some card)
    (hthere : (findList s.lists listId).isSome = true) :
    reconcileMoved s payload =
      .board (placeByKey s.cards cardId listId key (withoutCard s.lists cardId))
        (s.cards.insert cardId { card with positionIdx := some key }) := by
  obtain ⟨l, hl⟩ := Option.isSome_iff_exists.mp hthere
  unfold reconcileMoved
  rw [hcard, hlist, hkey, namedId_some hcardId, namedId_some hlistId]
  dsimp only
  rw [hfound, hl]

/-- A `card.moved` frame of a card or a list the client does not have. -/
theorem reconcileMoved_eq_needsResync {payload : BoardMutationPayload} {cardId listId : Id}
    (hcard : payload.cardId = some cardId) (hlist : payload.listId = some listId)
    (hnot : s.cards.lookup cardId = none ∨ findList s.lists listId = none) :
    reconcileMoved s payload = .needsResync := by
  unfold reconcileMoved
  split
  · rename_i cardId' listId' positionIdx hcard' hlist' hkey'
    obtain rfl : cardId = cardId' :=
      Option.some.inj (hcard.symm.trans (Option.filter_eq_some_iff.mp hcard').1)
    obtain rfl : listId = listId' :=
      Option.some.inj (hlist.symm.trans (Option.filter_eq_some_iff.mp hlist').1)
    split
    · rename_i hcard'' hlist''
      rcases hnot with hnot | hnot
      · rw [hnot] at hcard''
        cases hcard''
      · rw [hnot] at hlist''
        cases hlist''
    · rfl
  · rfl

/-- A placed card looks the same but for its key when its content does. -/
theorem seen_placed_iff {card : Card} {before moved : ApiCard} (hid : moved.id = before.id)
    (h : card.seen = (mapApiCard before).seen) :
    Card.seen { card with positionIdx := some moved.positionIdx } = (mapApiCard moved).seen ↔
      moved.title = before.title ∧ moved.description = before.description ∧
        moved.isComplete = before.isComplete := by
  simp only [Card.seen, mapApiCard, Prod.mk.injEq] at h ⊢
  rw [h.1, h.2.1, h.2.2.1, h.2.2.2.1, hid]
  simp [eq_comm]

theorem insertionIndexForKey_congr {cards cards' : Dict Id Card}
    (h : ∀ id, (cards.lookup id).bind Card.positionIdx = (cards'.lookup id).bind Card.positionIdx)
    (ids : List Id) (key : JsString) :
    insertionIndexForKey ids cards key = insertionIndexForKey ids cards' key := by
  simp only [insertionIndexForKey, h]

theorem placeByKey_congr {cards cards' : Dict Id Card}
    (h : ∀ id, (cards.lookup id).bind Card.positionIdx = (cards'.lookup id).bind Card.positionIdx)
    (cardId listId : Id) (key : JsString) (lists : List BoardList) :
    placeByKey cards cardId listId key lists = placeByKey cards' cardId listId key lists := by
  simp only [placeByKey, insertionIndexForKey_congr h]

section Applied

variable {payload : BoardMutationPayload} (hagrees : s.Agrees b.snapshot) (hkeys : b.DistinctKeys)
  (hids : b.DistinctIds)

include hagrees hkeys hids

/-- A `card.deleted` frame. -/
theorem dropCard_upToDate {cardId : Id} (hcard : payload.cardId = some cardId) (hne : cardId ≠ []) :
    (reconcileDeleted s payload).UpToDate s (b.dropCard cardId).snapshot := by
  have hlists : withoutCard s.lists cardId = (b.dropCard cardId).snapshot.lists := by
    rw [ServedBoard.snapshot_dropCard_lists hkeys, hagrees.lists]
  have hcards : ∀ id, ((s.cards.erase cardId).lookup id).map Card.seen =
      ((b.dropCard cardId).snapshot.cards.lookup id).map Card.seen := by
    intro id
    rw [ServedBoard.snapshot_dropCard_lookup hids]
    by_cases hid : id = cardId
    · rw [if_pos hid, hid, AList.lookup_erase]
    · rw [if_neg hid, AList.lookup_erase_ne hid]
      exact hagrees.cards id
  unfold reconcileDeleted
  rw [hcard, namedId_some hne]
  dsimp only
  split
  · refine ⟨?_, hcards⟩
    rw [← hlists, map_ite_eq_withoutCard]
  · rename_i hnot
    have hnone : s.cards.lookup cardId = none := AList.lookup_eq_none.mpr hnot
    rw [ServedBoard.snapshot_dropCard_of_not_shown hkeys]
    · exact hagrees
    · rintro l hl c hc rfl
      have hsome := hagrees.lookup_isSome c.id
      simp [ServedBoard.lookup_snapshot_of_mem hids hl hc, hnone] at hsome

/-- A `list.deleted` frame. -/
theorem dropList_upToDate {listId : Id} (hlist : payload.listId = some listId) (hne : listId ≠ []) :
    (reconcileListDeleted s payload).UpToDate s (b.dropList listId).snapshot := by
  unfold reconcileListDeleted
  rw [hlist, namedId_some hne]
  dsimp only
  cases hfind : findList s.lists listId with
  | none =>
      dsimp only
      rw [ServedBoard.snapshot_dropList_of_not_shown hkeys]
      · exact hagrees
      · intro l hl hid
        have hsome := ServedBoard.findList_snapshot_isSome.mpr ⟨l, hl, hid⟩
        rw [← hagrees.lists, hfind] at hsome
        cases hsome
  | some removed =>
      have hmem : removed ∈ b.snapshot.lists := hagrees.lists ▸ List.mem_of_find?_eq_some hfind
      have hid : removed.id = listId :=
        of_decide_eq_true (List.find?_some (p := fun l : BoardList => decide (l.id = listId)) hfind)
      obtain ⟨l₀, hl₀, rfl⟩ := List.mem_map.mp hmem
      refine ⟨?_, fun id => ?_⟩
      · rw [ServedBoard.snapshot_dropList_lists hkeys, hagrees.lists]
      · rw [ServedBoard.snapshot_dropList_lookup hids (ServedBoard.mem_sortedLists.mp hl₀) hid,
          Dict.lookup_foldl_erase]
        obtain rfl : l₀.id = listId := hid
        by_cases hin : id ∈ (b.listCards l₀.id).map ApiCard.id
        · rw [if_pos hin, if_pos]
          exact hin
        · rw [if_neg hin, if_neg]
          · exact hagrees.cards id
          · exact hin

/-- A `card.moved` frame of a card and a list the client shows, where the card looks the
same but for its key. -/
theorem moveCard_upToDate {moved : ApiCard} {l₀ : ApiList} {card : Card}
    (hcard : payload.cardId = some moved.id) (hlist : payload.listId = some l₀.id)
    (hkey : payload.positionIdx = some moved.positionIdx) (hl₀ : l₀ ∈ b.shownLists)
    (hshown : moved.isArchived = false)
    (hfree : b.KeyFree l₀.id moved.id moved.positionIdx)
    (hfound : s.cards.lookup moved.id = some card)
    (hseen : Card.seen { card with positionIdx := some moved.positionIdx } =
      (mapApiCard moved).seen) :
    (reconcileMoved s payload).UpToDate s (b.moveCard moved l₀.id).snapshot := by
  unfold reconcileMoved
  split
  · rename_i cardId listId positionIdx hcard' hlist' hkey'
    obtain rfl : moved.id = cardId :=
      Option.some.inj (hcard.symm.trans (Option.filter_eq_some_iff.mp hcard').1)
    obtain rfl : l₀.id = listId :=
      Option.some.inj (hlist.symm.trans (Option.filter_eq_some_iff.mp hlist').1)
    obtain rfl : moved.positionIdx = positionIdx := Option.some.inj (hkey.symm.trans hkey')
    split
    · rename_i card' found hcard'' hlist''
      obtain rfl : card = card' := Option.some.inj (hfound.symm.trans hcard'')
      refine ⟨?_, fun id => ?_⟩
      · rw [ServedBoard.snapshot_moveCard_lists hkeys hids hshown hfree, hagrees.lists]
        exact placeByKey_congr hagrees.positionIdx _ _ _ _
      · rw [ServedBoard.snapshot_moveCard_lookup hids hl₀ hshown, Dict.lookup_insert_eq]
        split
        · exact congrArg some hseen
        · exact hagrees.cards id
    · trivial
  · trivial

end Applied

end FlowLogix.Web

/-
  Web/OwnPlace.lean --- the place a dragged card is shown at
  (moveCard in frontend/src/store/useBoardStore.ts, store/persistence.ts).

  The optimistic update puts the card at an index of its list, and the request names the
  two cards that are then beside it.  A key strictly between theirs puts the card at that
  very index when the board is loaded again (`snapshot_moveCard_putAt`).
-/
import FlowLogix.Web.MoveRollback
import FlowLogix.Web.Reload

set_option autoImplicit false

namespace FlowLogix.Web

open FlowLogix.Foundation FlowLogix.Server

variable {lists : List BoardList} {cardId fromListId toListId : Id}

/-! ## Neighbours -/

/-- `target.cardIds[idx - 1]`, if there is one. -/
def beforeCardId (cardIds : List Id) (cardId : Id) : Option Id :=
  match cardIds.idxOf? cardId with
  | some (i + 1) => cardIds[i]?
  | _ => none

/-- `target.cardIds[idx + 1]`, if there is one. -/
def afterCardId (cardIds : List Id) (cardId : Id) : Option Id :=
  (cardIds.idxOf? cardId).bind fun i => cardIds[i + 1]?

theorem idxOf?_middle {pre post : List Id} (h : cardId ∉ pre) :
    (pre ++ cardId :: post).idxOf? cardId = some pre.length := by
  induction pre with
  | nil => simp [List.idxOf?_cons]
  | cons first rest ih =>
      have hne : first ≠ cardId := fun heq => h (heq ▸ List.mem_cons_self)
      have hrest := ih fun hmem => h (List.mem_cons_of_mem first hmem)
      simp [List.idxOf?_cons, hne, hrest]

theorem beforeCardId_middle {pre post : List Id} (h : cardId ∉ pre) :
    beforeCardId (pre ++ cardId :: post) cardId = pre.getLast? := by
  unfold beforeCardId
  rw [idxOf?_middle h]
  rcases pre.eq_nil_or_concat with rfl | ⟨init, last, rfl⟩
  · rfl
  · simp

theorem afterCardId_middle {pre post : List Id} (h : cardId ∉ pre) :
    afterCardId (pre ++ cardId :: post) cardId = post.head? := by
  unfold afterCardId
  rw [idxOf?_middle h, Option.bind_some, List.getElem?_append_right (Nat.le_succ _)]
  cases post <;> simp

/-! ## The optimistic place -/

/-- A card put at an index of one list. -/
def putAt (lists : List BoardList) (listId : Id) (i : Nat) (cardId : Id) : List BoardList :=
  lists.map fun l =>
    if l.id = listId then { l with cardIds := l.cardIds.take i ++ cardId :: l.cardIds.drop i }
    else l

/-- A card that is in one list once is taken out of it as it is out of every list. -/
theorem takeCard_eq_withoutCard (hids : (lists.map BoardList.id).Nodup)
    (honce : ∀ l ∈ lists, l.cardIds.count cardId = if l.id = fromListId then 1 else 0) :
    modifyList fromListId (fun l => { l with cardIds := l.cardIds.erase cardId }) lists =
      withoutCard lists cardId := by
  have hout := not_mem_takeCard hids honce
  have hsame := withoutCard_modifyList (c := cardId)
    (f := fun l => { l with cardIds := l.cardIds.erase cardId })
    (fun l => ⟨rfl, rfl, filter_erase_self l.cardIds cardId⟩) fromListId lists
  rw [← hsame, withoutCard]
  refine ((List.map_id _).symm).trans (List.map_congr_left fun l hl => ?_)
  rw [filter_ne_of_not_mem (hout l hl), id_eq]

/-- A move puts the card at some index of its new list. -/
theorem transfer_eq_putAt (hids : (lists.map BoardList.id).Nodup)
    (honce : ∀ l ∈ lists, l.cardIds.count cardId = if l.id = fromListId then 1 else 0)
    {target : BoardList} (htarget : findList (withoutCard lists cardId) toListId = some target)
    (toIndex : Int) :
    ∃ i ≤ target.cardIds.length, transfer lists cardId fromListId toListId toIndex =
      putAt (withoutCard lists cardId) toListId i cardId := by
  have hids' : ((withoutCard lists cardId).map BoardList.id).Nodup := by
    rw [ids_withoutCard]
    exact hids
  obtain ⟨hmem, hid⟩ := findList_some htarget
  let i := (if toIndex < 0 then toIndex + target.cardIds.length else toIndex).toNat
  refine ⟨min i target.cardIds.length, Nat.min_le_right _ _, ?_⟩
  rw [transfer, takeCard_eq_withoutCard hids honce, ← map_ite_eq_modifyList hids', putAt]
  refine List.map_congr_left fun l hl => ?_
  split
  · rename_i heq
    obtain rfl : l = target := List.inj_on_of_nodup_map hids' hl hmem (heq.trans hid.symm)
    have htake : l.cardIds.take (min i l.cardIds.length) = l.cardIds.take i := by
      rw [← List.take_take, List.take_length]
    have hdrop : l.cardIds.drop (min i l.cardIds.length) = l.cardIds.drop i := by
      rcases Nat.le_total i l.cardIds.length with hle | hle
      · rw [Nat.min_eq_left hle]
      · rw [Nat.min_eq_right hle, List.drop_length, List.drop_eq_nil_of_le hle]
    rw [htake, hdrop]
    rfl
  · rfl

/-- The list a card was put into. -/
theorem findList_putAt {target : BoardList} (h : findList lists toListId = some target) (i : Nat)
    (cardId : Id) : findList (putAt lists toListId i cardId) toListId =
      some { target with
        cardIds := target.cardIds.take i ++ cardId :: target.cardIds.drop i } := by
  obtain ⟨-, hid⟩ := findList_some h
  have hsame : ((fun l : BoardList => decide (l.id = toListId)) ∘ fun l =>
      if l.id = toListId then
        { l with cardIds := l.cardIds.take i ++ cardId :: l.cardIds.drop i }
      else l) = fun l => decide (l.id = toListId) := by
    funext l
    by_cases hl : l.id = toListId <;> simp [hl]
  rw [findList, putAt, List.find?_map, hsame]
  rw [findList] at h
  rw [h, Option.map_some, if_pos hid]

/-! ## The place of a key -/

namespace ServedBoard

variable {b : ServedBoard} {l₀ : ApiList} {moved : ApiCard} {before after : List ApiCard}

/-- The key of a card lies between the two parts of a list that is without it. -/
structure PlacedBetween (b : ServedBoard) (listId : Id) (moved : ApiCard)
    (before after : List ApiCard) : Prop where
  split : ((b.listCards listId).filter fun c => c.id ≠ moved.id) = before ++ after
  above : ∀ c ∈ before, c.positionIdx < moved.positionIdx
  below : ∀ c ∈ after, moved.positionIdx < c.positionIdx

/-- No other card has such a key. -/
theorem PlacedBetween.keyFree {listId : Id} (h : b.PlacedBetween listId moved before after) :
    b.KeyFree listId moved.id moved.positionIdx := by
  intro c hc hne heq
  have hmem : c ∈ before ++ after := by
    rw [← h.split, List.mem_filter]
    exact ⟨mem_listCards.mpr hc, decide_eq_true hne⟩
  rcases List.mem_append.mp hmem with hmem | hmem
  · exact (h.above c hmem).ne heq
  · exact (h.below c hmem).ne' heq

/-- The index of such a key is the length of the first part. -/
theorem PlacedBetween.findIdx_eq {listId : Id} (h : b.PlacedBetween listId moved before after) :
    (((b.listCards listId).filter fun c => c.id ≠ moved.id).findIdx fun c =>
      decide (moved.positionIdx < c.positionIdx)) = before.length := by
  have hbefore : before.findIdx (fun c => decide (moved.positionIdx < c.positionIdx)) =
      before.length := by
    rw [List.findIdx_eq_length]
    intro c hc
    exact decide_eq_false (h.above c hc).not_gt
  rw [h.split, List.findIdx_append, hbefore, if_neg (lt_irrefl _)]
  cases hcases : after with
  | nil => simp
  | cons first rest =>
      have hfirst := h.below first (hcases ▸ List.mem_cons_self)
      simp [List.findIdx_cons, hfirst]

/-- A card with such a key is loaded at the index it was put at. -/
theorem snapshot_moveCard_putAt (hkeys : b.DistinctKeys) (hids : b.DistinctIds)
    (hl₀ : l₀ ∈ b.shownLists) (hshown : moved.isArchived = false)
    (h : b.PlacedBetween l₀.id moved before after) :
    (b.moveCard moved l₀.id).snapshot.lists =
      putAt (withoutCard b.snapshot.lists moved.id) l₀.id before.length moved.id := by
  have hindex : insertionIndexForKey (((findList (withoutCard b.snapshot.lists moved.id)
      l₀.id).map BoardList.cardIds).getD []) b.snapshot.cards moved.positionIdx =
        before.length := by
    rw [cardIds_withoutCard (mem_sortedLists.mpr hl₀), Option.getD_some,
      insertionIndexForKey_eq hids hl₀, h.findIdx_eq]
  rw [snapshot_moveCard_lists hkeys hids hshown h.keyFree, placeByKey, hindex, putAt]

/-- The keys of the cards of a list ascend strictly. -/
theorem listCards_ascending {listId : Id}
    (hkeys : ((b.shownCards listId).map ApiCard.positionIdx).Nodup) :
    (b.listCards listId).Pairwise fun c c' => c.positionIdx < c'.positionIdx := by
  have hle := pairwise_sortByKey ApiCard.positionIdx (b.shownCards listId)
  have hne : (b.listCards listId).Pairwise fun c c' => c.positionIdx ≠ c'.positionIdx := by
    refine List.pairwise_map.mp ?_
    exact (((sortByKey_perm ApiCard.positionIdx _).map _).nodup_iff).mpr hkeys
  exact List.Pairwise.imp₂ (fun c c' hle hne => lt_of_le_of_ne hle hne) hle hne

/-- A key between those of the two cards beside an index is between the two parts. -/
theorem placedBetween_of_beside {listId : Id}
    (hkeys : ((b.shownCards listId).map ApiCard.positionIdx).Nodup)
    (hsplit : ((b.listCards listId).filter fun c => c.id ≠ moved.id) = before ++ after)
    (habove : ∀ c, before.getLast? = some c → c.positionIdx < moved.positionIdx)
    (hbelow : ∀ c, after.head? = some c → moved.positionIdx < c.positionIdx) :
    b.PlacedBetween listId moved before after := by
  have hsorted := (listCards_ascending hkeys).filter fun c => decide (c.id ≠ moved.id)
  rw [hsplit, List.pairwise_append] at hsorted
  obtain ⟨hbefore, hafter, -⟩ := hsorted
  refine ⟨hsplit, fun c hc => ?_, fun c hc => ?_⟩
  · rcases before.eq_nil_or_concat with rfl | ⟨init, last, rfl⟩
    · simp at hc
    · have hlast := habove last (by simp)
      rw [List.concat_eq_append] at hbefore hc
      rcases List.mem_append.mp hc with hc | hc
      · exact ((List.pairwise_append.mp hbefore).2.2 c hc last (by simp)).trans hlast
      · exact List.mem_singleton.mp hc ▸ hlast
  · cases after with
    | nil => simp at hc
    | cons first rest =>
        have hfirst := hbelow first rfl
        rcases List.mem_cons.mp hc with rfl | hc
        · exact hfirst
        · exact hfirst.trans ((List.pairwise_cons.mp hafter).1 c hc)

end ServedBoard

end FlowLogix.Web

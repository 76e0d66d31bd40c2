/-
  Web/WellFormedBoard.lean --- when the board stays well-formed
  (frontend/src/store/useBoardStore.ts, store/remoteMutations.ts).

  On a well-formed board every card stands once, and nothing else stands.  A move, its
  completion and a toggled item rearrange the board, which changes neither what stands
  nor what there is; frames and snapshots keep it well-formed as well.

  The completion of a created card is different: it replaces the made-up id in the list
  the card was added to, and in the cards, without looking whether the card is still
  there.  If it was moved meanwhile, or the list or the whole board was replaced, the
  two do not match.
-/
import FlowLogix.Web.Standing
import FlowLogix.Web.WebBoard
import FlowLogix.Foundation.Steps

set_option autoImplicit false

namespace FlowLogix.Web

open FlowLogix.Foundation FlowLogix.Server

/-! ## Well-formed boards -/

/-- Every card stands in exactly one list, exactly once, and nothing else stands. -/
structure BoardState.WellFormed (s : BoardState) : Prop where
  ids : (s.lists.map BoardList.id).Nodup
  entries : ∀ l ∈ s.lists, ∀ id ∈ l.cardIds, id ∈ s.cards
  once : ∀ id ∈ s.cards, standing s.lists id = 1

/-- How often a card stands on a well-formed board. -/
def BoardState.expected (s : BoardState) (id : Id) : Nat := if id ∈ s.cards then 1 else 0

theorem BoardState.wellFormed_iff {s : BoardState} :
    s.WellFormed ↔ (s.lists.map BoardList.id).Nodup ∧
      ∀ id, standing s.lists id = s.expected id := by
  constructor
  · rintro ⟨hids, hentries, honce⟩
    refine ⟨hids, fun id => ?_⟩
    unfold BoardState.expected
    split
    · exact honce id ‹_›
    · rename_i hnot
      by_contra hne
      obtain ⟨l, hl, hid⟩ := standing_pos_iff.mp (Nat.pos_of_ne_zero hne)
      exact hnot (hentries l hl id hid)
  · rintro ⟨hids, hstand⟩
    refine ⟨hids, fun l hl id hid => ?_, fun id hid => ?_⟩
    · by_contra hnot
      have hzero := hstand id
      rw [BoardState.expected, if_neg hnot] at hzero
      have hpos := standing_pos_iff.mpr ⟨l, hl, hid⟩
      omega
    · rw [hstand, BoardState.expected, if_pos hid]

/-- What stands on a well-formed board. -/
theorem BoardState.WellFormed.standing_eq {s : BoardState} (h : s.WellFormed) (id : Id) :
    standing s.lists id = s.expected id := (BoardState.wellFormed_iff.mp h).2 id

/-- The same lists and cards, in other places and with other contents. -/
structure BoardState.Rearranges (s s' : BoardState) : Prop where
  ids : s'.lists.map BoardList.id = s.lists.map BoardList.id
  standing_eq : ∀ id, standing s'.lists id = standing s.lists id
  mem_cards : ∀ id, id ∈ s'.cards ↔ id ∈ s.cards

theorem BoardState.Rearranges.refl (s : BoardState) : s.Rearranges s where
  ids := rfl
  standing_eq _ := rfl
  mem_cards _ := Iff.rfl

theorem BoardState.WellFormed.rearranged {s s' : BoardState} (h : s.WellFormed)
    (hs : s.Rearranges s') : s'.WellFormed := by
  refine BoardState.wellFormed_iff.mpr ⟨hs.ids ▸ h.ids, fun id => ?_⟩
  rw [hs.standing_eq, h.standing_eq, BoardState.expected, BoardState.expected]
  simp only [hs.mem_cards]

/-- Writing a card that is there adds none. -/
theorem mem_insert_of_mem {cards : Dict Id Card} {cardId : Id} (h : cardId ∈ cards) (card : Card)
    (id : Id) : id ∈ cards.insert cardId card ↔ id ∈ cards := by
  rw [AList.mem_insert]
  constructor
  · rintro (rfl | hid)
    · exact h
    · exact hid
  · exact Or.inr

theorem mem_of_lookup {cards : Dict Id Card} {cardId : Id} {card : Card}
    (h : cards.lookup cardId = some card) : cardId ∈ cards :=
  AList.lookup_isSome.mp (by simp [h])

/-! ## Moves -/

namespace BoardStore

theorem showMove_rearranges (store : BoardStore) (cardId fromListId toListId : Id)
    (toIndex : Int) :
    store.toBoardState.Rearranges
      (store.showMove cardId fromListId toListId toIndex).toBoardState := by
  unfold showMove
  split
  · rename_i source target hsource htarget
    split
    · rename_i hmem
      refine ⟨ids_transfer _ _ _ _ _, standing_transfer hsource htarget hmem toIndex, fun id => ?_⟩
      split
      · rename_i card hcard
        split
        · exact mem_insert_of_mem (mem_of_lookup hcard) _ id
        · exact Iff.rfl
      · exact Iff.rfl
    · exact .refl _
  · exact .refl _

theorem moveCard_rearranges {store store' : BoardStore} {cardId fromListId toListId : Id}
    {toIndex : Int} {move : PendingMove}
    (h : store.moveCard cardId fromListId toListId toIndex = some (store', move)) :
    store.toBoardState.Rearranges store'.toBoardState := by
  unfold moveCard at h
  split at h
  · cases h
    exact showMove_rearranges (store.bump cardId) cardId fromListId toListId toIndex
  · cases h

theorem toggleChecklistItem_rearranges (store : BoardStore) (cardId itemId : Id) :
    store.toBoardState.Rearranges (store.toggleChecklistItem cardId itemId).toBoardState := by
  unfold toggleChecklistItem
  split
  · exact .refl _
  · rename_i card hcard
    exact ⟨rfl, fun _ => rfl, mem_insert_of_mem (mem_of_lookup hcard) _⟩

end BoardStore

namespace PendingMove

theorem lookup_of_latest {pending : PendingMove} {store : BoardStore} {card : Card}
    (h : pending.latest store = some card) : pending.cardId ∈ store.cards := by
  unfold latest at h
  split at h
  · exact mem_of_lookup h
  · cases h

theorem rollback_rearranges {pending : PendingMove} {store : BoardStore}
    (h : pending.cardId ∈ store.cards) (card : Card) (message : JsString) :
    store.toBoardState.Rearranges (pending.rollback store card message).toBoardState := by
  unfold rollback
  split
  · rename_i source target hsource htarget
    refine ⟨?_, fun id => ?_, fun id => ?_⟩
    · dsimp only
      split
      · exact ids_transfer _ _ _ _ _
      · rfl
    · dsimp only
      split
      · rename_i hmem
        exact standing_transfer htarget hsource hmem _ id
      · rfl
    · dsimp only
      split
      · exact mem_insert_of_mem h _ id
      · exact Iff.rfl
  · exact .refl _

theorem settle_rearranges (pending : PendingMove) (store : BoardStore) (outcome : MoveOutcome) :
    store.toBoardState.Rearranges (pending.settle store outcome).toBoardState := by
  cases outcome with
  | resolved positionIdx =>
      cases positionIdx with
      | none => exact .refl _
      | some key =>
          simp only [settle]
          split
          · rename_i card hlatest
            exact ⟨rfl, fun _ => rfl, mem_insert_of_mem (lookup_of_latest hlatest) _⟩
          · exact .refl _
  | rejected message =>
      simp only [settle]
      split
      · rename_i card hlatest
        exact rollback_rearranges (lookup_of_latest hlatest) card message
      · exact .refl _

end PendingMove

/-! ## Frames -/

/-- A card put back by its key stands once more in each list with the id. -/
theorem placeByKey_eq_modifyList {lists : List BoardList} (hids : (lists.map BoardList.id).Nodup)
    (cards : Dict Id Card) (cardId listId : Id) (positionIdx : JsString) :
    ∃ i : Nat, placeByKey cards cardId listId positionIdx lists =
      modifyList listId (fun l => { l with cardIds := spliceIn l.cardIds i cardId }) lists := by
  refine ⟨insertionIndexForKey (((findList lists listId).map BoardList.cardIds).getD []) cards
    positionIdx, ?_⟩
  rw [placeByKey, map_ite_eq_modifyList hids]
  simp only [spliceIn_natCast]

namespace BoardState.WellFormed

variable {s : BoardState} (h : s.WellFormed)
include h

theorem reconcileMoved {payload : BoardMutationPayload} {lists : List BoardList}
    {cards : Dict Id Card} (hs : Web.reconcileMoved s payload = .board lists cards) :
    WellFormed { lists := lists, cards := cards } := by
  unfold Web.reconcileMoved at hs
  split at hs
  · rename_i cardId listId positionIdx hcardId hlistId hkey
    split at hs
    · rename_i card target hcard htarget
      cases hs
      have hmem := mem_of_lookup hcard
      have hids : ((withoutCard s.lists cardId).map BoardList.id).Nodup := by
        rw [ids_withoutCard]
        exact h.ids
      obtain ⟨i, hplace⟩ := placeByKey_eq_modifyList hids s.cards cardId listId positionIdx
      have hthere : findList (withoutCard s.lists cardId) listId =
          some { target with cardIds := target.cardIds.filter fun id => id ≠ cardId } := by
        simp only [findList, withoutCard, List.find?_map] at htarget ⊢
        rw [show (s.lists.find? ((fun l : BoardList => decide (l.id = listId)) ∘ fun l =>
          { l with cardIds := l.cardIds.filter fun id => id ≠ cardId })) = some target from htarget]
        rfl
      refine h.rearranged ⟨?_, fun id => ?_, mem_insert_of_mem hmem _⟩
      · dsimp only
        rw [hplace, ids_modifyList, ids_withoutCard]
        exact fun _ => rfl
      · dsimp only
        rw [hplace, standing_putCard hthere, standing_withoutCard, h.standing_eq,
          BoardState.expected]
        split
        · rename_i heq
          simp [heq, hmem]
        · rename_i hne
          simp [Ne.symm hne]
    · cases hs
  · cases hs

theorem reconcileDeleted {payload : BoardMutationPayload} {lists : List BoardList}
    {cards : Dict Id Card} (hs : Web.reconcileDeleted s payload = .board lists cards) :
    WellFormed { lists := lists, cards := cards } := by
  unfold Web.reconcileDeleted at hs
  split at hs
  · cases hs
  · rename_i cardId hcardId
    split at hs
    · cases hs
      rw [map_ite_eq_withoutCard]
      refine BoardState.wellFormed_iff.mpr ⟨by simpa using h.ids, fun id => ?_⟩
      rw [standing_withoutCard, h.standing_eq, BoardState.expected, BoardState.expected]
      simp only [AList.mem_erase]
      split <;> simp_all
    · cases hs

theorem reconcileListDeleted {payload : BoardMutationPayload} {lists : List BoardList}
    {cards : Dict Id Card} (hs : Web.reconcileListDeleted s payload = .board lists cards) :
    WellFormed { lists := lists, cards := cards } := by
  unfold Web.reconcileListDeleted at hs
  split at hs
  · cases hs
  · rename_i listId hlistId
    split at hs
    · cases hs
    · rename_i removed hremoved
      cases hs
      refine BoardState.wellFormed_iff.mpr ⟨?_, fun id => ?_⟩
      · exact (List.filter_sublist.map _).nodup h.ids
      · have hleft := standing_filter_ids h.ids hremoved id
        rw [h.standing_eq] at hleft
        simp only [BoardState.expected, Dict.mem_foldl_erase] at hleft ⊢
        have hcount : 0 < removed.cardIds.count id ↔ id ∈ removed.cardIds := List.count_pos_iff
        split at hleft
        · by_cases hid : id ∈ removed.cardIds
          · have hpos := hcount.mpr hid
            simp only [hid, not_true, and_false, if_false]
            omega
          · have hzero : removed.cardIds.count id = 0 := List.count_eq_zero.mpr hid
            simp only [*, not_false_eq_true, and_self, if_true]
            omega
        · rename_i hnot
          simp only [hnot, false_and, if_false]
          omega

theorem applyRemoteMutation {store : BoardStore} (hs : store.toBoardState = s)
    (envelope : BoardMutationEnvelope) :
    (store.applyRemoteMutation envelope).toBoardState.WellFormed := by
  have hpatched : (store.patched (reconcileRemoteMutation s envelope)).toBoardState.WellFormed := by
    cases hpatch : reconcileRemoteMutation s envelope with
    | none => exact hs ▸ h
    | needsResync => exact hs ▸ h
    | board lists cards =>
        unfold reconcileRemoteMutation at hpatch
        split at hpatch
        · exact h.reconcileMoved hpatch
        · exact h.reconcileDeleted hpatch
        · exact h.reconcileListDeleted hpatch
        all_goals cases hpatch
  unfold BoardStore.applyRemoteMutation
  rw [hs]
  split
  · exact hpatched
  · exact hpatched

end BoardState.WellFormed

/-! ## Created cards -/

/-- A card shown in a list that is there stands there. -/
theorem BoardStore.wellFormed_showCard {store : BoardStore} (h : store.toBoardState.WellFormed)
    {listId : Id} (hlist : store.hasList listId = true) {card : Card}
    (hfresh : card.id ∉ store.cards) :
    (store.showCard listId card).toBoardState.WellFormed := by
  have hlists : (store.showCard listId card).lists =
      modifyList listId (fun l => { l with cardIds := l.cardIds ++ [card.id] }) store.lists :=
    map_ite_eq_modifyList h.ids _ listId
  obtain ⟨l, hl⟩ : ∃ l, findList store.lists listId = some l := by
    rw [← Option.isSome_iff_exists]
    simpa [findList, BoardStore.hasList] using hlist
  refine BoardState.wellFormed_iff.mpr ⟨?_, fun id => ?_⟩
  · rw [hlists, ids_modifyList]
    · exact h.ids
    · exact fun _ => rfl
  · have hstand := standing_modifyList
      (f := fun l => { l with cardIds := l.cardIds ++ [card.id] }) hl id
    rw [h.standing_eq] at hstand
    rw [hlists]
    simp only [BoardState.expected, BoardStore.showCard, AList.mem_insert, List.count_append,
      List.count_singleton, beq_iff_eq, eq_comm (a := card.id)] at hstand ⊢
    split at hstand
    · rename_i hid
      have hne : id ≠ card.id := fun heq => hfresh (heq ▸ hid)
      simp only [hne, hid, if_false, or_true, if_true] at hstand ⊢
      omega
    · rename_i hid
      simp only [hid, or_false]
      omega

namespace PendingCard

/-- What the completion of a created card finds where it takes effect: the made-up card
still in its list and the created one not loaded yet, or the made-up one gone and the
created one loaded; and if the creation failed, the made-up card in its list or gone. -/
def completes (pending : PendingCard) (store : BoardStore) : CreateOutcome → Prop
  | .resolved mapped =>
      if mapped.id = pending.tempId then pending.tempId ∈ store.cards
      else (pending.tempId ∈ store.cardIdsOf pending.listId ∧ mapped.id ∉ store.cards) ∨
        (pending.tempId ∉ store.cards ∧ mapped.id ∈ store.cards)
  | .rejected _ =>
      pending.tempId ∈ store.cards → pending.tempId ∈ store.cardIdsOf pending.listId

theorem count_replace (ids : List Id) (tempId newId c : Id) :
    (ids.map fun id => if id = tempId then newId else id).count c =
      (if c = tempId then 0 else ids.count c) + if c = newId then ids.count tempId else 0 := by
  induction ids with
  | nil => simp
  | cons first rest ih =>
      simp only [List.map_cons, List.count_cons, ih, beq_iff_eq]
      grind

variable {pending : PendingCard} {store : BoardStore}

theorem count_cardIdsOf_le (h : store.toBoardState.WellFormed) (listId id : Id) :
    (store.cardIdsOf listId).count id ≤ store.toBoardState.expected id := by
  rw [← h.standing_eq]
  unfold BoardStore.cardIdsOf
  cases hl : findList store.lists listId with
  | none => simp
  | some l => exact count_le_standing hl id

/-- Whether the board is well-formed after a change of the order of one list and of the
cards. -/
theorem wellFormed_settled_iff (h : store.toBoardState.WellFormed) {g : List Id → List Id}
    (hg : g [] = []) (listId : Id) (cards : Dict Id Card) :
    BoardState.WellFormed
        { lists := store.lists.map fun l =>
            if l.id = listId then { l with cardIds := g l.cardIds } else l
          cards := cards } ↔
      ∀ id, store.toBoardState.expected id + (g (store.cardIdsOf listId)).count id =
        (if id ∈ cards then 1 else 0) + (store.cardIdsOf listId).count id := by
  have hlists := map_ite_eq_modifyList h.ids (fun l => { l with cardIds := g l.cardIds }) listId
  have hids : ((modifyList listId (fun l => { l with cardIds := g l.cardIds }) store.lists).map
      BoardList.id).Nodup := by
    rw [ids_modifyList]
    · exact h.ids
    · exact fun _ => rfl
  have hstand := standing_modifyIds hg store.lists listId
  rw [hlists, BoardState.wellFormed_iff]
  simp only [hids, true_and]
  refine forall_congr' fun id => ?_
  have hid := hstand id
  rw [h.standing_eq] at hid
  rw [BoardState.expected, BoardStore.cardIdsOf]
  dsimp only
  omega

/-- On a well-formed board a failed creation leaves a well-formed one just where it takes
effect. -/
theorem wellFormed_rejected_iff (h : store.toBoardState.WellFormed) (message : JsString) :
    (pending.settle store (.rejected message)).toBoardState.WellFormed ↔
      pending.completes store (.rejected message) := by
  have hiff := wellFormed_settled_iff h (g := fun ids => ids.filter fun id => id ≠ pending.tempId)
    rfl pending.listId (store.cards.erase pending.tempId)
  have hle := count_cardIdsOf_le h pending.listId
  have hcount : ∀ id, ((store.cardIdsOf pending.listId).filter fun id => id ≠ pending.tempId).count
      id = if id = pending.tempId then 0 else (store.cardIdsOf pending.listId).count id := by
    intro id
    split
    · rename_i heq
      simp [heq, List.count_eq_zero]
    · rename_i hne
      rw [List.count_filter (by simpa using hne)]
  have hpos : pending.tempId ∈ store.cardIdsOf pending.listId ↔
      0 < (store.cardIdsOf pending.listId).count pending.tempId := List.count_pos_iff.symm
  refine hiff.trans ?_
  simp only [hcount, completes, hpos, AList.mem_erase, BoardState.expected] at hle ⊢
  constructor
  · intro hall htemp
    have hself := hall pending.tempId
    simp only [htemp, if_true, ne_eq, not_true, false_and, if_false] at hself
    omega
  · intro htemp id
    have hid := hle id
    by_cases heq : id = pending.tempId
    · subst heq
      simp only [if_true, ne_eq, not_true, false_and, if_false]
      cases Decidable.em (pending.tempId ∈ store.cards) with
      | inl hmem =>
          have hthere := htemp hmem
          simp only [hmem, if_true] at hid ⊢
          omega
      | inr hmem =>
          simp only [hmem, if_false] at hid ⊢
          omega
    · simp [heq]

/-- On a well-formed board a creation that went through leaves a well-formed one just where
it takes effect. -/
theorem wellFormed_resolved_iff (h : store.toBoardState.WellFormed) (mapped : Card) :
    (pending.settle store (.resolved mapped)).toBoardState.WellFormed ↔
      pending.completes store (.resolved mapped) := by
  have hiff := wellFormed_settled_iff h
    (g := List.map fun id => if id = pending.tempId then mapped.id else id)
    rfl pending.listId ((store.cards.erase pending.tempId).insert mapped.id mapped)
  have hle := count_cardIdsOf_le h pending.listId
  have hpos : pending.tempId ∈ store.cardIdsOf pending.listId ↔
      0 < (store.cardIdsOf pending.listId).count pending.tempId := List.count_pos_iff.symm
  refine hiff.trans ?_
  simp only [count_replace, completes, hpos, AList.mem_insert, AList.mem_erase,
    BoardState.expected] at hle ⊢
  constructor
  · intro hall
    have htemp := hall pending.tempId
    have hmapped := hall mapped.id
    have hletemp := hle pending.tempId
    grind
  · intro hcompletes id
    have hid := hle id
    have hletemp := hle pending.tempId
    grind

/-- On a well-formed board a completion leaves a well-formed one just where it takes
effect. -/
theorem wellFormed_settle_iff (h : store.toBoardState.WellFormed) (outcome : CreateOutcome) :
    (pending.settle store outcome).toBoardState.WellFormed ↔ pending.completes store outcome := by
  cases outcome with
  | resolved mapped => exact wellFormed_resolved_iff h mapped
  | rejected message => exact wellFormed_rejected_iff h message

end PendingCard

/-! ## Runs -/

namespace WebBoard

/-- The board is well-formed. -/
def WellFormed (w : WebBoard) : Prop := w.store.toBoardState.WellFormed

/-- What comes from outside is as promised: a made-up id is not in use, and a snapshot is
well-formed. -/
def Promised (w : WebBoard) : Action → Prop
  | .addCard _ _ _ id => id ∉ w.store.cards
  | .hydrateBoard snapshot => snapshot.WellFormed
  | _ => True

/-- If the step completes a creation, that takes effect. -/
def Completes (w : WebBoard) : Action → Prop
  | .settleCard i outcome => ∀ pending, w.creations[i]? = some pending →
      pending.completes w.store outcome
  | _ => True

/-- A step that does what is promised leads from a well-formed board to a well-formed one
just where a completed creation takes effect. -/
theorem WellFormed.step_iff {w w' : WebBoard} {action : Action} (hw : w.WellFormed)
    (hpromised : w.Promised action) (h : w.step action = some w') :
    w'.WellFormed ↔ w.Completes action := by
  cases action with
  | moveCard cardId fromListId toListId toIndex =>
      refine iff_of_true ?_ trivial
      simp only [step] at h
      split at h
      · obtain rfl := Option.some.inj h
        exact hw
      · rename_i store move hmove
        obtain rfl := Option.some.inj h
        exact BoardState.WellFormed.rearranged hw (BoardStore.moveCard_rearranges hmove)
  | settleMove i outcome =>
      obtain ⟨f, -, rfl⟩ := Option.map_eq_some_iff.mp h
      exact iff_of_true (BoardState.WellFormed.rearranged hw
        (f.move.settle_rearranges w.store outcome)) trivial
  | addCard apiMode listId title id =>
      obtain rfl := Option.some.inj h
      refine iff_of_true ?_ trivial
      unfold WebBoard.addCard
      split
      · exact hw
      · rename_i hthere
        have hlist : w.store.hasList listId = true := by simpa using (not_or.mp hthere).2
        have hfresh : (BoardStore.newCard id (trim title)).id ∉ w.store.cards := hpromised
        have hshown := BoardStore.wellFormed_showCard hw hlist hfresh
        cases apiMode with
        | true => exact hshown
        | false => exact hshown
  | settleCard i outcome =>
      obtain ⟨pending, hpending, rfl⟩ := Option.map_eq_some_iff.mp h
      refine (PendingCard.wellFormed_settle_iff hw outcome).trans ⟨?_, ?_⟩
      · intro hcompletes other hother
        obtain rfl := Option.some.inj (hpending.symm.trans hother)
        exact hcompletes
      · exact fun hcompletes => hcompletes pending hpending
  | toggleChecklistItem cardId itemId =>
      obtain rfl := Option.some.inj h
      exact iff_of_true (BoardState.WellFormed.rearranged hw
        (w.store.toggleChecklistItem_rearranges cardId itemId)) trivial
  | applyRemoteMutation envelope =>
      obtain rfl := Option.some.inj h
      exact iff_of_true (BoardState.WellFormed.applyRemoteMutation hw rfl envelope) trivial
  | hydrateBoard snapshot =>
      obtain rfl := Option.some.inj h
      exact iff_of_true hpromised trivial

/-- In a run that starts well-formed and whose ids and snapshots are as promised, the board
is well-formed in every state just where every completed creation takes effect. -/
theorem wellFormed_along_iff {start w : WebBoard} {trace : List (WebBoard × Action)}
    (run : Steps step start trace w) (hstart : start.WellFormed)
    (hpromised : ∀ e ∈ trace, e.1.Promised e.2) :
    ((∀ e ∈ trace, e.1.WellFormed) ∧ w.WellFormed) ↔ ∀ e ∈ trace, e.1.Completes e.2 := by
  exact run.everywhere_iff hpromised hstart fun _ _ _ hassumed hw h => hw.step_iff hassumed h

/-! ## A card moved while it is created -/

section Creating

/-- A card added to a board with two lists, under the made-up id "t1". -/
def creating (rest : List Action) : List Action :=
  .addCard true (js "l1") (js "Ship it") (js "t1") :: rest

/-- The server stored it as "c1". -/
def stored : Action := .settleCard 0 (.resolved (BoardStore.newCard (js "c1") (js "Ship it")))

def twoLists : BoardState where
  lists := [{ id := js "l1", title := js "To do", cardIds := [] },
    { id := js "l2", title := js "Done", cardIds := [] }]
  cards := ∅

theorem wellFormed_twoLists : twoLists.WellFormed where
  ids := by decide
  entries := by simp [twoLists]
  once := by simp [twoLists]

theorem promised_creating {rest : List Action} (hrest : ∀ action ∈ rest, ∀ w, Promised w action) :
    ∀ e ∈ traceOf step (loaded twoLists) (creating rest), e.1.Promised e.2 := by
  intro e he
  rw [creating, traceOf, List.mem_cons] at he
  rcases he with rfl | he
  · simp [Promised, loaded, BoardStore.hydrateBoard, twoLists]
  · split at he
    · simp at he
    · exact hrest e.2 (mem_of_mem_traceOf he) e.1

/-- The card is dragged to the other list before the server answers: then that list shows
the made-up id, which is no card's. -/
theorem dragged_dangles :
    ∃ trace w, Steps step (loaded twoLists) trace w ∧ twoLists.WellFormed ∧
      (∀ e ∈ trace, e.1.Promised e.2) ∧ ¬w.WellFormed := by
  have hrun : ((creating [.moveCard (js "t1") (js "l1") (js "l2") 0, stored]).foldlM step
      (loaded twoLists)).map
        (fun w => (standing w.store.lists (js "t1"), decide (js "t1" ∈ w.store.cards))) =
      some (1, false) := by
    decide
  obtain ⟨w, hw, hfinal⟩ := Option.map_eq_some_iff.mp hrun
  simp only [Prod.mk.injEq, decide_eq_false_iff_not] at hfinal
  refine ⟨_, w, Steps.of_actions hw, wellFormed_twoLists, ?_, fun hwell => ?_⟩
  · exact promised_creating (by simp [Promised, stored])
  · have hexpected := BoardState.WellFormed.standing_eq hwell (js "t1")
    rw [hfinal.1, BoardState.expected, if_neg hfinal.2] at hexpected
    cases hexpected

/-- When the server answers first, the board stays well-formed. -/
theorem created_wellFormed :
    ∃ trace w, Steps step (loaded twoLists) trace w ∧
      (((∀ e ∈ trace, e.1.WellFormed) ∧ w.WellFormed) ↔ ∀ e ∈ trace, e.1.Completes e.2) ∧
      w.store.lists.map BoardList.cardIds = [[js "c1"], []] := by
  have hrun : ((creating [stored]).foldlM step (loaded twoLists)).map
      (fun w => w.store.lists.map BoardList.cardIds) = some [[js "c1"], []] := by
    decide
  obtain ⟨w, hw, hlists⟩ := Option.map_eq_some_iff.mp hrun
  have hrun := Steps.of_actions hw
  refine ⟨_, w, hrun, wellFormed_along_iff hrun wellFormed_twoLists ?_, hlists⟩
  exact promised_creating (by simp [Promised, stored])

end Creating

end WebBoard

end FlowLogix.Web

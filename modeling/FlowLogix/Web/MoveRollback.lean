/-
  Web/MoveRollback.lean --- what a failed move rolls back
  (frontend/src/store/useBoardStore.ts).

  The optimistic update takes the card out of its list and puts it into the other; the
  rollback does the same the other way, at the index the card had, and writes its key
  back.  With nothing in between that is the board from before.  What other cards do in
  between leaves the card where it waits, so the rollback still finds it, and taking it
  out and putting it in leaves the others in their order.
-/
import FlowLogix.Web.RemoteMove
import FlowLogix.Web.WellFormedBoard

set_option autoImplicit false

namespace FlowLogix.Web

open FlowLogix.Foundation FlowLogix.Server

variable {lists lists' : List BoardList} {f g : BoardList → BoardList} {id c : Id}

/-! ## Taking out and putting in -/

theorem modifyList_modifyList (hf : ∀ l, (f l).id = l.id) (id : Id) (lists : List BoardList) :
    modifyList id g (modifyList id f lists) = modifyList id (fun l => g (f l)) lists := by
  induction lists with
  | nil => rfl
  | cons first rest ih =>
      by_cases h : first.id = id
      · simp [modifyList, h, hf]
      · simp [modifyList, h, ih]

theorem modifyList_eq_self (h : ∀ l ∈ lists, l.id = id → f l = l) :
    modifyList id f lists = lists := by
  induction lists with
  | nil => rfl
  | cons first rest ih =>
      rw [modifyList]
      split
      · rename_i heq
        rw [h first List.mem_cons_self heq]
      · rw [ih fun l hl => h l (List.mem_cons_of_mem first hl)]

/-- A list of the changed board was one of the board before, changed if it has the id. -/
theorem mem_modifyList (hids : (lists.map BoardList.id).Nodup) {l : BoardList}
    (hl : l ∈ modifyList id f lists) : ∃ l₀ ∈ lists, l = if l₀.id = id then f l₀ else l₀ := by
  rw [← map_ite_eq_modifyList hids] at hl
  obtain ⟨l₀, hmem, heq⟩ := List.mem_map.mp hl
  exact ⟨l₀, hmem, heq.symm⟩

/-- What was put into a list without it and is taken out again. -/
theorem erase_spliceIn {ids : List Id} (h : c ∉ ids) (index : Int) :
    (spliceIn ids index c).erase c = ids := by
  simp only [spliceIn]
  generalize (if index < 0 then index + ids.length else index).toNat = i
  rw [List.erase_append_right _ (fun hmem => h (List.mem_of_mem_take hmem)), List.erase_cons_head,
    List.take_append_drop]

/-- What was taken out and is put in again where it was. -/
theorem spliceIn_erase_idxOf {ids : List Id} (h : c ∈ ids) :
    spliceIn (ids.erase c) (ids.idxOf c) c = ids := by
  rw [spliceIn_natCast]
  induction ids with
  | nil => simp at h
  | cons first rest ih =>
      by_cases heq : first = c
      · subst heq
        simp
      · have hrest : c ∈ rest := by
          rcases List.mem_cons.mp h with rfl | hmem
          · exact absurd rfl heq
          · exact hmem
        rw [List.erase_cons_tail (by simpa using heq), List.idxOf_cons_ne _ heq,
          List.take_succ_cons, List.drop_succ_cons, List.cons_append, ih hrest]

/-- The lists a card was taken out of are without it. -/
theorem not_mem_takeCard {fromListId : Id} (hids : (lists.map BoardList.id).Nodup)
    (honce : ∀ l ∈ lists, l.cardIds.count c = if l.id = fromListId then 1 else 0) :
    ∀ l ∈ modifyList fromListId (fun l => { l with cardIds := l.cardIds.erase c }) lists,
      c ∉ l.cardIds := by
  intro l hl
  obtain ⟨l₀, hmem, rfl⟩ := mem_modifyList hids hl
  have hcount := honce l₀ hmem
  split
  · rename_i heq
    rw [if_pos heq] at hcount
    rw [← List.count_eq_zero, List.count_erase_self, hcount]
  · rename_i hne
    rw [if_neg hne] at hcount
    exact List.count_eq_zero.mp hcount

/-- A card moved away and back again is where it was. -/
theorem transfer_back {source : BoardList} {fromListId toListId : Id} (toIndex : Int)
    (hids : (lists.map BoardList.id).Nodup) (hsource : findList lists fromListId = some source)
    (honce : ∀ l ∈ lists, l.cardIds.count c = if l.id = fromListId then 1 else 0) :
    transfer (transfer lists c fromListId toListId toIndex) c toListId fromListId
      (source.cardIds.idxOf c : Nat) = lists := by
  obtain ⟨hmem, hid⟩ := findList_some hsource
  have hin : c ∈ source.cardIds := by
    rw [← List.count_pos_iff, honce source hmem, if_pos hid]
    exact Nat.one_pos
  have hout : modifyList toListId (fun l => { l with cardIds := l.cardIds.erase c })
      (transfer lists c fromListId toListId toIndex) =
        modifyList fromListId (fun l => { l with cardIds := l.cardIds.erase c }) lists := by
    rw [transfer, modifyList_modifyList]
    · refine modifyList_eq_self fun l hl _ => ?_
      rw [erase_spliceIn (not_mem_takeCard hids honce l hl)]
    · exact fun _ => rfl
  rw [transfer, hout, modifyList_modifyList]
  · refine modifyList_eq_self fun l hl heq => ?_
    obtain rfl : l = source := List.inj_on_of_nodup_map hids hl hmem (heq.trans hid.symm)
    rw [spliceIn_erase_idxOf hin]
  · exact fun _ => rfl

/-! ## The others -/

/-- A change of a list that leaves the others' order. -/
theorem withoutCard_modifyList
    (hf : ∀ l, (f l).id = l.id ∧ (f l).title = l.title ∧
      ((f l).cardIds.filter fun id => id ≠ c) = l.cardIds.filter fun id => id ≠ c)
    (id : Id) (lists : List BoardList) :
    withoutCard (modifyList id f lists) c = withoutCard lists c := by
  induction lists with
  | nil => rfl
  | cons first rest ih =>
      unfold withoutCard at ih ⊢
      obtain ⟨hid, htitle, hids⟩ := hf first
      rw [modifyList]
      split
      · rw [List.map_cons, List.map_cons, hid, htitle, hids]
      · rw [List.map_cons, List.map_cons, ih]

theorem filter_erase_self (ids : List Id) (c : Id) :
    ((ids.erase c).filter fun id => id ≠ c) = ids.filter fun id => id ≠ c := by
  rw [← List.erase_filter, List.erase_of_not_mem (by simp)]

theorem filter_spliceIn_self (ids : List Id) (index : Int) (c : Id) :
    ((spliceIn ids index c).filter fun id => id ≠ c) = ids.filter fun id => id ≠ c := by
  simp only [spliceIn]
  generalize (if index < 0 then index + ids.length else index).toNat = i
  rw [List.filter_append, List.filter_cons_of_neg (by simp), ← List.filter_append,
    List.take_append_drop]

/-- A move leaves the other cards in their lists and in their order. -/
theorem withoutCard_transfer (lists : List BoardList) (cardId fromListId toListId : Id)
    (toIndex : Int) :
    withoutCard (transfer lists cardId fromListId toListId toIndex) cardId =
      withoutCard lists cardId := by
  rw [transfer, withoutCard_modifyList, withoutCard_modifyList]
  · exact fun l => ⟨rfl, rfl, filter_erase_self l.cardIds cardId⟩
  · exact fun l => ⟨rfl, rfl, filter_spliceIn_self l.cardIds toIndex cardId⟩

/-- A card that stands in one list once, after it was moved to another one. -/
theorem count_transfer {cardId fromListId toListId : Id} (hids : (lists.map BoardList.id).Nodup)
    (honce : ∀ l ∈ lists, l.cardIds.count cardId = if l.id = fromListId then 1 else 0)
    (toIndex : Int) : ∀ l ∈ transfer lists cardId fromListId toListId toIndex,
      l.cardIds.count cardId = if l.id = toListId then 1 else 0 := by
  intro l hl
  have hids' : ((modifyList fromListId (fun l => { l with cardIds := l.cardIds.erase cardId })
      lists).map BoardList.id).Nodup := by
    rw [ids_modifyList]
    · exact hids
    · exact fun _ => rfl
  obtain ⟨l₀, hmem, rfl⟩ := mem_modifyList hids' hl
  have hnone := List.count_eq_zero.mpr (not_mem_takeCard hids honce l₀ hmem)
  by_cases heq : l₀.id = toListId
  · simp only [heq, if_true]
    rw [count_spliceIn, hnone, if_pos rfl]
  · simp only [heq, if_false]
    exact hnone

/-! ## What leaves a card alone -/

/-- List by list, the card stands as often as before. -/
def SameCounts (c : Id) (lists lists' : List BoardList) : Prop :=
  ∀ l' ∈ lists', ∃ l ∈ lists, l'.id = l.id ∧ l'.cardIds.count c = l.cardIds.count c

theorem SameCounts.refl (c : Id) (lists : List BoardList) : SameCounts c lists lists :=
  fun l hl => ⟨l, hl, rfl, rfl⟩

theorem SameCounts.trans {lists'' : List BoardList} (h : SameCounts c lists lists')
    (h' : SameCounts c lists' lists'') : SameCounts c lists lists'' := by
  intro l'' hl''
  obtain ⟨l', hl', hid', hcount'⟩ := h' l'' hl''
  obtain ⟨l, hl, hid, hcount⟩ := h l' hl'
  exact ⟨l, hl, hid'.trans hid, hcount'.trans hcount⟩

/-- Changes of the order of lists that count the card as before. -/
theorem SameCounts.map {g : BoardList → List Id}
    (hg : ∀ l ∈ lists, (g l).count c = l.cardIds.count c) :
    SameCounts c lists (lists.map fun l => { l with cardIds := g l }) := by
  intro l' hl'
  obtain ⟨l, hl, rfl⟩ := List.mem_map.mp hl'
  exact ⟨l, hl, rfl, hg l hl⟩

theorem SameCounts.modifyList {g : List Id → List Id} (hg : ∀ ids, (g ids).count c = ids.count c)
    (id : Id) (lists : List BoardList) :
    SameCounts c lists (modifyList id (fun l => { l with cardIds := g l.cardIds }) lists) := by
  induction lists with
  | nil => exact .refl c []
  | cons first rest ih =>
      rw [Web.modifyList]
      intro l' hl'
      split at hl'
      · rcases List.mem_cons.mp hl' with rfl | hl'
        · exact ⟨first, List.mem_cons_self, rfl, hg first.cardIds⟩
        · exact ⟨l', List.mem_cons_of_mem first hl', rfl, rfl⟩
      · rcases List.mem_cons.mp hl' with rfl | hl'
        · exact ⟨l', List.mem_cons_self, rfl, rfl⟩
        · obtain ⟨l, hl, hsame⟩ := ih l' hl'
          exact ⟨l, List.mem_cons_of_mem first hl, hsame⟩

/-- Another card's move. -/
theorem SameCounts.transfer {cardId : Id} (hne : cardId ≠ c) (lists : List BoardList)
    (fromListId toListId : Id) (toIndex : Int) :
    SameCounts c lists (transfer lists cardId fromListId toListId toIndex) := by
  refine SameCounts.trans (.modifyList (g := fun ids => ids.erase cardId) (fun ids => ?_)
    fromListId lists) (.modifyList (g := fun ids => spliceIn ids toIndex cardId) (fun ids => ?_)
      toListId _)
  · exact List.count_erase_of_ne hne.symm
  · rw [count_spliceIn, if_neg hne, Nat.add_zero]

/-- The card is left where it is, with its key and its token, and the lists to keep are
there as before. -/
structure LeavesCard (cardId : Id) (keep : List Id) (s s' : BoardStore) : Prop where
  ids : (s'.lists.map BoardList.id).Sublist (s.lists.map BoardList.id)
  kept : ∀ j ∈ keep, j ∈ s.lists.map BoardList.id → j ∈ s'.lists.map BoardList.id
  counts : SameCounts cardId s.lists s'.lists
  card : s'.cards.lookup cardId = s.cards.lookup cardId
  token : s'.moveVersions.lookup cardId = s.moveVersions.lookup cardId

namespace LeavesCard

variable {cardId : Id} {keep : List Id} {s s' s'' : BoardStore}

theorem refl (cardId : Id) (keep : List Id) (s : BoardStore) : LeavesCard cardId keep s s where
  ids := List.Sublist.refl _
  kept _ _ := id
  counts := .refl _ _
  card := rfl
  token := rfl

theorem trans (h : LeavesCard cardId keep s s') (h' : LeavesCard cardId keep s' s'') :
    LeavesCard cardId keep s s'' where
  ids := h'.ids.trans h.ids
  kept j hj hmem := h'.kept j hj (h.kept j hj hmem)
  counts := h.counts.trans h'.counts
  card := h'.card.trans h.card
  token := h'.token.trans h.token

/-- With the same lists in other orders. -/
theorem of_ids (hids : s'.lists.map BoardList.id = s.lists.map BoardList.id)
    (hcounts : SameCounts cardId s.lists s'.lists)
    (hcard : s'.cards.lookup cardId = s.cards.lookup cardId)
    (htoken : s'.moveVersions.lookup cardId = s.moveVersions.lookup cardId) :
    LeavesCard cardId keep s s' where
  ids := hids ▸ List.Sublist.refl _
  kept _ _ hmem := hids ▸ hmem
  counts := hcounts
  card := hcard
  token := htoken

/-! ## What other cards do -/

/-- Another card's move counts its own token. -/
theorem bump {moved : Id} (hne : moved ≠ cardId) (keep : List Id) (s : BoardStore) :
    LeavesCard cardId keep s (s.bump moved) :=
  .of_ids rfl (.refl _ _) rfl (AList.lookup_insert_ne hne.symm)

theorem showMove {moved : Id} (hne : moved ≠ cardId) (keep : List Id) (s : BoardStore)
    (fromListId toListId : Id) (toIndex : Int) :
    LeavesCard cardId keep s (s.showMove moved fromListId toListId toIndex) := by
  unfold BoardStore.showMove
  split
  · split
    · refine of_ids (ids_transfer _ _ _ _ _) (.transfer hne _ _ _ _) ?_ rfl
      dsimp only
      split
      · split
        · exact AList.lookup_insert_ne hne.symm
        · rfl
      · rfl
    · exact refl _ _ _
  · exact refl _ _ _

theorem settleMove {move : PendingMove} (hne : move.cardId ≠ cardId) (keep : List Id)
    (s : BoardStore) (outcome : MoveOutcome) :
    LeavesCard cardId keep s (move.settle s outcome) := by
  have hcard : ∀ card : Card, (s.cards.insert move.cardId card).lookup cardId =
      s.cards.lookup cardId := fun card => AList.lookup_insert_ne hne.symm
  cases outcome with
  | resolved positionIdx =>
      cases positionIdx with
      | none => exact refl _ _ _
      | some key =>
          simp only [PendingMove.settle]
          split
          · exact of_ids rfl (.refl _ _) (hcard _) rfl
          · exact refl _ _ _
  | rejected message =>
      simp only [PendingMove.settle, PendingMove.rollback]
      split
      · split
        · refine of_ids ?_ ?_ ?_ rfl
          · dsimp only
            split
            · exact ids_transfer _ _ _ _ _
            · rfl
          · dsimp only
            split
            · exact .transfer hne _ _ _ _
            · exact .refl _ _
          · dsimp only
            split
            · exact hcard _
            · rfl
        · exact of_ids rfl (.refl _ _) rfl rfl
      · exact of_ids rfl (.refl _ _) rfl rfl

/-- A change of one list's order that counts the card as before. -/
theorem of_map (listId : Id) (g : List Id → List Id)
    (hg : ∀ ids, (g ids).count cardId = ids.count cardId)
    (hlists : s'.lists = s.lists.map fun l =>
      if l.id = listId then { l with cardIds := g l.cardIds } else l)
    (hcard : s'.cards.lookup cardId = s.cards.lookup cardId)
    (htoken : s'.moveVersions = s.moveVersions) : LeavesCard cardId keep s s' := by
  have hone : ∀ l : BoardList, (if l.id = listId then { l with cardIds := g l.cardIds } else l) =
      { l with cardIds := if l.id = listId then g l.cardIds else l.cardIds } := by
    intro l
    split <;> rfl
  simp only [hone] at hlists
  refine of_ids ?_ ?_ hcard (by rw [htoken])
  · rw [hlists, List.map_map]
    rfl
  · rw [hlists]
    refine .map fun l _ => ?_
    split
    · exact hg l.cardIds
    · rfl

theorem showCard {card : Card} (hne : card.id ≠ cardId) (keep : List Id) (s : BoardStore)
    (listId : Id) : LeavesCard cardId keep s (s.showCard listId card) := by
  refine of_map listId (fun ids => ids ++ [card.id]) (fun ids => ?_) rfl
    (AList.lookup_insert_ne hne.symm) rfl
  rw [List.count_append, List.count_singleton, if_neg (by simpa using hne), Nat.add_zero]

theorem settleCard_resolved {pending : PendingCard} {mapped : Card}
    (htemp : pending.tempId ≠ cardId) (hmapped : mapped.id ≠ cardId) (keep : List Id)
    (s : BoardStore) : LeavesCard cardId keep s (pending.settle s (.resolved mapped)) := by
  refine of_map pending.listId
    (List.map fun id => if id = pending.tempId then mapped.id else id) (fun ids => ?_) rfl ?_ rfl
  · rw [PendingCard.count_replace, if_neg htemp.symm, if_neg hmapped.symm, Nat.add_zero]
  · exact (AList.lookup_insert_ne hmapped.symm).trans (AList.lookup_erase_ne htemp.symm)

theorem settleCard_rejected {pending : PendingCard} (htemp : pending.tempId ≠ cardId)
    (keep : List Id) (s : BoardStore) (message : JsString) :
    LeavesCard cardId keep s (pending.settle s (.rejected message)) := by
  refine of_map pending.listId (fun ids => ids.filter fun id => id ≠ pending.tempId)
    (fun ids => ?_) rfl
    (AList.lookup_erase_ne htemp.symm) rfl
  exact List.count_filter (by simpa using htemp.symm)

theorem toggleChecklistItem {toggled : Id} (hne : toggled ≠ cardId) (keep : List Id)
    (s : BoardStore) (itemId : Id) :
    LeavesCard cardId keep s (s.toggleChecklistItem toggled itemId) := by
  unfold BoardStore.toggleChecklistItem
  split
  · exact refl _ _ _
  · exact of_ids rfl (.refl _ _) (AList.lookup_insert_ne hne.symm) rfl

/-! ## Frames of other cards -/

/-- A patch that leaves the card alone. -/
theorem patched {patch : ReconcilePatch}
    (h : ∀ lists cards, patch = .board lists cards →
      LeavesCard cardId keep s { s with lists := lists, cards := cards }) :
    LeavesCard cardId keep s (s.patched patch) := by
  cases patch with
  | none => exact refl _ _ _
  | needsResync => exact of_ids rfl (.refl _ _) rfl rfl
  | board lists cards => exact h lists cards rfl

theorem patched_moved {payload : BoardMutationPayload}
    (hne : namedId payload.cardId ≠ some cardId) (keep : List Id) (s : BoardStore) :
    LeavesCard cardId keep s (s.patched (reconcileMoved s.toBoardState payload)) := by
  refine patched fun lists cards hpatch => ?_
  unfold reconcileMoved at hpatch
  split at hpatch
  · rename_i moved listId positionIdx hmoved hlistId hkey
    have hother : moved ≠ cardId := fun heq => hne (heq ▸ hmoved)
    split at hpatch
    · cases hpatch
      have hout : LeavesCard cardId keep s
          { s with lists := withoutCard s.lists moved } := by
        refine of_ids (ids_withoutCard _ _) (.map fun l _ => ?_) rfl rfl
        exact List.count_filter (by simpa using hother.symm)
      refine hout.trans (of_map listId (fun ids => ids.take _ ++ moved :: ids.drop _)
        (fun ids => ?_) rfl (AList.lookup_insert_ne hother.symm) rfl)
      rw [← spliceIn_natCast, count_spliceIn, if_neg hother, Nat.add_zero]
    · cases hpatch
  · cases hpatch

theorem patched_deleted {payload : BoardMutationPayload}
    (hne : namedId payload.cardId ≠ some cardId) (keep : List Id) (s : BoardStore) :
    LeavesCard cardId keep s (s.patched (reconcileDeleted s.toBoardState payload)) := by
  refine patched fun lists cards hpatch => ?_
  unfold reconcileDeleted at hpatch
  split at hpatch
  · cases hpatch
  · rename_i deleted hdeleted
    have hother : deleted ≠ cardId := fun heq => hne (heq ▸ hdeleted)
    split at hpatch
    · cases hpatch
      rw [map_ite_eq_withoutCard]
      refine of_ids (ids_withoutCard _ _) (.map fun l _ => ?_)
        (AList.lookup_erase_ne hother.symm) rfl
      exact List.count_filter (by simpa using hother.symm)
    · cases hpatch

theorem patched_listDeleted {payload : BoardMutationPayload}
    (hkeep : ∀ j ∈ keep, namedId payload.listId ≠ some j)
    (hstands : ∀ l ∈ s.lists, l.id ∉ keep → cardId ∉ l.cardIds) :
    LeavesCard cardId keep s (s.patched (reconcileListDeleted s.toBoardState payload)) := by
  refine patched fun lists cards hpatch => ?_
  unfold reconcileListDeleted at hpatch
  split at hpatch
  · cases hpatch
  · rename_i listId hlistId
    split at hpatch
    · cases hpatch
    · rename_i removed hremoved
      cases hpatch
      obtain ⟨hmem, hid⟩ := findList_some hremoved
      have hnot : listId ∉ keep := fun hj => hkeep listId hj hlistId
      constructor
      case ids => exact List.filter_sublist.map _
      case kept =>
        intro j hj hmem
        obtain ⟨l, hl, rfl⟩ := List.mem_map.mp hmem
        have hne : l.id ≠ listId := fun heq => hnot (heq ▸ hj)
        exact List.mem_map_of_mem (List.mem_filter.mpr ⟨hl, by simpa using hne⟩)
      case counts => exact fun l hl => ⟨l, List.mem_of_mem_filter hl, rfl, rfl⟩
      case card =>
        -- the card is not in the list that goes
        have hout : cardId ∉ removed.cardIds := hstands removed hmem (hid ▸ hnot)
        exact (Dict.lookup_foldl_erase _ _ _).trans (if_neg hout)
      case token => rfl

theorem applyRemoteMutation {envelope : BoardMutationEnvelope}
    (hne : BoardStore.overruled envelope ≠ some cardId)
    (hpatched : LeavesCard cardId keep s
      (s.patched (reconcileRemoteMutation s.toBoardState envelope))) :
    LeavesCard cardId keep s (s.applyRemoteMutation envelope) := by
  unfold BoardStore.applyRemoteMutation
  split
  · exact hpatched
  · rename_i other hother
    exact hpatched.trans (bump (fun heq : other = cardId => hne (heq ▸ hother)) keep _)

end LeavesCard

/-! ## Steps that concern others -/

/-- The frame moves or deletes another card, or deletes a list that is not to be kept, or
asks for the board to be loaded again. -/
def FrameOfOthers (cardId : Id) (keep : List Id) (envelope : BoardMutationEnvelope) : Prop :=
  match envelope.type with
  | .cardMoved | .cardDeleted => namedId envelope.payload.cardId ≠ some cardId
  | .listDeleted => ∀ j ∈ keep, namedId envelope.payload.listId ≠ some j
  | .cardCreated | .cardUpdated | .listCreated | .listUpdated => True

theorem FrameOfOthers.leavesCard {cardId : Id} {keep : List Id} {s : BoardStore}
    {envelope : BoardMutationEnvelope} (h : FrameOfOthers cardId keep envelope)
    (hstands : ∀ l ∈ s.lists, l.id ∉ keep → cardId ∉ l.cardIds) :
    LeavesCard cardId keep s (s.applyRemoteMutation envelope) := by
  refine LeavesCard.applyRemoteMutation ?_ ?_
  · unfold FrameOfOthers at h
    unfold BoardStore.overruled
    split at h <;> simp_all
  · rcases envelope with ⟨seq, boardId, type, payload, ts⟩
    cases type with
    | cardMoved => exact .patched_moved h keep s
    | cardDeleted => exact .patched_deleted h keep s
    | listDeleted => exact .patched_listDeleted h hstands
    | cardCreated | cardUpdated | listCreated | listUpdated =>
      exact .patched (by simp [reconcileRemoteMutation])

namespace WebBoard

/-- The step is another card's, and takes no list away that is to be kept. -/
def ConcernsOthers (cardId : Id) (keep : List Id) (w : WebBoard) : Action → Prop
  | .moveCard moved _ _ _ => moved ≠ cardId
  | .settleMove i _ => ∀ f, w.moves[i]? = some f → f.move.cardId ≠ cardId
  | .addCard _ _ _ id => id ≠ cardId
  | .settleCard i outcome => ∀ pending, w.creations[i]? = some pending →
      pending.tempId ≠ cardId ∧ ∀ mapped, outcome = .resolved mapped → mapped.id ≠ cardId
  | .toggleChecklistItem toggled _ => toggled ≠ cardId
  | .applyRemoteMutation envelope => FrameOfOthers cardId keep envelope
  | .hydrateBoard _ => False

variable {w w' w₁ w₂ : WebBoard} {cardId fromListId toListId : Id} {keep : List Id}

/-- A step that concerns others leaves the card alone. -/
theorem leavesCard_step {action : Action} (hothers : w.ConcernsOthers cardId keep action)
    (hstands : ∀ l ∈ w.store.lists, l.id ∉ keep → cardId ∉ l.cardIds)
    (h : w.step action = some w') : LeavesCard cardId keep w.store w'.store := by
  cases action with
  | moveCard moved fromListId toListId toIndex =>
      simp only [step, BoardStore.moveCard] at h
      split at h
      · obtain rfl := Option.some.inj h
        exact .refl _ _ _
      · rename_i store move hmove
        obtain rfl := Option.some.inj h
        split at hmove
        · cases hmove
          exact (LeavesCard.bump hothers keep _).trans (.showMove hothers keep _ _ _ _)
        · cases hmove
  | settleMove i outcome =>
      obtain ⟨f, hf, rfl⟩ := Option.map_eq_some_iff.mp h
      exact .settleMove (hothers f hf) keep _ outcome
  | addCard apiMode listId title id =>
      obtain rfl := Option.some.inj h
      have hnew : (BoardStore.newCard id (trim title)).id ≠ cardId := hothers
      have hshown : LeavesCard cardId keep w.store
          (w.store.showCard listId (BoardStore.newCard id (trim title))) :=
        .showCard hnew keep _ _
      unfold WebBoard.addCard
      split
      · exact .refl _ _ _
      · cases apiMode with
        | true => exact hshown.trans (.of_ids rfl (.refl _ _) rfl rfl)
        | false => exact hshown
  | settleCard i outcome =>
      obtain ⟨pending, hpending, rfl⟩ := Option.map_eq_some_iff.mp h
      obtain ⟨htemp, hmapped⟩ := hothers pending hpending
      cases outcome with
      | resolved mapped => exact .settleCard_resolved htemp (hmapped mapped rfl) keep _
      | rejected message => exact .settleCard_rejected htemp keep _ message
  | toggleChecklistItem toggled itemId =>
      obtain rfl := Option.some.inj h
      exact .toggleChecklistItem hothers keep _ itemId
  | applyRemoteMutation envelope =>
      obtain rfl := Option.some.inj h
      exact FrameOfOthers.leavesCard hothers hstands
  | hydrateBoard snapshot => exact absurd hothers id

/-- A run of steps that concern others leaves the card alone. -/
theorem leavesCard_run {trace : List (WebBoard × Action)} (run : Steps step w₁ trace w₂)
    (hothers : ∀ e ∈ trace, e.1.ConcernsOthers cardId keep e.2)
    (hstands : ∀ l ∈ w₁.store.lists, l.id ∉ keep → cardId ∉ l.cardIds) :
    LeavesCard cardId keep w₁.store w₂.store := by
  refine run.invariant_along (P := fun w => LeavesCard cardId keep w₁.store w.store) hothers
    (.refl _ _ _) fun w action w' hothers hleaves h => ?_
  refine hleaves.trans (leavesCard_step hothers (fun l hl hkeep hmem => ?_) h)
  obtain ⟨l₁, hl₁, hid, hcount⟩ := hleaves.counts l hl
  have hnone := List.count_eq_zero.mpr (hstands l₁ hl₁ (hid ▸ hkeep))
  exact List.count_eq_zero.mp (hcount.trans hnone) hmem

end WebBoard

/-! ## A move that waits -/

theorem findList_isSome_iff {j : Id} :
    (findList lists j).isSome ↔ j ∈ lists.map BoardList.id := by
  rw [findList, List.find?_isSome, List.mem_map]
  simp only [decide_eq_true_eq]

/-- A card that is in a list of a well-formed board is there once and in no other. -/
theorem BoardState.WellFormed.once_in {s : BoardState} (h : s.WellFormed) {source : BoardList}
    (hsource : findList s.lists id = some source) (hmem : c ∈ source.cardIds) :
    ∀ l ∈ s.lists, l.cardIds.count c = if l.id = id then 1 else 0 := by
  obtain ⟨hin, hid⟩ := findList_some hsource
  have honce := h.once c (h.entries source hin c hmem)
  have hpos : 0 < source.cardIds.count c := List.count_pos_iff.mpr hmem
  have hothers := standing_filter_ids h.ids hsource c
  intro l hl
  split
  · rename_i heq
    obtain rfl : l = source := List.inj_on_of_nodup_map h.ids hl hin (heq.trans hid.symm)
    omega
  · rename_i hne
    refine List.count_eq_zero.mpr fun hmem' => ?_
    have hother : l ∈ s.lists.filter fun l => l.id ≠ id :=
      List.mem_filter.mpr ⟨hl, by simpa using hne⟩
    have hstands := standing_pos_iff.mpr ⟨l, hother, hmem'⟩
    omega

/-- The move is the card's latest; the card is in one list, once, under a key. -/
structure Waits (move : PendingMove) (listId : Id) (key : Option JsString) (s : BoardStore) :
    Prop where
  ids : (s.lists.map BoardList.id).Nodup
  once : ∀ l ∈ s.lists, l.cardIds.count move.cardId = if l.id = listId then 1 else 0
  card : ∃ card, s.cards.lookup move.cardId = some card ∧ card.positionIdx = key
  token : s.moveVersions.lookup move.cardId = some move.version

/-- What leaves the card alone leaves it waiting. -/
theorem Waits.leaves {move : PendingMove} {listId : Id} {key : Option JsString} {keep : List Id}
    {s s' : BoardStore} (h : Waits move listId key s) (hs : LeavesCard move.cardId keep s s') :
    Waits move listId key s' where
  ids := hs.ids.nodup h.ids
  once l' hl' := by
    obtain ⟨l, hl, hid, hcount⟩ := hs.counts l' hl'
    rw [hcount, hid]
    exact h.once l hl
  card := hs.card ▸ h.card
  token := hs.token ▸ h.token

namespace BoardStore

variable {s store : BoardStore} {cardId fromListId toListId : Id} {toIndex : Int}
  {move : PendingMove}

/-- What a move that is issued finds. -/
theorem moveCard_some (h : s.moveCard cardId fromListId toListId toIndex = some (store, move)) :
    ∃ source, findList s.lists fromListId = some source ∧ cardId ∈ source.cardIds ∧
      store = (s.bump cardId).showMove cardId fromListId toListId toIndex ∧
      move = { cardId := cardId
               fromListId := fromListId
               toListId := toListId
               originalIndex := source.cardIds.idxOf cardId
               originalPositionIdx := (s.cards.lookup cardId).bind Card.positionIdx
               version := s.moveVersion cardId + 1 } := by
  unfold moveCard cardIdsOf at h
  cases hsource : findList s.lists fromListId with
  | none => simp [hsource] at h
  | some source =>
      simp only [hsource, Option.map_some, Option.getD_some] at h
      split at h
      · rename_i hmem
        cases h
        exact ⟨source, rfl, hmem, rfl, rfl⟩
      · cases h

theorem token_showMove (s : BoardStore) (cardId fromListId toListId : Id) (toIndex : Int) :
    ((s.bump cardId).showMove cardId fromListId toListId toIndex).moveVersions.lookup cardId =
      some (s.moveVersion cardId + 1) := by
  unfold showMove
  split
  · split
    · exact AList.lookup_insert _
    · exact AList.lookup_insert _
  · exact AList.lookup_insert _

/-- Into a list that is not there nothing is moved. -/
theorem showMove_of_none (h : findList s.lists toListId = none) (cardId fromListId : Id)
    (toIndex : Int) : s.showMove cardId fromListId toListId toIndex = s := by
  unfold showMove
  rw [h]
  split
  · rename_i hsome
    cases hsome
  · rfl

/-- The optimistic update: the card in its new place, without a key. -/
theorem showMove_of_some {source target : BoardList} {card : Card}
    (hsource : findList s.lists fromListId = some source)
    (htarget : findList s.lists toListId = some target) (hmem : cardId ∈ source.cardIds)
    (hcard : s.cards.lookup cardId = some card) (toIndex : Int) :
    (s.showMove cardId fromListId toListId toIndex).lists =
        transfer s.lists cardId fromListId toListId toIndex ∧
      ∀ id, (s.showMove cardId fromListId toListId toIndex).cards.lookup id =
        if id = cardId then some { card with positionIdx := none } else s.cards.lookup id := by
  unfold showMove
  simp only [hsource, htarget, hmem, hcard, if_true]
  refine ⟨trivial, fun id => ?_⟩
  split
  · exact Dict.lookup_insert_eq _ _ _ _
  · rename_i hnone
    split
    · rename_i heq
      have hkey : card.positionIdx = none := by simpa using hnone
      rw [heq, hcard, ← hkey]
    · rfl

/-- A move leaves the ids of the lists and finds the list it is from. -/
theorem moveCard_ids (h : s.moveCard cardId fromListId toListId toIndex = some (store, move)) :
    store.lists.map BoardList.id = s.lists.map BoardList.id ∧
      fromListId ∈ s.lists.map BoardList.id := by
  obtain ⟨source, hsource, -, -, -⟩ := moveCard_some h
  exact ⟨(moveCard_rearranges h).ids, findList_isSome_iff.mp (by simp [hsource])⟩

/-- Moved into a list that is there, the card waits there without a key. -/
theorem moveCard_into (hwell : s.toBoardState.WellFormed)
    (h : s.moveCard cardId fromListId toListId toIndex = some (store, move))
    (hto : toListId ∈ s.lists.map BoardList.id) :
    Waits move toListId none store ∧
      store.lists = transfer s.lists cardId fromListId toListId toIndex ∧
      ∃ card, s.cards.lookup cardId = some card ∧ ∀ id, store.cards.lookup id =
        if id = cardId then some { card with positionIdx := none } else s.cards.lookup id := by
  have hids := (moveCard_ids h).1
  obtain ⟨source, hsource, hmem, rfl, rfl⟩ := moveCard_some h
  obtain ⟨card, hcard⟩ := Option.isSome_iff_exists.mp
    (AList.lookup_isSome.mpr (hwell.entries source (findList_some hsource).1 cardId hmem))
  obtain ⟨target, htarget⟩ := Option.isSome_iff_exists.mp (findList_isSome_iff.mpr hto)
  obtain ⟨hlists, hcards⟩ := showMove_of_some (s := s.bump cardId) hsource htarget hmem hcard
    toIndex
  refine ⟨⟨hids ▸ hwell.ids, ?_, ⟨_, (hcards cardId).trans (if_pos rfl), rfl⟩,
    token_showMove _ _ _ _ _⟩, hlists, card, hcard, hcards⟩
  rw [hlists]
  exact count_transfer hwell.ids (hwell.once_in hsource hmem) toIndex

/-- Moved into a list that is not there, the card waits where it was. -/
theorem moveCard_nowhere (hwell : s.toBoardState.WellFormed)
    (h : s.moveCard cardId fromListId toListId toIndex = some (store, move))
    (hto : toListId ∉ s.lists.map BoardList.id) :
    Waits move fromListId move.originalPositionIdx store ∧
      store.toBoardState = s.toBoardState := by
  obtain ⟨source, hsource, hmem, rfl, rfl⟩ := moveCard_some h
  obtain ⟨card, hcard⟩ := Option.isSome_iff_exists.mp
    (AList.lookup_isSome.mpr (hwell.entries source (findList_some hsource).1 cardId hmem))
  have hnone : findList (s.bump cardId).lists toListId = none := by
    rw [← Option.not_isSome_iff_eq_none, findList_isSome_iff]
    exact hto
  rw [showMove_of_none hnone]
  refine ⟨⟨hwell.ids, hwell.once_in hsource hmem, ⟨card, hcard, ?_⟩, AList.lookup_insert _⟩, rfl⟩
  dsimp only
  rw [hcard, Option.bind_some]

end BoardStore

/-! ## The rollback -/

/-- The card is in a list once and in no other, under a key, and looks the same otherwise;
every other card is where it was. -/
structure RolledBack (cardId listId : Id) (key : Option JsString) (s s' : BoardStore) : Prop where
  others : withoutCard s'.lists cardId = withoutCard s.lists cardId
  there : listId ∈ s'.lists.map BoardList.id
  once : ∀ l ∈ s'.lists, l.cardIds.count cardId = if l.id = listId then 1 else 0
  moved : ∃ card, s.cards.lookup cardId = some card ∧
    s'.cards.lookup cardId = some { card with positionIdx := key }
  frame : ∀ id, id ≠ cardId → s'.cards.lookup id = s.cards.lookup id

namespace Waits

variable {move : PendingMove} {s : BoardStore}

/-- A move that failed, where its card waits in the list it was moved to. -/
theorem rolledBack (h : Waits move move.toListId none s)
    (hfrom : move.fromListId ∈ s.lists.map BoardList.id)
    (hto : move.toListId ∈ s.lists.map BoardList.id) (message : JsString) :
    (move.settle s (.rejected message)).lists =
        transfer s.lists move.cardId move.toListId move.fromListId move.originalIndex ∧
      RolledBack move.cardId move.fromListId move.originalPositionIdx s
        (move.settle s (.rejected message)) := by
  obtain ⟨card, hcard, hkey⟩ := h.card
  obtain ⟨source, hsource⟩ := Option.isSome_iff_exists.mp (findList_isSome_iff.mpr hfrom)
  obtain ⟨target, htarget⟩ := Option.isSome_iff_exists.mp (findList_isSome_iff.mpr hto)
  obtain ⟨hin, hid⟩ := findList_some htarget
  have hmem : move.cardId ∈ target.cardIds := by
    rw [← List.count_pos_iff, h.once target hin, if_pos hid]
    exact Nat.one_pos
  have hcards : ∀ id, (move.settle s (.rejected message)).cards.lookup id =
      if id = move.cardId then some { card with positionIdx := move.originalPositionIdx }
      else s.cards.lookup id := by
    intro id
    simp only [PendingMove.settle, PendingMove.latest, h.token, hcard, if_true,
      PendingMove.rollback, hsource, htarget]
    cases horiginal : move.originalPositionIdx with
    | some key => exact Dict.lookup_insert_eq _ _ _ _
    | none =>
        dsimp only
        split
        · rename_i heq
          rw [heq, hcard, ← hkey]
        · rfl
  have hlists : (move.settle s (.rejected message)).lists =
      transfer s.lists move.cardId move.toListId move.fromListId move.originalIndex := by
    simp only [PendingMove.settle, PendingMove.latest, h.token, hcard, if_true,
      PendingMove.rollback, hsource, htarget, hmem]
  refine ⟨hlists, ?_⟩
  constructor
  case others => rw [hlists, withoutCard_transfer]
  case there => rwa [hlists, ids_transfer]
  case once =>
    rw [hlists]
    exact count_transfer h.ids h.once _
  case moved => exact ⟨card, hcard, (hcards _).trans (if_pos rfl)⟩
  case frame => exact fun id hne => (hcards id).trans (if_neg hne)

/-- A move into a list that is not there, when it failed. -/
theorem rolledBack_of_not_mem (h : Waits move move.fromListId move.originalPositionIdx s)
    (hfrom : move.fromListId ∈ s.lists.map BoardList.id)
    (hto : move.toListId ∉ s.lists.map BoardList.id) (message : JsString) :
    (move.settle s (.rejected message)).toBoardState = s.toBoardState ∧
      RolledBack move.cardId move.fromListId move.originalPositionIdx s
        (move.settle s (.rejected message)) := by
  obtain ⟨card, hcard, hkey⟩ := h.card
  have hnone : findList s.lists move.toListId = none := by
    rw [← Option.not_isSome_iff_eq_none, findList_isSome_iff]
    exact hto
  obtain ⟨source, hsource⟩ := Option.isSome_iff_exists.mp (findList_isSome_iff.mpr hfrom)
  have hsame : (move.settle s (.rejected message)).toBoardState = s.toBoardState := by
    simp only [PendingMove.settle, PendingMove.latest, h.token, hcard, if_true,
      PendingMove.rollback, hsource, hnone]
  refine ⟨hsame, ?_⟩
  constructor
  case others => rw [hsame]
  case there => rwa [hsame]
  case once =>
    rw [hsame]
    exact h.once
  case moved =>
    refine ⟨card, hcard, ?_⟩
    rw [hsame, hcard, ← hkey]
  case frame =>
    intro id _
    rw [hsame]

/-- In a run of steps that concern others the card waits on. -/
theorem run {w₁ w₂ : WebBoard} {trace : List (WebBoard × Action)} {store : BoardStore}
    {listId : Id} {key : Option JsString} {keep : List Id}
    (h : Waits move listId key store) (hstore : w₁.store = store)
    (run : Steps WebBoard.step w₁ trace w₂)
    (hothers : ∀ e ∈ trace, e.1.ConcernsOthers move.cardId keep e.2) (hlist : listId ∈ keep) :
    Waits move listId key w₂.store ∧ LeavesCard move.cardId keep store w₂.store := by
  subst hstore
  have hleaves := WebBoard.leavesCard_run run hothers fun l hl hkeep => by
    have hne : l.id ≠ listId := fun heq => hkeep (heq ▸ hlist)
    rw [← List.count_eq_zero, h.once l hl, if_neg hne]
  exact ⟨h.leaves hleaves, hleaves⟩

end Waits

/-! ## The move in a run -/

namespace WebBoard

variable {w w₁ w₂ w₃ : WebBoard} {cardId fromListId toListId : Id} {toIndex : Int}
  {store : BoardStore} {move : PendingMove} {trace : List (WebBoard × Action)}

/-- With nothing in between, lists and cards are those from before the move. -/
theorem settle_moveCard (hwell : w.WellFormed)
    (hmove : w.store.moveCard cardId fromListId toListId toIndex = some (store, move))
    (message : JsString) :
    (move.settle store (.rejected message)).lists = w.store.lists ∧
      ∀ id, (move.settle store (.rejected message)).cards.lookup id = w.store.cards.lookup id := by
  obtain ⟨hids, hfrom⟩ := BoardStore.moveCard_ids hmove
  obtain ⟨source, hsource, hmem, -, rfl⟩ := BoardStore.moveCard_some hmove
  by_cases hto : toListId ∈ w.store.lists.map BoardList.id
  · obtain ⟨hwaits, hlists, card, hcard, hcards⟩ := BoardStore.moveCard_into hwell hmove hto
    obtain ⟨hback, hrolled⟩ := hwaits.rolledBack (hids ▸ hfrom) (hids ▸ hto) message
    constructor
    · rw [hback, hlists]
      exact transfer_back toIndex hwell.ids hsource (hwell.once_in hsource hmem)
    · intro id
      by_cases heq : id = cardId
      · obtain ⟨moved, hmoved, hrestored⟩ := hrolled.moved
        rw [hcards, if_pos rfl] at hmoved
        obtain rfl := Option.some.inj hmoved
        rw [heq, hrestored, hcard, Option.bind_some]
      · rw [hrolled.frame id heq, hcards, if_neg heq]
  · obtain ⟨hwaits, hsame⟩ := BoardStore.moveCard_nowhere hwell hmove hto
    have hback := (hwaits.rolledBack_of_not_mem (hids ▸ hfrom) (hids ▸ hto) message).1
    rw [hback, hsame]
    exact ⟨rfl, fun _ => rfl⟩

/-- A move on a well-formed board that fails: with nothing in between, lists and cards are
those from before it; after steps that concern only other cards and take neither of its
lists away, the card is back in its list, once, under its key, and the others are where
they were. -/
theorem failed_move_rolls_back {i : Nat} {f : InFlight} {message : JsString}
    (hwell : w.WellFormed)
    (hmove : w.store.moveCard cardId fromListId toListId toIndex = some (store, move))
    (hissued : w.step (.moveCard cardId fromListId toListId toIndex) = some w₁)
    (run : Steps step w₁ trace w₂)
    (hothers : ∀ e ∈ trace, e.1.ConcernsOthers cardId [fromListId, toListId] e.2)
    (hf : w₂.moves[i]? = some f) (hthis : f.move = move)
    (hrejected : w₂.step (.settleMove i (.rejected message)) = some w₃) :
    (trace = [] → w₃.store.lists = w.store.lists ∧
      ∀ id, w₃.store.cards.lookup id = w.store.cards.lookup id) ∧
      RolledBack cardId fromListId ((w.store.cards.lookup cardId).bind Card.positionIdx)
        w₂.store w₃.store := by
  have hstore : w₁.store = store := by
    simp only [step, hmove] at hissued
    obtain rfl := Option.some.inj hissued
    rfl
  have hsettled : w₃.store = move.settle w₂.store (.rejected message) := by
    simp only [step, hf, Option.map_some] at hrejected
    obtain rfl := Option.some.inj hrejected
    exact hthis ▸ rfl
  rw [hsettled]
  constructor
  · rintro rfl
    rw [run.eq_start, hstore]
    exact settle_moveCard hwell hmove message
  · obtain ⟨hids, hfrom⟩ := BoardStore.moveCard_ids hmove
    obtain ⟨source, -, -, -, rfl⟩ := BoardStore.moveCard_some hmove
    rw [← hids] at hfrom
    by_cases hto : toListId ∈ w.store.lists.map BoardList.id
    · have hwaits := (BoardStore.moveCard_into hwell hmove hto).1
      obtain ⟨hwaits, hleaves⟩ := hwaits.run hstore run hothers (by simp)
      rw [← hids] at hto
      exact (hwaits.rolledBack (hleaves.kept _ (by simp) hfrom) (hleaves.kept _ (by simp) hto)
        message).2
    · have hwaits := (BoardStore.moveCard_nowhere hwell hmove hto).1
      obtain ⟨hwaits, hleaves⟩ := hwaits.run hstore run hothers (by simp)
      rw [← hids] at hto
      exact (hwaits.rolledBack_of_not_mem (hleaves.kept _ (by simp) hfrom)
        (fun hmem => hto (hleaves.ids.subset hmem)) message).2

/-! ## A peer in between -/

section Between

/-- A list with two cards and an empty one. -/
def twoCards : BoardState where
  lists := [{ id := js "l1", title := js "To do", cardIds := [js "c1", js "c2"] },
    { id := js "l2", title := js "Done", cardIds := [] }]
  cards := Dict.ofList [
    (js "c1", { BoardStore.newCard (js "c1") (js "Ship it") with positionIdx := some (js "A") }),
    (js "c2", { BoardStore.newCard (js "c2") (js "Test it") with positionIdx := some (js "B") })]

theorem wellFormed_twoCards : twoCards.WellFormed where
  ids := by decide
  entries := by decide
  once id hid := by
    have hcards : id = js "c2" ∨ id = js "c1" := by
      simpa only [twoCards, Dict.ofList, List.foldl_cons, List.foldl_nil, AList.mem_insert,
        AList.notMem_empty, or_false] using hid
    rcases hcards with rfl | rfl
    · decide
    · decide

/-- A peer moves the other card. -/
def peerMoves : Action := .applyRemoteMutation
  { seq := 1, boardId := js "b1", type := .cardMoved, ts := 0,
    payload :=
      { cardId := some (js "c2"), listId := some (js "l2"), positionIdx := some (js "M") } }

/-- A card is dragged past the end of the other list, a peer moves the other card there, and
the move fails: the dragged card goes back, the other one stays. -/
theorem dragged_rolled_back :
    ∃ w₁ w₂ w₃, (loaded twoCards).step (.moveCard (js "c1") (js "l1") (js "l2") 7) = some w₁ ∧
      w₁.step peerMoves = some w₂ ∧
      w₂.step (.settleMove 0 (.rejected (js "Move failed"))) = some w₃ ∧
      RolledBack (js "c1") (js "l1") (some (js "A")) w₂.store w₃.store := by
  obtain ⟨⟨store, move⟩, hmove⟩ : ∃ issued,
      (loaded twoCards).store.moveCard (js "c1") (js "l1") (js "l2") 7 = some issued :=
    Option.isSome_iff_exists.mp (by decide)
  have hissued : (loaded twoCards).step (.moveCard (js "c1") (js "l1") (js "l2") 7) = some
      { (loaded twoCards).after (.moveCard (js "c1") (js "l1") (js "l2") 7) store with
        moves := [{ move := move, since := [] }] } := by
    simp only [step, hmove]
    rfl
  have hothers : ConcernsOthers (js "c1") [js "l1", js "l2"]
      { (loaded twoCards).after (.moveCard (js "c1") (js "l1") (js "l2") 7) store with
        moves := [{ move := move, since := [] }] } peerMoves := by
    change namedId (some (js "c2")) ≠ some (js "c1")
    decide
  refine ⟨_, _, _, hissued, rfl, rfl, ?_⟩
  have hwell : (loaded twoCards).WellFormed := wellFormed_twoCards
  exact (failed_move_rolls_back (i := 0) (f := { move := move, since := [peerMoves] })
    hwell hmove hissued (Steps.none.next rfl) (by simpa using hothers) rfl rfl
    rfl).2

end Between

end WebBoard

end FlowLogix.Web

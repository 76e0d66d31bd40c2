/-
  Web/Drop.lean --- a card that is dragged and dropped
  (components/board/Board.tsx, cardDnd.ts, CardTile.tsx and BoardColumn.tsx in frontend/src).

  A tile carries its card, its list and its index among the tiles of the list; `onDrop`
  makes of what is dragged and what is under the pointer a `moveCard`, with the index the
  card has once it is taken out.  `Dropped` says without an index where the card belongs:
  directly above or below the card it was dropped on, else last in the list.

  Each drop is answered before the next gesture, as in `OwnActions.lean`.

  `getReorderDestinationIndex` comes with the drag-and-drop package; `Reorders` is what it
  promises for another tile of the same list.
-/
import FlowLogix.Web.OwnActions

set_option autoImplicit false

namespace FlowLogix.Web

open FlowLogix.Foundation FlowLogix.Server

/-! ## Drag data -/

/-- `CardDragData`. -/
structure CardDragData where
  cardId : Id
  listId : Id
  index : Int
  deriving DecidableEq

/-- The edges a tile allows. -/
inductive Edge where
  | top
  | bottom
  deriving DecidableEq

/-- What an element carries; `attachClosestEdge` adds the edge to what a tile carries. -/
inductive DropData where
  | card (data : CardDragData) (closestEdge : Option Edge)
  | list (listId : Id)
  | other

/-- `asCardDragData` and `extractClosestEdge`. -/
def DropData.asCard : DropData → Option (CardDragData × Option Edge)
  | .card data closestEdge => some (data, closestEdge)
  | _ => none

/-- `asListDropData`. -/
def DropData.asList : DropData → Option Id
  | .list listId => some listId
  | _ => none

/-- The arguments of a `moveCard`. -/
structure CardMove where
  cardId : Id
  fromListId : Id
  toListId : Id
  toIndex : Int

/-- The list and the index a card is dropped at, if it is dropped on anything. -/
def destination (reorder : Int → Int → Option Edge → Int) (lists : List BoardList)
    (dragged : CardDragData) (targets : List DropData) : Option (Id × Int) :=
  match targets.findSome? DropData.asCard with
  | some (target, closestEdge) =>
      if dragged.listId = target.listId then
        some (target.listId, reorder dragged.index target.index closestEdge)
      else
        some (target.listId,
          if closestEdge = some .bottom then target.index + 1 else target.index)
  | none =>
      (targets.findSome? DropData.asList).map fun toListId =>
        let toIndex := ((findList lists toListId).map fun l => (l.cardIds.length : Int)).getD 0
        (toListId,
          if dragged.listId = toListId ∧ 0 < toIndex then max 0 (toIndex - 1) else toIndex)

/-- `onDrop`, up to its `moveCard`. -/
def onDrop (reorder : Int → Int → Option Edge → Int) (lists : List BoardList) (source : DropData)
    (targets : List DropData) : Option CardMove :=
  match source.asCard with
  | none => none
  | some (dragged, _) =>
      match destination reorder lists dragged targets with
      | none => none
      | some (toListId, toIndex) =>
          if dragged.listId = toListId ∧ toIndex = dragged.index then none
          else
            some
              { cardId := dragged.cardId
                fromListId := dragged.listId
                toListId := toListId
                toIndex := toIndex }

/-- What `getReorderDestinationIndex` promises on the vertical axis, for valid indices. -/
structure Reorders (reorder : Int → Int → Option Edge → Int) : Prop where
  above_later : ∀ start target : Nat, start < target →
    reorder start target (some .top) = target - 1
  above_earlier : ∀ start target : Nat, target < start →
    reorder start target (some .top) = target
  below_later : ∀ start target : Nat, start < target →
    reorder start target (some .bottom) = target
  below_earlier : ∀ start target : Nat, target < start →
    reorder start target (some .bottom) = target + 1

/-! ## Tiles -/

/-- The cards a column shows. -/
def tiles (s : BoardState) (l : BoardList) : List Card := l.cardIds.filterMap s.cards.lookup

/-- What some tile of the board carries. -/
def IsTile (s : BoardState) (data : CardDragData) : Prop :=
  ∃ l ∈ s.lists, ∃ (i : Nat) (card : Card), (tiles s l)[i]? = some card ∧
    data = { cardId := card.id, listId := l.id, index := i }

/-- A tile is dragged; under the pointer are other tiles and columns. -/
structure Rendered (s : BoardState) (dragged : CardDragData) (targets : List DropData) : Prop where
  tile : IsTile s dragged
  targets : ∀ t ∈ targets,
    (∃ data edge, t = .card data (some edge) ∧ IsTile s data ∧ data.cardId ≠ dragged.cardId) ∨
      ∃ l ∈ s.lists, t = .list l.id

/-- Cards are kept under their ids. -/
def BoardState.Keyed (s : BoardState) : Prop :=
  ∀ id card, s.cards.lookup id = some card → card.id = id

variable {s : BoardState} {l : BoardList} {data dragged : CardDragData}

/-- A list is found by its id. -/
theorem findList_of_mem {lists : List BoardList} (hids : (lists.map BoardList.id).Nodup)
    (hl : l ∈ lists) : findList lists l.id = some l := by
  obtain ⟨found, hfound⟩ := Option.isSome_iff_exists.mp
    (findList_isSome_iff.mpr (List.mem_map_of_mem hl))
  obtain ⟨hmem, hid⟩ := findList_some hfound
  rw [hfound, List.inj_on_of_nodup_map hids hmem hl hid]

/-- All cards of a list have a tile. -/
theorem ids_tiles (hwell : s.WellFormed) (hkeyed : s.Keyed) (hl : l ∈ s.lists) :
    (tiles s l).map Card.id = l.cardIds := by
  have hentries := hwell.entries l hl
  unfold tiles
  generalize l.cardIds = ids at hentries
  induction ids with
  | nil => rfl
  | cons id rest ih =>
      obtain ⟨card, hcard⟩ := Option.isSome_iff_exists.mp
        (AList.lookup_isSome.mpr (hentries id List.mem_cons_self))
      rw [List.filterMap_cons_some (f := fun id => s.cards.lookup id) hcard, List.map_cons,
        hkeyed id card hcard, ih fun id hid => hentries id (List.mem_cons_of_mem _ hid)]

/-- No card is twice in a list. -/
theorem BoardState.WellFormed.nodup_cardIds (hwell : s.WellFormed) (hl : l ∈ s.lists) :
    l.cardIds.Nodup := by
  rw [List.nodup_iff_count_le_one]
  intro id
  by_cases hid : id ∈ l.cardIds
  · have honce := hwell.once_in (findList_of_mem hwell.ids hl) hid l hl
    rw [honce, if_pos rfl]
  · rw [List.count_eq_zero.mpr hid]
    exact Nat.zero_le 1

/-- The index of a tile is that of its card in the list. -/
theorem IsTile.at (hwell : s.WellFormed) (hkeyed : s.Keyed) (h : IsTile s data) :
    ∃ l, findList s.lists data.listId = some l ∧ data.cardId ∈ l.cardIds ∧
      data.index = l.cardIds.idxOf data.cardId := by
  obtain ⟨l, hl, i, card, hi, rfl⟩ := h
  refine ⟨l, findList_of_mem hwell.ids hl, ?_⟩
  have hids := ids_tiles hwell hkeyed hl
  obtain ⟨hlt, hcard⟩ := List.getElem?_eq_some_iff.mp hi
  have hlt' : i < l.cardIds.length := by
    rw [← hids, List.length_map]
    exact hlt
  have hget : l.cardIds[i] = card.id := by
    rw [List.getElem_of_eq hids.symm, List.getElem_map, hcard]
  rw [← hget, (hwell.nodup_cardIds hl).idxOf_getElem i hlt']
  exact ⟨List.getElem_mem hlt', rfl⟩

/-! ## Where a dropped card belongs -/

/-- A place in a list. -/
inductive Place where
  | above (target : Id)
  | below (target : Id)
  | last

/-- The place a drop on some targets means, and its list. -/
def intended (targets : List DropData) : Option (Id × Place) :=
  match targets.findSome? DropData.asCard with
  | some (target, closestEdge) =>
      some (target.listId,
        if closestEdge = some .bottom then .below target.cardId else .above target.cardId)
  | none => (targets.findSome? DropData.asList).map fun listId => (listId, .last)

/-- The card stands in that place. -/
def Place.Holds (cardId : Id) (ids : List Id) : Place → Prop
  | .above target => ∃ pre post, ids = pre ++ cardId :: target :: post
  | .below target => ∃ pre post, ids = pre ++ target :: cardId :: post
  | .last => ∃ pre, ids = pre ++ [cardId]

/-- The card stands in a place of one list, and only there; the other cards stand as they
did. -/
structure Dropped (lists lists' : List BoardList) (cardId listId : Id) (place : Place) :
    Prop where
  there : ∃ l, findList lists' listId = some l ∧ place.Holds cardId l.cardIds
  once : ∀ l ∈ lists', l.cardIds.count cardId = if l.id = listId then 1 else 0
  others : withoutCard lists' cardId = withoutCard lists cardId

section Indices

variable {ids rest : List Id} {c target : Id}

theorem erase_eq_filter_ne (hnodup : ids.Nodup) :
    ids.erase c = ids.filter fun id => id ≠ c := by
  rw [hnodup.erase_eq_filter]
  refine List.filter_congr fun id _ => ?_
  by_cases hid : id = c <;> simp [hid]

/-- Where a card is once another one is taken out. -/
theorem idxOf_filter_ne (hnodup : ids.Nodup) (hne : target ≠ c) (htarget : target ∈ ids) :
    (ids.filter fun id => id ≠ c).idxOf target =
      if ids.idxOf c < ids.idxOf target then ids.idxOf target - 1 else ids.idxOf target := by
  induction ids with
  | nil => exact absurd htarget List.not_mem_nil
  | cons first rest ih =>
      obtain ⟨hfirst, hrest⟩ := List.nodup_cons.mp hnodup
      by_cases hc : first = c
      · subst hc
        have htarget : target ∈ rest := (List.mem_cons.mp htarget).resolve_left hne
        rw [List.filter_cons_of_neg (by simp), filter_ne_of_not_mem hfirst,
          List.idxOf_cons_self, List.idxOf_cons_ne _ (Ne.symm hne), if_pos (Nat.succ_pos _)]
        rfl
      · rw [List.filter_cons_of_pos (by simpa using hc)]
        by_cases ht : first = target
        · subst ht
          rw [List.idxOf_cons_self, List.idxOf_cons_self, if_neg (Nat.not_lt_zero _)]
        · have htarget : target ∈ rest := (List.mem_cons.mp htarget).resolve_left (Ne.symm ht)
          rw [List.idxOf_cons_ne _ ht, List.idxOf_cons_ne _ ht, List.idxOf_cons_ne _ hc,
            ih hrest htarget]
          have hindex : rest.idxOf c < rest.idxOf target → 0 < rest.idxOf target := by omega
          split <;> split <;> omega

/-- Put in at the index of a card, a card stands above it. -/
theorem holds_above (htarget : target ∈ rest) :
    (Place.above target).Holds c (spliceIn rest (rest.idxOf target : Nat) c) := by
  have hlt := List.idxOf_lt_length_of_mem htarget
  refine ⟨rest.take (rest.idxOf target), rest.drop (rest.idxOf target + 1), ?_⟩
  rw [spliceIn_natCast, List.drop_eq_getElem_cons hlt, List.getElem_idxOf]

/-- Put in after the index of a card, a card stands below it. -/
theorem holds_below (htarget : target ∈ rest) :
    (Place.below target).Holds c (spliceIn rest (rest.idxOf target + 1 : Nat) c) := by
  have hlt := List.idxOf_lt_length_of_mem htarget
  refine ⟨rest.take (rest.idxOf target), rest.drop (rest.idxOf target + 1), ?_⟩
  rw [spliceIn_natCast, List.take_succ_eq_append_getElem hlt, List.getElem_idxOf,
    List.append_assoc]
  rfl

/-- Put in beside the index of a card, a card stands beside it. -/
theorem holds_beside (htarget : target ∈ rest) (edge : Edge) :
    (if some edge = some .bottom then Place.below target else Place.above target).Holds c
      (spliceIn rest (rest.idxOf target + if edge = .bottom then 1 else 0 : Nat) c) := by
  cases edge with
  | top => exact holds_above htarget
  | bottom => exact holds_below htarget

theorem holds_last : Place.last.Holds c (spliceIn rest (rest.length : Nat) c) :=
  ⟨rest, by rw [spliceIn_natCast, List.take_length, List.drop_length]⟩

/-- Within a list, a card goes beside where another one is once it is taken out. -/
theorem Reorders.eq {reorder : Int → Int → Option Edge → Int} (h : Reorders reorder)
    (hnodup : ids.Nodup) (hne : target ≠ c) (htarget : target ∈ ids) (edge : Edge) :
    reorder (ids.idxOf c) (ids.idxOf target) (some edge) =
      ((ids.filter fun id => id ≠ c).idxOf target + if edge = .bottom then 1 else 0 : Nat) := by
  have hindex : ids.idxOf c ≠ ids.idxOf target :=
    fun heq => hne ((List.idxOf_inj htarget).mp heq.symm)
  rw [idxOf_filter_ne hnodup hne htarget]
  rcases Nat.lt_or_gt_of_ne hindex with hlt | hgt
  · cases edge with
    | top =>
        rw [h.above_later _ _ hlt, if_pos hlt, if_neg (by decide)]
        omega
    | bottom =>
        rw [h.below_later _ _ hlt, if_pos hlt, if_pos rfl]
        omega
  · cases edge with
    | top =>
        rw [h.above_earlier _ _ hgt, if_neg (Nat.lt_asymm hgt), if_neg (by decide)]
        omega
    | bottom =>
        rw [h.below_earlier _ _ hgt, if_neg (Nat.lt_asymm hgt), if_pos rfl]
        omega

end Indices

/-! ## `onDrop` -/

section OnDrop

variable {reorder : Int → Int → Option Edge → Int} {targets : List DropData} {listId : Id}
  {place : Place}

/-- A list that a card is dropped on from another one is without it. -/
theorem not_mem_of_other {source target : BoardList} {c : Id} (hwell : s.WellFormed)
    (hsource : findList s.lists dragged.listId = some source) (hc : c ∈ source.cardIds)
    (htarget : findList s.lists listId = some target) (hne : dragged.listId ≠ listId) :
    c ∉ target.cardIds := by
  obtain ⟨hmem, rfl⟩ := findList_some htarget
  have hcount := hwell.once_in hsource hc target hmem
  rw [if_neg (Ne.symm hne)] at hcount
  exact List.count_eq_zero.mp hcount

/-- The list a card is dropped at is there; at the index, the card stands where the drop
means it to. -/
theorem destination_holds (hwell : s.WellFormed) (hkeyed : s.Keyed) (hreorder : Reorders reorder)
    (h : Rendered s dragged targets) (hintended : intended targets = some (listId, place)) :
    ∃ l toIndex, findList s.lists listId = some l ∧
      destination reorder s.lists dragged targets = some (listId, toIndex) ∧
      place.Holds dragged.cardId
        (spliceIn (l.cardIds.filter fun id => id ≠ dragged.cardId) toIndex dragged.cardId) := by
  obtain ⟨source, hsource, hc, hstart⟩ := h.tile.at hwell hkeyed
  have hnodup := hwell.nodup_cardIds (findList_some hsource).1
  unfold intended at hintended
  unfold destination
  cases hcard : targets.findSome? DropData.asCard with
  | some found =>
      obtain ⟨t, ht, hfound⟩ := List.exists_of_findSome?_eq_some hcard
      obtain ⟨data, edge, rfl, htile, hne⟩ | ⟨l, -, rfl⟩ := h.targets t ht
      · obtain rfl := Option.some.inj hfound
        rw [hcard] at hintended
        obtain ⟨rfl, rfl⟩ := Prod.mk.inj (Option.some.inj hintended)
        obtain ⟨target, htarget, hmem, hindex⟩ := htile.at hwell hkeyed
        by_cases hsame : dragged.listId = data.listId
        · obtain rfl := Option.some.inj (hsource.symm.trans (hsame ▸ htarget))
          refine ⟨source, _, htarget, if_pos hsame, ?_⟩
          rw [hstart, hindex, hreorder.eq hnodup hne hmem]
          exact holds_beside (List.mem_filter.mpr ⟨hmem, decide_eq_true hne⟩) edge
        · have hout := not_mem_of_other hwell hsource hc htarget hsame
          refine ⟨target, _, htarget, if_neg hsame, ?_⟩
          rw [filter_ne_of_not_mem hout, hindex]
          cases edge with
          | top => exact holds_above hmem
          | bottom => exact holds_below hmem
      · cases hfound
  | none =>
      rw [hcard] at hintended
      obtain ⟨toListId, hlist, heq⟩ := Option.map_eq_some_iff.mp hintended
      obtain ⟨rfl, rfl⟩ := Prod.mk.inj heq
      obtain ⟨t, ht, hfound⟩ := List.exists_of_findSome?_eq_some hlist
      obtain ⟨data, edge, rfl, -, -⟩ | ⟨target, hmem, rfl⟩ := h.targets t ht
      · cases hfound
      · obtain rfl := Option.some.inj hfound
        have htarget := findList_of_mem hwell.ids hmem
        refine ⟨target, _, htarget, by rw [hlist]; rfl, ?_⟩
        rw [htarget, Option.map_some, Option.getD_some]
        by_cases hsame : dragged.listId = target.id
        · obtain rfl := Option.some.inj (hsource.symm.trans (hsame ▸ htarget))
          have hpos : 0 < source.cardIds.length := List.length_pos_of_mem hc
          have hlength : (source.cardIds.filter fun id => id ≠ dragged.cardId).length =
              source.cardIds.length - 1 := by
            rw [← erase_eq_filter_ne hnodup, List.length_erase_of_mem hc]
          have hindex : max 0 ((source.cardIds.length : Int) - 1) =
              ((source.cardIds.filter fun id => id ≠ dragged.cardId).length : Nat) := by
            rw [hlength]
            omega
          rw [if_pos ⟨hsame, by omega⟩, hindex]
          exact holds_last
        · have hout := not_mem_of_other hwell hsource hc htarget hsame
          rw [filter_ne_of_not_mem hout, if_neg fun h => hsame h.1]
          exact holds_last

/-- A move that puts the card where the drop means it to. -/
theorem dropped_transfer {source target : BoardList} {c : Id} {toIndex : Int}
    (hwell : s.WellFormed) (hsource : findList s.lists dragged.listId = some source)
    (hc : c ∈ source.cardIds) (htarget : findList s.lists listId = some target)
    (hholds : place.Holds c (spliceIn (target.cardIds.filter fun id => id ≠ c) toIndex c)) :
    Dropped s.lists (transfer s.lists c dragged.listId listId toIndex) c listId place where
  there := by
    let ids := spliceIn (target.cardIds.filter fun id => id ≠ c) toIndex c
    refine ⟨{ target with cardIds := ids }, ?_, hholds⟩
    rw [transfer, takeCard_eq_withoutCard hwell.ids (hwell.once_in hsource hc),
      findList_modifyList, findList_withoutCard, htarget, Option.map_some, Option.map_some,
      if_pos rfl]
    exact fun _ => rfl
  once := count_transfer hwell.ids (hwell.once_in hsource hc) toIndex
  others := withoutCard_transfer s.lists c dragged.listId listId toIndex

/-- A card that is put in where it was taken out. -/
theorem transfer_idxOf {source : BoardList} {c : Id} (hwell : s.WellFormed)
    (hsource : findList s.lists dragged.listId = some source) (hc : c ∈ source.cardIds) :
    transfer s.lists c dragged.listId dragged.listId (source.cardIds.idxOf c : Nat) = s.lists := by
  obtain ⟨hmem, hid⟩ := findList_some hsource
  rw [transfer, modifyList_modifyList]
  · refine modifyList_eq_self fun l hl heq => ?_
    obtain rfl : l = source := List.inj_on_of_nodup_map hwell.ids hl hmem (heq.trans hid.symm)
    rw [spliceIn_erase_idxOf hc]
  · exact fun _ => rfl

/-- **A drop means what it looks like.** The move it makes puts the card in its place; where
it makes none, the card is there already. -/
theorem dropped_of_onDrop (hwell : s.WellFormed) (hkeyed : s.Keyed)
    (hreorder : Reorders reorder) (h : Rendered s dragged targets) (edge : Option Edge)
    (hintended : intended targets = some (listId, place)) :
    (onDrop reorder s.lists (.card dragged edge) targets = none ∧
        Dropped s.lists s.lists dragged.cardId listId place) ∨
      ∃ move source, onDrop reorder s.lists (.card dragged edge) targets = some move ∧
        findList s.lists move.fromListId = some source ∧ move.cardId ∈ source.cardIds ∧
        (findList s.lists move.toListId).isSome = true ∧
        Dropped s.lists
          (transfer s.lists move.cardId move.fromListId move.toListId move.toIndex)
          dragged.cardId listId place := by
  obtain ⟨source, hsource, hc, hstart⟩ := h.tile.at hwell hkeyed
  obtain ⟨target, toIndex, htarget, hdestination, hholds⟩ :=
    destination_holds hwell hkeyed hreorder h hintended
  have hdropped := dropped_transfer hwell hsource hc htarget hholds
  simp only [onDrop, DropData.asCard, hdestination]
  by_cases hsame : dragged.listId = listId ∧ toIndex = dragged.index
  · obtain ⟨rfl, rfl⟩ := hsame
    rw [hstart, transfer_idxOf hwell hsource hc] at hdropped
    exact Or.inl ⟨if_pos ⟨rfl, rfl⟩, hdropped⟩
  · exact Or.inr ⟨_, source, if_neg hsame, hsource, hc, by rw [htarget]; rfl, hdropped⟩

/-- A drop on nothing makes no move. -/
theorem onDrop_of_nothing (lists : List BoardList) (edge : Option Edge)
    (hintended : intended targets = none) :
    onDrop reorder lists (.card dragged edge) targets = none := by
  unfold intended at hintended
  simp only [onDrop, DropData.asCard, destination]
  cases hcard : targets.findSome? DropData.asCard with
  | some found =>
      rw [hcard] at hintended
      cases hintended
  | none =>
      rw [hcard] at hintended
      rw [Option.map_eq_none_iff.mp hintended]
      rfl

end OnDrop

/-! ## Sessions with drops -/

variable {pg : Postgres} {board orgId : JsString}

/-- What the user does. -/
inductive Gesture where
  | drop (source : DropData) (targets : List DropData) (delivery : Delivery) (message : JsString)
  | act (action : OwnAction)

namespace Session

/-- One gesture. -/
def gesture (reorder : Int → Int → Option Edge → Int) (orgId board : JsString)
    (s : Session pg) : Gesture → Session pg
  | .drop source targets delivery message =>
      match onDrop reorder s.store.lists source targets with
      | none => s
      | some move =>
          s.act orgId board
            (.move move.cardId move.fromListId move.toListId move.toIndex delivery message)
  | .act action => s.act orgId board action

/-- One gesture, as a step. -/
def gestureStep (reorder : Int → Int → Option Edge → Int) (orgId board : JsString)
    (s : Session pg) (gesture : Gesture) : Option (Session pg) :=
  some (s.gesture reorder orgId board gesture)

/-- Drops are of what is shown. -/
def AllowedGesture (s : Session pg) : Gesture → Prop
  | .drop source targets _ _ =>
      ∃ dragged, source = .card dragged none ∧ Rendered s.store.toBoardState dragged targets
  | .act action => s.Allowed action

/-- The server refuses what a drop asks for. -/
def Refuses (reorder : Int → Int → Option Edge → Int) (orgId : JsString) (s : Session pg)
    (source : DropData) (targets : List DropData) : Prop :=
  ∃ move shown pending failure, onDrop reorder s.store.lists source targets = some move ∧
    s.store.moveCard move.cardId move.fromListId move.toListId move.toIndex =
      some (shown, pending) ∧
    (WebCall.updateCard pending.cardId (moveBody shown pending)).run orgId s.db = .error failure

variable {s : Session pg} {delivery : Delivery} {message : JsString}

theorem exists_moveCard {store : BoardStore} {cardId fromListId : Id} {source : BoardList}
    (hsource : findList store.lists fromListId = some source) (hmem : cardId ∈ source.cardIds)
    (toListId : Id) (toIndex : Int) :
    ∃ moved, store.moveCard cardId fromListId toListId toIndex = some moved := by
  have hmem : cardId ∈ store.cardIdsOf fromListId := by
    rw [BoardStore.cardIdsOf, hsource]
    exact hmem
  exact ⟨_, if_pos hmem⟩

/-- The client keeps its cards under their ids. -/
theorem InStep.keyed (h : s.InStep board) : s.store.toBoardState.Keyed := by
  intro id card hcard
  have hseen := h.agrees.cards id
  rw [hcard] at hseen
  obtain ⟨loaded, hloaded, heq⟩ := Option.map_eq_some_iff.mp hseen.symm
  obtain ⟨-, -, c, -, rfl, rfl⟩ :=
    (ServedBoard.lookup_snapshot (distinctIds_served s.db board)).mp hloaded
  exact (congrArg Prod.fst heq).symm

/-- After a move the client has the lists it showed at once, unless the server refused. -/
theorem InStep.lists_move (hpg : TypedColumns pg) (h : s.InStep board) {shown : BoardStore}
    {pending : PendingMove} {cardId fromListId toListId : Id} {toIndex : Int}
    (hmove : s.store.moveCard cardId fromListId toListId toIndex = some (shown, pending))
    (hto : (findList s.store.lists toListId).isSome = true) (orgId : JsString)
    (delivery : Delivery) (message : JsString) :
    (∃ failure, (WebCall.updateCard pending.cardId (moveBody shown pending)).run orgId s.db =
        .error failure ∧ (s.move orgId shown pending delivery message).db = s.db ∧
        (s.move orgId shown pending delivery message).store.lists = s.store.lists) ∨
      (s.move orgId shown pending delivery message).store.lists =
        transfer s.store.lists cardId fromListId toListId toIndex := by
  have hmoved : (s.move orgId shown pending delivery message).InStep board := h.move hpg hmove hto
  have hlists := hmoved.agrees.lists
  unfold Session.move at hlists ⊢
  split
  · rename_i failure hrun
    have hsame := WebBoard.settle_moveCard (w := ⟨s.store, [], []⟩) h.wellFormed hmove message
    exact Or.inl ⟨failure, hrun, rfl, hsame.1⟩
  · rename_i db' event hrun
    rw [hrun] at hlists
    obtain ⟨l₀, old, moved, before, after, hanswered⟩ := h.answered hpg hmove hto hrun
    have hthere : toListId ∈ s.store.lists.map BoardList.id := findList_isSome_iff.mp hto
    obtain ⟨-, hshown, -⟩ := BoardStore.moveCard_into h.wellFormed hmove hthere
    refine Or.inr ?_
    calc _ = (served db' board).snapshot.lists := hlists
      _ = ((served s.db board).moveCard moved l₀.id).snapshot.lists := by
          rw [hanswered.takes.snapshot_eq h.keys]
      _ = putAt (withoutCard (served s.db board).snapshot.lists moved.id) l₀.id before.length
            moved.id :=
          ServedBoard.snapshot_moveCard_putAt h.keys (distinctIds_served s.db board)
            hanswered.shows.target hanswered.takes.shown hanswered.takes.between
      _ = shown.lists := by rw [hanswered.shows.lists, hanswered.cardId]
      _ = _ := hshown

/-- Where a drop leaves the card: in the place it means, on the screen and in what the
server then sends, unless the server refuses and nothing changes. -/
def Lands (reorder : Int → Int → Option Edge → Int) (orgId board : JsString) (s : Session pg) :
    Gesture → Prop
  | .drop source targets delivery message =>
      let s' := s.gesture reorder orgId board (.drop source targets delivery message)
      (served s'.db board).snapshot.lists = s'.store.lists ∧
        match intended targets with
        | none => s' = s
        | some (listId, place) =>
            (s.Refuses reorder orgId source targets ∧ s'.db = s.db ∧
                s'.store.lists = s.store.lists) ∨
              ∃ dragged edge, source = .card dragged edge ∧
                Dropped s.store.lists s'.store.lists dragged.cardId listId place
  | .act _ => True

/-- A drop is a move within the lists, or none. -/
theorem InStep.gesture (hpg : TypedColumns pg) (hvalues : KeepsText pg) (h : s.InStep board)
    {reorder : Int → Int → Option Edge → Int} (hreorder : Reorders reorder) {gesture : Gesture}
    (hallowed : s.AllowedGesture gesture) :
    (s.gesture reorder orgId board gesture).InStep board ∧
      s.Lands reorder orgId board gesture := by
  cases gesture with
  | act action => exact ⟨h.act hpg hvalues hallowed, trivial⟩
  | drop source targets delivery message =>
      obtain ⟨dragged, rfl, hrendered⟩ := hallowed
      have hstays : ∀ s' : Session pg, s' = s → s'.InStep board ∧
          (served s'.db board).snapshot.lists = s'.store.lists := by
        rintro s' rfl
        exact ⟨h, h.agrees.lists.symm⟩
      cases hintended : intended targets with
      | none =>
          have hsame : s.gesture reorder orgId board
              (.drop (.card dragged none) targets delivery message) = s := by
            rw [Session.gesture, onDrop_of_nothing s.store.lists none hintended]
          simp only [Lands, hintended]
          exact ⟨(hstays _ hsame).1, (hstays _ hsame).2, hsame⟩
      | some found =>
          obtain ⟨listId, place⟩ := found
          simp only [Lands, hintended]
          obtain ⟨hnone, hdropped⟩ | ⟨move, source, hsome, hsource, hmem, hto, hdropped⟩ :=
            dropped_of_onDrop h.wellFormed h.keyed hreorder hrendered none hintended
          · have hsame : s.gesture reorder orgId board
                (.drop (.card dragged none) targets delivery message) = s := by
              rw [Session.gesture, hnone]
            refine ⟨(hstays _ hsame).1, (hstays _ hsame).2, Or.inr ⟨dragged, none, rfl, ?_⟩⟩
            rw [hsame]
            exact hdropped
          · obtain ⟨⟨shown, pending⟩, hmove⟩ := exists_moveCard hsource hmem move.toListId
              move.toIndex
            have hmoved : s.gesture reorder orgId board
                (.drop (.card dragged none) targets delivery message) =
                  s.move orgId shown pending delivery message := by
              simp only [Session.gesture, hsome, Session.act, hmove]
            have hinStep : (s.move orgId shown pending delivery message).InStep board :=
              h.move hpg hmove hto
            rw [hmoved]
            refine ⟨hinStep, hinStep.agrees.lists.symm, ?_⟩
            obtain ⟨failure, hfails, hsame⟩ | hlists :=
              h.lists_move hpg hmove hto orgId delivery message
            · exact Or.inl ⟨⟨move, shown, pending, failure, hsome, hmove, hfails⟩, hsame⟩
            · exact Or.inr ⟨dragged, none, rfl, hlists ▸ hdropped⟩

/-- **A card lands where it is dropped.** In every run of a client that is alone with its
server, starts in step and sends one request at a time, each drop puts its card directly
above or below the card it was dropped on, or last in the list it was dropped on, and
nothing else moves; the server then sends the same lists.  When it refuses the request, or
the drop is on nothing, the lists are as before. -/
theorem drops_land (hpg : TypedColumns pg) (hvalues : KeepsText pg)
    {reorder : Int → Int → Option Edge → Int} (hreorder : Reorders reorder)
    {start s : Session pg} {trace : List (Session pg × Gesture)}
    (run : Steps (gestureStep reorder orgId board) start trace s) (hstart : start.InStep board)
    (hallowed : ∀ e ∈ trace, e.1.AllowedGesture e.2) :
    ∀ e ∈ trace, e.1.Lands reorder orgId board e.2 := by
  have hsteps := @Steps.everywhere _ _ _ _ _ _ (InStep board) AllowedGesture run hallowed hstart
    fun s gesture s' hok h hstep => by
      obtain rfl := Option.some.inj hstep
      exact (h.gesture hpg hvalues hreorder hok).1
  intro e he
  exact ((hsteps.1 e he).gesture hpg hvalues hreorder (hallowed e he)).2

end Session

namespace OwnSample

open Server.Sample

/-- The package's function. -/
def hitbox (start target : Int) (edge : Option Edge) : Int :=
  if start = -1 ∨ target = -1 ∨ start = target then start
  else
    match edge with
    | none => target
    | some .top => if start < target then target - 1 else target
    | some .bottom => if start < target then target else target + 1

theorem hitbox_reorders : Reorders hitbox := by
  have hvalid : ∀ start target : Nat, start ≠ target →
      ¬((start : Int) = -1 ∨ (target : Int) = -1 ∨ (start : Int) = target) := by
    intro start target hne
    omega
  constructor
  · intro start target hlt
    rw [hitbox, if_neg (hvalid start target (Nat.ne_of_lt hlt))]
    exact if_pos (Int.ofNat_lt.mpr hlt)
  · intro start target hgt
    rw [hitbox, if_neg (hvalid start target (Nat.ne_of_gt hgt))]
    exact if_neg (not_lt_of_gt (Int.ofNat_lt.mpr hgt))
  · intro start target hlt
    rw [hitbox, if_neg (hvalid start target (Nat.ne_of_lt hlt))]
    exact if_pos (Int.ofNat_lt.mpr hlt)
  · intro start target hgt
    rw [hitbox, if_neg (hvalid start target (Nat.ne_of_gt hgt))]
    exact if_neg (not_lt_of_gt (Int.ofNat_lt.mpr hgt))

/-- The board after the second card was added. -/
def added : Session Postgres.plain := opened.act Sample.orgId boardId add

/-- The second card is dragged onto the upper half of the first. -/
def dropSecond : Gesture :=
  .drop (.card { cardId := secondId, listId := listId, index := 1 } none)
    [.card { cardId := cardId, listId := listId, index := 0 } (some .top), .list listId]
    .responseFirst (js "Failed")

/-- The list with both cards. -/
def list : BoardList where
  id := listId
  title := js "Next"
  cardIds := [cardId, secondId]

theorem list_mem : list ∈ added.store.lists := by decide

/-- Both tiles are on the board. -/
theorem rendered_second : added.AllowedGesture dropSecond := by
  refine ⟨{ cardId := secondId, listId := listId, index := 1 }, rfl, ?_, ?_⟩
  · exact ⟨list, list_mem, 1, _, rfl, rfl⟩
  · intro t ht
    rcases List.mem_pair.mp ht with rfl | rfl
    · refine Or.inl ⟨{ cardId := cardId, listId := listId, index := 0 }, .top, rfl, ?_, by decide⟩
      exact ⟨list, list_mem, 0, _, rfl, rfl⟩
    · exact Or.inr ⟨list, list_mem, rfl⟩

end OwnSample

/-- A second card lands above the first. -/
theorem drops_land_second :
    OwnSample.added.Lands OwnSample.hitbox Server.Sample.orgId Server.Sample.boardId
        OwnSample.dropSecond ∧
      (OwnSample.added.gesture OwnSample.hitbox Server.Sample.orgId Server.Sample.boardId
        OwnSample.dropSecond).store.cardIdsOf Server.Sample.listId =
          [OwnSample.secondId, Server.Sample.cardId] := by
  have run : Steps (Session.gestureStep OwnSample.hitbox Server.Sample.orgId
      Server.Sample.boardId) OwnSample.opened _ _ :=
    (Steps.none.next (a := .act OwnSample.add) rfl).next (a := OwnSample.dropSecond) rfl
  refine ⟨Session.drops_land plain_typedColumns OwnSample.plain_keepsText
    OwnSample.hitbox_reorders run OwnSample.opened_inStep ?_ (_, OwnSample.dropSecond)
    (List.mem_append_right _ (List.mem_singleton.mpr rfl)), by decide⟩
  intro e he
  rcases List.mem_pair.mp he with rfl | rfl
  · exact ⟨by decide, rfl, by decide⟩
  · exact OwnSample.rendered_second

end FlowLogix.Web

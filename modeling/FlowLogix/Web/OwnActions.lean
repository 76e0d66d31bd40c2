/-
  Web/OwnActions.lean --- a client alone with its server
  (useBoardStore.ts, persistence.ts and boardLoader.ts in frontend/src, with
  backend/src/cards/cards.service.ts behind them).

  One client moves and adds cards of a board nobody else changes, one request at a time:
  the answer is there, and the frame of the change has arrived before it, after it or not
  at all, when the next action begins.  `InStep` is what every such action keeps: the
  client shows what it would load.  Requests that overlap, or a frame that is late for the
  next action, are no part of this; a late frame of a first move puts back a second one.

  The answer of a move is the saved card, of which the client reads the key; the event of
  the same save carries it.  A failed request changes no table.
-/
import FlowLogix.Server.AnnouncedCalls
import FlowLogix.Web.OwnPlace
import FlowLogix.Foundation.Steps

set_option autoImplicit false

namespace FlowLogix.Web

open FlowLogix.Foundation FlowLogix.Ordering FlowLogix.Server

variable {pg : Postgres} {db db' : Database pg} {board orgId : JsString}

/-! ## Requests -/

/-- The body `persistCardMove` sends: the list, and the neighbours after the optimistic
reorder. -/
def moveBody (store : BoardStore) (move : PendingMove) : UpdateCardDto where
  content := ∅
  content_keys := UpdateCardDto.no_content
  listId := some move.toListId
  positionIdx := none
  beforeCardId := namedId (beforeCardId (store.cardIdsOf move.toListId) move.cardId)
  afterCardId := namedId (afterCardId (store.cardIdsOf move.toListId) move.cardId)

/-- The body `createCard` sends. -/
def createBody (title : JsString) : CreateCardDto where
  content := Dict.ofList [("title", .str title)]
  content_keys := by simp [Dict.ofList]
  positionIdx := none

/-- The created card as the answer carries it. -/
def createdCard (now : Int) (listId id positionIdx title : JsString) : Card :=
  mapApiCard (readCard id fun property =>
    (CardsService.newCard now listId positionIdx (createBody title)).columns.lookup property)

/-! ## Sessions -/

/-- When the frame of an own change arrives. -/
inductive Delivery where
  | responseOnly
  | responseFirst
  | frameFirst
  deriving DecidableEq, Repr

/-- What the client does, and with what a refused request is reported. -/
inductive OwnAction where
  | move (cardId fromListId toListId : Id) (toIndex : Int) (delivery : Delivery)
      (message : JsString)
  /-- `tempId` is made up by the client; `id` and `now` are the defaults of the row -/
  | add (listId : Id) (title tempId id : JsString) (now : Int) (delivery : Delivery)
      (message : JsString)
  /-- `refetchBoard` -/
  | reload

/-- The tables and the client's store. -/
structure Session (pg : Postgres) where
  db : Database pg
  store : BoardStore

/-- The frame and the answer of a change reach the store. -/
def Delivery.deliver (delivery : Delivery) (settle : BoardStore → BoardStore)
    (event : PendingBoardEvent) (store : BoardStore) : BoardStore :=
  match delivery with
  | .responseOnly => settle store
  | .responseFirst => (settle store).applyRemoteMutation (frameOf event)
  | .frameFirst => settle (store.applyRemoteMutation (frameOf event))

namespace Session

/-- A move, sent and answered. -/
def move (orgId : JsString) (s : Session pg) (shown : BoardStore) (pending : PendingMove)
    (delivery : Delivery) (message : JsString) : Session pg :=
  match (WebCall.updateCard pending.cardId (moveBody shown pending)).run orgId s.db with
  | .error _ => { s with store := pending.settle shown (.rejected message) }
  | .ok (db', event) =>
      { db := db'
        store := delivery.deliver
          (fun store => pending.settle store (.resolved event.positionIdx)) event shown }

/-- A creation, sent and answered. -/
def add (orgId : JsString) (s : Session pg) (shown : BoardStore) (pending : PendingCard)
    (title id : JsString) (now : Int) (delivery : Delivery) (message : JsString) : Session pg :=
  match (WebCall.createCard pending.listId id now (createBody title)).run orgId s.db with
  | .error _ => { s with store := pending.settle shown (.rejected message) }
  | .ok (db', event) =>
      { db := db'
        store := delivery.deliver (fun store => pending.settle store (.resolved
          (createdCard now pending.listId id (event.positionIdx.getD []) title))) event shown }

/-- One action: the next one finds its request answered and its frame delivered. -/
def act (orgId board : JsString) (s : Session pg) : OwnAction → Session pg
  | .move cardId fromListId toListId toIndex delivery message =>
      match s.store.moveCard cardId fromListId toListId toIndex with
      | none => s
      | some (shown, pending) => s.move orgId shown pending delivery message
  | .add listId title tempId id now delivery message =>
      if trim title = [] ∨ !s.store.hasList listId then s
      else
        s.add orgId
          { s.store.showCard listId (BoardStore.newCard tempId (trim title)) with
            moveError := none }
          { listId := listId, tempId := tempId } (trim title) id now delivery message
  | .reload => { s with store := .hydrateBoard (served s.db board).snapshot }

/-- One action, as a step. -/
def step (orgId board : JsString) (s : Session pg) (action : OwnAction) : Option (Session pg) :=
  some (s.act orgId board action)

/-- The client shows what it would load, from rows under canonical ids with valid keys, no
two of which are equal within a list. -/
structure InStep (board : JsString) (s : Session pg) : Prop where
  agrees : s.store.toBoardState.Agrees (served s.db board).snapshot
  keys : (served s.db board).DistinctKeys
  canonical : CanonicalKeys s.db
  sound : s.db.Every (Row.SoundKey : Row pg .cards → Prop)

/-- What is left to the client and the store: a card is dropped on a list that is shown,
and made-up ids are new, the row's in canonical form. -/
def Allowed (s : Session pg) : OwnAction → Prop
  | .move _ _ toListId _ _ _ => (findList s.store.lists toListId).isSome = true
  | .add _ _ tempId id _ _ _ => tempId ∉ s.store.cards ∧ pg.uuid id = some id ∧ id ≠ []
  | .reload => True

end Session

/-! ## The board it loads -/

theorem standing_snapshot (b : ServedBoard) (cardId : Id) :
    standing b.snapshot.lists cardId =
      ((b.sortedLists.flatMap fun l => b.listCards l.id).map ApiCard.id).count cardId := by
  show standing (b.sortedLists.map fun l => l.withCards ((b.listCards l.id).map ApiCard.id))
    cardId = _
  induction b.sortedLists with
  | nil => rfl
  | cons l rest ih =>
      rw [List.map_cons, standing_cons, ih, List.flatMap_cons, List.map_append, List.count_append]
      rfl

/-- A board that is loaded is well formed. -/
theorem wellFormed_snapshot {b : ServedBoard} (hids : b.DistinctIds) : b.snapshot.WellFormed where
  ids := by
    show ((b.sortedLists.map fun l =>
      l.withCards ((b.listCards l.id).map ApiCard.id)).map BoardList.id).Nodup
    rw [List.map_map]
    exact (((sortByKey_perm _ _).map _).nodup_iff).mpr hids.lists
  entries l hl id hid := by
    obtain ⟨l₀, hl₀, rfl⟩ := List.mem_map.mp hl
    obtain ⟨c, hc, rfl⟩ := List.mem_map.mp hid
    exact mem_of_lookup (ServedBoard.lookup_snapshot_of_mem hids
      (ServedBoard.mem_sortedLists.mp hl₀) (ServedBoard.mem_listCards.mp hc))
  once id hid := by
    obtain ⟨card, hcard⟩ := Option.isSome_iff_exists.mp (AList.lookup_isSome.mpr hid)
    obtain ⟨l, hl, c, hc, rfl, -⟩ := (ServedBoard.lookup_snapshot hids).mp hcard
    rw [standing_snapshot]
    refine List.count_eq_one_of_mem hids.nodup_flatMap (List.mem_map.mpr ⟨c, ?_, rfl⟩)
    exact List.mem_flatMap.mpr
      ⟨l, ServedBoard.mem_sortedLists.mpr hl, ServedBoard.mem_listCards.mpr hc⟩

/-- Well-formedness shows in the lists and in which cards there are. -/
theorem BoardState.Agrees.wellFormed {s s' : BoardState} (h : s.Agrees s') (hs : s'.WellFormed) :
    s.WellFormed := by
  have hmem : ∀ id, id ∈ s.cards ↔ id ∈ s'.cards := by
    intro id
    rw [← AList.lookup_isSome, ← AList.lookup_isSome, h.lookup_isSome]
  refine hs.rearranged ⟨?_, fun id => ?_, hmem⟩
  · rw [h.lists]
  · rw [h.lists]

/-- Boards with the same lists and cards agree with the same board. -/
theorem BoardState.Agrees.of_same {s s' t : BoardState} (h : s.Agrees t)
    (hlists : s'.lists = s.lists) (hcards : ∀ id, s'.cards.lookup id = s.cards.lookup id) :
    s'.Agrees t where
  lists := hlists.trans h.lists
  cards id := by
    rw [hcards]
    exact h.cards id

namespace Session.InStep

variable {s : Session pg}

theorem wellFormed (h : s.InStep board) : s.store.toBoardState.WellFormed :=
  h.agrees.wellFormed (wellFormed_snapshot (distinctIds_served s.db board))

end Session.InStep

/-! ## Where a move shows its card -/

section Shown

variable {store shown : BoardStore} {b : ServedBoard} {pending : PendingMove}
  {cardId fromListId toListId : Id} {toIndex : Int}

/-- The optimistic board of a move: its card between two parts of the list it is dropped
on. -/
structure ShowsBetween (b : ServedBoard) (shown : BoardStore) (cardId : Id) (l₀ : ApiList)
    (before after : List ApiCard) : Prop where
  target : l₀ ∈ b.shownLists
  split : ((b.listCards l₀.id).filter fun c => c.id ≠ cardId) = before ++ after
  lists : shown.lists =
    putAt (withoutCard b.snapshot.lists cardId) l₀.id before.length cardId
  others : withoutCard shown.lists cardId = withoutCard b.snapshot.lists cardId

theorem exists_showsBetween (hids : b.DistinctIds) (hagrees : store.toBoardState.Agrees b.snapshot)
    (hmove : store.moveCard cardId fromListId toListId toIndex = some (shown, pending))
    (hto : (findList store.lists toListId).isSome = true) :
    ∃ l₀ before after, l₀.id = toListId ∧ ShowsBetween b shown cardId l₀ before after := by
  have hwell := hagrees.wellFormed (wellFormed_snapshot hids)
  rw [hagrees.lists, ServedBoard.findList_snapshot_isSome] at hto
  obtain ⟨l₀, hl₀, rfl⟩ := hto
  have hids' : l₀.id ∈ store.lists.map BoardList.id := by
    rw [← findList_isSome_iff, hagrees.lists, ServedBoard.findList_snapshot_isSome]
    exact ⟨l₀, hl₀, rfl⟩
  obtain ⟨-, hlists, -⟩ := BoardStore.moveCard_into hwell hmove hids'
  obtain ⟨source, hsource, hmem, -, -⟩ := BoardStore.moveCard_some hmove
  have hcards := ServedBoard.cardIds_withoutCard (ServedBoard.mem_sortedLists.mpr hl₀) cardId
  obtain ⟨target, htarget, htargetIds⟩ := Option.map_eq_some_iff.mp hcards
  rw [← hagrees.lists] at htarget
  obtain ⟨i, hi, htransfer⟩ := transfer_eq_putAt hwell.ids (hwell.once_in hsource hmem) htarget
    toIndex
  rw [htargetIds, List.length_map] at hi
  generalize hrest : ((b.listCards l₀.id).filter fun c => c.id ≠ cardId) = rest at hi
  refine ⟨l₀, rest.take i, rest.drop i, rfl, hl₀, ?_, ?_, ?_⟩
  · rw [hrest, List.take_append_drop]
  · rw [hlists, htransfer, List.length_take, Nat.min_eq_left hi, hagrees.lists]
  · rw [hlists, withoutCard_transfer, hagrees.lists]

namespace ShowsBetween

variable {l₀ : ApiList} {before after : List ApiCard}

/-- The cards of the list, with the dropped one among them. -/
theorem cardIdsOf_eq (h : ShowsBetween b shown cardId l₀ before after) :
    shown.cardIdsOf l₀.id = before.map ApiCard.id ++ cardId :: after.map ApiCard.id := by
  have hcards := ServedBoard.cardIds_withoutCard (ServedBoard.mem_sortedLists.mpr h.target) cardId
  obtain ⟨target, htarget, htargetIds⟩ := Option.map_eq_some_iff.mp hcards
  rw [h.split, List.map_append] at htargetIds
  rw [BoardStore.cardIdsOf, h.lists, findList_putAt htarget, Option.map_some, Option.getD_some,
    htargetIds, List.take_left' (List.length_map _), List.drop_left' (List.length_map _)]

/-- A card beside it is another shown card of the list. -/
theorem mem_shownCards (h : ShowsBetween b shown cardId l₀ before after) {c : ApiCard}
    (hc : c ∈ before ++ after) : c ∈ b.shownCards l₀.id ∧ c.id ≠ cardId := by
  rw [← h.split, List.mem_filter, decide_eq_true_iff] at hc
  exact ⟨ServedBoard.mem_listCards.mp hc.1, hc.2⟩

theorem not_mem_before (h : ShowsBetween b shown cardId l₀ before after) :
    cardId ∉ before.map ApiCard.id := by
  intro hmem
  obtain ⟨c, hc, hid⟩ := List.mem_map.mp hmem
  exact (h.mem_shownCards (List.mem_append_left after hc)).2 hid

end ShowsBetween

end Shown

/-- The neighbours a move sends. -/
theorem neighbours_of_moveBody (hcanon : CanonicalKeys db) {shown : BoardStore}
    {pending : PendingMove} {l₀ : ApiList} {before after : List ApiCard}
    (h : ShowsBetween (served db board) shown pending.cardId l₀ before after)
    (hto : pending.toListId = l₀.id) :
    (moveBody shown pending).beforeCardId = before.getLast?.map ApiCard.id ∧
      (moveBody shown pending).afterCardId = after.head?.map ApiCard.id := by
  have hnamed : ∀ c, c ∈ before ++ after → namedId (some c.id) = some c.id := by
    intro c hc
    exact namedId_some (canonical_of_hasCard hcanon
      ⟨l₀, h.target, c, (h.mem_shownCards hc).1, rfl⟩).2
  constructor
  · show namedId (beforeCardId _ _) = _
    rw [hto, h.cardIdsOf_eq, beforeCardId_middle h.not_mem_before, List.getLast?_map]
    cases hlast : before.getLast? with
    | none => rfl
    | some c =>
        exact hnamed c (List.mem_append_left after (List.mem_of_getLast? hlast))
  · show namedId (afterCardId _ _) = _
    rw [hto, h.cardIdsOf_eq, afterCardId_middle h.not_mem_before, List.head?_map]
    cases hfirst : after.head? with
    | none => rfl
    | some c =>
        exact hnamed c (List.mem_append_right before (List.mem_of_head? hfirst))

/-! ## What the server makes of it -/

/-- The server took a move: the card is served in the list, with a key between the two
parts, and looks the same otherwise; the event names all three. -/
structure TakesMove (db db' : Database pg) (board : JsString) (event : PendingBoardEvent)
    (l₀ : ApiList) (old moved : ApiCard) (before after : List ApiCard) : Prop where
  between : (served db board).PlacedBetween l₀.id moved before after
  loads : (served db' board).SameShown ((served db board).moveCard moved l₀.id)
  shown : moved.isArchived = false
  id : moved.id = old.id
  same : moved.title = old.title ∧ moved.description = old.description ∧
    moved.isComplete = old.isComplete
  payload : event.payload = ⟨some moved.id, some l₀.id, some moved.positionIdx⟩
  type : event.type = .cardMoved ∨ event.type = .cardUpdated
  canonical : CanonicalKeys db'
  sound : db'.Every (Row.SoundKey : Row pg .cards → Prop)

/-- A key of a neighbour that is shown. -/
theorem keyOf_shown (hcanon : CanonicalKeys db)
    (hsound : db.Every (Row.SoundKey : Row pg .cards → Prop)) {l : ApiList} {c : ApiCard}
    (hc : c ∈ (served db board).shownCards l.id) :
    Mint.keyOf db (some c.id) = some c.positionIdx := by
  obtain ⟨row, hfind, -, -, hrow, -⟩ := mem_shownCards_served.mp hc
  obtain ⟨key, hkey, -⟩ := (hsound c.id row hfind).exists_key
  have hpositionIdx : c.positionIdx = key := by
    rw [← hrow]
    simp only [toApiCard, readCard, asString_lookup, hkey, Option.getD_some]
  rw [Mint.keyOf, Option.bind_some, (hcanon .cards c.id row hfind).1, Option.bind_some, hfind,
    Option.bind_some, hkey, hpositionIdx]

/-- A key placed by neighbours is between theirs. -/
theorem between_of_place {id key : JsString} {dto : UpdateCardDto}
    {loaded : CardsService.LoadedCard} (hwants : CardsService.wantsNeighborPlacement dto = true)
    (hplace : CardsService.place db id dto loaded = .ok (some key)) :
    (∀ p, Mint.keyOf db dto.beforeCardId = some p → p < key) ∧
      ∀ n, Mint.keyOf db dto.afterCardId = some n → key < n := by
  rw [CardsService.place, if_pos hwants] at hplace
  obtain ⟨minted, hminted, hplace⟩ := bind_eq_ok.mp hplace
  obtain rfl := Option.some.inj (Except.ok.inj hplace)
  have hrun : (Mint.between id (CardsService.targetListId dto loaded) dto.beforeCardId
      dto.afterCardId).run db = .ok minted := hminted
  have hbetween := Mint.keyBetween_of_run hrun
  obtain ⟨key, hkey, -, habove, hbelow⟩ :=
    (FractionalIndexer.inOrder_of_getIntermediateKey hbetween).getIntermediateKey
  obtain rfl : minted = key := Except.ok.inj (hbetween.symm.trans hkey)
  exact ⟨habove, hbelow⟩

/-- The key a move is saved with, and the one its event carries. -/
theorem positionIdx_of_save (hpg : TypedColumns pg) {id : JsString} {dto : UpdateCardDto}
    {loaded : CardsService.LoadedCard} {next : Option JsString} {row row' : Row pg .cards}
    (hsound : row.SoundKey) (hcard : loaded.card = row.toEntity)
    (hplace : CardsService.place db id dto loaded = .ok next)
    (heffect : SaveEffect row row' (CardsService.assigned dto next)) :
    ∃ key, row'.text "positionIdx" = some key ∧
      (CardsService.edited dto loaded next).text "positionIdx" = some key ∧
        (∀ minted, next = some minted → key = minted) := by
  cases next with
  | some key =>
      refine ⟨key, text_positionIdx_of_saveEffect hpg heffect
        (CardsService.isValid_of_place hplace), CardsService.text_edited_positionIdx, ?_⟩
      rintro _ ⟨⟩
      rfl
  | none =>
      have hassigned := CardsService.lookup_assigned_positionIdx dto none
      obtain ⟨key, hkey, -⟩ := hsound.exists_key
      refine ⟨key, ?_, ?_, nofun⟩
      · rw [Row.text_congr (heffect.kept _ (AList.lookup_eq_none.mp hassigned)), hkey]
      · rw [Entity.text, CardsService.edited, Entity.assign, Dict.lookup_assign, hassigned,
          Option.map_none, Option.none_or, hcard]
        exact (asString_lookup row "positionIdx").trans hkey

/-- A row written under a canonical id. -/
theorem CanonicalKeys.put (hcanon : CanonicalKeys db) {c : SyncCollection} {row : Row pg c}
    {k : JsString} (hk : pg.uuid k = some k ∧ k ≠ []) : CanonicalKeys (db.put k row) := by
  intro c' j r hr
  by_cases hc : c' = c
  · subst hc
    rw [Database.find_put] at hr
    split at hr
    · rename_i heq
      exact heq ▸ hk
    · exact hcanon c' j r hr
  · rw [Database.find_put_of_ne _ _ _ _ hc] at hr
    exact hcanon c' j r hr

/-- The server's answer to a move. -/
theorem takesMove_of_run (hpg : TypedColumns pg) (hcanon : CanonicalKeys db)
    (hkeys : (served db board).DistinctKeys)
    (hsound : db.Every (Row.SoundKey : Row pg .cards → Prop)) {shown : BoardStore}
    {pending : PendingMove} {event : PendingBoardEvent} {l₀ : ApiList}
    {before after : List ApiCard}
    (h : ShowsBetween (served db board) shown pending.cardId l₀ before after)
    (hto : pending.toListId = l₀.id) (hcard : (served db board).HasCard pending.cardId)
    (hrun : (WebCall.updateCard pending.cardId (moveBody shown pending)).run orgId db =
      .ok (db', event)) :
    ∃ old moved, (served db board).snapshot.cards.lookup pending.cardId = some (mapApiCard old) ∧
      old.id = pending.cardId ∧ TakesMove db db' board event l₀ old moved before after := by
  obtain ⟨loaded, next, row, row', -, -, hplace, hid, hfind, hcard', hlistId, rfl, heffect, rfl⟩ :=
    WebCall.updateCard_eq_ok hrun
  obtain ⟨hbefore, hafter⟩ := neighbours_of_moveBody hcanon h hto
  have hkey : loaded.key = pending.cardId :=
    Option.some.inj (hid.symm.trans (canonical_of_hasCard hcanon hcard).1)
  have htarget : CardsService.targetListId (moveBody shown pending) loaded = l₀.id := hto
  obtain ⟨l, hl, c, hc, hcid⟩ := hcard
  obtain ⟨row₁, hfind₁, hlist, hvisible, hrow, hshown⟩ := mem_shownCards_served.mp hc
  rw [hcid, ← hkey] at hfind₁ hrow
  obtain rfl : row = row₁ := Option.some.inj (hfind.symm.trans hfind₁)
  obtain ⟨key, htext, hedited, hminted⟩ :=
    positionIdx_of_save hpg (hsound _ row hfind) hcard' hplace heffect
  have hcontent : ∀ property, property ≠ "listId" → property ≠ "positionIdx" →
      row'.columns.lookup property = row.columns.lookup property :=
    fun property => lookup_of_saveEffect heffect
  have hmovedKey : (toApiCard (loaded.key, row')).positionIdx = key := by
    simp only [toApiCard, readCard, asString_lookup, htext, Option.getD_some]
  have hmovedShown : (toApiCard (loaded.key, row')).isArchived = false := by
    rw [← hshown, ← hrow]
    simp only [toApiCard, readCard, hcontent "isArchived" (by decide) (by decide)]
  have hvisible' : isSyncDeleted row' = false := by
    rw [isSyncDeleted, heffect.clocks, heffect.tombstone]
    exact hvisible
  have hlist' : row'.text "listId" = some l₀.id := by
    rw [← htarget]
    refine text_listId_of_saveEffect heffect hlistId hlist ?_
    rw [htarget]
    exact (canonical_of_hasList hcanon ⟨l₀, h.target, rfl⟩).1
  have hid₀ : (toApiCard (loaded.key, row')).id = pending.cardId := hkey
  -- a card beside the place is named by the request, so its key bounds the new one
  have hnext : ∀ c, before.getLast? = some c ∨ after.head? = some c →
      CardsService.wantsNeighborPlacement (moveBody shown pending) = true ∧
        ∃ minted, next = some minted := by
    intro c hc
    have hwants : CardsService.wantsNeighborPlacement (moveBody shown pending) = true := by
      unfold CardsService.wantsNeighborPlacement
      rw [hbefore, hafter]
      rcases hc with hc | hc <;> simp [hc]
    refine ⟨hwants, Option.isSome_iff_exists.mp ?_⟩
    rw [CardsService.isSome_of_place hplace, CardsService.places, hwants]
    rfl
  have hbetween : (served db board).PlacedBetween l₀.id (toApiCard (loaded.key, row')) before
      after := by
    refine ServedBoard.placedBetween_of_beside (hkeys.cards l₀ h.target) (hid₀ ▸ h.split)
      (fun c hc => ?_) fun c hc => ?_
    · obtain ⟨hwants, minted, rfl⟩ := hnext c (Or.inl hc)
      have hmem := (h.mem_shownCards (List.mem_append_left after (List.mem_of_getLast? hc))).1
      rw [hmovedKey, hminted minted rfl]
      refine (between_of_place hwants hplace).1 c.positionIdx ?_
      rw [hbefore, hc]
      exact keyOf_shown hcanon hsound hmem
    · obtain ⟨hwants, minted, rfl⟩ := hnext c (Or.inr hc)
      have hmem := (h.mem_shownCards (List.mem_append_right before (List.mem_of_head? hc))).1
      rw [hmovedKey, hminted minted rfl]
      refine (between_of_place hwants hplace).2 c.positionIdx ?_
      rw [hafter, hc]
      exact keyOf_shown hcanon hsound hmem
  refine ⟨toApiCard (loaded.key, row), toApiCard (loaded.key, row'), ?_, hkey, ?_⟩
  · rw [← hkey]
    exact ServedBoard.lookup_snapshot_of_mem (distinctIds_served db board) hl
      (mem_shownCards_served.mpr ⟨row, hfind, hlist, hvisible, rfl, hrow ▸ hshown⟩)
  · constructor
    case between => exact hbetween
    case loads => exact served_put hvisible' hlist' hmovedShown
    case shown => exact hmovedShown
    case id => rfl
    case same =>
      simp only [toApiCard, readCard, hcontent "title" (by decide) (by decide),
        hcontent "description" (by decide) (by decide),
        hcontent "isComplete" (by decide) (by decide), and_self]
    case payload =>
      simp only [PendingBoardEvent.payload, CardsService.eventForSave, hedited, hmovedKey,
        CardsService.text_edited_listId hcard' hlistId, htarget]
      rfl
    case type =>
      unfold CardsService.eventForSave
      dsimp only
      split
      · exact Or.inl rfl
      · exact Or.inr rfl
    case canonical => exact hcanon.put (hcanon .cards loaded.key row hfind)
    case sound =>
      obtain ⟨db₁, hupdate, hrest⟩ := bind_eq_ok.mp hrun
      obtain ⟨_, -, hrest⟩ := bind_eq_ok.mp hrest
      obtain ⟨_, -, hrest⟩ := bind_eq_ok.mp hrest
      obtain ⟨hdb, -⟩ := Prod.mk.inj (Except.ok.inj hrest)
      obtain ⟨k, saved, rfl, hsaved⟩ := CardsService.updateAcross_soundKey hpg hsound hupdate
      rw [← hdb]
      exact hsound.put hsaved

/-! ## What the client makes of the answer -/

section Answered

variable {store shown : BoardStore} {pending : PendingMove} {event : PendingBoardEvent}
  {cardId fromListId toListId : Id} {toIndex : Int} {l₀ : ApiList} {old moved : ApiCard}
  {before after : List ApiCard}

/-- What is loaded after the move. -/
theorem TakesMove.snapshot_eq (h : TakesMove db db' board event l₀ old moved before after)
    (hkeys : (served db board).DistinctKeys) :
    (served db' board).snapshot = ((served db board).moveCard moved l₀.id).snapshot :=
  ServedBoard.snapshot_congr h.loads (hkeys.moveCard h.shown h.between.keyFree)

theorem ServedBoard.DistinctKeys.congr {b b' : ServedBoard} (h : b.DistinctKeys)
    (hsame : b'.SameShown b) :
    b'.DistinctKeys where
  lists := ((hsame.lists.map _).nodup_iff).mpr h.lists
  cards l hl := by
    have hl := hsame.lists.mem_iff.mp hl
    exact (((hsame.cards l hl).map _).nodup_iff).mpr (h.cards l hl)

/-- A board that shows the card in its place, under its new key, is the one that is
loaded. -/
theorem agrees_of_placed (h : TakesMove db db' board event l₀ old moved before after)
    (hkeys : (served db board).DistinctKeys) (hl₀ : l₀ ∈ (served db board).shownLists)
    {s : BoardState} {card : Card}
    (hseen : card.seen = (mapApiCard old).seen)
    (hlists : s.lists = putAt (withoutCard (served db board).snapshot.lists moved.id) l₀.id
      before.length moved.id)
    (hcards : ∀ id, (s.cards.lookup id).map Card.seen =
      if id = moved.id then some (Card.seen { card with positionIdx := some moved.positionIdx })
      else ((served db board).snapshot.cards.lookup id).map Card.seen) :
    s.Agrees (served db' board).snapshot := by
  have hids := distinctIds_served db board
  rw [h.snapshot_eq hkeys]
  refine ⟨?_, fun id => ?_⟩
  · rw [hlists, ServedBoard.snapshot_moveCard_putAt hkeys hids hl₀ h.shown h.between]
  · rw [hcards, ServedBoard.snapshot_moveCard_lookup hids hl₀ h.shown]
    split
    · rw [Option.map_some, (seen_placed_iff h.id hseen).mpr h.same]
    · rfl

/-- The answer of a move that is the card's latest gives the card its key. -/
theorem settle_resolved (hwaits : Waits pending pending.toListId none shown) (key : JsString) :
    (pending.settle shown (.resolved (some key))).lists = shown.lists ∧
      ∃ card, shown.cards.lookup pending.cardId = some card ∧
        ∀ id, (pending.settle shown (.resolved (some key))).cards.lookup id =
          if id = pending.cardId then some { card with positionIdx := some key }
          else shown.cards.lookup id := by
  obtain ⟨card, hcard, -⟩ := hwaits.card
  simp only [PendingMove.settle, PendingMove.latest, hwaits.token, if_true, hcard]
  exact ⟨rfl, card, rfl, fun id => Dict.lookup_insert_eq _ _ _ _⟩

/-- A frame of content changes no list and no card. -/
theorem applyRemoteMutation_content (store : BoardStore)
    (htype : event.type = .cardUpdated ∨ event.type = .cardCreated) :
    (store.applyRemoteMutation (frameOf event)).toBoardState = store.toBoardState ∧
      (store.applyRemoteMutation (frameOf event)).moveVersions = store.moveVersions := by
  unfold BoardStore.applyRemoteMutation BoardStore.overruled
  rcases htype with htype | htype <;>
    simp only [frameOf, htype, reconcileRemoteMutation, BoardStore.patched, and_self]

/-- A frame that moves a card of the board puts it at its key. -/
theorem applyRemoteMutation_moved (store : BoardStore) (htype : event.type = .cardMoved)
    {key : JsString} {card : Card} {listId : Id}
    (hpayload : event.payload = ⟨some cardId, some listId, some key⟩) (hcardId : cardId ≠ [])
    (hlistId : listId ≠ []) (hcard : store.cards.lookup cardId = some card)
    (hlist : (findList store.lists listId).isSome = true) :
    (store.applyRemoteMutation (frameOf event)).toBoardState =
        { lists := placeByKey store.cards cardId listId key (withoutCard store.lists cardId)
          cards := store.cards.insert cardId { card with positionIdx := some key } } ∧
      reconcileMoved store.toBoardState event.payload =
        .board (placeByKey store.cards cardId listId key (withoutCard store.lists cardId))
          (store.cards.insert cardId { card with positionIdx := some key }) ∧
        (store.applyRemoteMutation (frameOf event)).moveVersions.lookup cardId =
          some (store.moveVersion cardId + 1) := by
  have hreconcile : reconcileMoved store.toBoardState event.payload =
      .board (placeByKey store.cards cardId listId key (withoutCard store.lists cardId))
        (store.cards.insert cardId { card with positionIdx := some key }) := by
    rw [hpayload]
    exact reconcileMoved_eq rfl hcardId rfl hlistId rfl hcard hlist
  have hoverruled : BoardStore.overruled (frameOf event) = some cardId := by
    simp only [BoardStore.overruled, frameOf, htype, hpayload]
    exact namedId_some hcardId
  unfold BoardStore.applyRemoteMutation
  simp only [hoverruled, reconcileRemoteMutation]
  simp only [frameOf, htype, hreconcile, BoardStore.patched, BoardStore.bump]
  exact ⟨trivial, trivial, AList.lookup_insert _⟩

/-- A place by key depends on the keys of the cards of the list. -/
theorem insertionIndexForKey_congr_mem {cards cards' : Dict Id Card} {ids : List Id}
    (h : ∀ id ∈ ids, keyOf cards id = keyOf cards' id) (key : JsString) :
    insertionIndexForKey ids cards key = insertionIndexForKey ids cards' key := by
  unfold insertionIndexForKey
  refine le_antisymm (List.findIdx_le_findIdx fun id hid hlt => ?_)
    (List.findIdx_le_findIdx fun id hid hlt => ?_)
  · have hkey := h id hid
    unfold keyOf at hkey
    rwa [hkey]
  · have hkey := h id hid
    unfold keyOf at hkey
    rwa [← hkey]

/-- What the client of a move has in hand: its optimistic board and the server's answer. -/
structure Answered (db db' : Database pg) (board : JsString) (event : PendingBoardEvent)
    (store shown : BoardStore) (pending : PendingMove) (l₀ : ApiList) (old moved : ApiCard)
    (before after : List ApiCard) : Prop where
  agrees : store.toBoardState.Agrees (served db board).snapshot
  keys : (served db board).DistinctKeys
  named : CanonicalKeys db
  waits : Waits pending pending.toListId none shown
  card : ∃ card, store.cards.lookup pending.cardId = some card ∧
    card.seen = (mapApiCard old).seen ∧ ∀ id, shown.cards.lookup id =
      if id = pending.cardId then some { card with positionIdx := none }
      else store.cards.lookup id
  toListId : pending.toListId = l₀.id
  cardId : moved.id = pending.cardId
  shows : ShowsBetween (served db board) shown pending.cardId l₀ before after
  takes : TakesMove db db' board event l₀ old moved before after
  known : (served db board).HasCard pending.cardId

namespace Answered

variable (h : Answered db db' board event store shown pending l₀ old moved before after)
include h

/-- After the answer the client shows what it would load. -/
theorem settled : (pending.settle shown (.resolved (some moved.positionIdx))).toBoardState.Agrees
    (served db' board).snapshot := by
  obtain ⟨hlists, card', hcard', hcards⟩ := settle_resolved h.waits moved.positionIdx
  obtain ⟨card, -, hseen, hshown⟩ := h.card
  rw [hshown, if_pos rfl] at hcard'
  obtain rfl := Option.some.inj hcard'
  refine agrees_of_placed h.takes h.keys h.shows.target hseen ?_ fun id => ?_
  · rw [hlists, h.shows.lists, h.cardId]
  · rw [hcards, h.cardId]
    split
    · rfl
    · rename_i hne
      rw [hshown, if_neg hne]
      exact h.agrees.cards id

/-- The ids of the frame are not empty. -/
theorem named_ne : moved.id ≠ [] ∧ l₀.id ≠ [] := by
  rw [h.cardId]
  exact ⟨(canonical_of_hasCard h.named h.known).2,
    (canonical_of_hasList h.named ⟨l₀, h.shows.target, rfl⟩).2⟩

/-- The frame of the own move, on the optimistic board. -/
theorem frame_on_shown (htype : event.type = .cardMoved) :
    (shown.applyRemoteMutation (frameOf event)).toBoardState.Agrees (served db' board).snapshot ∧
      (shown.applyRemoteMutation (frameOf event)).moveVersions.lookup pending.cardId =
        some (pending.version + 1) := by
  have hids := distinctIds_served db board
  obtain ⟨card, hcard, hseen, hshown⟩ := h.card
  have hfound : shown.cards.lookup moved.id = some { card with positionIdx := none } := by
    rw [hshown, h.cardId, if_pos rfl]
  have hlist : (findList shown.lists l₀.id).isSome = true := by
    have hthere := findList_withoutCard shown.lists pending.cardId l₀.id
    obtain ⟨target, htarget, -⟩ := Option.map_eq_some_iff.mp
      (ServedBoard.cardIds_withoutCard (ServedBoard.mem_sortedLists.mpr h.shows.target)
        pending.cardId)
    rw [h.shows.others, htarget] at hthere
    obtain ⟨l, hl, -⟩ := Option.map_eq_some_iff.mp hthere.symm
    rw [hl]
    rfl
  obtain ⟨hstate, -, hversions⟩ := applyRemoteMutation_moved shown htype h.takes.payload
    h.named_ne.1 h.named_ne.2 hfound hlist
  -- the keys of the other cards are those of the loaded board
  have hkeyOf : ∀ id, id ≠ pending.cardId →
      keyOf shown.cards id = keyOf (served db board).snapshot.cards id := by
    intro id hne
    rw [keyOf, hshown, if_neg hne]
    exact h.agrees.positionIdx id
  have hplace : placeByKey shown.cards moved.id l₀.id moved.positionIdx
      (withoutCard shown.lists moved.id) =
        putAt (withoutCard (served db board).snapshot.lists moved.id) l₀.id before.length
          moved.id := by
    rw [← ServedBoard.snapshot_moveCard_putAt h.keys hids h.shows.target h.takes.shown
      h.takes.between, ServedBoard.snapshot_moveCard_lists h.keys hids h.takes.shown
        h.takes.between.keyFree, h.cardId, h.shows.others, placeByKey, placeByKey]
    rw [insertionIndexForKey_congr_mem fun id hid => hkeyOf id ?_]
    rintro rfl
    rw [ServedBoard.cardIds_withoutCard (ServedBoard.mem_sortedLists.mpr h.shows.target),
      Option.getD_some, h.shows.split] at hid
    obtain ⟨c, hc, heq⟩ := List.mem_map.mp hid
    exact (h.shows.mem_shownCards hc).2 heq
  constructor
  · rw [hstate]
    refine agrees_of_placed h.takes h.keys h.shows.target hseen hplace fun id => ?_
    rw [Dict.lookup_insert_eq]
    split
    · rfl
    · rename_i hne
      rw [hshown, if_neg fun heq => hne (heq.trans h.cardId.symm)]
      exact h.agrees.cards id
  · rw [h.cardId] at hversions
    rw [hversions, BoardStore.moveVersion, h.waits.token]
    rfl

/-- A card that stands where it is moved to. -/
theorem sameShown_moveCard : ((served db' board).moveCard moved l₀.id).SameShown
    (served db' board) := by
  have hids' := distinctIds_served db' board
  have hmem : ∀ l ∈ (served db' board).shownLists, ∀ c, c ∈ (served db' board).shownCards l.id ↔
      c ∈ ((served db board).moveCard moved l₀.id).shownCards l.id := by
    intro l hl c
    exact (h.takes.loads.cards l (h.takes.loads.lists.mem_iff.mp hl)).mem_iff
  refine sameShown_of_mem (hids'.moveCard h.takes.shown) hids' (fun l => Iff.rfl)
    fun l hl c => ?_
  rw [hmem l hl, ServedBoard.shownCards_moveCard _ h.takes.shown,
    ServedBoard.shownCards_moveCard _ h.takes.shown, ServedBoard.shownCards_dropCard,
    ServedBoard.shownCards_dropCard]
  have hrest : c ∈ ((served db' board).shownCards l.id).filter (fun c => c.id ≠ moved.id) ↔
      c ∈ ((served db board).shownCards l.id).filter fun c => c.id ≠ moved.id := by
    rw [List.mem_filter, List.mem_filter, hmem l hl, ServedBoard.shownCards_moveCard _
      h.takes.shown, ServedBoard.shownCards_dropCard]
    refine and_congr_left fun hne => ?_
    have hne : c.id ≠ moved.id := of_decide_eq_true hne
    have hnot : c ≠ moved := fun heq => hne (heq ▸ rfl)
    split <;> simp [hne, hnot]
  split
  · rw [List.mem_cons, List.mem_cons, hrest]
  · exact hrest

/-- The frame of the own move, after the answer. -/
theorem frame_on_settled (htype : event.type = .cardMoved) {settled : BoardStore}
    (hsettled : settled.toBoardState.Agrees (served db' board).snapshot) :
    (settled.applyRemoteMutation (frameOf event)).toBoardState.Agrees
      (served db' board).snapshot := by
  have hids' := distinctIds_served db' board
  have hkeys' : (served db' board).DistinctKeys :=
    (h.keys.moveCard h.takes.shown h.takes.between.keyFree).congr h.takes.loads
  have hl₀ : l₀ ∈ (served db' board).shownLists := h.takes.loads.lists.mem_iff.mpr h.shows.target
  have hmoved : moved ∈ (served db' board).shownCards l₀.id := by
    rw [(h.takes.loads.cards l₀ h.shows.target).mem_iff,
      ServedBoard.shownCards_moveCard _ h.takes.shown, if_pos rfl]
    exact List.mem_cons_self
  have hfree : (served db' board).KeyFree l₀.id moved.id moved.positionIdx := by
    intro c hc hne heq
    have hinj := List.inj_on_of_nodup_map (hkeys'.cards l₀ hl₀) hc hmoved heq
    exact hne (hinj ▸ rfl)
  obtain ⟨card, hcard, hseen⟩ := Option.map_eq_some_iff.mp
    ((hsettled.cards moved.id).trans (congrArg (Option.map Card.seen)
      (ServedBoard.lookup_snapshot_of_mem hids' hl₀ hmoved)))
  have hlist : (findList settled.lists l₀.id).isSome = true := by
    rw [hsettled.lists, ServedBoard.findList_snapshot_isSome]
    exact ⟨l₀, hl₀, rfl⟩
  obtain ⟨hstate, hreconcile, -⟩ := applyRemoteMutation_moved settled htype h.takes.payload
    h.named_ne.1 h.named_ne.2 hcard hlist
  have hpatch := moveCard_upToDate hsettled hkeys' hids'
    (congrArg BoardMutationPayload.cardId h.takes.payload)
    (congrArg BoardMutationPayload.listId h.takes.payload)
    (congrArg BoardMutationPayload.positionIdx h.takes.payload) hl₀ h.takes.shown hfree hcard
    ((seen_placed_iff rfl hseen).mpr ⟨rfl, rfl, rfl⟩)
  rw [hreconcile, ServedBoard.snapshot_congr h.sameShown_moveCard hkeys'] at hpatch
  rw [hstate]
  exact hpatch

/-- Whatever arrives first, the client shows what it would load. -/
theorem delivered (delivery : Delivery)
    (hpositionIdx : event.positionIdx = some moved.positionIdx) :
    (delivery.deliver (fun store => pending.settle store (.resolved event.positionIdx)) event
      shown).toBoardState.Agrees (served db' board).snapshot := by
  rw [hpositionIdx]
  cases delivery with
  | responseOnly => exact h.settled
  | responseFirst =>
      rcases h.takes.type with htype | htype
      · exact h.frame_on_settled htype h.settled
      · show ((pending.settle shown _).applyRemoteMutation _).toBoardState.Agrees _
        rw [(applyRemoteMutation_content _ (Or.inl htype)).1]
        exact h.settled
  | frameFirst =>
      rw [Delivery.deliver]
      rcases h.takes.type with htype | htype
      · -- the frame made the move stale
        obtain ⟨hagrees, hversion⟩ := h.frame_on_shown htype
        have hstale : pending.latest (shown.applyRemoteMutation (frameOf event)) = none := by
          rw [PendingMove.latest, if_neg]
          rw [hversion, Option.some_inj]
          exact Nat.succ_ne_self _
        rw [PendingMove.settle, hstale]
        exact hagrees
      · obtain ⟨hstate, hversions⟩ := applyRemoteMutation_content shown (Or.inl htype)
        have hlatest : pending.latest (shown.applyRemoteMutation (frameOf event)) =
            pending.latest shown := by
          rw [PendingMove.latest, PendingMove.latest, hversions, hstate]
        have hagrees := h.settled
        rw [PendingMove.settle] at hagrees ⊢
        rw [hlatest]
        cases hcard : pending.latest shown with
        | none =>
            rw [hcard] at hagrees
            rw [hstate]
            exact hagrees
        | some card =>
            rw [hcard] at hagrees
            dsimp only [BoardStore.setKey] at hagrees ⊢
            rw [hstate]
            exact hagrees

end Answered

end Answered

/-! ## Created cards -/

/-- Text and booleans are stored as they are. -/
structure KeepsText (pg : Postgres) : Prop where
  title : ∀ s w, pg.store .cards "title" (.str s) = some w → w = .str s
  description : ∀ w, pg.store .cards "description" .null = some w → w = .null
  flag : ∀ property b w, property ∈ ["isComplete", "isArchived"] →
    pg.store .cards property (.bool b) = some w → w = .bool b

section Created

variable {store : BoardStore} {l₀ : ApiList} {id tempId title key message : JsString} {now : Int}
  {row : Row pg .cards}

/-- A key that is appended to a list is above those of its shown cards. -/
theorem lt_of_append_shown (hcanon : CanonicalKeys db)
    (hsound : db.Every (Row.SoundKey : Row pg .cards → Prop))
    (hl₀ : l₀ ∈ (served db board).shownLists)
    (happend : resolvePositionKey db .cards l₀.id none = .ok key) {c : ApiCard}
    (hc : c ∈ (served db board).shownCards l₀.id) : c.positionIdx < key := by
  have hcanonical := (canonical_of_hasList hcanon ⟨l₀, hl₀, rfl⟩).1
  obtain ⟨row, hfind, hlist, -, hrow, -⟩ := mem_shownCards_served.mp hc
  obtain ⟨own, hown, -⟩ := (hsound c.id row hfind).exists_key
  have hkey : c.positionIdx = own := by
    rw [← hrow]
    simp only [toApiCard, readCard, asString_lookup, hown, Option.getD_some]
  rw [hkey]
  exact lt_of_append hcanonical happend (Database.mem_siblingKeys hfind hlist hown)

/-- The answer carries the row that was inserted. -/
theorem createdCard_eq (hvalues : KeepsText pg) (hpg : TypedColumns pg)
    (hvalid : PositionService.isValid key = true)
    (hrow : insertEntity .cards (CardsService.newCard now l₀.id key (createBody title)) =
      .ok row) :
    createdCard now l₀.id id key title = mapApiCard (toApiCard (id, row)) := by
  have hstored := (insertEntity_eq_ok hrow).1
  have hentity : ∀ property v,
      (CardsService.newCard now l₀.id key (createBody title)).columns.lookup property = some v →
        (∀ w, pg.store .cards property v = some w → w = v) →
          row.columns.lookup property = some v := by
    intro property v hv hkeeps
    obtain ⟨w, hstore, hw⟩ := hstored property v hv
    rw [hw, hkeeps w hstore]
  have htitle : (CardsService.newCard now l₀.id key (createBody title)).columns.lookup "title" =
      some (.str title) := by
    simp [CardsService.newCard, createBody, Dict.lookup_assign, Dict.ofList,
      Dict.lookup_singleton_eq]
  have hdescription : (CardsService.newCard now l₀.id key
      (createBody title)).columns.lookup "description" = some .null := by
    simp [CardsService.newCard, createBody, Dict.lookup_assign, Dict.ofList,
      Dict.lookup_singleton_eq]
  have hflag : ∀ property ∈ ["isComplete", "isArchived"],
      (CardsService.newCard now l₀.id key (createBody title)).columns.lookup property =
        some (.bool false) := by
    simp [CardsService.newCard, createBody, Dict.lookup_assign, Dict.ofList,
      Dict.lookup_singleton_eq]
  have hkey := CardsService.lookup_newCard_positionIdx now l₀.id key (createBody title)
  simp only [createdCard, toApiCard, readCard, htitle, hdescription, hkey,
    hflag "isComplete" (by decide), hflag "isArchived" (by decide),
    hentity "title" _ htitle (hvalues.title title),
    hentity "description" _ hdescription hvalues.description,
    hentity "positionIdx" _ hkey fun w hw => hpg.positionIdx _ _ _ hvalid hw,
    hentity "isComplete" _ (hflag "isComplete" (by decide))
      fun w => hvalues.flag "isComplete" false w (by decide),
    hentity "isArchived" _ (hflag "isArchived" (by decide))
      fun w => hvalues.flag "isArchived" false w (by decide)]

/-- The ids in the lists are those of cards. -/
theorem BoardState.WellFormed.not_mem_cardIds {s : BoardState} (h : s.WellFormed) {cardId : Id}
    (hcard : cardId ∉ s.cards) {l : BoardList} (hl : l ∈ s.lists) : cardId ∉ l.cardIds :=
  fun hmem => hcard (h.entries l hl cardId hmem)

/-- A creation that failed leaves the board as it was. -/
theorem settle_rejected_created (hwell : store.toBoardState.WellFormed)
    (htemp : tempId ∉ store.cards) (message : JsString) :
    (PendingCard.settle { listId := l₀.id, tempId := tempId }
        { store.showCard l₀.id (BoardStore.newCard tempId title) with moveError := none }
        (.rejected message)).lists = store.lists ∧
      ∀ id, (PendingCard.settle { listId := l₀.id, tempId := tempId }
        { store.showCard l₀.id (BoardStore.newCard tempId title) with moveError := none }
        (.rejected message)).cards.lookup id = store.cards.lookup id := by
  simp only [PendingCard.settle, BoardStore.showCard, BoardStore.newCard, List.map_map]
  constructor
  · refine (List.map_congr_left fun l hl => ?_).trans (List.map_id _)
    have hfilter : ((l.cardIds ++ [tempId]).filter fun id => id ≠ tempId) = l.cardIds := by
      rw [List.filter_append, filter_ne_of_not_mem (hwell.not_mem_cardIds htemp hl)]
      simp
    rw [Function.comp_apply]
    by_cases hid : l.id = l₀.id
    · rw [if_pos hid, if_pos hid, hfilter, id_eq]
    · rw [if_neg hid, if_neg hid, id_eq]
  · intro id
    by_cases hid : id = tempId
    · rw [hid, AList.lookup_erase, AList.lookup_eq_none.mpr htemp]
    · rw [AList.lookup_erase_ne hid, AList.lookup_insert_ne hid]

/-- A creation that went through leaves the card at the end of its list. -/
theorem settle_resolved_created (hwell : store.toBoardState.WellFormed)
    (htemp : tempId ∉ store.cards) (mapped : Card) :
    (PendingCard.settle { listId := l₀.id, tempId := tempId }
        { store.showCard l₀.id (BoardStore.newCard tempId title) with moveError := none }
        (.resolved mapped)).lists =
        (store.lists.map fun l =>
          if l.id = l₀.id then { l with cardIds := l.cardIds ++ [mapped.id] } else l) ∧
      ∀ id, (PendingCard.settle { listId := l₀.id, tempId := tempId }
        { store.showCard l₀.id (BoardStore.newCard tempId title) with moveError := none }
        (.resolved mapped)).cards.lookup id =
          if id = mapped.id then some mapped else store.cards.lookup id := by
  simp only [PendingCard.settle, BoardStore.showCard, BoardStore.newCard, List.map_map]
  constructor
  · refine List.map_congr_left fun l hl => ?_
    have hnot := hwell.not_mem_cardIds htemp hl
    have hkept : (l.cardIds.map fun id => if id = tempId then mapped.id else id) = l.cardIds := by
      refine (List.map_congr_left fun id hid => ?_).trans (List.map_id _)
      rw [if_neg (ne_of_mem_of_not_mem hid hnot), id_eq]
    by_cases hid : l.id = l₀.id
    · simp [hid, hkept]
    · simp [hid]
  · intro id
    rw [Dict.lookup_insert_eq]
    split
    · rfl
    · by_cases hid : id = tempId
      · rw [hid, AList.lookup_erase, AList.lookup_eq_none.mpr htemp]
      · rw [AList.lookup_erase_ne hid, AList.lookup_insert_ne hid]

/-- What the server makes of a creation. -/
theorem created_of_run {listId : JsString} {event : PendingBoardEvent}
    (hrun : (WebCall.createCard listId id now (createBody title)).run orgId db =
      .ok (db', event)) :
    ∃ key, ∃ row : Row pg .cards, resolvePositionKey db .cards listId none = .ok key ∧
      insertEntity .cards (CardsService.newCard now listId key (createBody title)) = .ok row ∧
        db.find .cards id = none ∧ db' = db.put id row ∧ event.type = .cardCreated ∧
          event.positionIdx = some key := by
  obtain ⟨_, hcreate, h⟩ := bind_eq_ok.mp hrun
  obtain ⟨_, -, hcreate, h⟩ := bind_eq_ok_both hcreate h
  obtain ⟨key, hkey, hcreate, h⟩ := bind_eq_ok_both hcreate h
  obtain ⟨rfl, rfl⟩ := Prod.mk.inj (Except.ok.inj h)
  obtain ⟨row, hrow, hcreate⟩ := bind_eq_ok.mp hcreate
  cases hfree : db.find .cards id with
  | some current =>
      rw [hfree] at hcreate
      cases hcreate
  | none =>
      rw [hfree] at hcreate
      exact ⟨key, row, hkey, hrow, rfl, (Except.ok.inj hcreate).symm, rfl, rfl⟩

/-- The server took a creation: the card is served at the end of the list, as the answer
carries it. -/
structure TakesCard (db db' : Database pg) (board : JsString) (l₀ : ApiList) (id : JsString)
    (mapped : Card) (created : ApiCard) : Prop where
  named : created.id = id
  mapped : mapped = mapApiCard created
  shown : created.isArchived = false
  fresh : ¬ (served db board).HasCard id
  last : (served db board).PlacedBetween l₀.id created ((served db board).listCards l₀.id) []
  loads : (served db' board).SameShown ((served db board).moveCard created l₀.id)
  canonical : CanonicalKeys db'
  sound : db'.Every (Row.SoundKey : Row pg .cards → Prop)

/-- The server's answer to a creation. -/
theorem takesCard_of_run (hpg : TypedColumns pg) (hvalues : KeepsText pg)
    (hcanon : CanonicalKeys db) (hsound : db.Every (Row.SoundKey : Row pg .cards → Prop))
    {event : PendingBoardEvent} (hl₀ : l₀ ∈ (served db board).shownLists)
    (hid : pg.uuid id = some id ∧ id ≠ [])
    (hrun : (WebCall.createCard l₀.id id now (createBody title)).run orgId db =
      .ok (db', event)) :
    ∃ created, TakesCard db db' board l₀ id
        (createdCard now l₀.id id (event.positionIdx.getD []) title) created ∧
      event.type = .cardCreated := by
  obtain ⟨key, row, happend, hrow, hfree, rfl, htype, hpositionIdx⟩ := created_of_run hrun
  have hvalid := CardsService.isValid_of_resolvePosition
    (show CardsService.resolvePosition db l₀.id none = .ok key from happend)
  obtain ⟨hstored, hfits⟩ := insertEntity_eq_ok hrow
  have hkey : row.columns.lookup "positionIdx" = some (.str key) := by
    obtain ⟨w, hstore, hw⟩ := hstored "positionIdx" _
      (CardsService.lookup_newCard_positionIdx now l₀.id key (createBody title))
    rw [hw, hpg.positionIdx _ _ _ hvalid hstore]
  have hlist : row.text "listId" = some l₀.id := by
    obtain ⟨w, hstore, hw⟩ := hstored "listId" _
      (CardsService.lookup_newCard_listId now l₀.id key (createBody title))
    obtain ⟨k, hk, rfl⟩ := pg.store_parent .cards _ _ hstore
    rw [(canonical_of_hasList hcanon ⟨l₀, hl₀, rfl⟩).1] at hk
    rw [Row.text, hw, Option.some.inj hk]
  have hshown : (toApiCard (id, row)).isArchived = false := by
    obtain ⟨w, hstore, hw⟩ := hstored "isArchived" (.bool false) (by
      simp [CardsService.newCard, createBody, Dict.lookup_assign, Dict.ofList,
        Dict.lookup_singleton_eq])
    obtain rfl := hvalues.flag "isArchived" false w (by decide) hstore
    simp [toApiCard, readCard, hw, isTrue]
  have hvisible : isSyncDeleted row = false := by
    rw [isSyncDeleted, insertEntity_syncDeletedAt hrow]
    rfl
  have hpositionIdx' : (toApiCard (id, row)).positionIdx = key := by
    simp only [toApiCard, readCard, hkey, asString, Option.getD_some]
  have hnew : ∀ l, ∀ c ∈ (served db board).shownCards l, c.id ≠ id := by
    rintro l c hc rfl
    obtain ⟨other, hother, -⟩ := mem_shownCards_served.mp hc
    rw [hfree] at hother
    cases hother
  refine ⟨toApiCard (id, row), ?_, htype⟩
  constructor
  case named => rfl
  case mapped =>
    rw [hpositionIdx, Option.getD_some]
    exact createdCard_eq hvalues hpg hvalid hrow
  case shown => exact hshown
  case fresh =>
    rintro ⟨l, -, c, hc, hcid⟩
    exact hnew l.id c hc hcid
  case last =>
    refine ⟨?_, fun c hc => ?_, fun c hc => absurd hc List.not_mem_nil⟩
    · rw [List.append_nil, List.filter_eq_self]
      intro c hc
      exact decide_eq_true (hnew l₀.id c (ServedBoard.mem_listCards.mp hc))
    · rw [hpositionIdx']
      exact lt_of_append_shown hcanon hsound hl₀ happend (ServedBoard.mem_listCards.mp hc)
  case loads => exact served_put hvisible hlist hshown
  case canonical => exact hcanon.put hid
  case sound => exact hsound.put ⟨⟨_, hkey, hvalid⟩, hfits⟩

/-- The board after a creation, as the client shows it. -/
theorem TakesCard.agrees {mapped : Card} {created : ApiCard} {s : BoardState}
    (h : TakesCard db db' board l₀ id mapped created) (hkeys : (served db board).DistinctKeys)
    (hl₀ : l₀ ∈ (served db board).shownLists)
    (hagrees : store.toBoardState.Agrees (served db board).snapshot)
    (hlists : s.lists = store.lists.map fun l =>
      if l.id = l₀.id then { l with cardIds := l.cardIds ++ [mapped.id] } else l)
    (hcards : ∀ j, s.cards.lookup j = if j = mapped.id then some mapped else store.cards.lookup j) :
    s.Agrees (served db' board).snapshot := by
  have hids := distinctIds_served db board
  have hmappedId : mapped.id = created.id := by rw [h.mapped]; rfl
  have hout : withoutCard (served db board).snapshot.lists created.id =
      (served db board).snapshot.lists := by
    refine (List.map_congr_left fun l hl => ?_).trans (List.map_id _)
    have hnot : created.id ∉ l.cardIds := by
      refine (wellFormed_snapshot hids).not_mem_cardIds (fun hmem => h.fresh ?_) hl
      exact h.named ▸ (HasCard_iff_lookup hids).mpr hmem
    rw [filter_ne_of_not_mem hnot, id_eq]
  rw [ServedBoard.snapshot_congr h.loads (hkeys.moveCard h.shown h.last.keyFree)]
  refine ⟨?_, fun j => ?_⟩
  · rw [hlists, ServedBoard.snapshot_moveCard_putAt hkeys hids hl₀ h.shown h.last, hagrees.lists,
      hout, putAt, hmappedId]
    refine List.map_congr_left fun l hl => ?_
    split
    · rename_i heq
      obtain ⟨l₁, -, rfl⟩ := List.mem_map.mp hl
      have hlength : (l₁.withCards (((served db board).listCards l₁.id).map
          ApiCard.id)).cardIds.length = ((served db board).listCards l₀.id).length := by
        have heq : l₁.id = l₀.id := heq
        show (((served db board).listCards l₁.id).map ApiCard.id).length = _
        rw [List.length_map, heq]
      rw [← hlength, List.take_length, List.drop_length]
    · rfl
  · rw [hcards, ServedBoard.snapshot_moveCard_lookup hids hl₀ h.shown, hmappedId, h.mapped]
    split
    · rfl
    · exact hagrees.cards j

end Created

/-! ## Every action -/

namespace Session

variable {s : Session pg} {delivery : Delivery} {message : JsString}

/-- A refused request leaves the client in step. -/
theorem InStep.of_same (h : s.InStep board) {store : BoardStore}
    (hlists : store.lists = s.store.lists)
    (hcards : ∀ id, store.cards.lookup id = s.store.cards.lookup id) :
    InStep board { s with store := store } where
  agrees := h.agrees.of_same hlists hcards
  keys := h.keys
  canonical := h.canonical
  sound := h.sound

/-- A move that the server took. -/
theorem InStep.answered (hpg : TypedColumns pg) (h : s.InStep board) {shown : BoardStore}
    {pending : PendingMove} {cardId fromListId toListId : Id} {toIndex : Int}
    (hmove : s.store.moveCard cardId fromListId toListId toIndex = some (shown, pending))
    (hto : (findList s.store.lists toListId).isSome = true) {event : PendingBoardEvent}
    (hrun : (WebCall.updateCard pending.cardId (moveBody shown pending)).run orgId s.db =
      .ok (db', event)) :
    ∃ l₀ old moved before after,
      Answered s.db db' board event s.store shown pending l₀ old moved before after := by
  have hids := distinctIds_served s.db board
  obtain ⟨source, hsource, hmem, -, hpending⟩ := BoardStore.moveCard_some hmove
  have hcardId : pending.cardId = cardId := by rw [hpending]
  have htoListId : pending.toListId = toListId := by rw [hpending]
  have hknown : (served s.db board).HasCard pending.cardId := by
    rw [HasCard_iff_lookup hids, hcardId, ← AList.lookup_isSome, ← h.agrees.lookup_isSome,
      AList.lookup_isSome]
    exact h.wellFormed.entries source (findList_some hsource).1 cardId hmem
  obtain ⟨l₀, before, after, hl₀, hshows⟩ := exists_showsBetween hids h.agrees hmove hto
  rw [← hcardId] at hshows
  obtain ⟨old, moved, hold, holdId, htakes⟩ := takesMove_of_run hpg h.canonical h.keys h.sound
    hshows (htoListId.trans hl₀.symm) hknown hrun
  have hthere : toListId ∈ s.store.lists.map BoardList.id := findList_isSome_iff.mp hto
  obtain ⟨hwaits, -, card, hcard, hcards⟩ := BoardStore.moveCard_into h.wellFormed hmove hthere
  refine ⟨l₀, old, moved, before, after, h.agrees, h.keys, h.canonical, htoListId ▸ hwaits,
    ⟨card, hcardId ▸ hcard, ?_, ?_⟩, htoListId.trans hl₀.symm, htakes.id.trans holdId, hshows,
    htakes, hknown⟩
  · have hseen := h.agrees.cards pending.cardId
    rw [hold, hcardId, hcard] at hseen
    exact Option.some.inj hseen
  · rw [hcardId]
    exact hcards

/-- A move keeps the client in step, whatever the server makes of it. -/
theorem InStep.move (hpg : TypedColumns pg) (h : s.InStep board) {shown : BoardStore}
    {pending : PendingMove} {cardId fromListId toListId : Id} {toIndex : Int}
    (hmove : s.store.moveCard cardId fromListId toListId toIndex = some (shown, pending))
    (hto : (findList s.store.lists toListId).isSome = true) :
    (s.move orgId shown pending delivery message).InStep board := by
  unfold Session.move
  split
  · have hsame := WebBoard.settle_moveCard (w := ⟨s.store, [], []⟩) h.wellFormed hmove message
    exact h.of_same hsame.1 hsame.2
  · rename_i db' event hrun
    obtain ⟨l₀, old, moved, before, after, hanswered⟩ := h.answered hpg hmove hto hrun
    have htakes := hanswered.takes
    refine ⟨hanswered.delivered delivery ?_, ?_, htakes.canonical, htakes.sound⟩
    · exact congrArg BoardMutationPayload.positionIdx htakes.payload
    · exact (h.keys.moveCard htakes.shown htakes.between.keyFree).congr htakes.loads

/-- A creation keeps the client in step, whatever the server makes of it. -/
theorem InStep.add (hpg : TypedColumns pg) (hvalues : KeepsText pg) (h : s.InStep board)
    {listId tempId id title : JsString} {now : Int} (hlist : s.store.hasList listId = true)
    (htemp : tempId ∉ s.store.cards) (hid : pg.uuid id = some id ∧ id ≠ []) :
    (s.add orgId
      { s.store.showCard listId (BoardStore.newCard tempId title) with moveError := none }
      { listId := listId, tempId := tempId } title id now delivery message).InStep board := by
  have hthere : (findList s.store.lists listId).isSome = true := by
    simpa [findList, BoardStore.hasList] using hlist
  rw [h.agrees.lists, ServedBoard.findList_snapshot_isSome] at hthere
  obtain ⟨l₀, hl₀, rfl⟩ := hthere
  unfold Session.add
  split
  · have hsame := @settle_rejected_created s.store l₀ tempId title h.wellFormed htemp message
    exact h.of_same hsame.1 hsame.2
  · rename_i db' event hrun
    obtain ⟨created, htakes, htype⟩ :=
      takesCard_of_run hpg hvalues h.canonical h.sound hl₀ hid hrun
    obtain ⟨hlists, hcards⟩ := @settle_resolved_created s.store l₀ tempId title h.wellFormed
      htemp (createdCard now l₀.id id (event.positionIdx.getD []) title)
    have hsettled := htakes.agrees h.keys hl₀ h.agrees hlists hcards
    refine ⟨?_, ?_, htakes.canonical, htakes.sound⟩
    · show (delivery.deliver _ event _).toBoardState.Agrees _
      cases delivery with
      | responseOnly => exact hsettled
      | responseFirst =>
          rw [Delivery.deliver, (applyRemoteMutation_content _ (Or.inr htype)).1]
          exact hsettled
      | frameFirst =>
          have hstate := (applyRemoteMutation_content
            { s.store.showCard l₀.id (BoardStore.newCard tempId title) with moveError := none }
            (Or.inr htype)).1
          simp only [Delivery.deliver, PendingCard.settle, hstate] at hsettled ⊢
          exact hsettled
    · exact (h.keys.moveCard htakes.shown htakes.last.keyFree).congr htakes.loads

/-- Every action keeps the client in step. -/
theorem InStep.act (hpg : TypedColumns pg) (hvalues : KeepsText pg) (h : s.InStep board)
    {action : OwnAction} (hallowed : s.Allowed action) :
    (s.act orgId board action).InStep board := by
  cases action with
  | move cardId fromListId toListId toIndex delivery message =>
      simp only [Session.act]
      cases hmove : s.store.moveCard cardId fromListId toListId toIndex with
      | none => exact h
      | some moved => exact h.move hpg hmove hallowed
  | add listId title tempId id now delivery message =>
      obtain ⟨htemp, hid⟩ := hallowed
      simp only [Session.act]
      split
      · exact h
      · rename_i hcan
        obtain ⟨-, hlist⟩ := not_or.mp hcan
        have hlist : s.store.hasList listId = true := by simpa using hlist
        exact h.add hpg hvalues hlist htemp hid
  | reload =>
      exact { h with agrees := .refl _ }

/-- **A client alone with its server never needs a reload.** It starts in step, and sends one
request at a time: whatever it moves and adds, whichever requests are refused, and whether
the frame of a change comes before or after the answer or is lost, it shows after every
answer the lists, the order and the keys it would load. -/
theorem own_actions_in_step (hpg : TypedColumns pg) (hvalues : KeepsText pg)
    {start s : Session pg} {trace : List (Session pg × OwnAction)}
    (run : Steps (Session.step orgId board) start trace s) (hstart : start.InStep board)
    (hallowed : ∀ e ∈ trace, e.1.Allowed e.2) :
    (∀ e ∈ trace, e.1.store.toBoardState.Agrees (served e.1.db board).snapshot) ∧
      s.store.toBoardState.Agrees (served s.db board).snapshot := by
  have hsteps := @Steps.everywhere _ _ _ _ _ _ (InStep board) Allowed run hallowed hstart
    fun s action s' hok h hstep => by
      obtain rfl := Option.some.inj hstep
      exact h.act hpg hvalues hok
  exact ⟨fun e he => (hsteps.1 e he).agrees, hsteps.2.agrees⟩

end Session

namespace OwnSample

open Server.Sample

theorem plain_keepsText : KeepsText Postgres.plain := by
  have hkept : ∀ property v w, Postgres.plain.store .cards property v = some w → w = v := by
    intro property v w h
    have hstore : (if hasColumnType property v then some v else none) = some w := h
    split at hstore
    · exact (Option.some.inj hstore).symm
    · cases hstore
  constructor
  · intro s w h
    exact hkept _ _ _ h
  · intro w h
    exact hkept _ _ _ h
  · intro property b w _ h
    exact hkept _ _ _ h

/-- A client that has loaded a board with one card. -/
def opened : Session Postgres.plain where
  db := Renamed.start
  store := .hydrateBoard (served Renamed.start boardId).snapshot

theorem opened_inStep : opened.InStep boardId where
  agrees := .refl _
  keys := Renamed.distinctKeys
  canonical := Renamed.canonicalKeys
  sound k row h := by
    obtain ⟨-, rfl⟩ := of_find_oneCard h
    exact ⟨⟨.str (js "M"), rfl, by decide⟩, ⟨rfl, rfl⟩⟩

/-- The row of a second card. -/
def secondId : JsString := js "00000000-0000-4000-8000-00000000000d"

/-- The client adds a second card. -/
def add : OwnAction := .add listId (js "Test") (js "temp") secondId 5 .frameFirst (js "Failed")

/-- It drops the second card above the first. -/
def move : OwnAction := .move secondId listId listId 0 .responseFirst (js "Failed")

end OwnSample

/-- A second card, moved above the first. -/
theorem own_actions_in_step_second : ∃ s : Session Postgres.plain,
    s.store.cardIdsOf Server.Sample.listId = [OwnSample.secondId, Server.Sample.cardId] ∧
      s.store.toBoardState.Agrees (served s.db Server.Sample.boardId).snapshot := by
  let added := OwnSample.opened.act Server.Sample.orgId Server.Sample.boardId OwnSample.add
  have run : Steps (Session.step Server.Sample.orgId Server.Sample.boardId) OwnSample.opened
      [(OwnSample.opened, OwnSample.add), (added, OwnSample.move)]
      (added.act Server.Sample.orgId Server.Sample.boardId OwnSample.move) :=
    (Steps.none.next rfl).next rfl
  refine ⟨added.act Server.Sample.orgId Server.Sample.boardId OwnSample.move, by decide, ?_⟩
  refine (Session.own_actions_in_step plain_typedColumns OwnSample.plain_keepsText run
    OwnSample.opened_inStep ?_).2
  intro e he
  rcases List.mem_pair.mp he with rfl | rfl
  · exact ⟨by decide, rfl, by decide⟩
  · show (findList _ _).isSome = true
    decide

end FlowLogix.Web

/-
  Web/Reload.lean --- live frames and reloads of a board
  (frontend/src/store/remoteMutations.ts, api/mapBoard.ts, with the services of
  backend/src/cards and backend/src/lists).

  A client that shows a board receives the frame of a call and compares with the board
  it would load.  A `card.moved` frame brings the list and the key of the card and
  nothing else, a `card.deleted` and a `list.deleted` frame bring the id as the request
  wrote it.  `frameAgrees_iff` is when that is enough.
-/
import FlowLogix.Server.RequestedPlace
import FlowLogix.Web.ServedRows

set_option autoImplicit false

namespace FlowLogix.Web

open FlowLogix.Foundation FlowLogix.Ordering FlowLogix.Server

variable {pg : Postgres} {db db' : Database pg} {board orgId : JsString}

/-! ## What a frame has to carry -/

/-- Every primary key is a uuid in canonical form. -/
def CanonicalKeys (db : Database pg) : Prop :=
  ∀ c k (row : Row pg c), db.find c k = some row → pg.uuid k = some k ∧ k ≠ []

/-- A client that shows `before` and applies the frame of `event` asks for a resync or shows
`after`, whatever the order the endpoints answer in. -/
def FrameAgrees (before after : ServedBoard) (event : PendingBoardEvent) : Prop :=
  ∀ (client : BoardState) (apiLists apiLists' : List ApiList)
    (cardsByList cardsByList' : Dict Id (List ApiCard)) (frame : BoardMutationEnvelope),
    Serves before apiLists cardsByList →
      client.Agrees (composeBoardSnapshot apiLists cardsByList) →
        Serves after apiLists' cardsByList' → frame.type = event.type →
          frame.payload = event.payload →
            (reconcileRemoteMutation client frame).UpToDate client
              (composeBoardSnapshot apiLists' cardsByList')

/-- The card is shown on the board. -/
def ServedBoard.HasCard (b : ServedBoard) (cardId : Id) : Prop :=
  ∃ l ∈ b.shownLists, ∃ c ∈ b.shownCards l.id, c.id = cardId

/-- The list is shown on the board. -/
def ServedBoard.HasList (b : ServedBoard) (listId : Id) : Prop :=
  ∃ l ∈ b.shownLists, l.id = listId

/-- A column of a card with the content of a request stored over it. -/
def storedContent (dto : UpdateCardDto) (row : Row pg .cards) (property : String) : Option Json :=
  match dto.content.lookup property with
  | some v => pg.store .cards property v
  | none => row.columns.lookup property

/-- The content of a request leaves a card looking the same. -/
structure KeepsContent (dto : UpdateCardDto) (row : Row pg .cards) (k : JsString) : Prop where
  title : (readCard k (storedContent dto row)).title = (toApiCard (k, row)).title
  description : (readCard k (storedContent dto row)).description =
    (toApiCard (k, row)).description
  isComplete : (readCard k (storedContent dto row)).isComplete = (toApiCard (k, row)).isComplete
  isArchived : (readCard k (storedContent dto row)).isArchived = false

/-- The frame of the call carries what the call changes on the board.  A placed card that
is shown, and goes to a list that is shown, keeps its content and takes a free key; a
record that is shown is removed by its canonical id. -/
def CarriesChange (orgId : JsString) (db : Database pg) (board : JsString) : WebCall → Prop
  | .updateCard id dto => ∀ loaded row, CardsService.load db id orgId = .ok loaded →
      db.find .cards loaded.key = some row → CardsService.places dto loaded = true →
        (served db board).HasCard loaded.key →
          (served db board).HasList (CardsService.targetListId dto loaded) →
            KeepsContent dto row loaded.key ∧
              ∀ key, CardsService.requestedKey db dto = some key →
                (served db board).KeyFree (CardsService.targetListId dto loaded) loaded.key key
  | .removeCard id => ∀ k, pg.uuid id = some k → (served db board).HasCard k → id = k
  | .removeList id => ∀ k, pg.uuid id = some k → (served db board).HasList k → id = k
  | .createCard .. | .createList .. | .updateList .. => True

/-! ## Frames of content -/

theorem FrameAgrees.of_resync {before after : ServedBoard} {event : PendingBoardEvent}
    (h : ∀ (client : BoardState) (frame : BoardMutationEnvelope), frame.type = event.type →
      frame.payload = event.payload → reconcileRemoteMutation client frame = .needsResync) :
    FrameAgrees before after event := by
  intro client _ _ _ _ frame _ _ _ htype hpayload
  rw [h client frame htype hpayload]
  trivial

/-- A client of a board whose keys are distinct shows its snapshot. -/
theorem FrameAgrees.of_snapshot {before after : ServedBoard} {event : PendingBoardEvent}
    (hkeys : before.DistinctKeys)
    (h : ∀ (client : BoardState) (frame : BoardMutationEnvelope) (answer : ServedBoard),
      client.Agrees before.snapshot → answer.SameShown after → frame.type = event.type →
        frame.payload = event.payload →
          (reconcileRemoteMutation client frame).UpToDate client answer.snapshot) :
    FrameAgrees before after event := by
  intro client _ _ _ _ frame hserves hagrees hserves' htype hpayload
  rw [composeBoardSnapshot_eq hserves hkeys] at hagrees
  exact h client frame _ hagrees (ServedBoard.sameShown_of_serves hserves') htype hpayload

/-- The frame of an event. -/
def frameOf (event : PendingBoardEvent) : BoardMutationEnvelope where
  seq := 1
  boardId := event.boardId
  type := event.type
  payload := event.payload
  ts := 0

/-- The frame against one answer, in table order or against it. -/
theorem FrameAgrees.upToDate {before after answer : ServedBoard} {event : PendingBoardEvent}
    (h : FrameAgrees before after event) (hlists : answer.lists = after.lists)
    (hcards : ∀ listId, (answer.cards listId).Perm (after.cards listId)) :
    (reconcileRemoteMutation before.snapshot (frameOf event)).UpToDate before.snapshot
      answer.snapshot := by
  have hbefore : Serves before before.lists before.payload :=
    ServedBoard.serves_payload rfl fun _ => List.Perm.refl _
  have hafter := ServedBoard.serves_payload (b := after) hlists hcards
  have hframe := h before.snapshot before.lists answer.lists before.payload answer.payload
    (frameOf event) hbefore (by rw [ServedBoard.composeBoardSnapshot_payload]; exact .refl _) hafter
    rfl rfl
  rwa [ServedBoard.composeBoardSnapshot_payload] at hframe

/-! ## Removals -/

theorem HasCard_iff_lookup {b : ServedBoard} (hids : b.DistinctIds) {cardId : Id} :
    b.HasCard cardId ↔ cardId ∈ b.snapshot.cards := by
  rw [← AList.lookup_isSome, Option.isSome_iff_exists]
  constructor
  · rintro ⟨l, hl, c, hc, rfl⟩
    exact ⟨_, ServedBoard.lookup_snapshot_of_mem hids hl hc⟩
  · rintro ⟨card, hcard⟩
    obtain ⟨l, hl, c, hc, hid, -⟩ := (ServedBoard.lookup_snapshot hids).mp hcard
    exact ⟨l, hl, c, hc, hid⟩

/-- A shown card has a canonical id. -/
theorem canonical_of_hasCard (hcanon : CanonicalKeys db) {cardId : Id}
    (h : (served db board).HasCard cardId) : pg.uuid cardId = some cardId ∧ cardId ≠ [] := by
  obtain ⟨l, -, c, hc, rfl⟩ := h
  obtain ⟨row, hfind, -⟩ := mem_shownCards_served.mp hc
  exact hcanon .cards c.id row hfind

theorem canonical_of_hasList (hcanon : CanonicalKeys db) {listId : Id}
    (h : (served db board).HasList listId) : pg.uuid listId = some listId ∧ listId ≠ [] := by
  obtain ⟨l, hl, rfl⟩ := h
  obtain ⟨row, hfind, -⟩ := mem_shownLists_served.mp hl
  exact hcanon .lists l.id row hfind

section Removals

variable (hcanon : CanonicalKeys db) (hkeys : (served db board).DistinctKeys)

include hcanon hkeys

/-- A `card.deleted` frame names the card the client shows, unless the id of the request is
not in canonical form. -/
theorem frameAgrees_removeCard_iff {id k : JsString} (hid : pg.uuid id = some k)
    {row : Row pg .cards} :
    FrameAgrees (served db board) (served (db.remove .cards k) board)
        (CardsService.eventForRemove db id row) ↔
      ((served db board).HasCard k → id = k) := by
  have hids := distinctIds_served db board
  -- a client that knows the id as the request wrote it knows the card
  have hcanonical : (served db board).HasCard id → id = k := fun h =>
    Option.some.inj ((canonical_of_hasCard hcanon h).1.symm.trans hid)
  have hafter : ∀ {answer : ServedBoard},
      answer.SameShown (served (db.remove .cards k) board) →
        answer.snapshot = ((served db board).dropCard k).snapshot := fun hanswer =>
    ServedBoard.snapshot_congr (hanswer.trans (served_remove db board k)) (hkeys.dropCard k)
  constructor
  · intro h hshown
    by_contra hraw
    have hnot : id ∉ (served db board).snapshot.cards := fun hmem =>
      hraw (hcanonical ((HasCard_iff_lookup hids).mpr hmem))
    have hnone : reconcileRemoteMutation (served db board).snapshot
        (frameOf (CardsService.eventForRemove db id row)) = .none :=
      reconcileDeleted_eq_none rfl hnot
    have hframe := h.upToDate rfl fun _ => List.Perm.refl _
    rw [hnone, hafter (.refl _)] at hframe
    have hsome := hframe.lookup_isSome k
    rw [ServedBoard.snapshot_dropCard_lookup hids, if_pos rfl,
      AList.lookup_isSome.mpr ((HasCard_iff_lookup hids).mp hshown)] at hsome
    cases hsome
  · intro h
    refine .of_snapshot hkeys fun client frame answer hagrees hanswer htype hpayload => ?_
    have hreconcile : reconcileRemoteMutation client frame =
        reconcileDeleted client frame.payload := by
      simp only [reconcileRemoteMutation, htype, CardsService.eventForRemove]
    have hcardId : frame.payload.cardId = some id := congrArg BoardMutationPayload.cardId hpayload
    rw [hreconcile, hafter hanswer]
    by_cases hshown : (served db board).HasCard k
    · obtain rfl := h hshown
      exact dropCard_upToDate hagrees hkeys hids hcardId (canonical_of_hasCard hcanon hshown).2
    · have hnot : id ∉ client.cards := by
        intro hmem
        have hsome := hagrees.lookup_isSome id
        rw [AList.lookup_isSome.mpr hmem] at hsome
        have hcard := (HasCard_iff_lookup hids).mpr (AList.lookup_isSome.mp hsome.symm)
        exact hshown (hcanonical hcard ▸ hcard)
      rw [reconcileDeleted_eq_none hcardId hnot, ServedBoard.snapshot_dropCard_of_not_shown hkeys
        fun l hl c hc heq => hshown ⟨l, hl, c, hc, heq⟩]
      exact hagrees

/-- A `list.deleted` frame likewise. -/
theorem frameAgrees_removeList_iff {id k : JsString} (hid : pg.uuid id = some k)
    {row : Row pg .lists} :
    FrameAgrees (served db board) (served ((db.remove .lists k).removeCardsOf k) board)
        (ListsService.eventForRemove id row) ↔
      ((served db board).HasList k → id = k) := by
  have hids := distinctIds_served db board
  have hcanonical : (served db board).HasList id → id = k := fun h =>
    Option.some.inj ((canonical_of_hasList hcanon h).1.symm.trans hid)
  have hafter : ∀ {answer : ServedBoard},
      answer.SameShown (served ((db.remove .lists k).removeCardsOf k) board) →
        answer.snapshot = ((served db board).dropList k).snapshot := fun hanswer =>
    ServedBoard.snapshot_congr (hanswer.trans (served_removeList db board k)) (hkeys.dropList k)
  have hunknown : ¬ (served db board).HasList id → ∀ {client : BoardState},
      client.Agrees (served db board).snapshot → findList client.lists id = none := by
    intro hnot client hagrees
    rw [hagrees.lists, ← Option.not_isSome_iff_eq_none, ServedBoard.findList_snapshot_isSome]
    exact hnot
  constructor
  · intro h hshown
    by_contra hraw
    have hnone : reconcileRemoteMutation (served db board).snapshot
        (frameOf (ListsService.eventForRemove id row)) = .none :=
      reconcileListDeleted_eq_none rfl (hunknown (fun hlist => hraw (hcanonical hlist)) (.refl _))
    have hframe := h.upToDate rfl fun _ => List.Perm.refl _
    rw [hnone, hafter (.refl _)] at hframe
    have hsome := ServedBoard.findList_snapshot_isSome.mpr hshown
    rw [hframe.lists, ServedBoard.findList_snapshot_isSome] at hsome
    obtain ⟨l, hl, heq⟩ := hsome
    rw [ServedBoard.shownLists_dropList, List.mem_filter] at hl
    simp [heq] at hl
  · intro h
    refine .of_snapshot hkeys fun client frame answer hagrees hanswer htype hpayload => ?_
    have hreconcile :
        reconcileRemoteMutation client frame = reconcileListDeleted client frame.payload := by
      simp only [reconcileRemoteMutation, htype, ListsService.eventForRemove]
    have hlistId : frame.payload.listId = some id := congrArg BoardMutationPayload.listId hpayload
    rw [hreconcile, hafter hanswer]
    by_cases hshown : (served db board).HasList k
    · obtain rfl := h hshown
      exact dropList_upToDate hagrees hkeys hids hlistId (canonical_of_hasList hcanon hshown).2
    · have hnot : ¬ (served db board).HasList id := fun hlist => hshown (hcanonical hlist ▸ hlist)
      rw [reconcileListDeleted_eq_none hlistId (hunknown hnot hagrees),
        ServedBoard.snapshot_dropList_of_not_shown hkeys fun l hl heq => hshown ⟨l, hl, heq⟩]
      exact hagrees

end Removals

/-! ## Updates of a card -/

section Updates

variable {dto : UpdateCardDto} {loaded : CardsService.LoadedCard} {row row' : Row pg .cards}
  {key : JsString}

/-- What the columns hold after a save. -/
theorem lookup_of_saveEffect {next : Option JsString}
    (heffect : SaveEffect row row' (CardsService.assigned dto next)) {property : String}
    (hlist : property ≠ "listId") (hposition : property ≠ "positionIdx") :
    row'.columns.lookup property = storedContent dto row property := by
  have hassigned := CardsService.lookup_assigned_content dto next hlist hposition
  unfold storedContent
  cases hcontent : dto.content.lookup property with
  | none => exact heffect.kept _ (AList.lookup_eq_none.mp (hassigned.trans hcontent))
  | some v =>
      obtain ⟨w, hstore, hw⟩ := heffect.assigned _ _ (hassigned.trans hcontent)
      rw [hw, ← hstore]

/-- The key that is saved is the key that was found. -/
theorem text_positionIdx_of_saveEffect (hpg : TypedColumns pg)
    (heffect : SaveEffect row row' (CardsService.assigned dto (some key)))
    (hvalid : PositionService.isValid key = true) : row'.text "positionIdx" = some key := by
  obtain ⟨w, hstore, hw⟩ := heffect.assigned "positionIdx" (.str key)
    (CardsService.lookup_assigned_positionIdx dto (some key))
  obtain rfl := hpg.positionIdx _ _ _ hvalid hstore
  rw [Row.text, hw]

/-- A card goes to the list the request names, if that is a canonical id. -/
theorem text_listId_of_saveEffect {next : Option JsString}
    (heffect : SaveEffect row row' (CardsService.assigned dto next))
    (hlistId : loaded.listId = (row.text "listId").getD []) {l : JsString}
    (hl : row.text "listId" = some l)
    (hcanon : pg.uuid (CardsService.targetListId dto loaded) =
      some (CardsService.targetListId dto loaded)) :
    row'.text "listId" = some (CardsService.targetListId dto loaded) := by
  have hassigned := CardsService.lookup_assigned_listId dto next
  unfold CardsService.targetListId at hcanon ⊢
  cases hdto : dto.listId with
  | some listId =>
      rw [hdto, Option.map_some] at hassigned
      rw [hdto, Option.getD_some] at hcanon
      obtain ⟨w, hstore, hw⟩ := heffect.assigned _ _ hassigned
      obtain ⟨k, hk, rfl⟩ := pg.store_parent .cards _ _ hstore
      obtain rfl : listId = k := Option.some.inj (hcanon.symm.trans hk)
      rw [Row.text, hw, Option.getD_some]
  | none =>
      rw [hdto, Option.map_none] at hassigned
      rw [Row.text_congr (heffect.kept _ (AList.lookup_eq_none.mp hassigned)), hl,
        Option.getD_none, hlistId, hl, Option.getD_some]

/-- The key of a card that is not the one placed, if the place is the end of the list. -/
theorem keyFree_of_append {target k : JsString} (htarget : pg.uuid target = some target)
    (hvalid : PositionService.isValid key = true)
    (h : resolvePositionKey db .cards target none = .ok key) :
    (served db board).KeyFree target k key := by
  rintro c hc - rfl
  obtain ⟨row, hfind, hlist, -, hrow, -⟩ := mem_shownCards_served.mp hc
  have hkey : c.positionIdx = (row.text "positionIdx").getD [] := by
    rw [← asString_lookup, ← hrow]
    rfl
  cases htext : row.text "positionIdx" with
  | none =>
      rw [htext, Option.getD_none] at hkey
      rw [hkey] at hvalid
      exact absurd hvalid (by decide)
  | some own =>
      rw [htext, Option.getD_some] at hkey
      have hlt := lt_of_append htarget h (Database.mem_siblingKeys hfind hlist htext)
      rw [hkey] at hlt
      exact lt_irrefl own hlt

/-- A placed card: what is served after the save, and what the client shows before. -/
structure Placed (db : Database pg) (board : JsString) (dto : UpdateCardDto)
    (loaded : CardsService.LoadedCard) (row row' : Row pg .cards) (key : JsString) : Prop where
  find : db.find .cards loaded.key = some row
  visible : isSyncDeleted row = false
  shown : (toApiCard (loaded.key, row)).isArchived = false
  source : ∃ l ∈ (served db board).shownLists, row.text "listId" = some l.id
  visible' : isSyncDeleted row' = false
  listId : row'.text "listId" = some (CardsService.targetListId dto loaded)
  positionIdx : row'.text "positionIdx" = some key
  content : ∀ property, property ≠ "listId" → property ≠ "positionIdx" →
    row'.columns.lookup property = storedContent dto row property
  free_iff : (∀ key', CardsService.requestedKey db dto = some key' →
      (served db board).KeyFree (CardsService.targetListId dto loaded) loaded.key key') ↔
    (served db board).KeyFree (CardsService.targetListId dto loaded) loaded.key key

theorem placed_of_update {id : JsString} (hpg : TypedColumns pg) (hcanon : CanonicalKeys db)
    (hplace : CardsService.place db id dto loaded = .ok (some key))
    (hfind : db.find .cards loaded.key = some row)
    (hlistId : loaded.listId = (row.text "listId").getD [])
    (heffect : SaveEffect row row' (CardsService.assigned dto (some key)))
    (hcard : (served db board).HasCard loaded.key)
    (hlist : (served db board).HasList (CardsService.targetListId dto loaded)) :
    Placed db board dto loaded row row' key := by
  obtain ⟨l, hl, c, hc, hid⟩ := hcard
  obtain ⟨other, hother, htext, hvisible, hrow, hshown⟩ := mem_shownCards_served.mp hc
  rw [hid] at hother hrow
  obtain rfl : row = other := Option.some.inj (hfind.symm.trans hother)
  have htarget := (canonical_of_hasList hcanon hlist).1
  have hvalid := CardsService.isValid_of_place hplace
  have hdeleted : isSyncDeleted row' = isSyncDeleted row := by
    rw [isSyncDeleted, isSyncDeleted, heffect.clocks, heffect.tombstone]
  refine ⟨hfind, hvisible, hrow ▸ hshown, ⟨l, hl, htext⟩, hdeleted.trans hvisible,
    text_listId_of_saveEffect heffect hlistId htext htarget,
    text_positionIdx_of_saveEffect hpg heffect hvalid,
    fun property => lookup_of_saveEffect heffect, ?_⟩
  rcases CardsService.place_eq_some hplace with hrequested | ⟨hnone, happend⟩
  · rw [hrequested]
    simp
  · rw [hnone]
    exact iff_of_true nofun (keyFree_of_append htarget hvalid happend)

/-- The content is kept when the card that is saved looks like the one that was there. -/
theorem Placed.keepsContent_iff (h : Placed db board dto loaded row row' key) :
    KeepsContent dto row loaded.key ↔
      ((toApiCard (loaded.key, row')).title = (toApiCard (loaded.key, row)).title ∧
        (toApiCard (loaded.key, row')).description = (toApiCard (loaded.key, row)).description ∧
          (toApiCard (loaded.key, row')).isComplete = (toApiCard (loaded.key, row)).isComplete) ∧
        (toApiCard (loaded.key, row')).isArchived = false := by
  have htitle := h.content "title" (by decide) (by decide)
  have hdescription := h.content "description" (by decide) (by decide)
  have hcomplete := h.content "isComplete" (by decide) (by decide)
  have harchived := h.content "isArchived" (by decide) (by decide)
  constructor
  · rintro ⟨h₁, h₂, h₃, h₄⟩
    simp only [toApiCard, readCard] at h₁ h₂ h₃ h₄ ⊢
    rw [htitle, hdescription, hcomplete, harchived]
    exact ⟨⟨h₁, h₂, h₃⟩, h₄⟩
  · rintro ⟨⟨h₁, h₂, h₃⟩, h₄⟩
    simp only [toApiCard, readCard] at h₁ h₂ h₃ h₄
    rw [htitle] at h₁
    rw [hdescription] at h₂
    rw [hcomplete] at h₃
    rw [harchived] at h₄
    exact ⟨h₁, h₂, h₃, h₄⟩

theorem Placed.toApiCard_positionIdx (h : Placed db board dto loaded row row' key) :
    (toApiCard (loaded.key, row')).positionIdx = key := by
  simp only [toApiCard, readCard, asString_lookup, h.positionIdx, Option.getD_some]

/-- The card the client shows. -/
theorem Placed.lookup_snapshot (h : Placed db board dto loaded row row' key) :
    (served db board).snapshot.cards.lookup loaded.key =
      some (mapApiCard (toApiCard (loaded.key, row))) := by
  obtain ⟨l, hl, hlist⟩ := h.source
  exact ServedBoard.lookup_snapshot_of_mem (distinctIds_served db board) hl
    (mem_shownCards_served.mpr ⟨row, h.find, hlist, h.visible, rfl, h.shown⟩)

/-- The card a reload shows is the saved row. -/
theorem of_lookup_served_put {k : JsString} {card : Card}
    (h : (served (db.put k row') board).snapshot.cards.lookup k = some card) :
    card = mapApiCard (toApiCard (k, row')) ∧ (toApiCard (k, row')).isArchived = false := by
  obtain ⟨l, -, c, hc, hid, hcard⟩ := (ServedBoard.lookup_snapshot (distinctIds_served _ _)).mp h
  obtain ⟨other, hother, -, -, hrow, hshown⟩ := mem_shownCards_served.mp hc
  rw [hid, Database.find_put, if_pos rfl] at hother
  obtain rfl := Option.some.inj hother
  rw [hid] at hrow
  subst hrow
  exact ⟨hcard.symm, hshown⟩

section Placed

variable {event : PendingBoardEvent} (h : Placed db board dto loaded row row' key)
  (hkeys : (served db board).DistinctKeys) (hcardId : loaded.key ≠ [])
  (hlistId : CardsService.targetListId dto loaded ≠ [])
  (hlist : (served db board).HasList (CardsService.targetListId dto loaded))
  (htype : event.type = .cardMoved)
  (hpayload : event.payload = ⟨some loaded.key, some (CardsService.targetListId dto loaded),
    some key⟩)

include h hkeys hlist htype hpayload

/-- Where the content stays and the key is free the frame is enough. -/
theorem frameAgrees_of_placed (hkeeps : KeepsContent dto row loaded.key)
    (hfree : (served db board).KeyFree (CardsService.targetListId dto loaded) loaded.key key) :
    FrameAgrees (served db board) (served (db.put loaded.key row') board) event := by
  refine .of_snapshot hkeys fun client frame answer hclient hanswer htype' hpayload' => ?_
  obtain ⟨l₀, hl₀, hid₀⟩ := hlist
  obtain ⟨hsame, hshown⟩ := h.keepsContent_iff.mp hkeeps
  have hlist' : row'.text "listId" = some l₀.id := hid₀ ▸ h.listId
  have hfree' : (served db board).KeyFree l₀.id (toApiCard (loaded.key, row')).id
      (toApiCard (loaded.key, row')).positionIdx := by
    rw [h.toApiCard_positionIdx, hid₀]
    exact hfree
  have hcards := hclient.cards loaded.key
  rw [h.lookup_snapshot] at hcards
  obtain ⟨card, hcard, hseen⟩ := Option.map_eq_some_iff.mp hcards
  have hreconcile : reconcileRemoteMutation client frame = reconcileMoved client frame.payload := by
    simp only [reconcileRemoteMutation, htype', htype]
  rw [hreconcile, ServedBoard.snapshot_congr
    (hanswer.trans (served_put h.visible' hlist' hshown)) (hkeys.moveCard hshown hfree'),
    hpayload', hpayload]
  have hid : (toApiCard (loaded.key, row')).id = (toApiCard (loaded.key, row)).id := rfl
  exact moveCard_upToDate hclient hkeys (distinctIds_served db board) rfl (congrArg some hid₀.symm)
    (congrArg some h.toApiCard_positionIdx.symm) hl₀ hshown hfree' hcard
    ((seen_placed_iff hid hseen).mpr hsame)

include hcardId hlistId
omit hkeys

/-- Where the frame is enough the content stays and the key is free. -/
theorem of_frameAgrees_placed
    (hagrees : FrameAgrees (served db board) (served (db.put loaded.key row') board) event) :
    KeepsContent dto row loaded.key ∧
      (served db board).KeyFree (CardsService.targetListId dto loaded) loaded.key key := by
  obtain ⟨l₀, hl₀, hid₀⟩ := hlist
  have hlist' : row'.text "listId" = some l₀.id := hid₀ ▸ h.listId
  have hpatch := reconcileMoved_eq (congrArg BoardMutationPayload.cardId hpayload) hcardId
    (congrArg BoardMutationPayload.listId hpayload) hlistId
    (congrArg BoardMutationPayload.positionIdx hpayload) h.lookup_snapshot
    (ServedBoard.findList_snapshot_isSome.mpr ⟨l₀, hl₀, hid₀⟩)
  have hreconcile : reconcileRemoteMutation (served db board).snapshot (frameOf event) =
      reconcileMoved (served db board).snapshot event.payload := by
    simp only [reconcileRemoteMutation, frameOf, htype]
  have hinOrder := hagrees.upToDate rfl fun _ => List.Perm.refl _
  have hreversed : (reconcileRemoteMutation (served db board).snapshot (frameOf event)).UpToDate
      (served db board).snapshot (served (db.put loaded.key row') board).reversed.snapshot :=
    hagrees.upToDate rfl fun _ => List.reverse_perm _
  rw [hreconcile, hpatch] at hinOrder hreversed
  -- the card, as the frame leaves it and as it is loaded
  have hcards := hinOrder.cards loaded.key
  rw [Dict.lookup_insert_eq, if_pos rfl, Option.map_some, eq_comm] at hcards
  obtain ⟨card, hcard, hseen⟩ := Option.map_eq_some_iff.mp hcards
  obtain ⟨rfl, hshown⟩ := of_lookup_served_put hcard
  have hid : (toApiCard (loaded.key, row')).id = (toApiCard (loaded.key, row)).id := rfl
  have hsame : Card.seen { mapApiCard (toApiCard (loaded.key, row)) with
      positionIdx := some (toApiCard (loaded.key, row')).positionIdx } =
        (mapApiCard (toApiCard (loaded.key, row'))).seen := by
    rw [h.toApiCard_positionIdx]
    exact hseen.symm
  refine ⟨h.keepsContent_iff.mpr ⟨(seen_placed_iff hid rfl).mp hsame, hshown⟩, ?_⟩
  -- the list, loaded in one order and in the other
  have hput : (served (db.put loaded.key row') board).SameShown
      ((served db board).moveCard (toApiCard (loaded.key, row')) l₀.id) :=
    served_put h.visible' hlist' hshown
  have hl₀' : l₀ ∈ (served (db.put loaded.key row') board).shownLists :=
    hput.lists.mem_iff.mpr hl₀
  have hmem : ∀ c, c ∈ (served (db.put loaded.key row') board).shownCards l₀.id ↔
      c = toApiCard (loaded.key, row') ∨
        c ∈ (served db board).shownCards l₀.id ∧ c.id ≠ loaded.key := by
    intro c
    rw [(hput.cards l₀ hl₀).mem_iff, ServedBoard.shownCards_moveCard _ hshown, if_pos rfl,
      List.mem_cons, ServedBoard.shownCards_dropCard, List.mem_filter, decide_eq_true_iff]
    rfl
  intro c hc hne hkey
  rw [← hid₀] at hc
  refine ServedBoard.positionIdx_ne_of_reversed (distinctIds_served _ _)
    (hreversed.lists.symm.trans hinOrder.lists) hl₀' ((hmem c).mpr (Or.inr ⟨hc, hne⟩))
    ((hmem _).mpr (Or.inl rfl)) hne ?_
  rw [hkey, h.toApiCard_positionIdx]

end Placed

/-- The frame of an update. -/
theorem frameAgrees_updateCard_iff {id : JsString} {event : PendingBoardEvent}
    (hpg : TypedColumns pg) (hcanon : CanonicalKeys db) (hkeys : (served db board).DistinctKeys)
    (hrun : (WebCall.updateCard id dto).run orgId db = .ok (db', event)) :
    FrameAgrees (served db board) (served db' board) event ↔
      CarriesChange orgId db board (.updateCard id dto) := by
  obtain ⟨loaded, next, row, row', hload, -, hplace, hid, hfind, hcard, hlistId, rfl, heffect,
    rfl⟩ := WebCall.updateCard_eq_ok hrun
  have hmoved := CardsService.moved_eq hcard hlistId hplace
  have hplaces := CardsService.isSome_of_place hplace
  have hcondition : CarriesChange orgId db board (.updateCard id dto) ↔
      (next.isSome = true → (served db board).HasCard loaded.key →
        (served db board).HasList (CardsService.targetListId dto loaded) →
          KeepsContent dto row loaded.key ∧
            ∀ key, CardsService.requestedKey db dto = some key →
              (served db board).KeyFree (CardsService.targetListId dto loaded) loaded.key key) := by
    rw [hplaces]
    refine ⟨fun h => h loaded row hload hfind, fun h loaded' row₁ hload' hfind' => ?_⟩
    obtain rfl : loaded = loaded' := Except.ok.inj (hload.symm.trans hload')
    obtain rfl : row = row₁ := Option.some.inj (hfind.symm.trans hfind')
    exact h
  rw [hcondition]
  cases next with
  | none =>
      refine iff_of_true (.of_resync fun client frame htype _ => ?_) nofun
      have hupdated : frame.type = .cardUpdated := by
        rw [htype, CardsService.eventForSave, hmoved]
        rfl
      simp only [reconcileRemoteMutation, hupdated]
  | some key =>
      have htype : (CardsService.eventForSave dto loaded (some key)).type = .cardMoved := by
        rw [CardsService.eventForSave, hmoved]
        rfl
      have hpayload : (CardsService.eventForSave dto loaded (some key)).payload =
          ⟨some loaded.key, some (CardsService.targetListId dto loaded), some key⟩ := by
        simp only [PendingBoardEvent.payload, CardsService.eventForSave,
          CardsService.text_edited_listId hcard hlistId, CardsService.text_edited_positionIdx]
      by_cases hshown : (served db board).HasCard loaded.key ∧
          (served db board).HasList (CardsService.targetListId dto loaded)
      · have hplaced := placed_of_update hpg hcanon hplace hfind hlistId heffect hshown.1 hshown.2
        rw [hplaced.free_iff]
        constructor
        · intro hagrees _ _ _
          exact of_frameAgrees_placed hplaced (canonical_of_hasCard hcanon hshown.1).2
            (canonical_of_hasList hcanon hshown.2).2 hshown.2 htype hpayload hagrees
        · intro h
          obtain ⟨hkeeps, hfree⟩ := h rfl hshown.1 hshown.2
          exact frameAgrees_of_placed hplaced hkeys hshown.2 htype hpayload hkeeps hfree
      · refine iff_of_true ?_ fun _ hhasCard hhasList => absurd ⟨hhasCard, hhasList⟩ hshown
        refine .of_snapshot hkeys fun client frame answer hclient _ htype' hpayload' => ?_
        have hpayload' := hpayload'.trans hpayload
        have hreconcile :
            reconcileRemoteMutation client frame = reconcileMoved client frame.payload := by
          simp only [reconcileRemoteMutation, htype', htype]
        have hnot : client.cards.lookup loaded.key = none ∨
            findList client.lists (CardsService.targetListId dto loaded) = none := by
          rcases not_and_or.mp hshown with hnot | hnot
          · refine Or.inl (AList.lookup_eq_none.mpr fun hmem => hnot ?_)
            have hsome := hclient.lookup_isSome loaded.key
            rw [AList.lookup_isSome.mpr hmem] at hsome
            exact (HasCard_iff_lookup (distinctIds_served db board)).mpr
              (AList.lookup_isSome.mp hsome.symm)
          · refine Or.inr ?_
            rw [hclient.lists, ← Option.not_isSome_iff_eq_none,
              ServedBoard.findList_snapshot_isSome]
            exact hnot
        rw [hreconcile, reconcileMoved_eq_needsResync
          (congrArg BoardMutationPayload.cardId hpayload')
          (congrArg BoardMutationPayload.listId hpayload') hnot]
        trivial

end Updates

/-! ## Every call -/

/-- The frame of a call leaves a client with the board it would load, or asking for it,
just where it carries the change. -/
theorem frameAgrees_iff (hpg : TypedColumns pg) (hcanon : CanonicalKeys db)
    (hkeys : (served db board).DistinctKeys) {call : WebCall} {event : PendingBoardEvent}
    (hrun : call.run orgId db = .ok (db', event)) :
    FrameAgrees (served db board) (served db' board) event ↔
      CarriesChange orgId db board call := by
  cases call with
  | createCard listId id now dto =>
      obtain ⟨_, _, _, _, -, -, -, -, -, rfl⟩ := WebCall.createCard_eq_ok hrun
      refine iff_of_true (.of_resync fun client frame htype _ => ?_) trivial
      simp only [reconcileRemoteMutation, htype, CardsService.eventForCreate]
  | createList boardId id now dto =>
      obtain ⟨_, _, _, -, -, -, -, rfl⟩ := WebCall.createList_eq_ok hrun
      refine iff_of_true (.of_resync fun client frame htype _ => ?_) trivial
      simp only [reconcileRemoteMutation, htype, ListsService.eventForCreate]
  | updateList id dto =>
      obtain ⟨_, _, _, -, -, -, -, rfl⟩ := WebCall.updateList_eq_ok hrun
      refine iff_of_true (.of_resync fun client frame htype _ => ?_) trivial
      simp only [reconcileRemoteMutation, htype, ListsService.eventForSave]
  | updateCard id dto => exact frameAgrees_updateCard_iff hpg hcanon hkeys hrun
  | removeCard id =>
      obtain ⟨k, row, hid, -, rfl, rfl⟩ := WebCall.removeCard_eq_ok hrun
      rw [frameAgrees_removeCard_iff hcanon hkeys hid]
      refine ⟨fun h k' hk' => ?_, fun h => h k hid⟩
      obtain rfl : k = k' := Option.some.inj (hid.symm.trans hk')
      exact h
  | removeList id =>
      obtain ⟨k, row, hid, -, rfl, rfl⟩ := WebCall.removeList_eq_ok hrun
      rw [frameAgrees_removeList_iff hcanon hkeys hid]
      refine ⟨fun h k' hk' => ?_, fun h => h k hid⟩
      obtain rfl : k = k' := Option.some.inj (hid.symm.trans hk')
      exact h

namespace Renamed

open Server.Sample

/-- A new key and a new title. -/
def moveAndRename : UpdateCardDto where
  content := Dict.ofList [("title", .str (js "Launch"))]
  content_keys := by decide
  listId := none
  positionIdx := some (js "Q")
  beforeCardId := none
  afterCardId := none

/-- A board with one list and one card. -/
def start : Database Postgres.plain := oneCard card

theorem canonicalKeys : CanonicalKeys start := by
  intro c k row h
  refine ⟨rfl, ?_⟩
  have hmem : k ∈ (start.table c).keys := AList.mem_keys.mp (Database.mem_table_of_find h)
  cases c with
  | boards =>
      have hk : k = boardId := by simpa using (show k ∈ [boardId] from hmem)
      exact hk ▸ by decide
  | lists =>
      have hk : k = listId := by simpa using (show k ∈ [listId] from hmem)
      exact hk ▸ by decide
  | cards =>
      have hk : k = cardId := by simpa using (show k ∈ [cardId] from hmem)
      exact hk ▸ by decide

theorem distinctKeys : (served start boardId).DistinctKeys where
  lists := by decide
  cards := by decide

/-- The list of the board, on the wire. -/
def apiList : ApiList := toApiList (listId, list)

theorem apiList_shown : apiList ∈ (served start boardId).shownLists :=
  mem_shownLists_served.mpr
    ⟨list, rfl, by decide, by decide +kernel, rfl, by decide +kernel⟩

theorem hasCard : (served start boardId).HasCard cardId :=
  ⟨apiList, apiList_shown, toApiCard (cardId, card), mem_shownCards_served.mpr
    ⟨card, rfl, by decide, by decide +kernel, rfl, by decide +kernel⟩, rfl⟩

/-- What an update of the card loads. -/
theorem of_load {loaded : CardsService.LoadedCard} {row : Row Postgres.plain .cards}
    (hload : CardsService.load start cardId orgId = .ok loaded)
    (hfind : start.find .cards loaded.key = some row) :
    loaded.key = cardId ∧ row = card ∧ loaded.listId = listId := by
  obtain ⟨row', -, -, hfind', -, hlistId⟩ := CardsService.load_eq_ok hload
  obtain ⟨hkey, rfl⟩ := of_find_oneCard hfind
  obtain ⟨-, rfl⟩ := of_find_oneCard hfind'
  refine ⟨hkey, rfl, hlistId.trans ?_⟩
  decide

/-! A second list with a card of its own, and the first card moved there. -/

def doneId : JsString := js "00000000-0000-4000-8000-00000000001b"
def laterId : JsString := js "00000000-0000-4000-8000-00000000001c"

/-- The second list. -/
def done : Row Postgres.plain .lists :=
  .plain (Dict.ofList [("boardId", .str boardId), ("title", .str (js "Done")),
    ("positionIdx", .str (js "T"))]) (by decide) (by decide)

/-- Its card. -/
def later : Row Postgres.plain .cards :=
  .plain (Dict.ofList [("title", .str (js "Test")), ("description", .null),
    ("isComplete", .bool false), ("listId", .str doneId), ("positionIdx", .str (js "T"))])
    (by decide) (by decide)

/-- A board with two lists, a card in each. -/
def twoLists : Database Postgres.plain where
  table
    | .boards => Dict.ofList [(boardId, Server.Sample.board)]
    | .lists => Dict.ofList [(listId, list), (doneId, done)]
    | .cards => Dict.ofList [(cardId, card), (laterId, later)]
  users := ∅

/-- To the other list, above its card. -/
def move : UpdateCardDto where
  content := ∅
  content_keys := UpdateCardDto.no_content
  listId := some doneId
  positionIdx := some (js "Q")
  beforeCardId := none
  afterCardId := none

theorem canonicalKeys_twoLists : CanonicalKeys twoLists := by
  intro c k row h
  refine ⟨rfl, ?_⟩
  have hmem : k ∈ (twoLists.table c).keys := AList.mem_keys.mp (Database.mem_table_of_find h)
  have hall : ∀ k ∈ (twoLists.table c).keys, k ≠ [] := by cases c <;> decide
  exact hall k hmem

theorem distinctKeys_twoLists : (served twoLists boardId).DistinctKeys where
  lists := by decide +kernel
  cards := by decide +kernel

end Renamed

/-- A card that goes to another list, above the card that is there. -/
theorem Renamed.move_agrees : ∃ db' event,
    (WebCall.updateCard Sample.cardId move).run Sample.orgId twoLists = .ok (db', event) ∧
      (db'.find .cards Sample.cardId).bind (·.text "listId") = some doneId ∧
      FrameAgrees (served twoLists Sample.boardId) (served db' Sample.boardId) event := by
  have hmoved : ((WebCall.updateCard Sample.cardId move).run Sample.orgId twoLists).toOption.bind
      (fun written => (written.1.find .cards Sample.cardId).bind (·.text "listId")) =
        some doneId := by decide +kernel
  obtain ⟨⟨db', event⟩, hok, hlist⟩ := Option.bind_eq_some_iff.mp hmoved
  have hrun := toOption_eq_some.mp hok
  refine ⟨db', event, hrun, hlist, (frameAgrees_iff plain_typedColumns canonicalKeys_twoLists
    distinctKeys_twoLists hrun).mpr fun loaded row hload hfind _ _ _ => ?_⟩
  obtain ⟨_, huuid, -⟩ := CardsService.load_eq_ok hload
  have hkey : loaded.key = Sample.cardId := (Option.some.inj huuid).symm
  rw [hkey] at hfind ⊢
  obtain rfl : Sample.card = row := Option.some.inj hfind
  refine ⟨⟨by decide, by decide, by decide, by decide⟩, fun key hkey c hc _ => ?_⟩
  obtain rfl : js "Q" = key := Option.some.inj hkey
  -- the one card of the second list has another key
  have hfree : ∀ c ∈ (served twoLists Sample.boardId).shownCards doneId,
      c.positionIdx ≠ js "Q" := by decide +kernel
  exact hfree c hc

/-- A card that gets another key and another title: the frame says that it moved. -/
theorem Renamed.moveAndRename_disagrees :
    ¬ ∀ (pg : Postgres) (db db' : Database pg) (board orgId : JsString) (call : WebCall)
      (event : PendingBoardEvent), TypedColumns pg → CanonicalKeys db →
        (served db board).DistinctKeys → call.run orgId db = .ok (db', event) →
          FrameAgrees (served db board) (served db' board) event := by
  intro h
  have hrun : ((WebCall.updateCard Sample.cardId moveAndRename).run
      Sample.orgId start).toOption.isSome = true := by decide
  obtain ⟨⟨db', event⟩, hrun⟩ := isSome_toOption_iff.mp hrun
  have hagrees := h _ _ _ Sample.boardId _ _ _ plain_typedColumns canonicalKeys distinctKeys hrun
  have hcarries :=
    (frameAgrees_updateCard_iff plain_typedColumns canonicalKeys distinctKeys hrun).mp hagrees
  obtain ⟨loaded, next, row, -, hload, -, -, -, hfind, -⟩ := WebCall.updateCard_eq_ok hrun
  obtain ⟨hkey, rfl, hlistId⟩ := of_load hload hfind
  have hkeeps := (hcarries loaded _ hload hfind rfl (hkey ▸ hasCard)
    ⟨apiList, apiList_shown, hlistId.symm⟩).1
  have htitle := hkeeps.title
  rw [hkey] at htitle
  exact absurd htitle (by decide)

end FlowLogix.Web

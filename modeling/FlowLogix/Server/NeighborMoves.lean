/-
  Server/NeighborMoves.lean --- what becomes of a move between neighbours
  (`update` and `resolvePositionFromNeighbors` of backend/src/cards/cards.service.ts).

  The service refuses a neighbour that is the card itself, that is named twice or that is
  not in the target list.  What it does not look at is the neighbours' order: their keys go
  to the indexer, which throws an error of its own for keys that are equal or swapped, and
  a key longer than its column fails in the database.  So a move ends as it should just
  where the neighbours are refused or leave room between them.
-/
import FlowLogix.Server.KeyRoom

set_option autoImplicit false

namespace FlowLogix.Server

open FlowLogix.Foundation FlowLogix.Ordering

variable {pg : Postgres} {db : Database pg} {orgId id listId : JsString}

/-! ## A save that fails -/

namespace CardsService

/-! ## Neighbours -/

/-- A neighbour, if it is named, is a card of the list. -/
def IsIn (db : Database pg) (listId : JsString) (cardId : Option JsString) : Prop :=
  ∀ s, cardId = some s → ∃ k list, ∃ card : Row pg .cards, pg.uuid s = some k ∧
    pg.uuid listId = some list ∧ db.find .cards k = some card ∧ card.text "listId" = some list

/-- The service takes the neighbours: neither is the card itself, they are not one id, and
each is in the list. -/
structure Usable (db : Database pg) (id listId : JsString) (dto : UpdateCardDto) : Prop where
  notItself : ¬ (dto.beforeCardId = some id ∨ dto.afterCardId = some id)
  differ : ¬ (dto.beforeCardId.isSome ∧ dto.beforeCardId = dto.afterCardId)
  before : IsIn db listId dto.beforeCardId
  after : IsIn db listId dto.afterCardId

/-- The key of a neighbour in the list. -/
theorem neighborKey_of_isIn {cardId : Option JsString} (h : IsIn db listId cardId)
    (label : String) : neighborKey db listId label cardId = .ok (Mint.keyOf db cardId) := by
  cases cardId with
  | none => rfl
  | some s =>
      obtain ⟨k, list, card, hk, hlist, hfind, htext⟩ := h s rfl
      rw [neighborKey_eq_ok hk hlist hfind htext, Mint.keyOf, Option.bind_some, hk,
        Option.bind_some, hfind, Option.bind_some]

/-- What neighbours the service takes come to. -/
theorem resolve_of_usable {dto : UpdateCardDto} (h : Usable db id listId dto) :
    resolvePositionFromNeighbors db id listId dto.beforeCardId dto.afterCardId =
      (PositionService.keyBetween (Mint.keyOf db dto.beforeCardId)
        (Mint.keyOf db dto.afterCardId)).mapError .error := by
  rw [resolvePositionFromNeighbors_eq, if_neg h.notItself, if_neg h.differ,
    neighborKey_of_isIn h.before, neighborKey_of_isIn h.after]
  rfl

/-- The update is of a card of the organization, passes the check of its target list, names
a neighbour, and sends ids that are uuids and content its columns take. -/
structure MovesByNeighbor (db : Database pg) (orgId id : JsString) (dto : UpdateCardDto)
    (loaded : LoadedCard) : Prop where
  loads : load db id orgId = .ok loaded
  passes : checkTarget db orgId dto loaded = .ok ()
  wants : wantsNeighborPlacement dto = true
  uuids : ∀ s, dto.beforeCardId = some s ∨ dto.afterCardId = some s → (pg.uuid s).isSome
  content : ∀ field v, dto.content.lookup field = some v → (pg.store .cards field v).isSome = true

/-- The key the move mints. -/
def neighborMint (id : JsString) (dto : UpdateCardDto) (loaded : LoadedCard) : Mint :=
  .between id (targetListId dto loaded) dto.beforeCardId dto.afterCardId

/-- The card is saved strictly between its neighbours, or the request is refused as a bad
one, which writes nothing. -/
def PlacedOrRefused (db : Database pg) (orgId id : JsString) (dto : UpdateCardDto)
    (loaded : LoadedCard) : Prop :=
  (∃ db', ∃ row : Row pg .cards, ∃ key, update db id orgId dto = .ok db' ∧
    db'.find .cards loaded.key = some row ∧ row.text "positionIdx" = some key ∧
    (∀ p, Mint.keyOf db dto.beforeCardId = some p → p < key) ∧
    ∀ n, Mint.keyOf db dto.afterCardId = some n → key < n) ∨
  ∃ message, update db id orgId dto = .error (.badRequest message)

/-- A list that passes the check has a uuid. -/
theorem uuid_of_checkTarget {dto : UpdateCardDto} {loaded : LoadedCard}
    (hload : load db id orgId = .ok loaded) (hpasses : checkTarget db orgId dto loaded = .ok ()) :
    ∃ list, pg.uuid (targetListId dto loaded) = some list := by
  have hown : ∃ list, pg.uuid loaded.listId = some list := by
    obtain ⟨row, -, howner, hfind, -, hlistId⟩ := load_eq_ok hload
    rw [Database.owner, hfind, Option.bind_some] at howner
    obtain ⟨list, htext, -⟩ := Option.bind_eq_some_iff.mp howner
    refine ⟨list, ?_⟩
    rw [hlistId, show row.text "listId" = some list from htext, Option.getD_some]
    exact Row.text_eq_uuid htext
  unfold targetListId
  cases hdto : dto.listId with
  | none => exact hown
  | some listId =>
      rcases owner_of_checkTarget hpasses hdto with rfl | ⟨list, hlist, -⟩
      · exact hown
      · exact ⟨list, hlist⟩

/-- The indexer takes the keys of two neighbours that leave room between them. -/
theorem inOrder_of_hasRoom {m : Mint} (h : m.HasRoom db)
    (hprev : ∀ p, m.prev db = some p → PositionService.isValid p = true)
    (hnext : ∀ n, m.next db = some n → PositionService.isValid n = true) :
    base62.InOrder (m.prev db) (m.next db) := by
  obtain ⟨key, -, -, habove, hbelow⟩ := h
  exact ⟨hprev, hnext, fun p n hp hn => (habove p hp).trans (hbelow n hn)⟩

theorem isValid_keyOf (hsound : db.Every (Row.SoundKey : Row pg .cards → Prop))
    {cardId : Option JsString} {key : JsString} (h : Mint.keyOf db cardId = some key) :
    PositionService.isValid key = true := by
  obtain ⟨card, hcard, htext⟩ := Option.bind_eq_some_iff.mp h
  obtain ⟨k, -, hfind⟩ := Option.bind_eq_some_iff.mp hcard
  obtain ⟨key', htext', hvalid⟩ := (hsound k card hfind).exists_key
  exact Option.some.inj (htext.symm.trans htext') ▸ hvalid

namespace MovesByNeighbor

variable {dto : UpdateCardDto} {loaded : LoadedCard}

theorem place_eq (h : MovesByNeighbor db orgId id dto loaded) :
    place db id dto loaded = (neighborMint id dto loaded).run db >>= fun key =>
      .ok (some key) := by
  rw [place, if_pos h.wants]
  rfl

/-- Where the neighbours leave room, the card is saved between them. -/
theorem placed (h : MovesByNeighbor db orgId id dto loaded) (hcolumn : KeyColumn pg)
    (huuids : TakesUuids pg) (hsound : db.Every (Row.SoundKey : Row pg .cards → Prop))
    (husable : Usable db id (targetListId dto loaded) dto)
    (hroom : (neighborMint id dto loaded).HasRoom db) :
    PlacedOrRefused db orgId id dto loaded := by
  obtain ⟨key, hminted, hkey, habove, hbelow⟩ := (inOrder_of_hasRoom hroom
    (fun _ => isValid_keyOf hsound) (fun _ => isValid_keyOf hsound)).getIntermediateKey
  have hrun : (neighborMint id dto loaded).run db = .ok key := by
    refine (resolve_of_usable husable).trans (mapError_eq_ok.mpr ?_)
    exact hminted
  have hvalid := hkey.isValidKey base62_plain
  have hfits : key.length ≤ 255 := by
    rw [← hkey.charLength_eq base62_plain]
    exact (Mint.fits_iff hrun).mpr hroom
  obtain ⟨list, hlist⟩ := uuid_of_checkTarget h.loads h.passes
  have hlistUuid : ∀ listId, dto.listId = some listId → ∃ l, pg.uuid listId = some l := by
    intro listId hdto
    rw [targetListId, hdto, Option.getD_some] at hlist
    exact ⟨list, hlist⟩
  obtain ⟨row, -, -, hfind, -, -⟩ := load_eq_ok h.loads
  have hplace : place db id dto loaded = .ok (some key) := by
    rw [h.place_eq, hrun]
    rfl
  obtain ⟨row', hupdate, heffect⟩ := exists_update_at h.loads h.passes hplace hsound
    (store_assigned hcolumn.keeps huuids hlistUuid h.content hvalid hfits) hfind
  refine Or.inl ⟨_, row', key, hupdate, ?_, text_positionIdx hcolumn.keeps hvalid hfits heffect,
    habove, hbelow⟩
  rw [Database.find_put, if_pos rfl]

end MovesByNeighbor

namespace SwappedNeighbors

def first : JsString := js "00000000-0000-4000-8000-00000000000d"
def second : JsString := js "00000000-0000-4000-8000-00000000000e"

/-- The columns of a card of the list. -/
def columns (key : String) : JsObject Json :=
  Dict.ofList [("title", .str (js "Card")), ("description", .null), ("isComplete", .bool false),
    ("listId", .str Sample.listId), ("positionIdx", .str (js key))]

def cardM : Row Postgres.plain .cards := .plain (columns "M") (by decide) (by decide)

def cardT : Row Postgres.plain .cards := .plain (columns "T") (by decide) (by decide)

/-- A list with cards at "M" and "T", and another one at "M" that is moved. -/
def board : Database Postgres.plain :=
  Sample.database (Dict.ofList [(first, cardM), (second, cardT), (Sample.cardId, Sample.card)])

/-- The request to put the card between two others. -/
def request (before after : JsString) : UpdateCardDto where
  content := ∅
  content_keys := UpdateCardDto.no_content
  listId := none
  positionIdx := none
  beforeCardId := some before
  afterCardId := some after

/-- The card as a request loads it. -/
def loaded : LoadedCard where
  key := Sample.cardId
  card := Sample.card.toEntity
  listId := Sample.listId
  boardId := Sample.boardId

end SwappedNeighbors

end CardsService

end FlowLogix.Server

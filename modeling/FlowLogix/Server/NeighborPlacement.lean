/-
  Server/NeighborPlacement.lean --- a card goes between two neighbours
  (`resolvePositionFromNeighbors` of backend/src/cards/cards.service.ts).

  Cards of a list may share a position key: two creates may read the same last card
  or send the same key, and the order then falls back to the creation time and the
  id.  There is no place between such cards.  Between two neighbours with different
  keys there always is one, since every card's key is valid (`Reaches.soundKey`), and
  an update that names them puts its card there, as long as the column has room for
  the key.
-/
import FlowLogix.Server.CardKeys

set_option autoImplicit false

namespace FlowLogix.Server

open FlowLogix.Foundation FlowLogix.Ordering
open PositionRebalanceService

variable {pg : Postgres} {db : Database pg} {orgId id : JsString}

/-! ## One more row in an order -/

/-- Between two neighbours of an ascending list. -/
theorem pairwise_insert_between {α β : Type} [Preorder β] {f : α → β} {pre post : List α}
    {a k b : α} (h : (pre ++ a :: b :: post).Pairwise fun i j => f i < f j) (hak : f a < f k)
    (hkb : f k < f b) : (pre ++ a :: k :: b :: post).Pairwise fun i j => f i < f j := by
  obtain ⟨hpre, htail, hcross⟩ := List.pairwise_append.mp h
  obtain ⟨ha, htail⟩ := List.pairwise_cons.mp htail
  obtain ⟨hb, -⟩ := List.pairwise_cons.mp htail
  have hk : ∀ x ∈ b :: post, f k < f x :=
    List.forall_mem_cons.mpr ⟨hkb, fun x hx => hkb.trans (hb x hx)⟩
  have hafter : ∀ x ∈ k :: b :: post, f a < f x := List.forall_mem_cons.mpr ⟨hak, ha⟩
  refine List.pairwise_append.mpr ⟨hpre, .cons hafter (.cons hk htail), fun x hx y hy => ?_⟩
  have hxa : f x < f a := hcross x hx a List.mem_cons_self
  rcases List.mem_cons.mp hy with rfl | hy
  · exact hxa
  · exact hxa.trans (hafter y hy)

/-- Writing a card into a list, between two of its other cards. -/
theorem orderedIds_put {list card a b : JsString} {pre post : List JsString}
    (hadjacent : (orderedIds db .cards orgId list).filter (· ≠ card) = pre ++ a :: b :: post)
    {row : Row pg .cards} (hlist : row.text "listId" = some list)
    (howner : (db.put card row).owner .cards card = some orgId)
    (habove : sortKeyAt db .cards a < sortKey (card, row))
    (hbelow : sortKey (card, row) < sortKeyAt db .cards b) :
    orderedIds (db.put card row) .cards orgId list = pre ++ a :: card :: b :: post := by
  have hother : ∀ j, j ≠ card → (db.put card row).find .cards j = db.find .cards j := by
    intro j hj
    rw [Database.find_put, if_neg hj]
  have hself : (db.put card row).find .cards card = some row := by
    rw [Database.find_put, if_pos rfl]
  have hparents : (db.put card row).parentOrg .cards = db.parentOrg .cards :=
    Database.parentOrg_congr fun c hc => db.table_put_of_ne card row hc
  have hmem : ∀ j, j ∈ pre ++ a :: b :: post ↔ j ∈ orderedIds db .cards orgId list ∧ j ≠ card := by
    intro j
    rw [← hadjacent, List.mem_filter, decide_eq_true_iff]
  have hkey : ∀ j ∈ pre ++ a :: b :: post,
      sortKeyAt (db.put card row) .cards j = sortKeyAt db .cards j := by
    intro j hj
    rw [sortKeyAt, sortKeyAt, hother j ((hmem j).mp hj).2]
  apply orderedIds_eq
  · intro j
    have hsplit : j ∈ pre ++ a :: card :: b :: post ↔ j = card ∨ j ∈ pre ++ a :: b :: post := by
      simp only [List.mem_append, List.mem_cons]
      tauto
    rw [hsplit, hmem, mem_orderedIds, mem_orderedIds]
    by_cases hj : j = card
    · subst hj
      exact iff_of_true (Or.inl rfl) ⟨row, hself, howner, hlist⟩
    · have howner_j : (db.put card row).owner .cards j = db.owner .cards j := by
        rw [Database.owner, Database.owner, hother j hj, hparents]
      rw [howner_j, hother j hj]
      simp [hj]
  · have hbefore : (pre ++ a :: b :: post).Pairwise fun i j =>
        sortKeyAt (db.put card row) .cards i < sortKeyAt (db.put card row) .cards j := by
      have hascending : (orderedIds db .cards orgId list).Pairwise fun i j =>
          sortKeyAt db .cards i < sortKeyAt db .cards j := orderedIds_ascending
      replace hascending := hascending.filter (· ≠ card)
      rw [hadjacent] at hascending
      refine hascending.imp_of_mem fun {i j} hi hj hlt => ?_
      rwa [hkey i hi, hkey j hj]
    have hcard := sortKeyAt_of_find hself
    apply pairwise_insert_between hbefore
    · rw [hkey a (by simp), hcard]
      exact habove
    · rw [hkey b (by simp), hcard]
      exact hbelow

/-! ## The update -/

/-- A save over the loaded row goes through when the columns take what was assigned. -/
theorem exists_saveRow {c : SyncCollection} {row : Row pg c} (hfits : row.FitsColumns)
    {values : JsObject Json}
    (hvalues : ∀ field v, values.lookup field = some v → (pg.store c field v).isSome = true) :
    ∃ row', saveRow row (row.toEntity.assign values) = .ok row' := by
  have hstore : ∀ pair ∈ ((row.toEntity.assign values).columns.entries.map
      fun e => (e.1, e.2)).filter (fun p => row.columns.lookup p.1 ≠ some p.2),
        (pg.store c pair.1 pair.2).isSome = true := by
    rintro ⟨field, v⟩ hpair
    obtain ⟨hmem, hchanged⟩ := List.mem_filter.mp hpair
    have hv : (values.lookup field).or (row.columns.lookup field) = some v :=
      (Dict.lookup_assign _ _ _).symm.trans (Dict.mem_pairs.mp hmem)
    rcases Option.or_eq_some_iff.mp hv with hv | ⟨-, hv⟩
    · exact hvalues field v hv
    · exact absurd hv (of_decide_eq_true hchanged)
  obtain ⟨mid, hmid⟩ := row.exists_writeColumns hstore
  obtain ⟨row', hrow'⟩ := mid.exists_writeSync hfits row.syncClocks
  exact ⟨row', bind_eq_ok.mpr ⟨mid, hmid, hrow'⟩⟩

/-- A uuid column takes every uuid literal. -/
def TakesUuids (pg : Postgres) : Prop :=
  ∀ c s k, pg.uuid s = some k → (pg.store c (parentProperty c) (.str s)).isSome = true

namespace CardsService

/-- The update is of a card of the organization, passes the check of its target list
`list`, names the cards `a` and `b` as neighbours, and sends content its columns
take. -/
structure NamesNeighbors (db : Database pg) (orgId id : JsString) (dto : UpdateCardDto)
    (loaded : LoadedCard) (list a b : JsString) : Prop where
  loads : load db id orgId = .ok loaded
  passes : checkTarget db orgId dto loaded = .ok ()
  target : pg.uuid (targetListId dto loaded) = some list
  before : dto.beforeCardId.bind pg.uuid = some a
  after : dto.afterCardId.bind pg.uuid = some b
  content : ∀ field v, dto.content.lookup field = some v → (pg.store .cards field v).isSome = true

/-- The key of a neighbour that is in the target list. -/
theorem neighborKey_eq_ok {listId list cardId card : JsString} {label : String}
    {row : Row pg .cards} (hcard : pg.uuid cardId = some card) (hlist : pg.uuid listId = some list)
    (hfind : db.find .cards card = some row) (htext : row.text "listId" = some list) :
    neighborKey db listId label (some cardId) = .ok (row.text "positionIdx") := by
  have hkeys : ∀ {s k : JsString}, pg.uuid s = some k → Database.key pg s = .ok k := by
    intro s k hk
    rw [Database.key, hk]
  refine bind_eq_ok.mpr ⟨card, hkeys hcard, bind_eq_ok.mpr ⟨list, hkeys hlist, ?_⟩⟩
  have hfilter : (db.find .cards card).filter (fun r => r.text "listId" = some list) =
      some row := by
    rw [hfind, Option.filter_some, if_pos (decide_eq_true htext)]
  rw [hfilter]
  rfl

/-- What an update with a place assigns, the columns take. -/
theorem store_assigned {dto : UpdateCardDto} (hkeys : KeepsKeys pg) (huuids : TakesUuids pg)
    (hlistId : ∀ listId, dto.listId = some listId → ∃ list, pg.uuid listId = some list)
    (hcontent : ∀ field v, dto.content.lookup field = some v →
      (pg.store .cards field v).isSome = true)
    {key : JsString} (hvalid : PositionService.isValid key = true) (hroom : key.length ≤ 255)
    (field : String) (v : Json) (hv : (assigned dto (some key)).lookup field = some v) :
    (pg.store .cards field v).isSome = true := by
  by_cases hlist : field = "listId"
  · subst hlist
    rw [lookup_assigned_listId] at hv
    obtain ⟨listId, hdto, rfl⟩ := Option.map_eq_some_iff.mp hv
    obtain ⟨list, huuid⟩ := hlistId listId hdto
    exact huuids .cards listId list huuid
  · by_cases hposition : field = "positionIdx"
    · subst hposition
      rw [lookup_assigned_positionIdx] at hv
      obtain rfl := Option.some.inj hv
      exact Option.isSome_of_eq_some (hkeys .cards key hvalid hroom)
    · rw [lookup_assigned_content dto _ hlist hposition] at hv
      exact hcontent field v hv

/-- An update with a place goes through when the columns take what it assigns. -/
theorem exists_update_at {dto : UpdateCardDto} {loaded : LoadedCard} {key : JsString}
    (hload : load db id orgId = .ok loaded) (hpasses : checkTarget db orgId dto loaded = .ok ())
    (hplace : place db id dto loaded = .ok (some key))
    (hsound : db.Every (Row.SoundKey : Row pg .cards → Prop))
    (hstores : ∀ field v, (assigned dto (some key)).lookup field = some v →
      (pg.store .cards field v).isSome = true) {row : Row pg .cards}
    (hfind : db.find .cards loaded.key = some row) :
    ∃ row', update db id orgId dto = .ok (db.put loaded.key row') ∧
      SaveEffect row row' (assigned dto (some key)) := by
  obtain ⟨row₀, -, -, hfind₀, hcard, -⟩ := load_eq_ok hload
  obtain rfl := Option.some.inj (hfind.symm.trans hfind₀)
  obtain ⟨row', hsaveRow⟩ := exists_saveRow (hsound _ row hfind).fits hstores
  have hsave : saveEntity db .cards loaded.key
      (loaded.card.assign (assigned dto (some key))) = .ok (db.put loaded.key row') := by
    unfold saveEntity
    rw [hfind, hcard]
    exact bind_eq_ok.mpr ⟨row', hsaveRow, rfl⟩
  refine ⟨row', ?_, ?_⟩
  · refine bind_eq_ok.mpr ⟨loaded, hload, bind_eq_ok.mpr ⟨(), hpasses, ?_⟩⟩
    exact bind_eq_ok.mpr ⟨some key, hplace, hsave⟩
  · rw [hcard] at hsave
    obtain ⟨row'', hput, heffect⟩ := saveEntity_eq_ok hfind hsave
    have hself : (db.put loaded.key row').find .cards loaded.key = some row' := by
      rw [Database.find_put, if_pos rfl]
    rw [hput, Database.find_put, if_pos rfl] at hself
    exact Option.some.inj hself ▸ heffect

/-- The key the saved card has. -/
theorem text_positionIdx {dto : UpdateCardDto} {row row' : Row pg .cards} {key : JsString}
    (hkeys : KeepsKeys pg) (hvalid : PositionService.isValid key = true)
    (hroom : key.length ≤ 255) (hsave : SaveEffect row row' (assigned dto (some key))) :
    row'.text "positionIdx" = some key := by
  obtain ⟨w, hstore, hw⟩ := hsave.assigned _ _ (lookup_assigned_positionIdx dto (some key))
  rw [hkeys .cards key hvalid hroom] at hstore
  obtain rfl := Option.some.inj hstore
  rw [Row.text, hw]

namespace NamesNeighbors

variable {dto : UpdateCardDto} {loaded : LoadedCard} {list a b : JsString}

/-- The place between two neighbours with keys in order. -/
theorem place_eq_ok (h : NamesNeighbors db orgId id dto loaded list a b)
    {rowA rowB : Row pg .cards} (hrowA : db.find .cards a = some rowA)
    (hrowB : db.find .cards b = some rowB) (hlistA : rowA.text "listId" = some list)
    (hlistB : rowB.text "listId" = some list) (ha : a ≠ loaded.key) (hb : b ≠ loaded.key)
    (hab : a ≠ b) {key : JsString}
    (hkey : PositionService.keyBetween (rowA.text "positionIdx") (rowB.text "positionIdx") =
      .ok key) : place db id dto loaded = .ok (some key) := by
  obtain ⟨row, hid, -⟩ := load_eq_ok h.loads
  obtain ⟨before, hbefore, ha'⟩ := Option.bind_eq_some_iff.mp h.before
  obtain ⟨after, hafter, hb'⟩ := Option.bind_eq_some_iff.mp h.after
  have hself : ¬ (some before = some id ∨ some after = some id) := by
    rintro (heq | heq)
    · obtain rfl := Option.some.inj heq
      exact ha (Option.some.inj (ha'.symm.trans hid))
    · obtain rfl := Option.some.inj heq
      exact hb (Option.some.inj (hb'.symm.trans hid))
  have hsame : ¬ ((some before).isSome ∧ some before = some after) := by
    rintro ⟨-, heq⟩
    obtain rfl := Option.some.inj heq
    exact hab (Option.some.inj (ha'.symm.trans hb'))
  have hwants : wantsNeighborPlacement dto = true := by
    rw [wantsNeighborPlacement, hbefore]
    rfl
  have hmint : resolvePositionFromNeighbors db id (targetListId dto loaded) (some before)
      (some after) = .ok key := by
    rw [resolvePositionFromNeighbors_eq, if_neg hself, if_neg hsame]
    refine bind_eq_ok.mpr ⟨_, neighborKey_eq_ok ha' h.target hrowA hlistA, ?_⟩
    refine bind_eq_ok.mpr ⟨_, neighborKey_eq_ok hb' h.target hrowB hlistB, ?_⟩
    exact mapError_eq_ok.mpr hkey
  rw [place, if_pos hwants, hbefore, hafter]
  exact bind_eq_ok.mpr ⟨key, hmint, rfl⟩

/-- The list a card is in after the update. -/
theorem text_listId (h : NamesNeighbors db orgId id dto loaded list a b) {key : JsString}
    {row row' : Row pg .cards} (hlistId : loaded.listId = (row.text "listId").getD [])
    (howner : db.parentOrg .cards row = some orgId)
    (hsave : SaveEffect row row' (assigned dto (some key))) : row'.text "listId" = some list := by
  have hassigned := lookup_assigned_listId dto (some key)
  have htarget := h.target
  unfold targetListId at htarget
  cases hdto : dto.listId with
  | some listId =>
      rw [hdto, Option.map_some] at hassigned
      rw [hdto, Option.getD_some] at htarget
      obtain ⟨w, hstore, hw⟩ := hsave.assigned _ _ hassigned
      obtain ⟨k, hk, rfl⟩ := pg.store_parent .cards _ _ hstore
      obtain rfl : list = k := Option.some.inj (htarget.symm.trans hk)
      rw [Row.text, hw]
  | none =>
      rw [hdto, Option.map_none] at hassigned
      rw [hdto, Option.getD_none, hlistId] at htarget
      obtain ⟨l, hl, -⟩ := Option.bind_eq_some_iff.mp howner
      replace hl : row.text "listId" = some l := hl
      rw [hl, Option.getD_some, Row.text_eq_uuid hl] at htarget
      rw [Row.text_congr (hsave.kept _ (AList.lookup_eq_none.mp hassigned)), hl, htarget]

/-- The update goes through and puts the card between its neighbours. -/
theorem exists_update (h : NamesNeighbors db orgId id dto loaded list a b)
    (hkeys : KeepsKeys pg) (huuids : TakesUuids pg)
    (hsound : db.Every (Row.SoundKey : Row pg .cards → Prop)) {pre post : List JsString}
    (hadjacent : (orderedIds db .cards orgId list).filter (· ≠ loaded.key) = pre ++ a :: b :: post)
    {rowA rowB : Row pg .cards} (hrowA : db.find .cards a = some rowA)
    (hrowB : db.find .cards b = some rowB) {keyA keyB key : JsString}
    (hkeyA : rowA.text "positionIdx" = some keyA) (hkeyB : rowB.text "positionIdx" = some keyB)
    (hminted : PositionService.keyBetween (some keyA) (some keyB) = .ok key)
    (hvalid : PositionService.isValid key = true) (hroom : key.length ≤ 255) (habove : keyA < key)
    (hbelow : key < keyB) :
    ∃ db', update db id orgId dto = .ok db' ∧ keyAt db' .cards loaded.key = some key ∧
      orderedIds db' .cards orgId list = pre ++ a :: loaded.key :: b :: post := by
  have hin : ∀ j ∈ pre ++ a :: b :: post, j ≠ loaded.key ∧
      ∀ r : Row pg .cards, db.find .cards j = some r → r.text "listId" = some list := by
    intro j hj
    rw [← hadjacent] at hj
    obtain ⟨hj, hne⟩ := List.mem_filter.mp hj
    obtain ⟨r, hr, -, hlist⟩ := mem_orderedIds.mp hj
    refine ⟨of_decide_eq_true hne, fun r' hr' => ?_⟩
    obtain rfl := Option.some.inj (hr.symm.trans hr')
    exact hlist
  obtain ⟨ha, hlistA⟩ := hin a (by simp)
  obtain ⟨hb, hlistB⟩ := hin b (by simp)
  have hab : a ≠ b := by
    rintro rfl
    obtain rfl := Option.some.inj (hrowA.symm.trans hrowB)
    rw [hkeyA] at hkeyB
    obtain rfl := Option.some.inj hkeyB
    exact lt_irrefl _ (habove.trans hbelow)
  have hplace : place db id dto loaded = .ok (some key) := by
    refine h.place_eq_ok hrowA hrowB (hlistA rowA hrowA) (hlistB rowB hrowB) ha hb hab ?_
    rw [hkeyA, hkeyB]
    exact hminted
  obtain ⟨row, -, howner, hfind, -, hlistId⟩ := load_eq_ok h.loads
  have hlistUuid : ∀ listId, dto.listId = some listId → ∃ l, pg.uuid listId = some l := by
    intro listId hdto
    have htarget := h.target
    rw [targetListId, hdto, Option.getD_some] at htarget
    exact ⟨list, htarget⟩
  obtain ⟨row', hupdate, heffect⟩ := exists_update_at h.loads h.passes hplace hsound
    (store_assigned hkeys huuids hlistUuid h.content hvalid hroom) hfind
  have hself : (db.put loaded.key row').find .cards loaded.key = some row' := by
    rw [Database.find_put, if_pos rfl]
  have htext := text_positionIdx hkeys hvalid hroom heffect
  refine ⟨_, hupdate, by rw [keyAt, hself, Option.bind_some, htext], ?_⟩
  refine orderedIds_put hadjacent ?_ ((update_effect hupdate).owner _ _ _ howner) ?_ ?_
  · rw [Database.owner, hfind] at howner
    exact h.text_listId hlistId howner heffect
  · rw [sortKeyAt_of_find hrowA]
    exact sortKey_lt_of_text hkeyA htext habove
  · rw [sortKeyAt_of_find hrowB]
    exact sortKey_lt_of_text htext hkeyB hbelow

end NamesNeighbors

end CardsService

/-! ## Every reachable state -/

variable {ι : Type} [Fintype ι] [DecidableEq ι]

/-- **Neighbours with different keys can be separated.** From tables whose cards have
valid keys, whatever creates, updates, syncs and rebalances run, every card has a
valid key; and for two cards that are adjacent among the others of a list and have
different keys there is a valid key strictly between theirs, at which an update that
names them puts its card, if the column has room for it. -/
theorem adjacent_separable (hpg : TypedColumns pg) (hkeys : KeepsKeys pg)
    (huuids : TakesUuids pg) {server : ServerState pg} {calls : ι → SyncCall} {sys : System pg ι}
    (hstart : server.db.Every (Row.SoundKey : Row pg .cards → Prop))
    (hreach : Reaches (.start server calls) sys) :
    (∀ k, ∀ card : Row pg .cards, sys.server.db.find .cards k = some card →
      ∃ key, card.text "positionIdx" = some key ∧ PositionService.isValid key = true) ∧
    ∀ (orgId id : JsString) (dto : UpdateCardDto) (loaded : CardsService.LoadedCard)
      (list a b : JsString) (pre post : List JsString),
      CardsService.NamesNeighbors sys.server.db orgId id dto loaded list a b →
      (orderedIds sys.server.db .cards orgId list).filter (· ≠ loaded.key) =
        pre ++ a :: b :: post →
      keyAt sys.server.db .cards a ≠ keyAt sys.server.db .cards b →
      ∃ keyA keyB key, keyAt sys.server.db .cards a = some keyA ∧
        keyAt sys.server.db .cards b = some keyB ∧
        PositionService.keyBetween (some keyA) (some keyB) = .ok key ∧
        PositionService.isValid key = true ∧ keyA < key ∧ key < keyB ∧
        (key.length ≤ 255 → ∃ db', CardsService.update sys.server.db id orgId dto = .ok db' ∧
          keyAt db' .cards loaded.key = some key ∧
          orderedIds db' .cards orgId list = pre ++ a :: loaded.key :: b :: post) := by
  have hsound := (hreach.soundKey hpg (.start hstart)).committed
  refine ⟨fun k card hcard => (hsound k card hcard).exists_key, ?_⟩
  intro orgId id dto loaded list a b pre post h hadjacent hne
  have hascending : (orderedIds sys.server.db .cards orgId list).Pairwise fun i j =>
      sortKeyAt sys.server.db .cards i < sortKeyAt sys.server.db .cards j := orderedIds_ascending
  replace hascending := hascending.filter (· ≠ loaded.key)
  rw [hadjacent] at hascending
  have hlt : sortKeyAt sys.server.db .cards a < sortKeyAt sys.server.db .cards b :=
    (List.pairwise_cons.mp (List.pairwise_append.mp hascending).2.1).1 b List.mem_cons_self
  have hrow : ∀ j ∈ pre ++ a :: b :: post, ∃ row key, sys.server.db.find .cards j = some row ∧
      row.text "positionIdx" = some key ∧ PositionService.isValid key = true := by
    intro j hj
    rw [← hadjacent] at hj
    obtain ⟨row, hfind, -⟩ := mem_orderedIds.mp (List.mem_filter.mp hj).1
    obtain ⟨key, hkey, hvalid⟩ := (hsound j row hfind).exists_key
    exact ⟨row, key, hfind, hkey, hvalid⟩
  obtain ⟨rowA, keyA, hrowA, hkeyA, hvalidA⟩ := hrow a (by simp)
  obtain ⟨rowB, keyB, hrowB, hkeyB, hvalidB⟩ := hrow b (by simp)
  have hatA : keyAt sys.server.db .cards a = some keyA := by
    rw [keyAt, hrowA, Option.bind_some, hkeyA]
  have hatB : keyAt sys.server.db .cards b = some keyB := by
    rw [keyAt, hrowB, Option.bind_some, hkeyB]
  rw [sortKeyAt_of_find hrowA, sortKeyAt_of_find hrowB] at hlt
  have hkeyLt : keyA < keyB := by
    refine lt_of_le_of_ne (text_le_of_sortKey_lt hkeyA hkeyB hlt) fun heq => hne ?_
    rw [hatA, hatB, heq]
  have horder : base62.InOrder (some keyA) (some keyB) := by
    refine ⟨?_, ?_, ?_⟩
    · rintro _ ⟨⟩
      exact hvalidA
    · rintro _ ⟨⟩
      exact hvalidB
    · rintro _ _ ⟨⟩ ⟨⟩
      exact hkeyLt
  obtain ⟨key, hminted, hkey, habove, hbelow⟩ := horder.getIntermediateKey
  have hvalid := hkey.isValidKey base62_plain
  refine ⟨keyA, keyB, key, hatA, hatB, hminted, hvalid, habove keyA rfl, hbelow keyB rfl, ?_⟩
  intro hroom
  exact h.exists_update hkeys huuids hsound hadjacent hrowA hrowB hkeyA hkeyB hminted hvalid hroom
    (habove keyA rfl) (hbelow keyB rfl)

/-! ### Three cards of a list -/

namespace Neighbors

def before : JsString := js "00000000-0000-4000-8000-00000000000c"
def after : JsString := js "00000000-0000-4000-8000-00000000000d"
def moved : JsString := js "00000000-0000-4000-8000-00000000000e"

/-- A server whose list is empty. -/
def server : ServerState Postgres.plain where
  db := Sample.database ∅
  lastMicros := 0

/-- No sync runs. -/
def start : System Postgres.plain Empty := .start server nofun

/-- A new card, with or without a key. -/
def request (positionIdx : Option JsString) : CreateCardDto where
  content := Dict.ofList [("title", .str (js "Card"))]
  content_keys := by decide
  positionIdx := positionIdx

/-- Cards created in the list, one after the other. -/
def created (cards : List (JsString × Option JsString)) :
    Except Failure (Database Postgres.plain) :=
  cards.foldlM (fun db card =>
    CardsService.create db Sample.listId Sample.orgId card.1 0 (request card.2)) server.db

theorem reaches_created {cards : List (JsString × Option JsString)}
    (h : (created cards).isOk = true) :
    Reaches start (start.withDb (okOr (created cards) server.db)) := by
  refine foldlM_invariant (fun db => Reaches start (start.withDb db))
    (fun db card db' _ hdb hcreate => ?_) .start (eq_ok_okOr h)
  exact hdb.create db db Sample.listId Sample.orgId card.1 0 (request card.2) hcreate

/-- The request to put the third card between the other two. -/
def place : UpdateCardDto where
  content := ∅
  content_keys := UpdateCardDto.no_content
  listId := none
  positionIdx := none
  beforeCardId := some before
  afterCardId := some after

/-- The card as the request loads it. -/
def loaded (db : Database Postgres.plain) : CardsService.LoadedCard :=
  okOr (CardsService.load db moved Sample.orgId)
    { key := [], card := Sample.card.toEntity, listId := [], boardId := [] }

theorem namesNeighbors {db : Database Postgres.plain}
    (hload : (CardsService.load db moved Sample.orgId).isOk = true)
    (hlist : (loaded db).listId = Sample.listId) :
    CardsService.NamesNeighbors db Sample.orgId moved place (loaded db) Sample.listId before
      after where
  loads := eq_ok_okOr hload
  passes := if_pos rfl
  target := congrArg some hlist
  before := rfl
  after := rfl
  content _ _ hv := by simp [place] at hv

/-- Two cards appended, and a third one. -/
def appended : Database Postgres.plain :=
  okOr (created [(before, none), (after, none), (moved, none)]) server.db

theorem appended_cards :
    (created [(before, none), (after, none), (moved, none)]).isOk = true ∧
      (CardsService.load appended moved Sample.orgId).isOk = true ∧
      (loaded appended).listId = Sample.listId ∧
      (orderedIds appended .cards Sample.orgId Sample.listId).filter (· ≠ (loaded appended).key) =
        [before, after] ∧
      (loaded appended).key = moved ∧ keyAt appended .cards before = some (js "M") ∧
      keyAt appended .cards after = some (js "g") := by
  decide +kernel

/-- Two cards with one key. -/
def collided : Database Postgres.plain :=
  okOr (created [(before, some (js "M")), (after, some (js "M"))]) server.db

theorem collided_cards :
    (created [(before, some (js "M")), (after, some (js "M"))]).isOk = true ∧
      orderedIds collided .cards Sample.orgId Sample.listId = [before, after] ∧
      keyAt collided .cards before = keyAt collided .cards after := by
  decide +kernel

/-- A key that fills its column. -/
def longKey : JsString := js "M" ++ List.replicate 254 122

/-- Two cards with nothing between them that fits, and a third one. -/
def crowded : Database Postgres.plain :=
  okOr (created [(before, some longKey), (after, some (js "N")), (moved, some (js "P"))]) server.db

theorem crowded_cards :
    (created [(before, some longKey), (after, some (js "N")), (moved, some (js "P"))]).isOk =
        true ∧
      (CardsService.load crowded moved Sample.orgId).isOk = true ∧
      (loaded crowded).listId = Sample.listId ∧
      orderedIds crowded .cards Sample.orgId Sample.listId = [before, after, moved] ∧
      keyAt crowded .cards before ≠ keyAt crowded .cards after ∧
      (CardsService.update crowded moved Sample.orgId place).isOk = false := by
  decide +kernel

theorem plain_takesUuids : TakesUuids Postgres.plain := by
  intro c s k _
  cases c <;> rfl

theorem server_soundKey : server.db.Every (Row.SoundKey : Row Postgres.plain .cards → Prop) := by
  intro k row hrow
  cases hrow

end Neighbors

/-- The third card goes between the first two. -/
theorem appended_separable : ∃ db', CardsService.update Neighbors.appended Neighbors.moved
      Sample.orgId Neighbors.place = .ok db' ∧
    orderedIds db' .cards Sample.orgId Sample.listId =
      [Neighbors.before, Neighbors.moved, Neighbors.after] := by
  obtain ⟨hok, hload, hlist, hadjacent, hkey, hM, hg⟩ := Neighbors.appended_cards
  have hreach : Reaches Neighbors.start (Neighbors.start.withDb Neighbors.appended) :=
    Neighbors.reaches_created hok
  obtain ⟨-, hseparable⟩ := adjacent_separable plain_typedColumns plain_keepsKeys
    Neighbors.plain_takesUuids Neighbors.server_soundKey hreach
  rw [System.withDb_db] at hseparable
  have hne : keyAt Neighbors.appended .cards Neighbors.before ≠
      keyAt Neighbors.appended .cards Neighbors.after := by
    rw [hM, hg]
    decide
  obtain ⟨keyA, keyB, key, hkeyA, hkeyB, hminted, -, -, -, hput⟩ :=
    hseparable Sample.orgId Neighbors.moved Neighbors.place (Neighbors.loaded Neighbors.appended)
      Sample.listId Neighbors.before Neighbors.after [] []
      (Neighbors.namesNeighbors hload hlist) hadjacent hne
  have hW : PositionService.keyBetween (some (js "M")) (some (js "g")) = .ok (js "W") := by decide
  obtain rfl : js "M" = keyA := Option.some.inj (hM.symm.trans hkeyA)
  obtain rfl : js "g" = keyB := Option.some.inj (hg.symm.trans hkeyB)
  obtain rfl : js "W" = key := Except.ok.inj (hW.symm.trans hminted)
  obtain ⟨db', hupdate, -, horder⟩ := hput (by decide)
  refine ⟨db', hupdate, ?_⟩
  rw [horder, hkey]
  rfl

/-- Two cards that are created with the same key are adjacent, and share it; and a key
between two that differ need not fit its column. -/
theorem adjacent_collide :
    (¬ ∀ (server : ServerState Postgres.plain) (sys : System Postgres.plain Empty),
      server.db.table .cards = ∅ → Reaches (.start server nofun) sys →
      ∀ (orgId list a b : JsString) (pre post : List JsString),
        orderedIds sys.server.db .cards orgId list = pre ++ a :: b :: post →
        keyAt sys.server.db .cards a ≠ keyAt sys.server.db .cards b) ∧
    ¬ ∀ (server : ServerState Postgres.plain) (sys : System Postgres.plain Empty),
      server.db.table .cards = ∅ → Reaches (.start server nofun) sys →
      ∀ (orgId id : JsString) (dto : UpdateCardDto) (loaded : CardsService.LoadedCard)
        (list a b : JsString) (pre post : List JsString),
        CardsService.NamesNeighbors sys.server.db orgId id dto loaded list a b →
        orderedIds sys.server.db .cards orgId list = pre ++ a :: b :: post →
        keyAt sys.server.db .cards a ≠ keyAt sys.server.db .cards b →
        (CardsService.update sys.server.db id orgId dto).isOk = true := by
  constructor
  · intro hclaim
    obtain ⟨hok, horder, hsame⟩ := Neighbors.collided_cards
    have hreach : Reaches Neighbors.start (Neighbors.start.withDb Neighbors.collided) :=
      Neighbors.reaches_created hok
    have hdiffer := hclaim Neighbors.server _ rfl hreach
    rw [System.withDb_db] at hdiffer
    exact hdiffer Sample.orgId Sample.listId Neighbors.before Neighbors.after [] [] horder hsame
  · intro hclaim
    obtain ⟨hok, hload, hlist, horder, hne, hrejected⟩ := Neighbors.crowded_cards
    have hreach : Reaches Neighbors.start (Neighbors.start.withDb Neighbors.crowded) :=
      Neighbors.reaches_created hok
    have hupdates := hclaim Neighbors.server _ rfl hreach
    rw [System.withDb_db] at hupdates
    have hupdated := hupdates Sample.orgId Neighbors.moved Neighbors.place
      (Neighbors.loaded Neighbors.crowded) Sample.listId Neighbors.before Neighbors.after []
      [Neighbors.moved] (Neighbors.namesNeighbors hload hlist) horder hne
    exact absurd (hupdated.symm.trans hrejected) (by decide)

end FlowLogix.Server

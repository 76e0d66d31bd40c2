/-
  Server/WebEffects.lean --- what the web write paths do to each row.

  `saveRow_eq_ok` reads a save back column by column.  Saved over the row it was
  loaded from, an entity changes only the properties that were assigned to it,
  and no writer assigns the sync metadata: `WebEffect` records that every row
  keeps its clocks and its tombstone, and that no record leaves its
  organization.
-/
import FlowLogix.Server.Crud
import FlowLogix.Server.SyncEffects

set_option autoImplicit false

namespace FlowLogix.Server

open FlowLogix.Foundation FlowLogix.Ordering

variable {pg : Postgres} {c : SyncCollection}

/-! ## Saving -/

/-- After a save every column of the entity holds its in-memory value. -/
theorem saveRow_eq_ok {current row' : Row pg c} {entity : Entity}
    (h : saveRow current entity = .ok row') :
    (∀ field v, entity.columns.lookup field = some v →
        ∃ w, pg.store c field v = some w ∧ row'.columns.lookup field = some w) ∧
      (∀ field, entity.columns.lookup field = none →
        row'.columns.lookup field = current.columns.lookup field) ∧
      row'.syncClocks = entity.syncClocks ∧ row'.syncDeletedAt = entity.syncDeletedAt := by
  obtain ⟨mid, hmid, hsync⟩ := bind_eq_ok.mp h
  obtain ⟨hcolumns, hclocks, hdeleted, -⟩ := Row.writeSync_eq_ok hsync
  have hmem : ∀ field v, (field, v) ∈ (entity.columns.entries.map fun e => (e.1, e.2)).filter
      (fun p => current.columns.lookup p.1 ≠ some p.2) ↔
        entity.columns.lookup field = some v ∧ current.columns.lookup field ≠ some v := by
    intro field v
    rw [List.mem_filter, Dict.mem_pairs, decide_eq_true_iff]
  have hnodup : (((entity.columns.entries.map fun e => (e.1, e.2)).filter
      (fun p => current.columns.lookup p.1 ≠ some p.2)).map Prod.fst).Nodup := by
    exact List.Nodup.sublist (List.Sublist.map _ List.filter_sublist) (Dict.nodup_keys_pairs _)
  obtain ⟨hin, hout, -⟩ := Row.writeColumns_eq_ok hnodup hmid
  have hkept : ∀ field, (∀ v, entity.columns.lookup field = some v →
      current.columns.lookup field = some v) →
        row'.columns.lookup field = current.columns.lookup field := by
    intro field hfield
    rw [hcolumns]
    refine hout field fun hkey => ?_
    obtain ⟨⟨key, v⟩, hpair, rfl⟩ := List.mem_map.mp hkey
    obtain ⟨hv, hne⟩ := (hmem key v).mp hpair
    exact hne (hfield v hv)
  refine ⟨?_, ?_, hclocks, hdeleted⟩
  · intro field v hv
    by_cases heq : current.columns.lookup field = some v
    · refine ⟨v, current.stored field v heq, ?_⟩
      rw [hkept field fun u hu => ?_, heq]
      rw [heq, ← hv, hu]
    · rw [hcolumns]
      exact hin field v ((hmem field v).mpr ⟨hv, heq⟩)
  · intro field hnone
    refine hkept field fun v hv => ?_
    rw [hnone] at hv
    cases hv

/-- Every column of the row holds what it makes of the entity's value in memory. -/
def Stores (row : Row pg c) (entity : Entity) : Prop :=
  ∀ field v, entity.columns.lookup field = some v →
    ∃ w, pg.store c field v = some w ∧ row.columns.lookup field = some w

/-- An inserted entity is stored. -/
theorem insertEntity_eq_ok {entity : Entity} {row : Row pg c}
    (h : insertEntity c entity = .ok row) : Stores row entity ∧ row.FitsColumns := by
  obtain ⟨cols, hcols, h⟩ := bind_eq_ok.mp h
  obtain ⟨mid, hmid, hsync⟩ := bind_eq_ok.mp h
  obtain ⟨hin, -⟩ := Columns.writeAll_eq_ok (Dict.nodup_keys_pairs entity.columns) hcols
  refine ⟨fun field v hv => ?_, Row.writeSync_fitsColumns hsync⟩
  rw [(Row.writeSync_eq_ok hsync).1, Row.ofColumns_eq_ok hmid]
  exact hin field v (Dict.mem_pairs.mpr hv)

/-- A saved entity is stored, whether its row is still there or not. -/
theorem saveEntity_stores {db db' : Database pg} {k : JsString} {entity : Entity}
    (h : saveEntity db c k entity = .ok db') :
    ∃ row : Row pg c, db' = db.put k row ∧ Stores row entity ∧ row.FitsColumns := by
  unfold saveEntity at h
  cases hfind : db.find c k with
  | some current =>
      rw [hfind] at h
      obtain ⟨row, hrow, hput⟩ := bind_eq_ok.mp h
      obtain ⟨mid, -, hsync⟩ := bind_eq_ok.mp hrow
      exact ⟨row, (Except.ok.inj hput).symm, (saveRow_eq_ok hrow).1,
        Row.writeSync_fitsColumns hsync⟩
  | none =>
      rw [hfind] at h
      obtain ⟨row, hrow, hput⟩ := bind_eq_ok.mp h
      exact ⟨row, (Except.ok.inj hput).symm, insertEntity_eq_ok hrow⟩

/-- A row saved over itself: the assigned properties take their values, the others
and the sync metadata stay. -/
structure SaveEffect (row row' : Row pg c) (values : JsObject Json) : Prop where
  assigned : ∀ field v, values.lookup field = some v →
    ∃ w, pg.store c field v = some w ∧ row'.columns.lookup field = some w
  kept : ∀ field, field ∉ values →
    row'.columns.lookup field = row.columns.lookup field
  clocks : row'.syncClocks = row.syncClocks
  tombstone : row'.syncDeletedAt = row.syncDeletedAt

theorem saveEntity_eq_ok {db db' : Database pg} {k : JsString} {row : Row pg c}
    {values : JsObject Json} (hfind : db.find c k = some row)
    (h : saveEntity db c k (row.toEntity.assign values) = .ok db') :
    ∃ row', db' = db.put k row' ∧ SaveEffect row row' values := by
  unfold saveEntity at h
  rw [hfind] at h
  obtain ⟨row', hsave, hput⟩ := bind_eq_ok.mp h
  obtain ⟨hin, hout, hclocks, hdeleted⟩ := saveRow_eq_ok hsave
  have hlookup : ∀ field, (row.toEntity.assign values).columns.lookup field =
      (values.lookup field).or (row.columns.lookup field) :=
    fun field => Dict.lookup_assign _ _ _
  refine ⟨row', (Except.ok.inj hput).symm, ?_, ?_, hclocks, hdeleted⟩
  · intro field v hv
    exact hin field v (by rw [hlookup, hv, Option.some_or])
  · intro field hf
    have hentity := hlookup field
    rw [AList.lookup_eq_none.mpr hf, Option.none_or] at hentity
    cases hv : row.columns.lookup field with
    | none => rw [hout field (hentity.trans hv), hv]
    | some v =>
        obtain ⟨w, hstore, hw⟩ := hin field v (hentity.trans hv)
        rw [row.stored field v hv] at hstore
        rw [hw, hstore]

/-! ## Web writes -/

/-- What every web write leaves alone. -/
structure WebEffect (db db' : Database pg) : Prop where
  rows : ∀ c k (row : Row pg c), db.find c k = some row →
    ∃ row', db'.find c k = some row' ∧ row'.syncClocks = row.syncClocks ∧
      row'.syncDeletedAt = row.syncDeletedAt
  owner : ∀ c k o, db.owner c k = some o → db'.owner c k = some o

namespace WebEffect

variable {db db' db'' : Database pg}

theorem refl (db : Database pg) : WebEffect db db where
  rows _ _ row h := ⟨row, h, rfl, rfl⟩
  owner _ _ _ h := h

theorem trans (h : WebEffect db db') (h' : WebEffect db' db'') : WebEffect db db'' where
  rows c k row hrow := by
    obtain ⟨row', hrow', hclocks, hdeleted⟩ := h.rows c k row hrow
    obtain ⟨row'', hrow'', hclocks', hdeleted'⟩ := h'.rows c k row' hrow'
    exact ⟨row'', hrow'', hclocks'.trans hclocks, hdeleted'.trans hdeleted⟩
  owner c k o ho := h'.owner c k o (h.owner c k o ho)

/-- Replacing one row by one with the same metadata and owner. -/
theorem put {k : JsString} {row row' : Row pg c} (hfind : db.find c k = some row)
    (hclocks : row'.syncClocks = row.syncClocks)
    (hdeleted : row'.syncDeletedAt = row.syncDeletedAt)
    (hparent : ∀ o, db.parentOrg c row = some o → db.parentOrg c row' = some o) :
    WebEffect db (db.put k row') where
  rows c' j r hr := by
    by_cases hc : c' = c
    · subst hc
      rw [Database.find_put]
      by_cases hj : j = k
      · subst hj
        obtain rfl : r = row := Option.some.inj (hr.symm.trans hfind)
        exact ⟨row', if_pos rfl, hclocks, hdeleted⟩
      · exact ⟨r, by rw [if_neg hj, hr], rfl, rfl⟩
    · exact ⟨r, by rw [Database.find_put_of_ne _ _ _ _ hc, hr], rfl, rfl⟩
  owner c' j o ho := by
    refine Database.owner_put (fun o ho' => hparent o ?_) ho
    rwa [Database.owner, hfind] at ho'

/-- A save over the loaded row that assigns no parent. -/
theorem of_saveEntity {k : JsString} {row : Row pg c} {values : JsObject Json}
    (hfind : db.find c k = some row) (hparent : parentProperty c ∉ values)
    (h : saveEntity db c k (row.toEntity.assign values) = .ok db') : WebEffect db db' := by
  obtain ⟨row', rfl, heffect⟩ := saveEntity_eq_ok hfind h
  refine put hfind heffect.clocks heffect.tombstone fun o ho => ?_
  rwa [db.parentOrg_eq_of_lookup (heffect.kept _ hparent)]

end WebEffect

section Writers

variable {db db' : Database pg} {id orgId k : JsString}

theorem assertInOrg_eq_ok {message : JsString} {row : Row pg c}
    (h : assertInOrg db c id orgId message = .ok (k, row)) :
    pg.uuid id = some k ∧ db.owner c k = some orgId ∧ db.find c k = some row := by
  obtain ⟨found, hload, h⟩ := bind_eq_ok.mp h
  obtain ⟨k', hk', ⟨row', rfl, howner, hfind⟩ | ⟨rfl, -⟩⟩ := Database.load_eq_ok hload
  · cases h
    exact ⟨hk', howner, hfind⟩
  · cases h

theorem BoardsService.update_effect {dto : UpdateBoardDto}
    (h : BoardsService.update db id orgId dto = .ok db') : WebEffect db db' := by
  obtain ⟨-, -, h⟩ := bind_eq_ok.mp h
  obtain ⟨⟨k, row⟩, hfound, hsave⟩ := bind_eq_ok.mp h
  obtain ⟨-, -, hfind⟩ := assertInOrg_eq_ok hfound
  refine .of_saveEntity hfind (fun hmem => ?_) hsave
  exact absurd (dto.content_keys _ (AList.mem_keys.mp hmem)) (by decide)

theorem ListsService.update_effect {dto : UpdateListDto}
    (h : ListsService.update db id orgId dto = .ok db') : WebEffect db db' := by
  obtain ⟨⟨k, row⟩, hfound, h⟩ := bind_eq_ok.mp h
  obtain ⟨-, -, hsave⟩ := bind_eq_ok.mp h
  obtain ⟨-, -, hfind⟩ := assertInOrg_eq_ok hfound
  refine .of_saveEntity hfind (fun hmem => ?_) hsave
  exact absurd (dto.content_keys _ (AList.mem_keys.mp hmem)) (by decide)

/-- The four stages of a card update that commits. -/
theorem CardsService.updateAcross_eq_ok {loadDb targetDb placeDb saveDb : Database pg}
    {dto : UpdateCardDto}
    (h : CardsService.updateAcross loadDb targetDb placeDb saveDb id orgId dto = .ok db') :
    ∃ loaded next, CardsService.load loadDb id orgId = .ok loaded ∧
      CardsService.checkTarget targetDb orgId dto loaded = .ok () ∧
      CardsService.place placeDb id dto loaded = .ok next ∧
      saveEntity saveDb .cards loaded.key
        (loaded.card.assign (CardsService.assigned dto next)) = .ok db' := by
  obtain ⟨loaded, hload, h⟩ := bind_eq_ok.mp h
  obtain ⟨⟨⟩, htarget, h⟩ := bind_eq_ok.mp h
  obtain ⟨next, hplace, hsave⟩ := bind_eq_ok.mp h
  exact ⟨loaded, next, hload, htarget, hplace, hsave⟩

/-- What a card update loads. -/
theorem CardsService.load_eq_ok {loaded : CardsService.LoadedCard}
    (h : CardsService.load db id orgId = .ok loaded) :
    ∃ row : Row pg .cards, pg.uuid id = some loaded.key ∧
      db.owner .cards loaded.key = some orgId ∧ db.find .cards loaded.key = some row ∧
      loaded.card = row.toEntity ∧ loaded.listId = (row.text "listId").getD [] := by
  obtain ⟨⟨k, row⟩, hfound, h⟩ := bind_eq_ok.mp h
  obtain rfl := Except.ok.inj h
  obtain ⟨hk, howner, hfind⟩ := assertInOrg_eq_ok hfound
  exact ⟨row, hk, howner, hfind, rfl, rfl⟩

/-- A property the request's content does not declare is not in it. -/
theorem CardsService.lookup_content_eq_none (dto : UpdateCardDto) {property : String}
    (h : property ∉ ["title", "description", "dueDate", "customFields", "isComplete",
      "isArchived"]) : dto.content.lookup property = none :=
  AList.lookup_eq_none.mpr fun hmem => h (dto.content_keys _ (AList.mem_keys.mp hmem))

/-- The list a card update assigns. -/
theorem CardsService.lookup_assigned_listId (dto : UpdateCardDto) (next : Option JsString) :
    (CardsService.assigned dto next).lookup "listId" = dto.listId.map .str := by
  rw [CardsService.assigned, Dict.lookup_assign,
    CardsService.lookup_content_eq_none dto (by decide), Option.or_none]
  cases dto.listId <;> cases next <;>
    simp [Dict.ofList, Dict.lookup_singleton_eq]

/-- The position a card update assigns. -/
theorem CardsService.lookup_assigned_positionIdx (dto : UpdateCardDto)
    (next : Option JsString) :
    (CardsService.assigned dto next).lookup "positionIdx" = next.map .str := by
  rw [CardsService.assigned, Dict.lookup_assign,
    CardsService.lookup_content_eq_none dto (by decide), Option.or_none]
  cases dto.listId <;> cases next <;>
    simp [Dict.ofList, Dict.lookup_singleton_eq]

/-- The content a card update assigns. -/
theorem CardsService.lookup_assigned_content (dto : UpdateCardDto) (next : Option JsString)
    {property : String} (hlist : property ≠ "listId") (hposition : property ≠ "positionIdx") :
    (CardsService.assigned dto next).lookup property = dto.content.lookup property := by
  rw [CardsService.assigned, Dict.lookup_assign]
  cases dto.listId <;> cases next <;>
    simp [Dict.ofList, Dict.lookup_singleton_eq, hlist, hposition]

/-- A list that passes the target check is the card's own, or in the
organization. -/
theorem CardsService.owner_of_checkTarget {dto : UpdateCardDto}
    {loaded : CardsService.LoadedCard} {listId : JsString}
    (h : CardsService.checkTarget db orgId dto loaded = .ok ()) (hlist : dto.listId = some listId) :
    listId = loaded.listId ∨ ∃ l, pg.uuid listId = some l ∧ db.owner .lists l = some orgId := by
  unfold CardsService.checkTarget CardsService.targetListId at h
  rw [hlist, Option.getD_some] at h
  by_cases heq : listId = loaded.listId
  · exact Or.inl heq
  · rw [if_neg heq] at h
    obtain ⟨⟨l, list⟩, hfound, -⟩ := bind_eq_ok.mp h
    obtain ⟨hl, howner, -⟩ := assertInOrg_eq_ok hfound
    exact Or.inr ⟨l, hl, howner⟩

theorem CardsService.update_effect {dto : UpdateCardDto}
    (h : CardsService.update db id orgId dto = .ok db') : WebEffect db db' := by
  obtain ⟨loaded, next, hload, htarget, -, hsave⟩ := CardsService.updateAcross_eq_ok h
  obtain ⟨row, -, howner, hfind, hcard, hlistId⟩ := CardsService.load_eq_ok hload
  rw [hcard] at hsave
  obtain ⟨row', rfl, heffect⟩ := saveEntity_eq_ok hfind hsave
  refine .put hfind heffect.clocks heffect.tombstone fun o ho => ?_
  rw [Database.owner, hfind] at howner
  obtain rfl : orgId = o := Option.some.inj (howner.symm.trans ho)
  have hassigned := CardsService.lookup_assigned_listId dto next
  cases hdto : dto.listId with
  | none =>
      rw [hdto, Option.map_none] at hassigned
      rwa [db.parentOrg_eq_of_lookup (heffect.kept _ (AList.lookup_eq_none.mp hassigned))]
  | some listId =>
      rw [hdto, Option.map_some] at hassigned
      obtain ⟨w, hstore, hw⟩ := heffect.assigned _ _ hassigned
      refine Database.parentOrg_of_store hstore hw fun k hk => ?_
      rcases CardsService.owner_of_checkTarget htarget hdto with heq | ⟨l, hl, hown⟩
      · obtain ⟨l, hl, horg⟩ := Option.bind_eq_some_iff.mp ho
        rw [show row.text "listId" = some l from hl, Option.getD_some] at hlistId
        rw [heq, hlistId] at hk
        rw [Row.text_eq_uuid hl] at hk
        exact Option.some.inj hk ▸ horg
      · obtain rfl : l = k := Option.some.inj (hl.symm.trans hk)
        rwa [Database.owner_lists] at hown

namespace PositionRebalanceService

theorem writeKey_effect {pair : JsString × JsString} (h : writeKey c db pair = .ok db') :
    WebEffect db db' := by
  unfold writeKey at h
  split at h
  · exact Except.ok.inj h ▸ .refl db
  · rename_i row hfind
    obtain ⟨row', hwrite, hput⟩ := bind_eq_ok.mp h
    obtain rfl := Except.ok.inj hput
    have hnodup : ([("positionIdx", Json.str pair.2)].map Prod.fst).Nodup := by simp
    obtain ⟨-, hout, hclocks, hdeleted⟩ := Row.writeColumns_eq_ok hnodup hwrite
    refine .put hfind hclocks hdeleted fun o ho => ?_
    have hne : parentProperty c ∉ ["positionIdx"] := by cases c <;> decide
    rwa [db.parentOrg_eq_of_lookup (hout _ hne)]

theorem rebalanceParent_effect {parent : JsString}
    (h : rebalanceParent c orgId db parent = .ok db') : WebEffect db db' := by
  obtain ⟨keys, -, hwrites⟩ := bind_eq_ok.mp h
  exact foldlM_invariant (WebEffect db) (fun _ _ _ _ hb hwrite => hb.trans (writeKey_effect hwrite))
    (.refl db) hwrites

theorem rebalanceTable_effect {result : TableRebalance pg}
    (h : rebalanceTable c orgId db = .ok result) : WebEffect db result.db := by
  refine foldlM_invariant (fun acc : TableRebalance pg => WebEffect db acc.db) ?_ (.refl db) h
  intro acc parent acc' _ hacc hnext
  obtain ⟨mid, hparent, hnext⟩ := bind_eq_ok.mp hnext
  obtain rfl := Except.ok.inj hnext
  exact hacc.trans (rebalanceParent_effect hparent)

theorem rebalanceOverlongColumns_effect {locked : Bool} {orgs : List JsString}
    {result : RebalanceResult pg} (h : rebalanceOverlongColumns db locked orgs = .ok result) :
    WebEffect db result.db := by
  unfold rebalanceOverlongColumns at h
  split at h
  · refine foldlM_invariant (fun acc : RebalanceResult pg => WebEffect db acc.db) ?_ (.refl db) h
    intro acc orgId acc' _ hacc hnext
    obtain ⟨lists, hlists, hnext⟩ := bind_eq_ok.mp hnext
    obtain ⟨cards, hcards, hnext⟩ := bind_eq_ok.mp hnext
    obtain rfl := Except.ok.inj hnext
    exact (hacc.trans (rebalanceTable_effect hlists)).trans (rebalanceTable_effect hcards)
  · obtain rfl := Except.ok.inj h
    exact .refl db

end PositionRebalanceService

/-- The web writers. -/
inductive WebWrite (orgId : JsString) (db db' : Database pg) : Prop where
  | board (id : JsString) (dto : UpdateBoardDto)
      (h : BoardsService.update db id orgId dto = .ok db')
  | list (id : JsString) (dto : UpdateListDto)
      (h : ListsService.update db id orgId dto = .ok db')
  | card (id : JsString) (dto : UpdateCardDto)
      (h : CardsService.update db id orgId dto = .ok db')
  | rebalance (locked : Bool) (orgs : List JsString)
      (result : PositionRebalanceService.RebalanceResult pg)
      (h : PositionRebalanceService.rebalanceOverlongColumns db locked orgs = .ok result)
      (hdb : result.db = db')

theorem WebWrite.effect (h : WebWrite orgId db db') : WebEffect db db' := by
  cases h with
  | board id dto h => exact BoardsService.update_effect h
  | list id dto h => exact ListsService.update_effect h
  | card id dto h => exact CardsService.update_effect h
  | rebalance locked orgs result h hdb =>
      subst hdb
      exact PositionRebalanceService.rebalanceOverlongColumns_effect h

end Writers

end FlowLogix.Server

/-
  Server/KeyRoom.lean --- whether a minted key fits its column
  (backend/src/cards/cards.service.ts, lists/lists.service.ts, sync/sync.service.ts
  and the `position_idx` columns of cards/card.entity.ts, lists/list.entity.ts).

  A client may send any valid key of up to 255 characters, and that is as much as the
  column holds.  A key between two others is as short as one can be, so a minted key
  fits just where some key does (`Mint.HasRoom`): not after a key of 255 `z`, nor
  between two long keys that leave nothing shorter.  A call that is valid otherwise
  then goes through just where there is room.
-/
import FlowLogix.Ordering.ShortestKey
import FlowLogix.Server.BoardEndpoints
import FlowLogix.Server.NeighborPlacement

set_option autoImplicit false

namespace FlowLogix.Server

open FlowLogix.Foundation FlowLogix.Ordering
open PositionRebalanceService (KeepsKeys plain_keepsKeys)

variable {pg : Postgres} {c : SyncCollection} {db : Database pg}

/-! ## Minting -/

/-- A key the services make up. -/
inductive Mint where
  /-- after the last key of a parent -/
  | append (c : SyncCollection) (parentId : JsString)
  /-- between two cards of a list -/
  | between (cardId listId : JsString) (beforeCardId afterCardId : Option JsString)

namespace Mint

/-- The collection the key is for. -/
def collection : Mint → SyncCollection
  | append c _ => c
  | between .. => .cards

/-- `resolvePositionKey` without a key of the client, `resolvePositionFromNeighbors`. -/
def run (db : Database pg) : Mint → Except Failure JsString
  | append c parentId => resolvePositionKey db c parentId none
  | between cardId listId beforeCardId afterCardId =>
      CardsService.resolvePositionFromNeighbors db cardId listId beforeCardId afterCardId

/-- The key of a card, if there is one. -/
def keyOf (db : Database pg) (cardId : Option JsString) : Option JsString :=
  ((cardId.bind pg.uuid).bind (db.find .cards)).bind (·.text "positionIdx")

/-- The key the new one has to be above. -/
def prev (db : Database pg) : Mint → Option JsString
  | append c parentId => (pg.uuid parentId).bind (db.lastKey c)
  | between _ _ beforeCardId _ => keyOf db beforeCardId

/-- The key the new one has to be below. -/
def next (db : Database pg) : Mint → Option JsString
  | append .. => none
  | between _ _ _ afterCardId => keyOf db afterCardId

/-- Some valid key that the column has room for lies between the two. -/
def HasRoom (db : Database pg) (m : Mint) : Prop :=
  ∃ key, PositionService.isValid key = true ∧ charLength key ≤ 255 ∧
    (∀ p, m.prev db = some p → p < key) ∧ ∀ n, m.next db = some n → key < n

end Mint

theorem CardsService.neighborKey_eq {listId : JsString} {label : String}
    {cardId key : Option JsString}
    (h : CardsService.neighborKey db listId label cardId = .ok key) :
    key = Mint.keyOf db cardId := by
  cases cardId with
  | none => exact (Except.ok.inj h).symm
  | some cardId =>
      obtain ⟨k, hk, h⟩ := bind_eq_ok.mp h
      obtain ⟨l, -, h⟩ := bind_eq_ok.mp h
      have hk : pg.uuid cardId = some k := key_eq_ok hk
      split at h
      · rename_i card hcard
        obtain rfl := Except.ok.inj h
        have hfind : db.find .cards k = some card := by
          cases hrow : db.find .cards k with
          | none => simp [hrow] at hcard
          | some row =>
              rw [hrow, Option.filter_eq_some_iff] at hcard
              exact hcard.1
        simp [Mint.keyOf, hk, hfind]
      · cases h

namespace Mint

variable {m : Mint} {key : JsString}

/-- What is minted lies between the two keys. -/
theorem keyBetween_of_run (h : m.run db = .ok key) :
    PositionService.keyBetween (m.prev db) (m.next db) = .ok key := by
  cases m with
  | append c parentId => exact mapError_eq_ok.mp h
  | between cardId listId beforeCardId afterCardId =>
      have h : CardsService.resolvePositionFromNeighbors db cardId listId beforeCardId
        afterCardId = .ok key := h
      rw [CardsService.resolvePositionFromNeighbors_eq] at h
      split at h
      · cases h
      split at h
      · cases h
      obtain ⟨prevKey, hprev, h⟩ := bind_eq_ok.mp h
      obtain ⟨nextKey, hnext, h⟩ := bind_eq_ok.mp h
      rw [prev, next, ← CardsService.neighborKey_eq hprev, ← CardsService.neighborKey_eq hnext]
      exact mapError_eq_ok.mp h

theorem isKey_of_run (h : m.run db = .ok key) : base62.IsKey key :=
  FractionalIndexer.isKey_of_getIntermediateKey (keyBetween_of_run h)

/-- What is minted fits just where a key between the two does. -/
theorem fits_iff (h : m.run db = .ok key) : charLength key ≤ 255 ↔ m.HasRoom db := by
  have hkey := isKey_of_run h
  have hminted := keyBetween_of_run h
  constructor
  · intro hfits
    obtain ⟨key', hkey', -, habove, hbelow⟩ :=
      (FractionalIndexer.inOrder_of_getIntermediateKey hminted).getIntermediateKey
    obtain rfl : key = key' := Except.ok.inj (hminted.symm.trans hkey')
    exact ⟨key, hkey.isValidKey base62_plain, hfits, habove, hbelow⟩
  · rintro ⟨other, hvalid, hfits, habove, hbelow⟩
    have hother := FractionalIndexer.isKey_of_isValidKey hvalid
    have hshort := FractionalIndexer.getIntermediateKey_shortest hminted hother habove hbelow
    rw [hkey.charLength_eq base62_plain]
    rw [hother.charLength_eq base62_plain] at hfits
    omega

end Mint

/-- `varchar(255)`: a key that fits is kept, and a longer one is rejected. -/
structure KeyColumn (pg : Postgres) : Prop where
  keeps : KeepsKeys pg
  bounded : ∀ c s w, pg.store c "positionIdx" (.str s) = some w → charLength s ≤ 255

/-- The column takes what is minted just where there is room. -/
theorem KeyColumn.stores_iff (hcolumn : KeyColumn pg) {m : Mint} {key : JsString}
    (h : m.run db = .ok key) :
    (pg.store c "positionIdx" (.str key)).isSome = true ↔ m.HasRoom db := by
  rw [← Mint.fits_iff h]
  have hkey := Mint.isKey_of_run h
  constructor
  · intro hstore
    obtain ⟨w, hw⟩ := Option.isSome_iff_exists.mp hstore
    exact hcolumn.bounded c key w hw
  · intro hfits
    rw [hkey.charLength_eq base62_plain] at hfits
    rw [hcolumn.keeps c key (hkey.isValidKey base62_plain) hfits]
    rfl

/-! ## Rows written with another key -/

theorem Columns.exists_writeAll_iff {values : List (String × Json)} (cols : Columns pg c) :
    (∃ cols', cols.writeAll values = .ok cols') ↔
      ∀ pair ∈ values, (pg.store c pair.1 pair.2).isSome = true := by
  refine ⟨?_, cols.exists_writeAll⟩
  rintro ⟨cols', h⟩
  induction values generalizing cols with
  | nil => simp
  | cons pair rest ih =>
      rw [writeAll, List.foldlM_cons] at h
      obtain ⟨mid, hmid, hrest⟩ := bind_eq_ok.mp h
      obtain ⟨w, hstore, -⟩ := write_eq_ok hmid
      exact List.forall_mem_cons.mpr ⟨by rw [hstore]; rfl, ih mid hrest⟩

theorem Columns.mem_writeAll_iff {values : List (String × Json)} {cols cols' : Columns pg c}
    (h : cols.writeAll values = .ok cols') (field : String) :
    field ∈ cols'.columns ↔ field ∈ cols.columns ∨ field ∈ values.map Prod.fst := by
  induction values generalizing cols with
  | nil =>
      obtain rfl : cols = cols' := Except.ok.inj h
      simp
  | cons pair rest ih =>
      rw [writeAll, List.foldlM_cons] at h
      obtain ⟨mid, hmid, hrest⟩ := bind_eq_ok.mp h
      obtain ⟨w, -, hcolumns⟩ := write_eq_ok hmid
      rw [ih hrest, hcolumns, AList.mem_insert, List.map_cons, List.mem_cons]
      tauto

/-- A new row is written when every column takes its value, no synced column is missing
and the sync metadata fits. -/
theorem exists_newRow_iff {values : List (String × Json)} {createdAt : Int}
    {clocks : JsObject Clock} {nodeId : Option JsString} {deletedAt : Option Clock} :
    (∃ row : Row pg c, (do
        let cols : Columns pg c ← Columns.empty.writeAll values
        let row ← Row.ofColumns createdAt cols
        row.writeSync clocks nodeId deletedAt) = .ok row) ↔
      (∀ pair ∈ values, (pg.store c pair.1 pair.2).isSome = true) ∧
        (∀ field ∈ syncFields c, field ∈ values.map Prod.fst) ∧
        ((nodeId.all fun n => decide (charLength n ≤ 64)) && deletedAt.all isBigint) = true := by
  constructor
  · rintro ⟨row, h⟩
    obtain ⟨cols, hcols, h⟩ := bind_eq_ok.mp h
    obtain ⟨mid, hmid, hsync⟩ := bind_eq_ok.mp h
    refine ⟨(Columns.exists_writeAll_iff _).mp ⟨cols, hcols⟩, fun field hf => ?_, ?_⟩
    · have hmem : field ∈ cols.columns := Row.ofColumns_eq_ok hmid ▸ mid.complete field hf
      simpa [Columns.empty] using (Columns.mem_writeAll_iff hcols field).mp hmem
    · unfold Row.writeSync at hsync
      split at hsync
      · assumption
      · cases hsync
  · rintro ⟨hstores, hcomplete, hsync⟩
    obtain ⟨cols, hcols⟩ := (Columns.exists_writeAll_iff (.empty : Columns pg c)).mpr hstores
    have hfields : ∀ field ∈ syncFields c, field ∈ cols.columns := fun field hf =>
      (Columns.mem_writeAll_iff hcols field).mpr (Or.inr (hcomplete field hf))
    exact ⟨_, bind_eq_ok.mpr ⟨cols, hcols, bind_eq_ok.mpr ⟨_, dif_pos hfields, if_pos hsync⟩⟩⟩

/-! ## Calls -/

/-- The calls that may store a key they mint. -/
inductive KeyedCall where
  | createCard (listId orgId id : JsString) (now : Int) (dto : CreateCardDto)
  | createList (boardId orgId id : JsString) (now : Int) (dto : CreateListDto)
  | updateCard (id orgId : JsString) (dto : UpdateCardDto)
  /-- the insert of an offline-created list or card -/
  | insertList (orgId : JsString) (now : Nat) (change : SyncChangeDto)
  | insertCard (orgId : JsString) (now : Nat) (change : SyncChangeDto)

namespace KeyedCall

/-- The tables after the call, if it goes through. -/
def run (db : Database pg) : KeyedCall → Option (Database pg)
  | createCard listId orgId id now dto => (CardsService.create db listId orgId id now dto).toOption
  | createList boardId orgId id now dto =>
      (ListsService.create db boardId orgId id now dto).toOption
  | updateCard id orgId dto => (CardsService.update db id orgId dto).toOption
  | insertList orgId now change => inserted (tryInsertList db orgId now change)
  | insertCard orgId now change => inserted (tryInsertCard db orgId now change)
where
  inserted : Except Failure (InsertOutcome pg) → Option (Database pg)
    | .ok (.inserted db) => some db
    | _ => none

/-- The same call with a key of the client's own. -/
def withKey (key : JsString) : KeyedCall → KeyedCall
  | createCard listId orgId id now dto =>
      createCard listId orgId id now { dto with positionIdx := some key }
  | createList boardId orgId id now dto =>
      createList boardId orgId id now { dto with positionIdx := some key }
  | updateCard id orgId dto =>
      updateCard id orgId
        { dto with positionIdx := some key, beforeCardId := none, afterCardId := none }
  | insertList orgId now change =>
      insertList orgId now { change with fields := change.fields.insert "positionIdx" (.str key) }
  | insertCard orgId now change =>
      insertCard orgId now { change with fields := change.fields.insert "positionIdx" (.str key) }

/-- The key the call mints, if it does. -/
def mint (db : Database pg) : KeyedCall → Option Mint
  | createCard listId _ _ _ dto =>
      if dto.positionIdx.isSome then none else some (.append .cards listId)
  | createList boardId _ _ _ dto =>
      if dto.positionIdx.isSome then none else some (.append .lists boardId)
  | updateCard id orgId dto =>
      (CardsService.load db id orgId).toOption.bind fun loaded =>
        let listId := CardsService.targetListId dto loaded
        if CardsService.wantsNeighborPlacement dto then
          some (.between id listId dto.beforeCardId dto.afterCardId)
        else if dto.positionIdx.isSome ∨ listId = loaded.listId then none
        else some (.append .cards listId)
  | insertList _ _ change => appended .lists "boardId" change
  | insertCard _ _ change => appended .cards "listId" change
where
  appended (c : SyncCollection) (parent : String) (change : SyncChangeDto) : Option Mint :=
    if ((asString (change.fields.lookup "positionIdx")).filter PositionService.isValid).isSome then
      none
    else (asUuid (change.fields.lookup parent)).map (.append c)

end KeyedCall

theorem isSome_toOption_iff {ε α : Type} {x : Except ε α} :
    x.toOption.isSome = true ↔ ∃ a, x = .ok a := by
  cases x <;> simp [Except.toOption]

theorem isValid_M : PositionService.isValid (js "M") = true := by decide

/-- Two entities that differ in their key only. -/
structure Rekeyed (entity entity' : Entity) (key : JsString) : Prop where
  others : ∀ field, field ≠ "positionIdx" →
    entity'.columns.lookup field = entity.columns.lookup field
  keyed : entity'.columns.lookup "positionIdx" = some (.str key)
  nodeId : entity'.nodeId = entity.nodeId
  syncDeletedAt : entity'.syncDeletedAt = entity.syncDeletedAt

/-- What holds of the new key and of the old columns holds of the new columns. -/
theorem Rekeyed.forall_columns {entity entity' : Entity} {key : JsString}
    (hsame : Rekeyed entity entity' key) {P : String → Json → Prop}
    (hkey : P "positionIdx" (.str key))
    (hcolumns : ∀ field v, entity.columns.lookup field = some v → P field v) {field : String}
    {v : Json} (h : entity'.columns.lookup field = some v) : P field v := by
  by_cases hfield : field = "positionIdx"
  · subst hfield
    rw [hsame.keyed] at h
    exact Option.some.inj h ▸ hkey
  · exact hcolumns field v (hsame.others field hfield ▸ h)

/-- Where one of them is inserted, the other one is if the column takes its key. -/
theorem Rekeyed.insertEntity_iff {entity entity' : Entity} {key : JsString}
    (hsame : Rekeyed entity entity' key) {row : Row pg c} (h : insertEntity c entity = .ok row) :
    (∃ row' : Row pg c, insertEntity c entity' = .ok row') ↔
      (pg.store c "positionIdx" (.str key)).isSome = true := by
  obtain ⟨hstores, hcomplete, hsync⟩ := exists_newRow_iff.mp ⟨row, h⟩
  refine exists_newRow_iff.trans ⟨fun h => ?_, fun hkey => ⟨?_, fun field hf => ?_, ?_⟩⟩
  · exact h.1 _ (Dict.mem_pairs.mpr hsame.keyed)
  · rintro ⟨field, v⟩ hpair
    exact hsame.forall_columns hkey (fun field v hlookup => hstores _ (Dict.mem_pairs.mpr hlookup))
      (Dict.mem_pairs.mp hpair)
  · obtain ⟨v, hv⟩ : ∃ v, entity'.columns.lookup field = some v := by
      by_cases hfield : field = "positionIdx"
      · exact ⟨_, hfield ▸ hsame.keyed⟩
      · obtain ⟨⟨_, v⟩, hpair, rfl⟩ := List.mem_map.mp (hcomplete field hf)
        exact ⟨v, (hsame.others _ hfield).trans (Dict.mem_pairs.mp hpair)⟩
    exact List.mem_map.mpr ⟨(field, v), Dict.mem_pairs.mpr hv, rfl⟩
  · rw [hsame.nodeId, hsame.syncDeletedAt]
    exact hsync

/-- Where one of them is saved over a row, the other one is if the column takes its
key. -/
theorem Rekeyed.saveRow_iff {entity entity' : Entity} {key : JsString}
    (hsame : Rekeyed entity entity' key) {current row : Row pg c}
    (h : saveRow current entity = .ok row) :
    (∃ row' : Row pg c, saveRow current entity' = .ok row') ↔
      (pg.store c "positionIdx" (.str key)).isSome = true := by
  constructor
  · rintro ⟨row', h'⟩
    obtain ⟨w, hstore, -⟩ := (saveRow_eq_ok h').1 _ _ hsame.keyed
    rw [hstore]
    rfl
  · intro hkey
    have hstores : ∀ pair ∈ (entity'.columns.entries.map fun e => (e.1, e.2)).filter
        (fun p => current.columns.lookup p.1 ≠ some p.2),
          (pg.store c pair.1 pair.2).isSome = true := by
      rintro ⟨field, v⟩ hpair
      refine hsame.forall_columns (P := fun field v => (pg.store c field v).isSome = true) hkey
        (fun field v hlookup => ?_) (Dict.mem_pairs.mp (List.mem_filter.mp hpair).1)
      obtain ⟨w, hstore, -⟩ := (saveRow_eq_ok h).1 _ _ hlookup
      exact Option.isSome_of_eq_some hstore
    obtain ⟨mid, hmid⟩ := current.exists_writeColumns hstores
    obtain ⟨_, -, hsync⟩ := bind_eq_ok.mp h
    unfold Row.writeSync at hsync
    split at hsync
    · rename_i hmeta
      refine ⟨_, bind_eq_ok.mpr ⟨mid, hmid, if_pos ?_⟩⟩
      rw [hsame.nodeId, hsame.syncDeletedAt]
      exact hmeta
    · cases hsync

/-- The end of a create: the row is inserted under a free id. -/
def insertNew (db : Database pg) (c : SyncCollection) (id : JsString) (entity : Entity) :
    Except Failure (Database pg) := do
  let row ← insertEntity c entity
  if (db.find c id).isSome then throw .rejectedStatement
  return db.put id row

theorem insertNew_eq_ok {id : JsString} {entity : Entity} {db' : Database pg} :
    insertNew db c id entity = .ok db' ↔
      db.find c id = none ∧
        ∃ row : Row pg c, insertEntity c entity = .ok row ∧ db' = db.put id row := by
  refine bind_eq_ok.trans ?_
  cases hfind : db.find c id with
  | none =>
      refine ⟨?_, ?_⟩
      · rintro ⟨row, hrow, h⟩
        exact ⟨rfl, row, hrow, (Except.ok.inj h).symm⟩
      · rintro ⟨-, row, hrow, rfl⟩
        exact ⟨row, hrow, rfl⟩
  | some current =>
      refine ⟨?_, ?_⟩
      · rintro ⟨row, -, h⟩
        cases h
      · rintro ⟨hnone, -⟩
        cases hnone

theorem Rekeyed.insertNew_iff {entity entity' : Entity} {id key : JsString}
    (hsame : Rekeyed entity entity' key) {db' : Database pg}
    (h : insertNew db c id entity = .ok db') :
    (∃ db', insertNew db c id entity' = .ok db') ↔
      (pg.store c "positionIdx" (.str key)).isSome = true := by
  obtain ⟨hfree, row, hrow, -⟩ := insertNew_eq_ok.mp h
  rw [← hsame.insertEntity_iff hrow]
  simp [insertNew_eq_ok, hfree]

/-- The two creates: a check, the key, the insert. -/
theorem exists_create_iff {α : Type} {access : Except Failure α}
    {position : Except Failure JsString} {entity : JsString → Entity} {id key : JsString}
    {found : α}
    (hfound : access = .ok found) (hkey : position = .ok key) :
    (∃ db', (access >>= fun _ => position >>= fun key => insertNew db c id (entity key)) =
      .ok db') ↔ ∃ db', insertNew db c id (entity key) = .ok db' := by
  subst hfound hkey
  exact Iff.rfl

/-- What an insert of a sync needs: a free id, columns that take the values, and metadata
that fits. -/
theorem isSome_insertRow_iff {now : Nat} {change : SyncChangeDto} {values : List (String × Json)} :
    (KeyedCall.run.inserted (insertRow db c now change values)).isSome = true ↔
      (∃ k, pg.uuid change.id = some k ∧ db.find c k = none) ∧ ∃ row : Row pg c, (do
        let cols : Columns pg c ← Columns.empty.writeAll (values ++ schemaDefaults c)
        let row ← Row.ofColumns now cols
        row.writeSync (numericClocks change.clocks (syncFields c))
          (if change.nodeId = [] then none else some change.nodeId)
          change.deletedAt) = .ok row := by
  constructor
  · intro h
    cases hinsert : insertRow db c now change values with
    | error e => simp [hinsert, KeyedCall.run.inserted] at h
    | ok outcome =>
        obtain ⟨k, hk, hrow⟩ := bind_eq_ok.mp hinsert
        obtain ⟨cols, hcols, hrow⟩ := bind_eq_ok.mp hrow
        obtain ⟨mid, hmid, hrow⟩ := bind_eq_ok.mp hrow
        obtain ⟨row, hsync, hrow⟩ := bind_eq_ok.mp hrow
        have hfree : db.find c k = none := by
          cases hfind : db.find c k with
          | none => rfl
          | some current =>
              rw [hfind] at hrow
              obtain rfl := Except.ok.inj hrow
              simp [hinsert, KeyedCall.run.inserted] at h
        exact ⟨⟨k, key_eq_ok hk, hfree⟩, row,
          bind_eq_ok.mpr ⟨cols, hcols, bind_eq_ok.mpr ⟨mid, hmid, hsync⟩⟩⟩
  · rintro ⟨⟨k, hk, hfree⟩, row, hrow⟩
    obtain ⟨cols, hcols, hrow⟩ := bind_eq_ok.mp hrow
    obtain ⟨mid, hmid, hsync⟩ := bind_eq_ok.mp hrow
    have hkey : Database.key pg change.id = .ok k := by
      rw [Database.key, hk]
    have hinsert : insertRow db c now change values = .ok (.inserted (db.put k row)) := by
      refine bind_eq_ok.mpr ⟨k, hkey, bind_eq_ok.mpr ⟨cols, hcols, bind_eq_ok.mpr ⟨mid, hmid, ?_⟩⟩⟩
      refine bind_eq_ok.mpr ⟨row, hsync, ?_⟩
      rw [hfree]
      rfl
    rw [hinsert]
    rfl

/-- The row a sync inserts with another key. -/
theorem insertRow_iff {now : Nat} {change : SyncChangeDto} {fields : JsObject Json}
    (before : List (String × Json)) {after : List (String × Json)} {short key : JsString}
    (h : (KeyedCall.run.inserted (insertRow db c now { change with fields := fields }
      (before ++ ("positionIdx", .str short) :: after))).isSome = true) :
    (KeyedCall.run.inserted (insertRow db c now change
      (before ++ ("positionIdx", .str key) :: after))).isSome = true ↔
        (pg.store c "positionIdx" (.str key)).isSome = true := by
  obtain ⟨hfree, hrow⟩ := isSome_insertRow_iff.mp h
  obtain ⟨hstores, hcomplete, hsync⟩ := exists_newRow_iff.mp hrow
  rw [isSome_insertRow_iff, exists_newRow_iff]
  simp only [List.append_assoc, List.cons_append, List.forall_mem_append, List.forall_mem_cons]
    at hstores ⊢
  constructor
  · exact fun h => h.2.1.2.1
  · intro hkey
    refine ⟨hfree, ⟨hstores.1, hkey, hstores.2.2⟩, fun field hf => ?_, hsync⟩
    simpa using hcomplete field hf

namespace KeyedCall

theorem createCard_iff {listId orgId id key : JsString} {now : Int} {dto : CreateCardDto}
    (hkey : resolvePositionKey db .cards listId none = .ok key) (hnone : dto.positionIdx = none)
    (hvalid : (((createCard listId orgId id now dto).withKey (js "M")).run db).isSome = true) :
    ((createCard listId orgId id now dto).run db).isSome = true ↔
      (pg.store .cards "positionIdx" (.str key)).isSome = true := by
  have hsame : Rekeyed (CardsService.newCard now listId (js "M") dto)
      (CardsService.newCard now listId key dto) key := by
    refine ⟨fun field hfield => ?_, CardsService.lookup_newCard_positionIdx _ _ _ _, rfl, rfl⟩
    simp [CardsService.newCard, Dict.lookup_assign, Dict.ofList, Dict.lookup_insert_eq, hfield]
  obtain ⟨db', hshort⟩ := isSome_toOption_iff.mp hvalid
  obtain ⟨found, hfound, hshort⟩ := bind_eq_ok.mp hshort
  obtain ⟨_, hM, hshort⟩ := bind_eq_ok.mp hshort
  obtain ⟨_, -, hM⟩ := bind_eq_ok.mp hM
  obtain rfl := Except.ok.inj hM
  have hposition : CardsService.resolvePosition db listId dto.positionIdx = .ok key := by
    rw [hnone]
    exact hkey
  rw [← hsame.insertNew_iff hshort]
  exact isSome_toOption_iff.trans (exists_create_iff hfound hposition)

theorem createList_iff {boardId orgId id key : JsString} {now : Int} {dto : CreateListDto}
    (hkey : resolvePositionKey db .lists boardId none = .ok key) (hnone : dto.positionIdx = none)
    (hvalid : (((createList boardId orgId id now dto).withKey (js "M")).run db).isSome = true) :
    ((createList boardId orgId id now dto).run db).isSome = true ↔
      (pg.store .lists "positionIdx" (.str key)).isSome = true := by
  have hsame : Rekeyed (ListsService.newList now boardId (js "M") dto)
      (ListsService.newList now boardId key dto) key := by
    refine ⟨fun field hfield => ?_, ?_, rfl, rfl⟩
    · simp [ListsService.newList, Dict.lookup_assign, Dict.ofList, hfield]
    · simp [ListsService.newList, Dict.lookup_assign, Dict.ofList]
  obtain ⟨db', hshort⟩ := isSome_toOption_iff.mp hvalid
  obtain ⟨found, hfound, hshort⟩ := bind_eq_ok.mp hshort
  obtain ⟨_, hM, hshort⟩ := bind_eq_ok.mp hshort
  obtain ⟨_, -, hM⟩ := bind_eq_ok.mp hM
  obtain rfl := Except.ok.inj hM
  have hposition : ListsService.resolvePosition db boardId dto.positionIdx = .ok key := by
    rw [hnone]
    exact hkey
  rw [← hsame.insertNew_iff hshort]
  exact isSome_toOption_iff.trans (exists_create_iff hfound hposition)

/-- An update that places its card at a minted key. -/
theorem updateCard_iff {id orgId key : JsString} {dto : UpdateCardDto}
    {loaded : CardsService.LoadedCard} (hload : CardsService.load db id orgId = .ok loaded)
    (hplace : CardsService.place db id dto loaded = .ok (some key))
    (hvalid : (((updateCard id orgId dto).withKey (js "M")).run db).isSome = true) :
    ((updateCard id orgId dto).run db).isSome = true ↔
      (pg.store .cards "positionIdx" (.str key)).isSome = true := by
  obtain ⟨db', hshort⟩ := isSome_toOption_iff.mp hvalid
  obtain ⟨loaded', next, hload', htarget, hnext, hshort⟩ := CardsService.updateAcross_eq_ok hshort
  obtain rfl : loaded = loaded' := Except.ok.inj (hload.symm.trans hload')
  obtain ⟨row, -, -, hfind, hcard, -⟩ := CardsService.load_eq_ok hload
  have hM : next = some (js "M") := by
    obtain ⟨_, -, hM⟩ := bind_eq_ok.mp hnext
    exact (Except.ok.inj hM).symm
  subst hM
  have hsame : Rekeyed
      (loaded.card.assign (CardsService.assigned { dto with
        positionIdx := some (js "M"), beforeCardId := none, afterCardId := none } (some (js "M"))))
      (loaded.card.assign (CardsService.assigned dto (some key))) key := by
    refine ⟨fun field hfield => ?_, ?_, rfl, rfl⟩
    · have hassigned : (CardsService.assigned dto (some key)).lookup field =
          (CardsService.assigned { dto with
            positionIdx := some (js "M"), beforeCardId := none, afterCardId := none }
              (some (js "M"))).lookup field := by
        by_cases hlist : field = "listId"
        · subst hlist
          rw [CardsService.lookup_assigned_listId, CardsService.lookup_assigned_listId]
        · rw [CardsService.lookup_assigned_content dto _ hlist hfield,
            CardsService.lookup_assigned_content _ _ hlist hfield]
      simp only [Entity.assign, Dict.lookup_assign, hassigned]
    · simp [Entity.assign, Dict.lookup_assign, CardsService.lookup_assigned_positionIdx]
  have hsave : ∀ entity : Entity, (∃ db', saveEntity db .cards loaded.key entity = .ok db') ↔
      ∃ row' : Row pg .cards, saveRow row entity = .ok row' := by
    intro entity
    unfold saveEntity
    rw [hfind]
    constructor
    · rintro ⟨db', h⟩
      obtain ⟨row', hrow', -⟩ := bind_eq_ok.mp h
      exact ⟨row', hrow'⟩
    · rintro ⟨row', hrow'⟩
      exact ⟨_, bind_eq_ok.mpr ⟨row', hrow', rfl⟩⟩
  obtain ⟨rowM, hrowM⟩ := (hsave _).mp ⟨db', hshort⟩
  rw [← hsame.saveRow_iff hrowM, ← hsave]
  refine isSome_toOption_iff.trans ⟨?_, ?_⟩
  · rintro ⟨db', h⟩
    obtain ⟨loaded', next, hload', -, hnext, h⟩ := CardsService.updateAcross_eq_ok h
    obtain rfl : loaded = loaded' := Except.ok.inj (hload.symm.trans hload')
    obtain rfl : some key = next := Except.ok.inj (hplace.symm.trans hnext)
    exact ⟨db', h⟩
  · rintro ⟨db', h⟩
    exact ⟨db', bind_eq_ok.mpr ⟨loaded, hload, bind_eq_ok.mpr ⟨(), htarget,
      bind_eq_ok.mpr ⟨some key, hplace, h⟩⟩⟩⟩

/-- A key the client sent is not replaced. -/
theorem resolvePositionKey_M (parentId : JsString) (fields : JsObject Json) :
    resolvePositionKey db c parentId
      ((fields.insert "positionIdx" (.str (js "M"))).lookup "positionIdx") = .ok (js "M") := by
  have hsent : (some (js "M")).filter PositionService.isValid = some (js "M") := by
    simp [isValid_M]
  rw [AList.lookup_insert, resolvePositionKey, asString, hsent]

theorem insertList_iff {orgId boardId key : JsString} {now : Nat} {change : SyncChangeDto}
    (hboard : asUuid (change.fields.lookup "boardId") = some boardId)
    (hkey : resolvePositionKey db .lists boardId (change.fields.lookup "positionIdx") = .ok key)
    (hvalid : (((insertList orgId now change).withKey (js "M")).run db).isSome = true) :
    ((insertList orgId now change).run db).isSome = true ↔
      (pg.store .lists "positionIdx" (.str key)).isSome = true := by
  have htitle : (change.fields.insert "positionIdx" (.str (js "M"))).lookup "title" =
      change.fields.lookup "title" := AList.lookup_insert_ne (by decide)
  have hparent : (change.fields.insert "positionIdx" (.str (js "M"))).lookup "boardId" =
      change.fields.lookup "boardId" := AList.lookup_insert_ne (by decide)
  simp only [withKey, run, tryInsertList, htitle, hparent, hboard, resolvePositionKey_M] at hvalid ⊢
  split at hvalid
  · cases hvalid
  · rename_i hid
    rw [if_neg hid]
    cases hname : asNonEmptyString (change.fields.lookup "title") with
    | none =>
        rw [hname] at hvalid
        cases hvalid
    | some title =>
        rw [hname] at hvalid
        dsimp only at hvalid ⊢
        split at hvalid
        · cases hvalid
        · rename_i hin
          rw [if_neg hin, hkey]
          exact insertRow_iff [("boardId", .str boardId), ("title", .str title)] hvalid

theorem insertCard_iff {orgId listId key : JsString} {now : Nat} {change : SyncChangeDto}
    (hlist : asUuid (change.fields.lookup "listId") = some listId)
    (hkey : resolvePositionKey db .cards listId (change.fields.lookup "positionIdx") = .ok key)
    (hvalid : (((insertCard orgId now change).withKey (js "M")).run db).isSome = true) :
    ((insertCard orgId now change).run db).isSome = true ↔
      (pg.store .cards "positionIdx" (.str key)).isSome = true := by
  have hother : ∀ field, field ≠ "positionIdx" →
      (change.fields.insert "positionIdx" (.str (js "M"))).lookup field =
        change.fields.lookup field := fun field h => AList.lookup_insert_ne h
  simp only [withKey, run, tryInsertCard, hother "title" (by decide), hother "listId" (by decide),
    hother "description" (by decide), hother "isComplete" (by decide), hlist,
    resolvePositionKey_M] at hvalid ⊢
  split at hvalid
  · cases hvalid
  · rename_i hid
    rw [if_neg hid]
    cases hname : asNonEmptyString (change.fields.lookup "title") with
    | none =>
        rw [hname] at hvalid
        cases hvalid
    | some title =>
        rw [hname] at hvalid
        dsimp only at hvalid ⊢
        split at hvalid
        · cases hvalid
        · rename_i hin
          rw [if_neg hin, hkey]
          exact insertRow_iff [("listId", .str listId), ("title", .str title),
            ("description", stringOrNull (change.fields.lookup "description")),
            ("isComplete", booleanOrFalse (change.fields.lookup "isComplete"))] hvalid

/-- The key an insert of a sync mints. -/
theorem appended_run {parent : String} {change : SyncChangeDto} {m : Mint} {key : JsString}
    (hmint : mint.appended c parent change = some m) (hkey : m.run db = .ok key) :
    ∃ parentId, asUuid (change.fields.lookup parent) = some parentId ∧ m.collection = c ∧
      resolvePositionKey db c parentId (change.fields.lookup "positionIdx") = .ok key := by
  unfold mint.appended at hmint
  split at hmint
  · cases hmint
  · rename_i hnone
    obtain ⟨parentId, hparent, rfl⟩ := Option.map_eq_some_iff.mp hmint
    refine ⟨parentId, hparent, rfl, ?_⟩
    rw [resolvePositionKey, Option.not_isSome_iff_eq_none.mp hnone]
    exact hkey

/-- A call that mints a key, and would go through with a short key of the client's own, goes
through just where the column takes the minted one. -/
theorem run_iff {call : KeyedCall} {m : Mint} {key : JsString} (hmint : call.mint db = some m)
    (hkey : m.run db = .ok key) (hvalid : ((call.withKey (js "M")).run db).isSome = true) :
    (call.run db).isSome = true ↔
      (pg.store m.collection "positionIdx" (.str key)).isSome = true := by
  cases call with
  | createCard listId orgId id now dto =>
      simp only [mint] at hmint
      split at hmint
      · cases hmint
      · rename_i hnone
        obtain rfl := Option.some.inj hmint
        exact createCard_iff hkey (by simpa using hnone) hvalid
  | createList boardId orgId id now dto =>
      simp only [mint] at hmint
      split at hmint
      · cases hmint
      · rename_i hnone
        obtain rfl := Option.some.inj hmint
        exact createList_iff hkey (by simpa using hnone) hvalid
  | updateCard id orgId dto =>
      obtain ⟨loaded, hload, hmint⟩ := Option.bind_eq_some_iff.mp hmint
      replace hload := toOption_eq_some.mp hload
      dsimp only at hmint
      split at hmint
      · rename_i hwants
        obtain rfl := Option.some.inj hmint
        refine updateCard_iff hload ?_ hvalid
        rw [CardsService.place, if_pos hwants]
        exact bind_eq_ok.mpr ⟨key, hkey, rfl⟩
      · rename_i hwants
        split at hmint
        · cases hmint
        · rename_i hmoves
          obtain ⟨hnone, hlist⟩ := not_or.mp hmoves
          obtain rfl := Option.some.inj hmint
          refine updateCard_iff hload ?_ hvalid
          rw [CardsService.place, if_neg hwants, Option.not_isSome_iff_eq_none.mp hnone]
          dsimp only
          rw [if_pos hlist]
          exact bind_eq_ok.mpr ⟨key, hkey, rfl⟩
  | insertList orgId now change =>
      obtain ⟨boardId, hboard, hcollection, hkey⟩ := appended_run hmint hkey
      rw [hcollection]
      exact insertList_iff hboard hkey hvalid
  | insertCard orgId now change =>
      obtain ⟨listId, hlist, hcollection, hkey⟩ := appended_run hmint hkey
      rw [hcollection]
      exact insertCard_iff hlist hkey hvalid

end KeyedCall

/-- **A minted key fits just where there is room.**  In any tables, a key that is minted
after the last one of its parent or between two neighbours has at most 255 characters just
where some valid key of that length lies there; and a call that mints its key, and would
go through with a short key of the client's own, goes through just there. -/
theorem minted_fits_iff (hcolumn : KeyColumn pg) (db : Database pg) :
    (∀ (m : Mint) (key : JsString), m.run db = .ok key →
      (charLength key ≤ 255 ↔ m.HasRoom db)) ∧
    ∀ (call : KeyedCall) (m : Mint) (key : JsString), call.mint db = some m →
      m.run db = .ok key → ((call.withKey (js "M")).run db).isSome = true →
      ((call.run db).isSome = true ↔ m.HasRoom db) := by
  refine ⟨fun m key => Mint.fits_iff, fun call m key hmint hkey hvalid => ?_⟩
  rw [KeyedCall.run_iff hmint hkey hvalid, hcolumn.stores_iff hkey]

/-! ### A full column -/

namespace FullColumn

/-- The highest key a client can send. -/
def highest : JsString := List.replicate 255 122

/-- A list whose only card has a key of the client's own. -/
def tables (positionIdx : JsString) : Database Postgres.plain :=
  okOr (Neighbors.created [(Neighbors.before, some positionIdx)]) Neighbors.server.db

/-- A card is added to the list. -/
def add : KeyedCall :=
  .createCard Sample.listId Sample.orgId Neighbors.after 0 (Neighbors.request none)

theorem plain_keyColumn : KeyColumn Postgres.plain where
  keeps := plain_keepsKeys
  bounded c s w h := by
    have htype : hasColumnType "positionIdx" (.str s) = true := by
      by_contra hnot
      rw [show Postgres.plain.store c "positionIdx" (.str s) = none from if_neg hnot] at h
      cases h
    simpa [hasColumnType] using htype

end FullColumn

/-- After a card with the highest key the next one gets a key of 256 characters, and
cannot be created. -/
theorem highest_overflows :
    (Neighbors.created [(Neighbors.before, some FullColumn.highest)]).isOk = true ∧
    Reaches Neighbors.start
      (Neighbors.start.withDb (FullColumn.tables FullColumn.highest)) ∧
    (∃ key, (Mint.append .cards Sample.listId).run (FullColumn.tables FullColumn.highest) =
      .ok key ∧ charLength key = 256) ∧
    ((FullColumn.add.withKey (js "M")).run (FullColumn.tables FullColumn.highest)).isSome = true ∧
    (FullColumn.add.run (FullColumn.tables FullColumn.highest)).isSome = false := by
  have hcreated : (Neighbors.created [(Neighbors.before, some FullColumn.highest)]).isOk = true ∧
      ((Mint.append .cards Sample.listId).run (FullColumn.tables FullColumn.highest)).toOption.map
        charLength = some 256 ∧
      ((FullColumn.add.withKey (js "M")).run (FullColumn.tables FullColumn.highest)).isSome =
        true ∧
      (FullColumn.add.run (FullColumn.tables FullColumn.highest)).isSome = false := by
    decide +kernel
  obtain ⟨hok, hlength, hvalid, hfails⟩ := hcreated
  obtain ⟨key, hkey, hlength⟩ := Option.map_eq_some_iff.mp hlength
  exact ⟨hok, Neighbors.reaches_created hok, ⟨key, toOption_eq_some.mp hkey, hlength⟩, hvalid,
    hfails⟩

/-- After a card with a short key there is room. -/
theorem short_fits : (FullColumn.add.run (FullColumn.tables (js "M"))).isSome = true := by
  have hrun : ((Mint.append .cards Sample.listId).run (FullColumn.tables (js "M"))).isOk = true ∧
      ((FullColumn.add.withKey (js "M")).run (FullColumn.tables (js "M"))).isSome = true ∧
      (Mint.append .cards Sample.listId).prev (FullColumn.tables (js "M")) = some (js "M") := by
    decide +kernel
  obtain ⟨hok, hvalid, hprev⟩ := hrun
  have hkey : (Mint.append .cards Sample.listId).run (FullColumn.tables (js "M")) =
      .ok (okOr _ []) := eq_ok_okOr hok
  refine ((minted_fits_iff FullColumn.plain_keyColumn _).2 FullColumn.add
    (.append .cards Sample.listId) _ rfl hkey hvalid).mpr ?_
  refine ⟨js "N", by decide, by decide, fun p hp => ?_, nofun⟩
  obtain rfl := Option.some.inj (hprev.symm.trans hp)
  decide

end FlowLogix.Server

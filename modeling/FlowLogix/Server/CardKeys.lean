/-
  Server/CardKeys.lean --- the position key of every card is valid.

  A key comes into the cards by four routes: the append after the last card, a place
  between named neighbours, a key the client sends, and a sync.  `Reaches` runs them
  against each other.  A sync goes statement by statement, as in RowLocks.  Of a web
  write the last transaction is a step, and what the ones before it read only to
  decide whether it goes through may come from any tables.  The one thing that must
  have been there is the card an update loads, since its save writes back what it
  loaded.

  No route looks at another card's key for equality, so nothing here says that keys
  differ.  Every route checks the key it takes or mints it, and `Reaches.soundKey` is
  that every card has a valid one.
-/
import FlowLogix.Server.RebalanceOrder
import FlowLogix.Server.RowLocks
import FlowLogix.Server.WellFormedRows

set_option autoImplicit false

namespace FlowLogix.Server

open FlowLogix.Foundation FlowLogix.Ordering

variable {pg : Postgres} {c : SyncCollection}

/-! ## Rows that are sound -/

/-- A row with a valid position key, and sync metadata that fits its columns. -/
structure Row.SoundKey (row : Row pg c) : Prop where
  key : row.WellFormedAt "positionIdx"
  fits : row.FitsColumns

/-- The position key of a sound row. -/
theorem Row.SoundKey.exists_key {row : Row pg c} (h : row.SoundKey) :
    ∃ key, row.text "positionIdx" = some key ∧ PositionService.isValid key = true := by
  obtain ⟨v, hv, hform⟩ := h.key
  have hsent : (asString (some v)).any PositionService.isValid = true := hform
  obtain ⟨key, hkey, hvalid⟩ := (Option.any_eq_true _ _).mp hsent
  cases v with
  | str s =>
      obtain rfl : s = key := Option.some.inj hkey
      exact ⟨s, by rw [Row.text, hv], hvalid⟩
  | _ => cases hkey

/-- Every row of a table has a property. -/
def Database.Every (db : Database pg) (P : Row pg c → Prop) : Prop :=
  ∀ k row, db.find c k = some row → P row

namespace Database.Every

variable {db : Database pg} {P : Row pg c → Prop}

theorem put (h : db.Every P) {k : JsString} {row : Row pg c} (hrow : P row) :
    (db.put k row).Every P := by
  intro j r hr
  rw [find_put] at hr
  split at hr
  · exact Option.some.inj hr ▸ hrow
  · exact h j r hr

theorem put_of_ne (h : db.Every P) {c' : SyncCollection} (hc : c ≠ c') {k : JsString}
    {row : Row pg c'} : (db.put k row).Every P := by
  intro j r hr
  rw [find_put_of_ne _ _ _ _ hc] at hr
  exact h j r hr

end Database.Every

/-! ## What a sync keeps -/

/-- A property of rows that inserted rows have and merges keep. -/
structure KeptBySync (P : Row pg c → Prop) : Prop where
  inserted : ∀ {db db' : Database pg} {orgId k : JsString} {now : Nat} {change : SyncChangeDto}
    {row : Row pg c}, tryInsert db orgId now change c = .ok (.inserted db') →
      pg.uuid change.id = some k → db'.find c k = some row → P row
  merged : ∀ {loop merged : SyncLoop pg} {orgId k : JsString} {change : SyncChangeDto}
    {row row' : Row pg c}, loop.db.find c k = some row → P row →
      mergeChange orgId loop change k row = .ok merged → merged.db.find c k = some row' → P row'

variable {ι : Type}

/-- Every row that is committed, or that a transaction holds, has a property. -/
structure System.Every (sys : System pg ι) (P : Row pg c → Prop) : Prop where
  committed : sys.server.db.Every P
  held : ∀ i k row, ((sys.transactions i).held c).lookup k = some row → P row

namespace Transaction

variable {t t' : Transaction pg} {view seen : Database pg} {free : JsString → Bool}
  {change : SyncChangeDto}

/-- What a statement may take hold of: a row it read, inserted or merged into. -/
inductive Takes (t : Transaction pg) (view : Database pg) (k : JsString)
    (row : Row pg t.collection) : Prop where
  | read (hfind : view.find t.collection k = some row)
  | inserted {seen db : Database pg} {change : SyncChangeDto}
      (h : tryInsert seen t.call.orgId t.call.now change t.collection = .ok (.inserted db))
      (hk : pg.uuid change.id = some k) (hfind : db.find t.collection k = some row)
  | merged {change : SyncChangeDto} {before : Row pg t.collection} {merged : SyncLoop pg}
      (hbefore : view.find t.collection k = some before)
      (h : mergeChange t.call.orgId (t.loop view) change k before = .ok merged)
      (hfind : merged.db.find t.collection k = some row)

/-- After a statement a transaction holds what it held, or one row more. -/
def HoldsAfter (t : Transaction pg) (view : Database pg) (t' : Transaction pg) : Prop :=
  t'.held = t.held ∨ ∃ k row, t'.held = (t.hold k row).held ∧ t.Takes view k row

theorem HoldsAfter.of_issueLoad (h : t.issueLoad view change = some t') :
    t.HoldsAfter view t' := by
  unfold issueLoad at h
  split at h
  all_goals cases h
  all_goals exact Or.inl rfl

theorem HoldsAfter.of_issueInsert (h : t.issueInsert view seen free change = some t') :
    t.HoldsAfter view t' := by
  unfold issueInsert at h
  split at h
  · cases h
    exact Or.inl rfl
  · rename_i db k _ hinsert hk
    split at h
    · obtain ⟨row, hfind, rfl⟩ := Option.map_eq_some_iff.mp h
      exact Or.inr ⟨k, row, rfl, .inserted hinsert hk hfind⟩
    · cases h
  · cases h

theorem HoldsAfter.of_issueLock (h : t.issueLock view free = some t') : t.HoldsAfter view t' := by
  unfold issueLock at h
  split at h
  · split at h
    · split at h
      · rename_i row hfind
        cases h
        exact Or.inr ⟨_, row, rfl, .read hfind⟩
      · cases h
        exact Or.inl rfl
    · cases h
  · cases h

theorem HoldsAfter.of_issueMerge (h : t.issueMerge view change = some t') :
    t.HoldsAfter view t' := by
  unfold issueMerge at h
  split at h
  · obtain ⟨before, hbefore, h⟩ := Option.bind_eq_some_iff.mp h
    obtain ⟨merged, hmerged, h⟩ := Option.bind_eq_some_iff.mp h
    obtain ⟨row, hfind, rfl⟩ := Option.map_eq_some_iff.mp h
    exact Or.inr ⟨_, row, rfl, .merged hbefore (toOption_eq_some.mp hmerged) hfind⟩
  · cases h

end Transaction

section Step

variable [Fintype ι] [DecidableEq ι] {sys sys' : System pg ι} {i : ι} {s : Statement pg}

theorem System.step_held (h : sys.step i s = some sys') :
    (sys.transactions i).HoldsAfter ((sys.transactions i).view sys.server.db)
      (sys'.transactions i) := by
  have hself : ∀ t', { sys with transactions := Function.update sys.transactions i t' } = sys' →
      sys'.transactions i = t' := by
    rintro t' rfl
    exact Function.update_self _ _ _
  obtain ⟨hrunning, -, -⟩ := System.step_cases h
  unfold System.step at h
  simp only [if_pos hrunning] at h
  split at h
  · obtain ⟨t', ht', hsys⟩ := Option.map_eq_some_iff.mp h
    rw [hself t' hsys]
    exact .of_issueLoad ht'
  · obtain ⟨t', ht', hsys⟩ := Option.map_eq_some_iff.mp h
    rw [hself t' hsys]
    exact .of_issueInsert ht'
  · obtain ⟨t', ht', hsys⟩ := Option.map_eq_some_iff.mp h
    rw [hself t' hsys]
    exact .of_issueLock ht'
  · obtain ⟨t', ht', hsys⟩ := Option.map_eq_some_iff.mp h
    rw [hself t' hsys]
    exact .of_issueMerge ht'
  · obtain ⟨pulled, -, rfl⟩ := Option.map_eq_some_iff.mp h
    refine Or.inl ?_
    show (Function.update sys.transactions i _ i).held = _
    rw [Function.update_self]
  · rw [hself _ (Option.some.inj h)]
    exact Or.inl rfl
  · cases h

end Step

namespace System.Every

variable {sys sys' : System pg ι} {i : ι} {s : Statement pg} {P : Row pg c → Prop}

/-- What a transaction sees has the property. -/
theorem view (h : sys.Every P) (i : ι) :
    ((sys.transactions i).view sys.server.db).Every P := by
  intro k row hrow
  rw [Transaction.find_view] at hrow
  cases hheld : ((sys.transactions i).held c).lookup k with
  | some mine =>
      rw [hheld, Option.some_or] at hrow
      exact Option.some.inj hrow ▸ h.held i k mine hheld
  | none =>
      rw [hheld, Option.none_or] at hrow
      exact h.committed k row hrow

/-- A row that a statement takes hold of has the property. -/
theorem takes {t : Transaction pg} {db : Database pg} {k : JsString}
    {P : Row pg t.collection → Prop}
    (hP : KeptBySync P) (hdb : db.Every P) {row : Row pg t.collection} (h : t.Takes db k row) :
    P row := by
  cases h with
  | read hfind => exact hdb k row hfind
  | inserted h hk hfind => exact hP.inserted h hk hfind
  | merged hbefore h hfind => exact hP.merged hbefore (hdb k _ hbefore) h hfind

/-- A statement of a sync keeps the property. -/
theorem step [Fintype ι] [DecidableEq ι] (hP : KeptBySync P) (h : sys.Every P)
    (hstep : sys.step i s = some sys') :
    sys'.Every P := by
  obtain ⟨-, hothers, heffect⟩ := System.step_cases hstep
  refine ⟨?_, fun j k row hrow => ?_⟩
  · rcases heffect.db_eq with hdb | hdb
    · rw [hdb]
      exact h.committed
    · rw [hdb]
      exact h.view i
  · by_cases hj : j = i
    · subst hj
      rcases System.step_held hstep with hheld | ⟨k', row', hheld, htakes⟩
      · rw [hheld] at hrow
        exact h.held j k row hrow
      · rw [hheld] at hrow
        by_cases hc : c = (sys.transactions j).collection
        · subst hc
          rw [Transaction.lookup_hold] at hrow
          split at hrow
          · exact Option.some.inj hrow ▸ takes hP (h.view j) htakes
          · exact h.held j k row hrow
        · rw [Transaction.held_hold_of_ne _ _ _ hc] at hrow
          exact h.held j k row hrow
    · rw [hothers j hj] at hrow
      exact h.held j k row hrow

end System.Every

/-! ### Sound rows are kept -/

theorem insertRow_fitsColumns {db db' : Database pg} {now : Nat} {change : SyncChangeDto}
    {values : List (String × Json)} {k : JsString} {row : Row pg c}
    (h : insertRow db c now change values = .ok (.inserted db'))
    (hk : pg.uuid change.id = some k) (hfind : db'.find c k = some row) : row.FitsColumns := by
  obtain ⟨k', hk', h⟩ := bind_eq_ok.mp h
  obtain ⟨cols, -, h⟩ := bind_eq_ok.mp h
  obtain ⟨written, -, h⟩ := bind_eq_ok.mp h
  obtain ⟨inserted, hsync, h⟩ := bind_eq_ok.mp h
  obtain rfl : k' = k := Option.some.inj ((key_eq_ok hk').symm.trans hk)
  have houtcome := Except.ok.inj h
  split at houtcome
  · cases houtcome
  · obtain rfl := InsertOutcome.inserted.inj houtcome
    rw [Database.find_put, if_pos rfl] at hfind
    exact Option.some.inj hfind ▸ Row.writeSync_fitsColumns hsync

theorem mergeChange_fitsColumns {loop merged : SyncLoop pg} {orgId k : JsString}
    {change : SyncChangeDto} {row row' : Row pg c} (hfind : loop.db.find c k = some row)
    (hrow : row.FitsColumns) (h : mergeChange orgId loop change k row = .ok merged)
    (hfind' : merged.db.find c k = some row') : row'.FitsColumns := by
  obtain ⟨written, hwritten, h⟩ := bind_eq_ok.mp h
  obtain rfl := Except.ok.inj h
  unfold writeMerged at hwritten
  split at hwritten
  · obtain ⟨patched, hpatch, hpair⟩ := bind_eq_ok.mp hwritten
    obtain rfl := Except.ok.inj hpair
    obtain ⟨mid, -, hsync⟩ := bind_eq_ok.mp hpatch
    rw [Database.find_put, if_pos rfl] at hfind'
    exact Option.some.inj hfind' ▸ Row.writeSync_fitsColumns hsync
  · obtain rfl := Except.ok.inj hwritten
    rw [hfind] at hfind'
    exact Option.some.inj hfind' ▸ hrow

/-- A sync inserts rows that are sound, and leaves those that are. -/
theorem keptBySync_soundKey (hpg : TypedColumns pg) (hc : "positionIdx" ∈ syncFields c) :
    KeptBySync (Row.SoundKey : Row pg c → Prop) where
  inserted {db db' orgId k now change row} h hk hfind := by
    obtain ⟨values, -, hinsert⟩ := tryInsert_values h
    obtain ⟨k', row', hk', rfl, hform⟩ := tryInsert_wellFormed hpg h
    refine ⟨?_, insertRow_fitsColumns hinsert hk hfind⟩
    obtain rfl : k' = k := Option.some.inj (hk'.symm.trans hk)
    rw [Database.find_put, if_pos rfl] at hfind
    exact Option.some.inj hfind ▸ hform "positionIdx" hc
  merged {loop merged orgId k change row row'} hfind hrow h hfind' := by
    refine ⟨?_, mergeChange_fitsColumns hfind hrow.fits h hfind'⟩
    obtain ⟨written, hwritten, h⟩ := bind_eq_ok.mp h
    obtain rfl := Except.ok.inj h
    obtain ⟨row'', heffect, hfind'', -⟩ := writeMerged_eq_ok hfind hwritten
    obtain rfl : row' = row'' := Option.some.inj (hfind'.symm.trans hfind'')
    refine heffect.wellFormedAt hpg hc (fun htitle => ?_) hrow.key
    exact absurd htitle (by decide)

/-! ## What the web writes keep -/

section Web

variable {db db' : Database pg} {k : JsString}

/-- A save of an entity with a valid key leaves a sound row. -/
theorem saveEntity_soundKey (hpg : TypedColumns pg) (hc : "positionIdx" ∈ syncFields c)
    {entity : Entity} {v : Json} (hv : entity.columns.lookup "positionIdx" = some v)
    (hvalid : insertsAsSent "positionIdx" v = true) (h : saveEntity db c k entity = .ok db') :
    ∃ row : Row pg c, db' = db.put k row ∧ row.SoundKey := by
  obtain ⟨row, rfl, hstores, hfits⟩ := saveEntity_stores h
  obtain ⟨w, hstore, hw⟩ := hstores "positionIdx" v hv
  refine ⟨row, rfl, ⟨w, hw, ?_⟩, hfits⟩
  exact hpg.insertsAsSent_of_store hc hstore (fun htitle => absurd htitle (by decide))
    fun _ => hvalid

theorem isValid_of_assertValid {key : JsString} (h : assertValid (.str key) = .ok ()) :
    PositionService.isValid key = true := by
  unfold assertValid at h
  split at h
  · assumption
  · cases h

namespace CardsService

/-- A created card has a valid key, its own or minted. -/
theorem isValid_of_resolvePosition {listId key : JsString} {provided : Option JsString}
    (h : resolvePosition db listId provided = .ok key) : PositionService.isValid key = true := by
  cases provided with
  | some sent =>
      obtain ⟨⟨⟩, hvalid, h⟩ := bind_eq_ok.mp h
      obtain rfl := Except.ok.inj h
      exact isValid_of_assertValid hvalid
  | none =>
      unfold resolvePosition at h
      exact isValid_of_resolvePositionKey h

theorem lookup_newCard_positionIdx (now : Int) (listId positionIdx : JsString)
    (dto : CreateCardDto) : (newCard now listId positionIdx dto).columns.lookup "positionIdx" =
      some (.str positionIdx) := by
  simp [newCard, Dict.lookup_assign, Dict.ofList]

theorem createAcross_soundKey (hpg : TypedColumns pg) {accessDb readDb saveDb : Database pg}
    {listId orgId id : JsString} {now : Int} {dto : CreateCardDto}
    (h : createAcross accessDb readDb saveDb listId orgId id now dto = .ok db') :
    ∃ row : Row pg .cards, db' = saveDb.put id row ∧ row.SoundKey := by
  obtain ⟨list, -, h⟩ := bind_eq_ok.mp h
  obtain ⟨positionIdx, hposition, h⟩ := bind_eq_ok.mp h
  obtain ⟨row, hrow, h⟩ := bind_eq_ok.mp h
  obtain ⟨hin, hfits⟩ := insertEntity_eq_ok hrow
  obtain ⟨w, hstore, hw⟩ :=
    hin "positionIdx" _ (lookup_newCard_positionIdx now listId positionIdx dto)
  obtain rfl := hpg.positionIdx _ _ _ (isValid_of_resolvePosition hposition) hstore
  split at h
  · cases h
  · exact ⟨row, (Except.ok.inj h).symm, ⟨_, hw, isValid_of_resolvePosition hposition⟩, hfits⟩

/-- `resolvePositionFromNeighbors`, its two guards apart. -/
theorem resolvePositionFromNeighbors_eq (db : Database pg) (cardId listId : JsString)
    (beforeCardId afterCardId : Option JsString) :
    resolvePositionFromNeighbors db cardId listId beforeCardId afterCardId =
      if beforeCardId = some cardId ∨ afterCardId = some cardId then
        .error (.badRequest (js "A card cannot be its own neighbor"))
      else if beforeCardId.isSome ∧ beforeCardId = afterCardId then
        .error (.badRequest (js "beforeCardId and afterCardId must differ"))
      else
        neighborKey db listId "beforeCardId" beforeCardId >>= fun prevKey =>
          neighborKey db listId "afterCardId" afterCardId >>= fun nextKey =>
            (PositionService.keyBetween prevKey nextKey).mapError .error := by
  unfold resolvePositionFromNeighbors
  by_cases hself : beforeCardId = some cardId ∨ afterCardId = some cardId
  · rw [if_pos hself, if_pos hself]
    rfl
  · rw [if_neg hself, if_neg hself]
    by_cases hsame : beforeCardId.isSome ∧ beforeCardId = afterCardId
    · rw [if_pos hsame]
      simp only [if_pos hsame]
      rfl
    · rw [if_neg hsame]
      simp only [if_neg hsame]

theorem isValid_of_resolvePositionFromNeighbors {cardId listId key : JsString}
    {beforeCardId afterCardId : Option JsString}
    (h : resolvePositionFromNeighbors db cardId listId beforeCardId afterCardId = .ok key) :
    PositionService.isValid key = true := by
  rw [resolvePositionFromNeighbors_eq] at h
  split at h
  · cases h
  split at h
  · cases h
  obtain ⟨prevKey, -, h⟩ := bind_eq_ok.mp h
  obtain ⟨nextKey, -, h⟩ := bind_eq_ok.mp h
  have hmint : PositionService.keyBetween prevKey nextKey = .ok key := mapError_eq_ok.mp h
  exact (FractionalIndexer.isKey_of_getIntermediateKey hmint).isValidKey base62_plain

/-- What an update places a card at is valid. -/
theorem isValid_of_place {id key : JsString} {dto : UpdateCardDto} {loaded : LoadedCard}
    (h : place db id dto loaded = .ok (some key)) : PositionService.isValid key = true := by
  unfold place at h
  split at h
  · obtain ⟨minted, hminted, h⟩ := bind_eq_ok.mp h
    obtain rfl := Option.some.inj (Except.ok.inj h)
    exact isValid_of_resolvePositionFromNeighbors hminted
  · split at h
    · obtain ⟨⟨⟩, hvalid, h⟩ := bind_eq_ok.mp h
      obtain rfl := Option.some.inj (Except.ok.inj h)
      exact isValid_of_assertValid hvalid
    · split at h
      · obtain ⟨minted, hminted, h⟩ := bind_eq_ok.mp h
        obtain rfl := Option.some.inj (Except.ok.inj h)
        exact isValid_of_resolvePositionKey hminted
      · cases h

theorem updateAcross_soundKey (hpg : TypedColumns pg)
    {loadDb targetDb placeDb saveDb : Database pg} {id orgId : JsString} {dto : UpdateCardDto}
    (hloaded : loadDb.Every (Row.SoundKey : Row pg .cards → Prop))
    (h : updateAcross loadDb targetDb placeDb saveDb id orgId dto = .ok db') :
    ∃ k, ∃ row : Row pg .cards, db' = saveDb.put k row ∧ row.SoundKey := by
  obtain ⟨loaded, next, hload, -, hplace, hsave⟩ := updateAcross_eq_ok h
  obtain ⟨row, -, -, hfind, hcard, -⟩ := load_eq_ok hload
  have hlookup : (loaded.card.assign (assigned dto next)).columns.lookup "positionIdx" =
      (next.map Json.str).or (row.columns.lookup "positionIdx") := by
    rw [hcard]
    show (Dict.assign row.columns _).lookup _ = _
    rw [Dict.lookup_assign, lookup_assigned_positionIdx]
  refine ⟨loaded.key, ?_⟩
  cases next with
  | some key =>
      exact saveEntity_soundKey hpg (by decide) hlookup (isValid_of_place hplace) hsave
  | none =>
      obtain ⟨v, hv, hform⟩ := (hloaded _ row hfind).key
      exact saveEntity_soundKey hpg (by decide) (hlookup.trans hv) hform hsave

end CardsService

namespace PositionRebalanceService

/-- A valid key in one row leaves sound rows. -/
theorem writeKey_soundKey (hpg : TypedColumns pg) {c' : SyncCollection}
    {pair : JsString × JsString} (hvalid : PositionService.isValid pair.2 = true)
    (hdb : db.Every (Row.SoundKey : Row pg c → Prop)) (h : writeKey c' db pair = .ok db') :
    db'.Every (Row.SoundKey : Row pg c → Prop) := by
  unfold writeKey at h
  split at h
  · exact Except.ok.inj h ▸ hdb
  · rename_i row hfind
    obtain ⟨row', hwrite, hput⟩ := bind_eq_ok.mp h
    obtain rfl := Except.ok.inj hput
    by_cases hcc : c = c'
    · subst hcc
      have hnodup : ([("positionIdx", Json.str pair.2)].map Prod.fst).Nodup := by simp
      obtain ⟨hin, -⟩ := Row.writeColumns_eq_ok hnodup hwrite
      obtain ⟨w, hstore, hw⟩ := hin "positionIdx" _ List.mem_cons_self
      obtain rfl := hpg.positionIdx _ _ _ hvalid hstore
      obtain ⟨-, -, hnode, hdeleted⟩ := Row.writeColumns_frame hwrite
      have hfits := (hdb _ row hfind).fits
      rw [Row.FitsColumns, ← hnode, ← hdeleted] at hfits
      exact hdb.put ⟨⟨_, hw, hvalid⟩, hfits⟩
    · exact hdb.put_of_ne hcc

theorem rebalanceParentAcross_soundKey (hpg : TypedColumns pg) {c' : SyncCollection}
    {readDb saveDb : Database pg} {orgId parent : JsString}
    (hdb : saveDb.Every (Row.SoundKey : Row pg c → Prop))
    (h : rebalanceParentAcross c' orgId readDb saveDb parent = .ok db') :
    db'.Every (Row.SoundKey : Row pg c → Prop) := by
  obtain ⟨keys, hkeys, hwrites⟩ := bind_eq_ok.mp h
  obtain ⟨-, hfresh⟩ := freshKeys_of_rebalancedKeys (mapError_eq_ok.mp hkeys)
  refine foldlM_invariant (·.Every (Row.SoundKey : Row pg c → Prop)) ?_ hdb hwrites
  intro mid pair mid' hpair hmid hwrite
  exact writeKey_soundKey hpg (hfresh.valid _ (List.of_mem_zip hpair).2) hmid hwrite

end PositionRebalanceService

end Web

/-! ## Every interleaving -/

/-- The system with other tables. -/
def System.withDb (sys : System pg ι) (db : Database pg) : System pg ι :=
  { sys with server := { sys.server with db := db } }

@[simp] theorem System.withDb_db (sys : System pg ι) (db : Database pg) :
    (sys.withDb db).server.db = db :=
  rfl

/-- Nothing is held before the first statement. -/
theorem System.Every.start {P : Row pg c → Prop} {server : ServerState pg} {calls : ι → SyncCall}
    (h : server.db.Every P) : (System.start server calls).Every P :=
  ⟨h, fun _ _ _ hrow => by simp [System.start, Transaction.start] at hrow⟩

variable [Fintype ι] [DecidableEq ι]

/-- The systems that statements of syncs and web writes lead to, in any order. -/
inductive Reaches (start : System pg ι) : System pg ι → Prop where
  | start : Reaches start start
  /-- a statement of a sync -/
  | sync {sys sys' : System pg ι} (h : Reaches start sys) (i : ι) (s : Statement pg)
      (hstep : sys.step i s = some sys') : Reaches start sys'
  /-- the insert of a `CardsService.create` -/
  | create {sys : System pg ι} (h : Reaches start sys) (accessDb readDb : Database pg)
      (listId orgId id : JsString) (now : Int) (dto : CreateCardDto) {db : Database pg}
      (hcreate : CardsService.createAcross accessDb readDb sys.server.db listId orgId id now dto =
        .ok db) : Reaches start (sys.withDb db)
  /-- the save of a `CardsService.update`, over the card it loaded before -/
  | update {sys before : System pg ι} (h : Reaches start sys) (hbefore : Reaches start before)
      (targetDb placeDb : Database pg) (id orgId : JsString) (dto : UpdateCardDto)
      {db : Database pg}
      (hupdate : CardsService.updateAcross before.server.db targetDb placeDb sys.server.db id orgId
        dto = .ok db) : Reaches start (sys.withDb db)
  /-- the rebalance of one parent -/
  | rebalance {sys : System pg ι} (h : Reaches start sys) (readDb : Database pg)
      (c : SyncCollection) (orgId parent : JsString) {db : Database pg}
      (hrebalance : PositionRebalanceService.rebalanceParentAcross c orgId readDb sys.server.db
        parent = .ok db) : Reaches start (sys.withDb db)

namespace Reaches

variable {start sys : System pg ι}

/-- Cards stay sound, whatever runs. -/
theorem soundKey (hpg : TypedColumns pg) (h : Reaches start sys)
    (hstart : start.Every (Row.SoundKey : Row pg .cards → Prop)) :
    sys.Every (Row.SoundKey : Row pg .cards → Prop) := by
  induction h with
  | start => exact hstart
  | sync _ i s hstep ih => exact ih.step (keptBySync_soundKey hpg (by decide)) hstep
  | create _ accessDb readDb listId orgId id now dto hcreate ih =>
      obtain ⟨row, rfl, hrow⟩ := CardsService.createAcross_soundKey hpg hcreate
      exact ⟨ih.committed.put hrow, ih.held⟩
  | update _ _ targetDb placeDb id orgId dto hupdate ih ihbefore =>
      obtain ⟨k, row, rfl, hrow⟩ :=
        CardsService.updateAcross_soundKey hpg ihbefore.committed hupdate
      exact ⟨ih.committed.put hrow, ih.held⟩
  | rebalance _ readDb c orgId parent hrebalance ih =>
      refine ⟨?_, ih.held⟩
      exact PositionRebalanceService.rebalanceParentAcross_soundKey hpg ih.committed hrebalance

/-- A rebalance of one table is reached parent by parent. -/
theorem rebalanceTable (h : Reaches start sys) {c : SyncCollection} {orgId : JsString}
    {result : PositionRebalanceService.TableRebalance pg}
    (hresult : PositionRebalanceService.rebalanceTable c orgId sys.server.db = .ok result) :
    Reaches start (sys.withDb result.db) := by
  refine foldlM_invariant (fun acc : PositionRebalanceService.TableRebalance pg =>
    Reaches start (sys.withDb acc.db)) (fun acc parent acc' _ hacc hnext => ?_) ?_ hresult
  · obtain ⟨db, hparent, hnext⟩ := bind_eq_ok.mp hnext
    obtain rfl := Except.ok.inj hnext
    exact hacc.rebalance acc.db c orgId parent hparent
  · exact h

end Reaches

end FlowLogix.Server

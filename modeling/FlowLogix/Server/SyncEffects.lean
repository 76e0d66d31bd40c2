/-
  Server/SyncEffects.lean --- what a sync does to each row.

  The lemmas here are all a later proof needs to know about the loop of
  `SyncService.sync`.  `processChange_eq_ok` says once how one change goes
  through, and `processChange_cases` what it does to the tables.
  `MergeEffect` is the effect of a merge on the row it names, register by
  register; every other row of the collection and every other table is left as
  it was, and no record leaves its organization.
-/
import FlowLogix.Server.SyncService
import FlowLogix.Foundation.Run

set_option autoImplicit false

namespace FlowLogix.Server

open FlowLogix.Foundation FlowLogix.Ordering

variable {pg : Postgres} {c : SyncCollection}

/-! ## One merge -/

/-- What a patch writes. -/
theorem patchRow_eq_ok {row row' : Row pg c} {merged : RecordState Clock}
    (h : patchRow row merged = .ok row') :
    (∀ field ∈ syncFields c, ∀ v, readField merged.fields field = some v →
        ∃ w, pg.store c field v = some w ∧ row'.columns.lookup field = some w) ∧
      (∀ field, field ∉ syncFields c ∨ readField merged.fields field = none →
        row'.columns.lookup field = row.columns.lookup field) ∧
      row'.syncClocks = merged.clocks ∧ row'.syncDeletedAt = merged.deletedAt ∧
      merged.deletedAt.all isBigint = true := by
  obtain ⟨mid, hmid, hsync⟩ := bind_eq_ok.mp h
  obtain ⟨hcolumns, hclocks, hdeleted, hbigint⟩ := Row.writeSync_eq_ok hsync
  have hkeys : ((syncFields c).filterMap fun field =>
      (readField merged.fields field).map fun value => (field, value)).map Prod.fst =
        (syncFields c).filter fun field => (readField merged.fields field).isSome := by
    induction syncFields c with
    | nil => rfl
    | cons field rest ih => cases hv : readField merged.fields field <;> simp [hv, ih]
  have hnodup := (syncFields_nodup c).filter fun field =>
    (readField merged.fields field).isSome
  rw [← hkeys] at hnodup
  obtain ⟨hin, hout, -⟩ := Row.writeColumns_eq_ok hnodup hmid
  rw [hkeys] at hout
  refine ⟨?_, ?_, hclocks, hdeleted, hbigint⟩
  · intro field hf v hv
    rw [hcolumns]
    exact hin field v (List.mem_filterMap.mpr ⟨field, hf, by rw [hv]; rfl⟩)
  · intro field hf
    rw [hcolumns]
    refine hout field fun hmem => ?_
    obtain ⟨hmem, hsome⟩ := List.mem_filter.mp hmem
    rcases hf with hf | hf
    · exact hf hmem
    · rw [hf] at hsome
      cases hsome

/-- The effect of merging a change into a row. -/
structure MergeEffect (db : Database pg) (orgId : JsString) (change : SyncChangeDto)
    (row row' : Row pg c) : Prop where
  /-- a field whose register the change does not exceed is kept -/
  kept : ∀ field ∈ syncFields c, ¬ row.stamp field < sentStamp db orgId change field →
    row'.columns.lookup field = row.columns.lookup field ∧
      readClock row'.syncClocks field = readClock row.syncClocks field
  /-- a field the change wins takes its clock -/
  wonClock : ∀ field ∈ syncFields c, row.stamp field < sentStamp db orgId change field →
    readClock row'.syncClocks field = (ofLex (sentStamp db orgId change field)).1
  /-- and its value, if it has one -/
  wonValue : ∀ field ∈ syncFields c, row.stamp field < sentStamp db orgId change field →
    ∀ v, accepted db orgId change field = some v →
      ∃ w, pg.store c field v = some w ∧ row'.columns.lookup field = some w
  /-- a field won without a value keeps the column -/
  wonNothing : ∀ field ∈ syncFields c, row.stamp field < sentStamp db orgId change field →
    accepted db orgId change field = none →
      row'.columns.lookup field = row.columns.lookup field
  unsynced : ∀ field, field ∉ syncFields c →
    row'.columns.lookup field = row.columns.lookup field
  tombstone : row'.syncDeletedAt = pickTomb row.syncDeletedAt change.deletedAt

variable {db : Database pg} {orgId : JsString} {change : SyncChangeDto} {row row' : Row pg c}

theorem clientWins_iff_stamp {field : String} (hf : field ∈ syncFields c) :
    ClientWins (serverState row) (clientState db orgId (syncFields c) change) field ↔
      row.stamp field < sentStamp db orgId change field := by
  rw [ClientWins, stamp_serverState row hf, stamp_clientState db orgId change hf]

/-- The merged value of a synced field. -/
theorem readField_merged (db : Database pg) (orgId : JsString) (row : Row pg c)
    (change : SyncChangeDto) {field : String} (hf : field ∈ syncFields c) :
    readField (mergeInto db orgId row change).merged.fields field =
      if row.stamp field < sentStamp db orgId change field then accepted db orgId change field
      else row.columns.lookup field := by
  have hlookup := lookup_merged_fields (serverState row)
    (clientState db orgId (syncFields c) change) field
  rw [if_pos ((mem_fields_iff db orgId row change).mpr hf)] at hlookup
  rw [← readField_clientState db orgId change hf, ← readField_serverState row hf]
  refine (readField_of_lookup hlookup).trans ?_
  rw [mergedValue]
  simp only [clientWins_iff_stamp hf]

/-- The patch of a merge has the effect of the merge. -/
theorem mergeEffect_of_patchRow
    (h : patchRow row (mergeInto db orgId row change).merged = .ok row') :
    MergeEffect db orgId change row row' := by
  obtain ⟨hwritten, hskipped, hclocks, hdeleted, -⟩ := patchRow_eq_ok h
  have hclock : ∀ field ∈ syncFields c, readClock row'.syncClocks field =
      mergedClock (serverState row) (clientState db orgId (syncFields c) change) field := by
    intro field hf
    have hlookup := lookup_merged_clocks (serverState row)
      (clientState db orgId (syncFields c) change) field
    rw [if_pos ((mem_fields_iff db orgId row change).mpr hf)] at hlookup
    rw [hclocks]
    exact readClock_of_lookup hlookup
  refine ⟨?_, ?_, ?_, ?_, fun field hf => hskipped field (Or.inl hf), hdeleted⟩
  · intro field hf hwins
    have hlose := mt (clientWins_iff_stamp hf).mp hwins
    rw [hclock field hf, mergedClock, if_neg hlose]
    refine ⟨?_, rfl⟩
    have hmerged := readField_merged db orgId row change hf
    rw [if_neg hwins] at hmerged
    cases hv : row.columns.lookup field with
    | none =>
        rw [hskipped field (Or.inr (hmerged.trans hv)), hv]
    | some v =>
        obtain ⟨w, hstore, hw⟩ := hwritten field hf v (hmerged.trans hv)
        rw [row.stored field v hv] at hstore
        rw [hw, ← Option.some.inj hstore]
  · intro field hf hwins
    rw [hclock field hf, mergedClock, if_pos ((clientWins_iff_stamp hf).mpr hwins),
      ← stamp_clientState db orgId change hf]
    rfl
  · intro field hf hwins v hv
    have hmerged := readField_merged db orgId row change hf
    rw [if_pos hwins] at hmerged
    exact hwritten field hf v (hmerged.trans hv)
  · intro field hf hwins hv
    have hmerged := readField_merged db orgId row change hf
    rw [if_pos hwins] at hmerged
    exact hskipped field (Or.inr (hmerged.trans hv))

/-- A merge that changes nothing is one the change wins no field of. -/
theorem not_lt_of_not_changed (h : (mergeInto db orgId row change).serverChanged = false)
    {field : String} (hf : field ∈ syncFields c) :
    ¬ row.stamp field < sentStamp db orgId change field := by
  intro hlt
  refine ne_true_of_eq_false h ((serverChanged_iff _ _).mpr (Or.inl ⟨field, ?_, ?_⟩))
  · exact (mem_fields_iff db orgId row change).mpr hf
  · exact (clientWins_iff_stamp hf).mpr hlt

/-- A merge that changes nothing has the effect of the merge on its own row. -/
theorem mergeEffect_of_not_changed
    (h : (mergeInto db orgId row change).serverChanged = false) :
    MergeEffect db orgId change row row := by
  have hchanged := mt (serverChanged_iff (serverState row)
    (clientState db orgId (syncFields c) change)).mpr (ne_true_of_eq_false h)
  rw [not_or, not_not] at hchanged
  have hwins : ∀ field ∈ syncFields c, ¬ row.stamp field < sentStamp db orgId change field :=
    fun field hf => not_lt_of_not_changed h hf
  exact {
    kept := fun field _ _ => ⟨rfl, rfl⟩
    wonClock := fun field hf hlt => absurd hlt (hwins field hf)
    wonValue := fun field hf hlt => absurd hlt (hwins field hf)
    wonNothing := fun field hf hlt => absurd hlt (hwins field hf)
    unsynced := fun field _ => rfl
    tombstone := hchanged.2.symm }

/-! ### The merge on registers -/

/-- The change sends a value for a field that the field's column stores as it is
sent. -/
def SentAsStored (pg : Postgres) (c : SyncCollection) (db : Database pg) (orgId : JsString)
    (change : SyncChangeDto) (field : String) : Prop :=
  ∀ v, accepted db orgId change field = some v → pg.store c field v = some v

namespace MergeEffect

variable {field : String}

/-- A won value that is stored as sent leaves the register of the change. -/
theorem stamp_of_accepted (h : MergeEffect db orgId change row row') (hf : field ∈ syncFields c)
    (hstored : SentAsStored pg c db orgId change field) {v : Json}
    (hv : accepted db orgId change field = some v) :
    row'.stamp field = row.stamp field ⊔ sentStamp db orgId change field := by
  by_cases hwins : row.stamp field < sentStamp db orgId change field
  · obtain ⟨w, hstore, hw⟩ := h.wonValue field hf hwins v hv
    rw [hstored v hv] at hstore
    obtain rfl := Option.some.inj hstore
    rw [sup_eq_right.mpr hwins.le, Row.stamp, h.wonClock field hf hwins, hw, sentStamp, hv]
    rfl
  · obtain ⟨hvalue, hclock⟩ := h.kept field hf hwins
    rw [sup_eq_left.mpr (not_lt.mp hwins), Row.stamp, Row.stamp, hvalue, hclock]

/-- A register never goes back. -/
theorem stamp_le (h : MergeEffect db orgId change row row') (hf : field ∈ syncFields c)
    (hstored : SentAsStored pg c db orgId change field) :
    row.stamp field ≤ row'.stamp field := by
  cases hv : accepted db orgId change field with
  | some v =>
      rw [h.stamp_of_accepted hf hstored hv]
      exact le_sup_left
  | none =>
      by_cases hwins : row.stamp field < sentStamp db orgId change field
      · have hvalue := h.wonNothing field hf hwins hv
        have hclock := h.wonClock field hf hwins
        have hle := Prod.Lex.monotone_fst_ofLex hwins.le
        rw [Row.stamp, Row.stamp, hvalue, Prod.Lex.toLex_le_toLex, hclock]
        exact (lt_or_eq_of_le hle).imp_right fun heq => ⟨heq, le_rfl⟩
      · obtain ⟨hvalue, hclock⟩ := h.kept field hf hwins
        rw [Row.stamp, Row.stamp, hvalue, hclock]

/-- The clock of a field is its old one or the one that was sent. -/
theorem clock_le (h : MergeEffect db orgId change row row') (hf : field ∈ syncFields c)
    {bound : Clock} (hrow : readClock row.syncClocks field ≤ bound)
    (hsent : (ofLex (sentStamp db orgId change field)).1 ≤ bound) :
    readClock row'.syncClocks field ≤ bound := by
  by_cases hwins : row.stamp field < sentStamp db orgId change field
  · rwa [h.wonClock field hf hwins]
  · rwa [(h.kept field hf hwins).2]

/-- The tombstone register is the later one. -/
theorem tombOf_eq (h : MergeEffect db orgId change row row') :
    tombOf row'.syncDeletedAt = tombOf row.syncDeletedAt ⊔ tombOf change.deletedAt := by
  rw [h.tombstone, tombOf_pickTomb]

end MergeEffect

/-! ## Ownership -/

/-- A parent a change names, if it is not dropped, is in the organization. -/
theorem ancestorOrg_of_accepted (hsynced : parentProperty c ∈ syncFields c) {v : Json}
    (hv : accepted db orgId change (parentProperty c) = some v) :
    ∃ s, v = .str s ∧ ∀ k, pg.uuid s = some k → db.ancestorOrg c k = some orgId := by
  obtain ⟨sent, -, hvalue⟩ := Option.bind_eq_some_iff.mp hv
  cases c with
  | boards => exact absurd hsynced (by decide)
  | lists =>
      obtain ⟨boardId, -, hin⟩ := Option.bind_eq_some_iff.mp
        (show (asUuid (some sent)).bind _ = some v from hvalue)
      split at hin
      · rename_i hboard
        exact ⟨boardId, (Option.some.inj hin).symm,
          fun k => Database.ancestorOrg_of_boardInOrg hboard⟩
      · cases hin
  | cards =>
      obtain ⟨listId, -, hin⟩ := Option.bind_eq_some_iff.mp
        (show (asUuid (some sent)).bind _ = some v from hvalue)
      split at hin
      · rename_i hlist
        exact ⟨listId, (Option.some.inj hin).symm,
          fun k => Database.ancestorOrg_of_listInOrg hlist⟩
      · cases hin

/-- A merge leaves a record in its organization. -/
theorem MergeEffect.parentOrg (h : MergeEffect db orgId change row row')
    (hrow : db.parentOrg c row = some orgId) : db.parentOrg c row' = some orgId := by
  by_cases hf : parentProperty c ∈ syncFields c
  · by_cases hwins : row.stamp (parentProperty c) < sentStamp db orgId change (parentProperty c)
    · cases hv : accepted db orgId change (parentProperty c) with
      | none => rwa [db.parentOrg_eq_of_lookup (h.wonNothing _ hf hwins hv)]
      | some v =>
          obtain ⟨w, hstore, hw⟩ := h.wonValue _ hf hwins v hv
          obtain ⟨s, rfl, horg⟩ := ancestorOrg_of_accepted hf hv
          exact Database.parentOrg_of_store hstore hw horg
    · rwa [db.parentOrg_eq_of_lookup (h.kept _ hf hwins).1]
  · rwa [db.parentOrg_eq_of_lookup (h.unsynced _ hf)]

/-! ## One change -/

/-- Writing a merge back leaves a row with the effect of the merge under the
record's key, and the rest of the tables as they were. -/
theorem writeMerged_eq_ok {k id : JsString} {written : Database pg × List PendingBoardEvent}
    (hfind : db.find c k = some row)
    (h : writeMerged db k id row (mergeInto db orgId row change) = .ok written) :
    ∃ row', MergeEffect db orgId change row row' ∧ written.1.find c k = some row' ∧
      (written.1 = db ∨ written.1 = db.put k row') := by
  unfold writeMerged at h
  split at h
  · obtain ⟨row', hpatch, hpair⟩ := bind_eq_ok.mp h
    obtain rfl := Except.ok.inj hpair
    refine ⟨row', mergeEffect_of_patchRow hpatch, ?_, Or.inr rfl⟩
    rw [Database.find_put, if_pos rfl]
  · rename_i hchanged
    obtain rfl := Except.ok.inj h
    exact ⟨row, mergeEffect_of_not_changed (by simpa using hchanged), hfind, Or.inl rfl⟩

/-- A patch does not touch the row's creation time. -/
theorem patchRow_createdAt {merged : RecordState Clock} (h : patchRow row merged = .ok row') :
    row'.createdAt = row.createdAt := by
  obtain ⟨mid, hmid, hsync⟩ := bind_eq_ok.mp h
  have hmid' := (Row.writeColumns_frame hmid).1
  unfold Row.writeSync at hsync
  split at hsync
  · cases hsync
    exact hmid'
  · cases hsync

theorem writeMerged_createdAt {k id : JsString} {result : ServerMergeResult Clock}
    {written : Database pg × List PendingBoardEvent} (hfind : db.find c k = some row)
    (h : writeMerged db k id row result = .ok written)
    (hfind' : written.1.find c k = some row') : row'.createdAt = row.createdAt := by
  unfold writeMerged at h
  split at h
  · obtain ⟨patched, hpatch, hpair⟩ := bind_eq_ok.mp h
    obtain rfl := Except.ok.inj hpair
    rw [Database.find_put, if_pos rfl] at hfind'
    exact Option.some.inj hfind' ▸ patchRow_createdAt hpatch
  · obtain rfl := Except.ok.inj h
    rw [hfind] at hfind'
    rw [Option.some.inj hfind']

/-! ## One insert -/

/-- The values an insert stores as they were sent; it replaces or refuses the
others. -/
def insertsAsSent (field : String) (v : Json) : Bool :=
  if field = "title" then (asNonEmptyString (some v)).isSome
  else if field = "boardId" ∨ field = "listId" then (asUuid (some v)).isSome
  else if field = "positionIdx" then (asString (some v)).any PositionService.isValid
  else if field = "description" then
    match v with
    | .null | .str _ => true
    | _ => false
  else
    match v with
    | .bool _ => true
    | _ => false

/-- The row an insert adds. -/
structure InsertEffect (db : Database pg) (orgId : JsString) (change : SyncChangeDto)
    (row : Row pg c) : Prop where
  parent : pg.uuid orgId = some orgId → db.parentOrg c row = some orgId
  values : ∀ field ∈ syncFields c, ∀ v, change.fields.lookup field = some v →
    insertsAsSent field v = true →
      ∃ w, pg.store c field v = some w ∧ row.columns.lookup field = some w
  clocks : row.syncClocks = numericClocks change.clocks (syncFields c)
  tombstone : row.syncDeletedAt = change.deletedAt
  defaults : ∀ property v, (property, v) ∈ schemaDefaults c →
    ∃ w, pg.store c property v = some w ∧ row.columns.lookup property = some w

theorem insertRow_eq_ok {now : Nat} {values : List (String × Json)} {db' : Database pg}
    (hnodup : ((values ++ schemaDefaults c).map Prod.fst).Nodup)
    (h : insertRow db c now change values = .ok (.inserted db')) :
    ∃ k, ∃ row : Row pg c, pg.uuid change.id = some k ∧ db.find c k = none ∧
      db' = db.put k row ∧
      (∀ property v, (property, v) ∈ values ++ schemaDefaults c →
        ∃ w, pg.store c property v = some w ∧ row.columns.lookup property = some w) ∧
      row.syncClocks = numericClocks change.clocks (syncFields c) ∧
      row.syncDeletedAt = change.deletedAt := by
  obtain ⟨k, hk, h⟩ := bind_eq_ok.mp h
  obtain ⟨cols, hcols, h⟩ := bind_eq_ok.mp h
  obtain ⟨written, hwritten, h⟩ := bind_eq_ok.mp h
  obtain ⟨row, hrow, h⟩ := bind_eq_ok.mp h
  have hkey : pg.uuid change.id = some k := by
    unfold Database.key at hk
    split at hk
    · cases hk
      assumption
    · cases hk
  obtain ⟨hin, -⟩ := Columns.writeAll_eq_ok hnodup hcols
  obtain ⟨hcolumns, hclocks, hdeleted, -⟩ := Row.writeSync_eq_ok hrow
  have houtcome := Except.ok.inj h
  split at houtcome
  · cases houtcome
  · rename_i hnone
    refine ⟨k, row, hkey, by simpa using hnone, (InsertOutcome.inserted.inj houtcome).symm, ?_,
      hclocks, hdeleted⟩
    intro property v hmem
    rw [hcolumns, Row.ofColumns_eq_ok hwritten]
    exact hin property v hmem

theorem resolvePositionKey_of_valid {parentId s : JsString} (h : PositionService.isValid s = true) :
    resolvePositionKey db c parentId (some (.str s)) = .ok s := by
  rw [resolvePositionKey, asString, Option.filter_some, if_pos h]

theorem asNonEmptyString_eq {v : Option Json} {s : JsString} (h : asNonEmptyString v = some s) :
    v = some (.str s) := by
  unfold asNonEmptyString at h
  split at h
  · split at h
    · rw [Option.some.inj h]
    · cases h
  · cases h

theorem asUuid_eq {v : Option Json} {s : JsString} (h : asUuid v = some s) :
    v = some (.str s) := by
  unfold asUuid at h
  split at h
  · split at h
    · rw [Option.some.inj h]
    · cases h
  · cases h

theorem tryInsertBoard_eq_ok {now : Nat} {db' : Database pg}
    (h : tryInsertBoard db orgId now change = .ok (.inserted db')) :
    ∃ k, ∃ row : Row pg .boards, pg.uuid change.id = some k ∧ db.find .boards k = none ∧
      db' = db.put k row ∧ InsertEffect db orgId change row := by
  unfold tryInsertBoard at h
  split at h
  · cases h
  · split at h
    · cases h
    · rename_i title htitle
      obtain ⟨k, row, hk, hnone, hdb, hin, hclocks, hdeleted⟩ :=
        insertRow_eq_ok (by simp [schemaDefaults]) h
      refine ⟨k, row, hk, hnone, hdb, ?_, ?_, hclocks, hdeleted, fun property v hmem =>
        hin property v (List.mem_append_right _ hmem)⟩
      · intro horg
        obtain ⟨w, hstore, hw⟩ := hin "orgId" (.str orgId) (by simp)
        exact Database.parentOrg_of_store hstore hw fun k hk => hk.symm.trans horg
      · intro field hf v hv _
        obtain rfl : field = "title" := by simpa [syncFields] using hf
        have hsent := asNonEmptyString_eq htitle
        rw [hv] at hsent
        exact hin "title" v (by simp [Option.some.inj hsent])

/-- The position an insert resolves is the one sent, if that is valid. -/
theorem position_of_insertsAsSent {provided : Option Json} {parentId positionIdx : JsString}
    {v : Json} (hposition : resolvePositionKey db c parentId provided = .ok positionIdx)
    (hv : provided = some v) (hsent : insertsAsSent "positionIdx" v = true) :
    v = .str positionIdx := by
  have hvalid : (asString (some v)).any PositionService.isValid = true := hsent
  cases v with
  | str s =>
      rw [hv, resolvePositionKey_of_valid hvalid] at hposition
      rw [Except.ok.inj hposition]
  | _ => cases hvalid

theorem tryInsertList_eq_ok {now : Nat} {db' : Database pg}
    (h : tryInsertList db orgId now change = .ok (.inserted db')) :
    ∃ k, ∃ row : Row pg .lists, pg.uuid change.id = some k ∧ db.find .lists k = none ∧
      db' = db.put k row ∧ InsertEffect db orgId change row := by
  unfold tryInsertList at h
  split at h
  · cases h
  split at h
  · rename_i title boardId htitle hboardId
    split at h
    · cases h
    · rename_i hboard
      obtain ⟨positionIdx, hposition, h⟩ := bind_eq_ok.mp h
      obtain ⟨k, row, hk, hnone, hdb, hin, hclocks, hdeleted⟩ :=
        insertRow_eq_ok (by simp [schemaDefaults]) h
      refine ⟨k, row, hk, hnone, hdb, ?_, ?_, hclocks, hdeleted, fun property v hmem =>
        hin property v (List.mem_append_right _ hmem)⟩
      · intro _
        obtain ⟨w, hstore, hw⟩ := hin "boardId" (.str boardId) (by simp)
        exact Database.parentOrg_of_store hstore hw fun k =>
          Database.ancestorOrg_of_boardInOrg (by simpa using hboard)
      · intro field hf v hv hsent
        have hcases : field = "title" ∨ field = "boardId" ∨ field = "positionIdx" := by
          simpa [syncFields] using hf
        obtain rfl | rfl | rfl := hcases
        · have htext := asNonEmptyString_eq htitle
          rw [hv] at htext
          exact hin "title" v (by simp [Option.some.inj htext])
        · have htext := asUuid_eq hboardId
          rw [hv] at htext
          exact hin "boardId" v (by simp [Option.some.inj htext])
        · have htext := position_of_insertsAsSent hposition hv hsent
          exact hin "positionIdx" v (by simp [htext])
  · cases h

theorem tryInsertCard_eq_ok {now : Nat} {db' : Database pg}
    (h : tryInsertCard db orgId now change = .ok (.inserted db')) :
    ∃ k, ∃ row : Row pg .cards, pg.uuid change.id = some k ∧ db.find .cards k = none ∧
      db' = db.put k row ∧ InsertEffect db orgId change row := by
  unfold tryInsertCard at h
  split at h
  · cases h
  split at h
  · rename_i title listId htitle hlistId
    split at h
    · cases h
    · rename_i hlist
      obtain ⟨positionIdx, hposition, h⟩ := bind_eq_ok.mp h
      obtain ⟨k, row, hk, hnone, hdb, hin, hclocks, hdeleted⟩ :=
        insertRow_eq_ok (by simp [schemaDefaults]) h
      refine ⟨k, row, hk, hnone, hdb, ?_, ?_, hclocks, hdeleted, fun property v hmem =>
        hin property v (List.mem_append_right _ hmem)⟩
      · intro _
        obtain ⟨w, hstore, hw⟩ := hin "listId" (.str listId) (by simp)
        exact Database.parentOrg_of_store hstore hw fun k =>
          Database.ancestorOrg_of_listInOrg (by simpa using hlist)
      · intro field hf v hv hsent
        have hcases : field = "title" ∨ field = "description" ∨ field = "isComplete" ∨
            field = "listId" ∨ field = "positionIdx" := by
          simpa [syncFields] using hf
        obtain rfl | rfl | rfl | rfl | rfl := hcases
        · have htext := asNonEmptyString_eq htitle
          rw [hv] at htext
          exact hin "title" v (by simp [Option.some.inj htext])
        · have hvalue : stringOrNull (some v) = v := by
            cases v with
            | null => rfl
            | str s => rfl
            | _ => cases hsent
          exact hin "description" v (by simp [hv, hvalue])
        · have hvalue : booleanOrFalse (some v) = v := by
            cases v with
            | bool b => rfl
            | _ => cases hsent
          exact hin "isComplete" v (by simp [hv, hvalue])
        · have htext := asUuid_eq hlistId
          rw [hv] at htext
          exact hin "listId" v (by simp [Option.some.inj htext])
        · have htext := position_of_insertsAsSent hposition hv hsent
          exact hin "positionIdx" v (by simp [htext])
  · cases h

/-- An insert that goes through adds one row under a fresh key. -/
theorem tryInsert_eq_ok {now : Nat} {db' : Database pg}
    (h : tryInsert db orgId now change c = .ok (.inserted db')) :
    ∃ k, ∃ row : Row pg c, pg.uuid change.id = some k ∧ db.find c k = none ∧
      db' = db.put k row ∧ InsertEffect db orgId change row := by
  cases c with
  | boards => exact tryInsertBoard_eq_ok h
  | lists => exact tryInsertList_eq_ok h
  | cards => exact tryInsertCard_eq_ok h

/-! ## One change -/

theorem key_eq_ok {id k : JsString} (h : Database.key pg id = .ok k) : pg.uuid id = some k := by
  unfold Database.key at h
  split at h
  · rename_i hk
    rw [hk, Except.ok.inj h]
  · cases h

/-- A record that is loaded is one of the organization. -/
theorem Database.load_eq_ok {id : JsString} {found : Option (JsString × Row pg c)}
    (h : db.load c id orgId = .ok found) :
    ∃ k, pg.uuid id = some k ∧
      ((∃ row, found = some (k, row) ∧ db.owner c k = some orgId ∧ db.find c k = some row) ∨
        found = none ∧ db.owner c k ≠ some orgId) := by
  obtain ⟨k, hk, hfound⟩ := bind_eq_ok.mp h
  have hfound := Except.ok.inj hfound
  refine ⟨k, key_eq_ok hk, ?_⟩
  by_cases howner : db.owner c k = some orgId
  · obtain ⟨row, hrow, -⟩ := Option.bind_eq_some_iff.mp howner
    rw [if_pos howner, hrow] at hfound
    exact Or.inl ⟨row, hfound.symm, howner, hrow⟩
  · rw [if_neg howner] at hfound
    exact Or.inr ⟨hfound.symm, howner⟩

/-- How a step of the loop goes through: the record is in the organization and the
change is merged into its row, or it is not and the payload is refused or
inserted. -/
inductive ChangeStep (orgId : JsString) (c : SyncCollection) (now : Nat) (change : SyncChangeDto)
    (k : JsString) (loop : SyncLoop pg) : SyncLoop pg → Prop where
  | merged (row : Row pg c) (written : Database pg × List PendingBoardEvent)
      (howner : loop.db.owner c k = some orgId) (hfind : loop.db.find c k = some row)
      (hwritten : writeMerged loop.db k change.id row (mergeInto loop.db orgId row change) =
        .ok written) :
      ChangeStep orgId c now change k loop
        { db := written.1
          changes := loop.changes ++
            if (mergeInto loop.db orgId row change).serverAhead then
              [(mergeInto loop.db orgId row change).merged.sent change.id] else []
          acceptedIds := loop.acceptedIds ++
            if (mergeInto loop.db orgId row change).clientAccepted then [change.id] else []
          pendingEvents := loop.pendingEvents ++ written.2 }
  | refused (howner : loop.db.owner c k ≠ some orgId)
      (hrefused : tryInsert loop.db orgId now change c = .ok .refused) :
      ChangeStep orgId c now change k loop loop
  | inserted (db : Database pg) (howner : loop.db.owner c k ≠ some orgId)
      (hinserted : tryInsert loop.db orgId now change c = .ok (.inserted db)) :
      ChangeStep orgId c now change k loop
        { db := db
          changes := loop.changes
          acceptedIds := loop.acceptedIds ++ [change.id]
          pendingEvents := loop.pendingEvents ++ (eventForInsert db c change).toList }

/-- Every successful step of the loop is one of these. -/
theorem processChange_eq_ok {now : Nat} {loop loop' : SyncLoop pg}
    (h : processChange orgId c now loop change = .ok loop') :
    ∃ k, pg.uuid change.id = some k ∧ ChangeStep orgId c now change k loop loop' := by
  obtain ⟨found, hload, h⟩ := bind_eq_ok.mp h
  obtain ⟨k, hk, ⟨row, rfl, howner, hfind⟩ | ⟨rfl, howner⟩⟩ := Database.load_eq_ok hload
  · refine ⟨k, hk, ?_⟩
    obtain ⟨written, hwritten, h⟩ := bind_eq_ok.mp h
    obtain rfl := Except.ok.inj h
    exact .merged row written howner hfind hwritten
  · refine ⟨k, hk, ?_⟩
    obtain ⟨outcome, houtcome, h⟩ := bind_eq_ok.mp h
    cases outcome with
    | inserted db =>
        obtain rfl := Except.ok.inj h
        exact .inserted db howner houtcome
    | refused =>
        obtain rfl := Except.ok.inj h
        exact .refused howner houtcome
    | uniqueViolation => cases h

/-- What one change does to the tables. -/
inductive ChangeEffect (orgId : JsString) (c : SyncCollection) (change : SyncChangeDto)
    (k : JsString) (db db' : Database pg) : Prop where
  | merged (row row' : Row pg c) (howner : db.owner c k = some orgId)
      (hfind : db.find c k = some row) (heffect : MergeEffect db orgId change row row')
      (hfind' : db'.find c k = some row') (hdb : db' = db ∨ db' = db.put k row')
  | skipped (howner : db.owner c k ≠ some orgId)
      (hrefused : ∃ now, tryInsert db orgId now change c = .ok .refused) (hdb : db' = db)
  | inserted (row : Row pg c) (hnone : db.find c k = none)
      (heffect : InsertEffect db orgId change row) (hdb : db' = db.put k row)

/-- Every successful step of the loop is a merge into the record the change
names, an insert under its fresh id, or nothing. -/
theorem processChange_cases {now : Nat} {loop loop' : SyncLoop pg}
    (h : processChange orgId c now loop change = .ok loop') :
    ∃ k, pg.uuid change.id = some k ∧ ChangeEffect orgId c change k loop.db loop'.db := by
  obtain ⟨k, hk, hstep⟩ := processChange_eq_ok h
  refine ⟨k, hk, ?_⟩
  cases hstep with
  | merged row written howner hfind hwritten =>
      obtain ⟨row', heffect, hfind', hdb⟩ := writeMerged_eq_ok hfind hwritten
      exact .merged row row' howner hfind heffect hfind' hdb
  | refused howner hrefused => exact .skipped howner ⟨now, hrefused⟩ rfl
  | inserted db howner hinserted =>
      obtain ⟨k', row, hk', hnone, hdb, heffect⟩ := tryInsert_eq_ok hinserted
      obtain rfl : k' = k := Option.some.inj (hk'.symm.trans hk)
      exact .inserted row hnone heffect hdb

namespace ChangeEffect

variable {k : JsString} {db' : Database pg}

/-- The other tables are not written. -/
theorem table_of_ne (h : ChangeEffect orgId c change k db db') {c' : SyncCollection}
    (hc : c' ≠ c) : db'.table c' = db.table c' := by
  cases h with
  | merged row row' _ _ _ _ hdb =>
      rcases hdb with rfl | rfl
      · rfl
      · exact db.table_put_of_ne k row' hc
  | skipped _ _ hdb => rw [hdb]
  | inserted row _ _ hdb => rw [hdb, db.table_put_of_ne k row hc]

/-- The other rows are not written. -/
theorem find_of_ne (h : ChangeEffect orgId c change k db db') {j : JsString} (hj : j ≠ k) :
    db'.find c j = db.find c j := by
  cases h with
  | merged row row' _ _ _ _ hdb =>
      rcases hdb with rfl | rfl
      · rfl
      · rw [Database.find_put, if_neg hj]
  | skipped _ _ hdb => rw [hdb]
  | inserted row _ _ hdb => rw [hdb, Database.find_put, if_neg hj]

/-- No record leaves its organization. -/
theorem owner (h : ChangeEffect orgId c change k db db') {c' : SyncCollection}
    {j o : JsString} (hj : db.owner c' j = some o) : db'.owner c' j = some o := by
  cases h with
  | merged row row' howner hfind heffect _ hdb =>
      rcases hdb with rfl | rfl
      · exact hj
      · refine Database.owner_put (fun o ho => ?_) hj
        obtain rfl : orgId = o := Option.some.inj (howner.symm.trans ho)
        rw [Database.owner, hfind] at howner
        exact heffect.parentOrg howner
  | skipped _ _ hdb => rwa [hdb]
  | inserted row hnone _ hdb =>
      rw [hdb]
      refine Database.owner_put (fun o ho => ?_) hj
      rw [Database.owner, hnone] at ho
      cases ho

/-- A record that is written is in the organization of the request. -/
theorem owner_self (h : ChangeEffect orgId c change k db db') (horg : pg.uuid orgId = some orgId) :
    db'.owner c k = some orgId ∨ db' = db := by
  cases h with
  | merged row row' howner hfind heffect hfind' hdb =>
      exact Or.inl (ChangeEffect.owner (.merged row row' howner hfind heffect hfind' hdb) howner)
  | skipped _ _ hdb => exact Or.inr hdb
  | inserted row hnone heffect hdb =>
      rw [hdb]
      exact Or.inl (Database.owner_put_self (heffect.parent horg))

end ChangeEffect

/-! ## What a change contributes does not depend on the loop -/

theorem boardInOrg_congr {db db' : Database pg} (h : db'.table .boards = db.table .boards)
    (boardId : JsString) : db'.boardInOrg boardId orgId = db.boardInOrg boardId orgId := by
  rw [Database.boardInOrg, Database.boardInOrg, Database.owner_boards, Database.owner_boards,
    Database.boardOrg_congr h]

theorem listInOrg_congr {db db' : Database pg} (hb : db'.table .boards = db.table .boards)
    (hl : db'.table .lists = db.table .lists) (listId : JsString) :
    db'.listInOrg listId orgId = db.listInOrg listId orgId := by
  rw [Database.listInOrg, Database.listInOrg, Database.owner_lists, Database.owner_lists,
    Database.listOrg_congr hb hl]

/-- Whether a value of a synced field is accepted depends on the tables above the
collection. -/
theorem acceptedValue_congr {db db' : Database pg}
    (h : ∀ c', c' ≠ c → db'.table c' = db.table c') {field : String}
    (hf : field ∈ syncFields c) :
    acceptedValue db' orgId field = acceptedValue db orgId field := by
  funext value
  unfold acceptedValue
  split
  · rfl
  split
  · rename_i hlist
    have hc : c = .cards := by
      subst hlist
      revert hf
      cases c <;> decide
    subst hc
    simp only [listInOrg_congr (h .boards (by decide)) (h .lists (by decide))]
  split
  · rename_i hboard
    have hc : c = .lists := by
      subst hboard
      revert hf
      cases c <;> decide
    subst hc
    simp only [boardInOrg_congr (h .boards (by decide))]
  · rfl

/-- An accepted value stays accepted while no record leaves its organization. -/
theorem acceptedValue_mono {db db' : Database pg}
    (howner : ∀ c' j o, db.owner c' j = some o → db'.owner c' j = some o) {field : String}
    {v w : Json} (h : acceptedValue db orgId field v = some w) :
    acceptedValue db' orgId field v = some w := by
  unfold acceptedValue at h ⊢
  by_cases hposition : field = "positionIdx"
  · rwa [if_pos hposition] at h ⊢
  rw [if_neg hposition] at h ⊢
  by_cases hlist : field = "listId"
  · rw [if_pos hlist] at h ⊢
    obtain ⟨listId, hlistId, hin⟩ := Option.bind_eq_some_iff.mp h
    refine Option.bind_eq_some_iff.mpr ⟨listId, hlistId, ?_⟩
    split at hin
    · rename_i hinOrg
      have hinOrg' : db'.listInOrg listId orgId = true := Database.inOrg_of_owner howner hinOrg
      rwa [if_pos hinOrg']
    · cases hin
  rw [if_neg hlist] at h ⊢
  by_cases hboard : field = "boardId"
  · rw [if_pos hboard] at h ⊢
    obtain ⟨boardId, hboardId, hin⟩ := Option.bind_eq_some_iff.mp h
    refine Option.bind_eq_some_iff.mpr ⟨boardId, hboardId, ?_⟩
    split at hin
    · rename_i hinOrg
      have hinOrg' : db'.boardInOrg boardId orgId = true := Database.inOrg_of_owner howner hinOrg
      rwa [if_pos hinOrg']
    · cases hin
  · rwa [if_neg hboard] at h ⊢

theorem accepted_congr {db db' : Database pg} (h : ∀ c', c' ≠ c → db'.table c' = db.table c')
    {field : String} (hf : field ∈ syncFields c) :
    accepted db' orgId change field = accepted db orgId change field := by
  rw [accepted, accepted, acceptedValue_congr h hf]

theorem sentStamp_congr {db db' : Database pg} (h : ∀ c', c' ≠ c → db'.table c' = db.table c')
    {field : String} (hf : field ∈ syncFields c) :
    sentStamp db' orgId change field = sentStamp db orgId change field := by
  rw [sentStamp, sentStamp, accepted_congr h hf]

theorem MergeEffect.congr {db' : Database pg} (h : ∀ c', c' ≠ c → db'.table c' = db.table c')
    (heffect : MergeEffect db' orgId change row row') :
    MergeEffect db orgId change row row' where
  kept field hf := sentStamp_congr h hf ▸ heffect.kept field hf
  wonClock field hf := sentStamp_congr h hf ▸ heffect.wonClock field hf
  wonValue field hf := by
    rw [← sentStamp_congr h hf, ← accepted_congr h hf]
    exact heffect.wonValue field hf
  wonNothing field hf := by
    rw [← sentStamp_congr h hf, ← accepted_congr h hf]
    exact heffect.wonNothing field hf
  unsynced := heffect.unsynced
  tombstone := heffect.tombstone

/-! ## A whole request -/

section Request

variable {now : Nat} {changes : List SyncChangeDto} {loop : SyncLoop pg}

/-- The loop writes the tables of no other collection and moves no record out of
its organization. -/
theorem processChanges_frame (h : processChanges orgId c now db changes = .ok loop) :
    (∀ c', c' ≠ c → loop.db.table c' = db.table c') ∧
      ∀ c' j o, db.owner c' j = some o → loop.db.owner c' j = some o := by
  refine foldlM_invariant (fun l : SyncLoop pg =>
    (∀ c', c' ≠ c → l.db.table c' = db.table c') ∧
      ∀ c' j o, db.owner c' j = some o → l.db.owner c' j = some o) ?_
    ⟨fun _ _ => rfl, fun _ _ _ ho => ho⟩ h
  rintro l change l' - ⟨htable, howner⟩ hstep
  obtain ⟨k, -, heffect⟩ := processChange_cases hstep
  exact ⟨fun c' hc => (heffect.table_of_ne hc).trans (htable c' hc),
    fun c' j o ho => heffect.owner (howner c' j o ho)⟩

/-- In the middle of a loop: the other tables are as they were, and a record is
still in the organization, in a row with a property. -/
def Tracked (db : Database pg) (orgId : JsString) (c : SyncCollection) (k : JsString)
    (P : Row pg c → Prop) (loop : SyncLoop pg) : Prop :=
  (∀ c', c' ≠ c → loop.db.table c' = db.table c') ∧ loop.db.owner c k = some orgId ∧
    ∃ r, loop.db.find c k = some r ∧ P r

/-- One change merges into the tracked row if it names it, and leaves it alone
otherwise. -/
theorem Tracked.step {k : JsString} {P Q : Row pg c → Prop} {loop' : SyncLoop pg}
    (hmerge : pg.uuid change.id = some k → ∀ r r', P r → MergeEffect db orgId change r r' → Q r')
    (hother : pg.uuid change.id ≠ some k → ∀ r, P r → Q r)
    (hloop : Tracked db orgId c k P loop)
    (h : processChange orgId c now loop change = .ok loop') : Tracked db orgId c k Q loop' := by
  obtain ⟨htable, hown, r, hr, hP⟩ := hloop
  obtain ⟨k', hk', heffect⟩ := processChange_cases h
  refine ⟨fun c' hc => (heffect.table_of_ne hc).trans (htable c' hc), heffect.owner hown, ?_⟩
  by_cases hk : k = k'
  · subst hk
    cases heffect with
    | merged r₁ r' _ hfind₁ heffect hfind' _ =>
        obtain rfl : r = r₁ := Option.some.inj (hr.symm.trans hfind₁)
        exact ⟨r', hfind', hmerge hk' r r' hP (heffect.congr htable)⟩
    | skipped hnot _ _ => exact absurd hown hnot
    | inserted _ hnone _ _ =>
        rw [hr] at hnone
        cases hnone
  · refine ⟨r, (heffect.find_of_ne hk).trans hr, hother (fun heq => hk ?_) r hP⟩
    exact Option.some.inj (heq.symm.trans hk')

/-- **The run lemma for one row.** A property of a row that every merge of a
change naming it preserves holds of the row after the loop. -/
theorem processChanges_row {k : JsString} (P : Row pg c → Prop)
    (howner : db.owner c k = some orgId) (hfind : db.find c k = some row) (hrow : P row)
    (hstep : ∀ change ∈ changes, pg.uuid change.id = some k →
      ∀ r r', P r → MergeEffect db orgId change r r' → P r')
    (h : processChanges orgId c now db changes = .ok loop) :
    ∃ row', loop.db.find c k = some row' ∧ P row' := by
  refine (foldlM_invariant (Tracked db orgId c k P) ?_
    ⟨fun _ _ => rfl, howner, row, hfind, hrow⟩ h).2.2
  intro l change l' hmem hl hprocess
  exact hl.step (hstep change hmem) (fun _ _ hP => hP) hprocess

/-- A property of a row that one merge establishes and every merge preserves holds
of the row after the loop. -/
theorem processChanges_row_established {k : JsString} (I U : Row pg c → Prop)
    (howner : db.owner c k = some orgId) (hfind : db.find c k = some row) (hrow : I row)
    (hI : ∀ change ∈ changes, pg.uuid change.id = some k →
      ∀ r r', I r → MergeEffect db orgId change r r' → I r')
    {change₀ : SyncChangeDto} (hmem₀ : change₀ ∈ changes) (hk₀ : pg.uuid change₀.id = some k)
    (hstart : ∀ r r', I r → MergeEffect db orgId change₀ r r' → U r')
    (hU : ∀ change ∈ changes, pg.uuid change.id = some k →
      ∀ r r', U r → MergeEffect db orgId change r r' → U r')
    (h : processChanges orgId c now db changes = .ok loop) :
    ∃ row', loop.db.find c k = some row' ∧ I row' ∧ U row' := by
  have hboth := foldlM_established (Tracked db orgId c k I)
    (Tracked db orgId c k fun r => I r ∧ U r) hmem₀ ?_ ?_ ?_
    ⟨fun _ _ => rfl, howner, row, hfind, hrow⟩ h
  · exact hboth.2.2.2
  · intro l change l' hmem hl hprocess
    exact hl.step (hI change hmem) (fun _ _ hP => hP) hprocess
  · intro l l' hl hprocess
    exact hl.step (fun hk r r' hr he => ⟨hI change₀ hmem₀ hk r r' hr he, hstart r r' hr he⟩)
      (fun hk => absurd hk₀ hk) hprocess
  · intro l change l' hmem _ hl hprocess
    exact hl.step
      (fun hk r r' hr he => ⟨hI change hmem hk r r' hr.1 he, hU change hmem hk r r' hr.2 he⟩)
      (fun _ _ hP => hP) hprocess

/-- A committed request: the loop over its changes, the delta, the checkpoint. -/
theorem sync_eq_ok {server : ServerState pg} {req : SyncRequestDto} {result : SyncResult pg}
    (h : sync orgId now server req = .ok result) :
    ∃ loop, processChanges orgId req.collection now server.db (orderedChanges req.changes) =
        .ok loop ∧
      result.server.db = loop.db ∧ result.server.lastMicros = nowMicros server.lastMicros now ∧
      result.response.checkpoint = nowMicros server.lastMicros now ∧
      result.response.acceptedIds = loop.acceptedIds ∧
      ∃ pulled, deltaPull loop req.collection orgId req.sinceCheckpoint = .ok pulled ∧
        result.response.changes = loop.changes ++ pulled := by
  obtain ⟨loop, hloop, h⟩ := bind_eq_ok.mp h
  obtain ⟨pulled, hpulled, h⟩ := bind_eq_ok.mp h
  obtain rfl := Except.ok.inj h
  exact ⟨loop, hloop, rfl, rfl, rfl, rfl, pulled, hpulled, rfl⟩

theorem mem_orderedChanges {change : SyncChangeDto} :
    change ∈ orderedChanges changes ↔ change ∈ changes :=
  (List.perm_insertionSort _ changes).mem_iff

end Request

end FlowLogix.Server
